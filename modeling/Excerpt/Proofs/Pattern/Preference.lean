import Excerpt.Proofs.Pattern.Searching

/-!
# The preferred match

A pattern tries its first moves at a position in their order, each with everything that may follow
it, and the first that leads to being done is taken. A search keeps all these tries at once and
throws most of them away, yet it finds just what trying them one after the other finds:
`search_eq_leftmost` says that the result is the preferred way of the first position at which the
pattern completes.
-/

namespace Excerpt

namespace Pattern

variable {p fresh : Pattern} {spot : Spot} {here : Cursor} {marks : Marks} {t u : Thread}
  {threads : List Thread} {steps : List (CharSet × Thread)} {subject : List Symbol}
  {next behind : Option Symbol} {index : Nat} {symbol : Symbol}

/-! ### Trying one way after the other -/

/-- Whether a symbol is a character of the set. -/
def takes (s : CharSet) : Symbol → Bool
  | .char c => s.contains c
  | .bad => false

/-- What a move of a thread leads to: the end of a match, or what its step leads to. -/
def Move.outcome (here : Cursor) (marks : Marks) (follow : CharSet × Thread → Option Match) :
    Move → Option Match
  | .done slots => some (finish here (record here slots marks))
  | .step slots s rest => follow (s, ⟨rest, record here slots marks⟩)

/-- The preferred way in which a thread completes between `behind` and the given symbols, which
`next` follows. -/
def firstWay (next : Option Symbol) :
    List Symbol → Thread → (behind : Option Symbol) → (index : Nat) → Option Match
  | [], t, behind, index =>
    (t.todo.front ⟨behind, next⟩).findSome? (Move.outcome ⟨index, []⟩ t.marks fun _ => none)
  | symbol :: rest, t, behind, index =>
    (t.todo.front ⟨behind, some symbol⟩).findSome?
      (Move.outcome ⟨index, symbol :: rest⟩ t.marks fun step =>
        if takes step.1 symbol then firstWay next rest step.2 (some symbol) (index + 1)
        else none)

/-- The preferred way of a pattern from the first position at which it completes. -/
def leftmost (next : Option Symbol) (p : Pattern) :
    List Symbol → (behind : Option Symbol) → (index : Nat) → Option Match
  | [], behind, index => firstWay next [] ⟨p, []⟩ behind index
  | symbol :: rest, behind, index =>
    (firstWay next (symbol :: rest) ⟨p, []⟩ behind index).or
      (leftmost next p rest (some symbol) (index + 1))

/-- What a step leads to when it consumes the first of the given symbols. -/
def followStep (next : Option Symbol) (subject : List Symbol) (index : Nat)
    (step : CharSet × Thread) : Option Match :=
  match subject with
  | [] => none
  | symbol :: rest =>
    if takes step.1 symbol then firstWay next rest step.2 (some symbol) (index + 1) else none

/-- The preferred way is the outcome of the first move that has one. -/
lemma firstWay_eq (next : Option Symbol) (subject : List Symbol) (t : Thread)
    (behind : Option Symbol) (index : Nat) : firstWay next subject t behind index =
      (t.todo.front ⟨behind, subject.head?.or next⟩).findSome?
        (Move.outcome ⟨index, subject⟩ t.marks (followStep next subject index)) := by
  cases subject <;> rfl

/-- There is a preferred way exactly where the pattern completes. -/
lemma firstWay_isSome_iff : (firstWay next subject t behind index).isSome = true ↔
    Completes next t.todo behind subject := by
  induction subject generalizing t behind index with
  | nil =>
    rw [firstWay_eq, List.findSome?_isSome_iff]
    constructor
    · rintro ⟨m, hm, hsome⟩
      cases m with
      | done slots => exact .done hm
      | step => cases hsome
    · intro h
      cases h with
      | done hm => exact ⟨_, hm, rfl⟩
  | cons symbol rest ih =>
    rw [firstWay_eq, List.findSome?_isSome_iff]
    constructor
    · rintro ⟨m, hm, hsome⟩
      cases m with
      | done slots => exact .done hm
      | step slots s more =>
        rw [Move.outcome, followStep] at hsome
        split at hsome
        · rename_i htakes
          cases symbol with
          | char c => exact .step hm htakes (ih.mp hsome)
          | bad => cases htakes
        · cases hsome
    · intro h
      cases h with
      | done hm => exact ⟨_, hm, rfl⟩
      | @step _ _ _ _ _ s c hm hc hrest =>
        refine ⟨_, hm, ?_⟩
        have htakes : takes s (.char c) = true := hc
        rw [Move.outcome, followStep, if_pos htakes]
        exact ih.mpr hrest

/-! ### Threads side by side -/

lemma findSome?_firstMoves (follow : CharSet × Thread → Option Match) (moves : List Move) :
    moves.findSome? (Move.outcome here marks follow) =
      ((firstMoves here marks moves).1.findSome? follow).or
        ((firstMoves here marks moves).2.map (finish here)) := by
  induction moves with
  | nil => rfl
  | cons m moves ih =>
    cases m with
    | done slots => rfl
    | step slots s rest =>
      rw [List.findSome?_cons, ih, firstMoves, List.findSome?_cons, Move.outcome]
      cases follow (s, ⟨rest, record here slots marks⟩) <;> rfl

/-- Advancing threads side by side is trying them in their order. -/
lemma findSome?_advance (follow : CharSet × Thread → Option Match) (threads : List Thread) :
    (threads.findSome? fun t => (t.todo.front spot).findSome? (Move.outcome here t.marks follow)) =
      ((advance spot here threads).1.findSome? follow).or
        ((advance spot here threads).2.map (finish here)) := by
  induction threads with
  | nil => rfl
  | cons t threads ih =>
    rw [List.findSome?_cons, findSome?_firstMoves, ih, advance]
    rcases firstMoves here t.marks (t.todo.front spot) with ⟨steps, _ | done⟩
    · rw [Option.map_none, Option.or_none, List.findSome?_append, Option.or_assoc]
      cases steps.findSome? follow <;> rfl
    · cases steps.findSome? follow <;> rfl

/-- A thread that is left out would only have found something where an earlier one has. -/
lemma findSome?_addThread {f : Thread → Option Match}
    (hf : ∀ t u : Thread, t.todo = u.todo → (f t).isSome = (f u).isSome) :
    (addThread threads t).findSome? f = (threads.findSome? f).or (f t) := by
  rw [addThread]
  split
  · rename_i hany
    obtain ⟨u, hu, htodo⟩ := List.any_eq_true.mp hany
    cases ht : f t with
    | none => rw [Option.or_none]
    | some m =>
      have hsome : (threads.findSome? f).isSome = true := by
        rw [List.findSome?_isSome_iff]
        exact ⟨u, hu, by rw [hf u t (beq_iff_eq.mp htodo), ht]; rfl⟩
      rw [Option.or_of_isSome hsome]
  · rw [List.findSome?_append, List.findSome?_singleton]

lemma findSome?_accept {f : Thread → Option Match}
    (hf : ∀ t u : Thread, t.todo = u.todo → (f t).isSome = (f u).isSome) (symbol : Symbol)
    (steps : List (CharSet × Thread)) : (accept symbol steps).findSome? f =
      steps.findSome? fun step => if takes step.1 symbol then f step.2 else none := by
  have hfold : ∀ threads : List Thread, (steps.foldl (fun threads step =>
      match symbol with
      | .char c => if step.1.contains c then addThread threads step.2 else threads
      | .bad => threads) threads).findSome? f = (threads.findSome? f).or
        (steps.findSome? fun step => if takes step.1 symbol then f step.2 else none) := by
    induction steps with
    | nil => simp
    | cons step steps ih =>
      intro threads
      rw [List.foldl_cons, ih, List.findSome?_cons]
      cases symbol with
      | bad => rfl
      | char c =>
        by_cases hc : step.1.contains c = true
        · have htakes : takes step.1 (.char c) = true := hc
          simp only [if_pos hc, if_pos htakes, findSome?_addThread hf, Option.or_assoc]
          cases f step.2 <;> rfl
        · have htakes : ¬ takes step.1 (.char c) = true := hc
          simp only [if_neg hc, if_neg htakes]
  exact hfold []

/-- The pattern that starts anew is the last thread, as long as nothing has been found. -/
lemma findSome?_start (f : Thread → Option Match) (best : Option Match) :
    ((if best.isNone then threads ++ [⟨fresh, []⟩] else threads).findSome? f).or best =
      (threads.findSome? f).or (best.or (f ⟨fresh, []⟩)) := by
  cases best with
  | none => simp [List.findSome?_append]
  | some m => simp

/-- A search finds the preferred way of its first thread that completes, or else the best match so
far, or else the leftmost match of the pattern that starts anew. -/
theorem searchFrom_eq (threads : List Thread) (best : Option Match) :
    searchFrom fresh next behind index threads best subject =
      (threads.findSome? fun t => firstWay next subject t behind index).or
        (best.or (leftmost next fresh subject behind index)) := by
  induction subject generalizing behind index threads best with
  | nil =>
    rw [searchFrom, leftmost, ← findSome?_start]
    simp only [firstWay_eq]
    rw [findSome?_advance]
    simp only [List.head?_nil, Option.none_or]
    rcases advance _ _ _ with ⟨steps, done⟩
    have hnone : steps.findSome? (followStep next [] index) = none := by simp [followStep]
    rw [hnone]
    cases done <;> rfl
  | cons symbol rest ih =>
    have hfollow : ∀ t u : Thread, t.todo = u.todo →
        (firstWay next rest t (some symbol) (index + 1)).isSome =
          (firstWay next rest u (some symbol) (index + 1)).isSome := by
      intro t u htodo
      rw [Bool.eq_iff_iff, firstWay_isSome_iff, firstWay_isSome_iff, htodo]
    rw [searchFrom, leftmost, ← @Option.or_assoc _ best, ← Option.or_assoc, ← findSome?_start]
    simp only [firstWay_eq next (symbol :: rest)]
    rw [findSome?_advance]
    simp only [List.head?_cons, Option.some_or]
    rcases advance _ _ _ with ⟨steps, done⟩
    have hsteps : steps.findSome? (followStep next (symbol :: rest) index) =
        (accept symbol steps).findSome? fun t => firstWay next rest t (some symbol) (index + 1) :=
      (findSome?_accept hfollow symbol steps).symm
    -- A search that stops early has no thread left, and keeps the best match.
    have hgoes : ∀ best : Option Match,
        (if (accept symbol steps).isEmpty && best.isSome then best
          else searchFrom fresh next (some symbol) (index + 1) (accept symbol steps) best rest) =
        ((accept symbol steps).findSome? fun t => firstWay next rest t (some symbol) (index + 1)).or
          (best.or (leftmost next fresh rest (some symbol) (index + 1))) := by
      intro best
      split
      · rename_i hover
        obtain ⟨hempty, hfound⟩ := Bool.and_eq_true_iff.mp hover
        rw [List.isEmpty_iff.mp hempty, List.findSome?_nil, Option.none_or,
          Option.or_of_isSome hfound]
      · exact ih _ _
    rw [hsteps, Option.or_assoc, Option.or_assoc]
    cases done with
    | none => exact hgoes best
    | some marks => exact hgoes (some (finish ⟨index, symbol :: rest⟩ marks))

/-- A search finds the preferred way from the first position at which the pattern completes. -/
theorem search_eq_leftmost : p.search behind next index subject =
    leftmost next (andThen (mark startSlot) p) subject behind index := by
  rw [search, searchFrom_eq]
  rfl

end Pattern

end Excerpt
