import Excerpt.Proofs.Pattern.Groups

/-!
# Where a search finds something

A pattern completes at a position if its first moves there lead, symbol by symbol, to being done,
each move at the neighbours that its position has. A search finds something exactly where its
pattern completes at some position of the subject: the threads that it leaves out have no future of
their own.
-/

namespace Excerpt

namespace Pattern

variable {p fresh : Pattern} {spot : Spot} {s : CharSet} {slots : List Nat} {c : Char}
  {here : Cursor} {threads : List Thread} {subject : List Symbol}
  {next behind : Option Symbol}

/-! ### Completing -/

/-- The pattern can be done at the position between `behind` and the given symbols, which `next`
follows, or it can consume the first of them and go on. -/
inductive Completes (next : Option Symbol) : Pattern → Option Symbol → List Symbol → Prop where
  | done {p : Pattern} {behind : Option Symbol} {ahead : List Symbol} {slots : List Nat} :
      .done slots ∈ p.front ⟨behind, ahead.head?.or next⟩ → Completes next p behind ahead
  | step {p rest : Pattern} {behind : Option Symbol} {ahead : List Symbol} {slots : List Nat}
      {s : CharSet} {c : Char} :
      .step slots s rest ∈ p.front ⟨behind, some (.char c)⟩ → s.contains c = true →
      Completes next rest (some (.char c)) ahead → Completes next p behind (.char c :: ahead)

/-- The pattern completes at a position of the subject. -/
inductive CompletesIn (next : Option Symbol) (p : Pattern) :
    Option Symbol → List Symbol → Prop where
  | here {behind : Option Symbol} {subject : List Symbol} :
      Completes next p behind subject → CompletesIn next p behind subject
  | later {behind : Option Symbol} {symbol : Symbol} {subject : List Symbol} :
      CompletesIn next p (some symbol) subject → CompletesIn next p behind (symbol :: subject)

/-! ### The moves of all threads -/

lemma of_mem_firstMoves {marks : Marks} {moves : List Move} {t : Thread}
    (h : (s, t) ∈ (firstMoves here marks moves).1) : ∃ slots, .step slots s t.todo ∈ moves := by
  induction moves with
  | nil => cases h
  | cons m moves ih =>
    cases m with
    | done => cases h
    | step slots s' rest =>
      rcases List.mem_cons.mp h with heq | h
      · cases heq
        exact ⟨slots, List.mem_cons_self⟩
      · obtain ⟨slots', hmem⟩ := ih h
        exact ⟨slots', List.mem_cons_of_mem _ hmem⟩

lemma of_firstMoves_eq_some {marks done : Marks} {moves : List Move}
    (h : (firstMoves here marks moves).2 = some done) : ∃ slots, .done slots ∈ moves := by
  induction moves with
  | nil => cases h
  | cons m moves ih =>
    cases m with
    | done slots => exact ⟨slots, List.mem_cons_self⟩
    | step slots s rest =>
      obtain ⟨slots', hmem⟩ := ih h
      exact ⟨slots', List.mem_cons_of_mem _ hmem⟩

/-- The steps of threads are first moves of their patterns, and so is being done. -/
lemma of_advance (spot : Spot) (here : Cursor) (threads : List Thread) :
    (∀ s t, (s, t) ∈ (advance spot here threads).1 →
      ∃ from' ∈ threads, ∃ slots, .step slots s t.todo ∈ from'.todo.front spot) ∧
    (∀ done, (advance spot here threads).2 = some done →
      ∃ from' ∈ threads, ∃ slots, .done slots ∈ from'.todo.front spot) := by
  induction threads with
  | nil => exact ⟨by simp [advance], by simp [advance]⟩
  | cons first threads ih =>
    obtain ⟨hsteps, hdone⟩ := ih
    rw [advance]
    split
    · rename_i steps done hfirst
      refine ⟨fun s t hmem => ?_, fun _ _ => ?_⟩
      · have hmem' : (s, t) ∈ (firstMoves here first.marks (first.todo.front spot)).1 := by
          rw [hfirst]
          exact hmem
        exact ⟨first, List.mem_cons_self, of_mem_firstMoves hmem'⟩
      · have hsome : (firstMoves here first.marks (first.todo.front spot)).2 = some done := by
          rw [hfirst]
        exact ⟨first, List.mem_cons_self, of_firstMoves_eq_some hsome⟩
    · rename_i steps hfirst
      refine ⟨fun s t hmem => ?_, fun done h => ?_⟩
      · rcases List.mem_append.mp hmem with hmem | hmem
        · have hmem' : (s, t) ∈ (firstMoves here first.marks (first.todo.front spot)).1 := by
            rw [hfirst]
            exact hmem
          exact ⟨first, List.mem_cons_self, of_mem_firstMoves hmem'⟩
        · obtain ⟨u, hu, hslots⟩ := hsteps s t hmem
          exact ⟨u, List.mem_cons_of_mem _ hu, hslots⟩
      · obtain ⟨u, hu, hslots⟩ := hdone done h
        exact ⟨u, List.mem_cons_of_mem _ hu, hslots⟩

lemma firstMoves_eq_none {marks : Marks} {moves : List Move} {steps : List (CharSet × Thread)}
    (h : firstMoves here marks moves = (steps, none)) :
    (∀ slots, .done slots ∉ moves) ∧ ∀ slots s rest, .step slots s rest ∈ moves →
      ∃ t, (s, t) ∈ steps ∧ t.todo = rest := by
  induction moves generalizing steps with
  | nil => exact ⟨by simp, by simp⟩
  | cons m moves ih =>
    cases m with
    | done => cases h
    | step slots s rest =>
      rw [firstMoves] at h
      rcases hmoves : firstMoves here marks moves with ⟨more, done⟩
      rw [hmoves] at h
      cases h
      obtain ⟨hdone, hsteps⟩ := ih hmoves
      refine ⟨fun slots' hmem => ?_, fun slots' s' rest' hmem => ?_⟩
      · rcases List.mem_cons.mp hmem with heq | hmem
        · cases heq
        · exact hdone slots' hmem
      · rcases List.mem_cons.mp hmem with heq | hmem
        · cases heq
          exact ⟨_, List.mem_cons_self, rfl⟩
        · obtain ⟨t, ht, htodo⟩ := hsteps slots' s' rest' hmem
          exact ⟨t, List.mem_cons_of_mem _ ht, htodo⟩

/-- As long as no thread is done, all first moves of all threads are taken. -/
lemma advance_eq_none {steps : List (CharSet × Thread)}
    (h : advance spot here threads = (steps, none)) : ∀ t ∈ threads,
      (∀ slots, .done slots ∉ t.todo.front spot) ∧
      ∀ slots s rest, .step slots s rest ∈ t.todo.front spot → ∃ u, (s, u) ∈ steps ∧ u.todo = rest := by
  induction threads generalizing steps with
  | nil => simp
  | cons first threads ih =>
    rw [advance] at h
    split at h
    · cases h
    · rename_i front hfirst
      rcases hmore : advance spot here threads with ⟨more, done⟩
      rw [hmore] at h
      cases h
      intro t ht
      rcases List.mem_cons.mp ht with rfl | ht
      · obtain ⟨hdone, hsteps⟩ := firstMoves_eq_none hfirst
        refine ⟨hdone, fun slots s rest hmem => ?_⟩
        obtain ⟨u, hu, htodo⟩ := hsteps slots s rest hmem
        exact ⟨u, List.mem_append_left _ hu, htodo⟩
      · obtain ⟨hdone, hsteps⟩ := ih hmore t ht
        refine ⟨hdone, fun slots s rest hmem => ?_⟩
        obtain ⟨u, hu, htodo⟩ := hsteps slots s rest hmem
        exact ⟨u, List.mem_append_right _ hu, htodo⟩

/-- A step that accepts the symbol leaves a thread for its remaining pattern. -/
lemma exists_mem_accept {steps : List (CharSet × Thread)} {t : Thread} (h : (s, t) ∈ steps)
    (hc : s.contains c = true) : ∃ u ∈ accept (.char c) steps, u.todo = t.todo := by
  have hadd : ∀ (threads : List Thread) (t : Thread), ∃ u ∈ addThread threads t, u.todo = t.todo := by
    intro threads t
    unfold addThread
    split
    · rename_i hany
      obtain ⟨u, hu, htodo⟩ := List.any_eq_true.mp hany
      exact ⟨u, hu, beq_iff_eq.mp htodo⟩
    · exact ⟨t, List.mem_append_right _ List.mem_cons_self, rfl⟩
  have hkeep : ∀ (threads : List Thread) (t u : Thread), u ∈ threads → u ∈ addThread threads t := by
    intro threads t u hu
    unfold addThread
    split
    · exact hu
    · exact List.mem_append_left _ hu
  have hfold : ∀ (steps : List (CharSet × Thread)) (threads : List Thread),
      ((∃ u ∈ threads, u.todo = t.todo) ∨ (s, t) ∈ steps) →
      ∃ u ∈ steps.foldl (fun threads step =>
        if step.1.contains c then addThread threads step.2 else threads) threads,
        u.todo = t.todo := by
    intro steps
    induction steps with
    | nil => rintro threads (h | h) <;> simp_all
    | cons step steps ih =>
      intro threads h
      refine ih _ ?_
      rcases h with ⟨u, hu, htodo⟩ | hmem
      · refine Or.inl ⟨u, ?_, htodo⟩
        beta_reduce
        split
        · exact hkeep _ _ u hu
        · exact hu
      · rcases List.mem_cons.mp hmem with heq | hmem
        · left
          rw [← heq]
          beta_reduce
          rw [if_pos hc]
          exact hadd threads t
        · exact Or.inr hmem
  exact hfold steps [] (Or.inr h)

/-- A thread that completes was done or has taken a step, and no other threads do. -/
lemma completes_iff_of_advance {symbol : Symbol} {rest : List Symbol}
    {steps : List (CharSet × Thread)}
    (h : advance ⟨behind, some symbol⟩ here threads = (steps, none)) :
    (∃ t ∈ threads, Completes next t.todo behind (symbol :: rest)) ↔
      ∃ t ∈ accept symbol steps, Completes next t.todo (some symbol) rest := by
  constructor
  · rintro ⟨t, ht, hcompletes⟩
    obtain ⟨hnot, hsteps⟩ := advance_eq_none h t ht
    cases hcompletes with
    | done hmem => exact absurd hmem (hnot _)
    | step hmem hc hrest =>
      obtain ⟨u, hu, htodo⟩ := hsteps _ _ _ hmem
      obtain ⟨v, hv, htodo'⟩ := exists_mem_accept hu hc
      refine ⟨v, hv, ?_⟩
      rwa [htodo', htodo]
  · rintro ⟨t, ht, hcompletes⟩
    obtain ⟨c, s, rfl, hmem, hc⟩ := mem_accept ht
    obtain ⟨u, hu, slots, hstep⟩ := (of_advance _ _ _).1 s t (by rw [h]; exact hmem)
    exact ⟨u, hu, .step hstep hc hcompletes⟩

/-! ### Searching -/

/-- A search that has found something finds something in the end. -/
lemma isSome_of_best {fresh : Pattern} {next behind : Option Symbol} {index : Nat}
    {best : Option Match} (h : best.isSome = true) :
    (searchFrom fresh next behind index threads best subject).isSome = true := by
  induction subject generalizing behind index threads best with
  | nil =>
    rw [searchFrom]
    split
    · rfl
    · exact h
  | cons symbol rest ih =>
    rw [searchFrom]
    rcases hadvance : advance ⟨behind, some symbol⟩ ⟨index, symbol :: rest⟩
      (if best.isNone then threads ++ [⟨fresh, []⟩] else threads) with ⟨steps, done⟩
    simp only [hadvance]
    cases done with
    | none =>
      simp only
      split
      · exact h
      · exact ih h
    | some marks =>
      simp only
      split
      · rfl
      · exact ih rfl

/-- With the pattern that starts anew behind all threads, a match is on the way or starts later. -/
lemma completes_or_completesIn :
    (∃ t ∈ threads, Completes next t.todo behind subject) ∨
        CompletesIn next fresh behind subject ↔
      (∃ t ∈ threads ++ [⟨fresh, []⟩], Completes next t.todo behind subject) ∨
        ∃ symbol rest, subject = symbol :: rest ∧ CompletesIn next fresh (some symbol) rest := by
  constructor
  · rintro (⟨t, ht, hcompletes⟩ | hin)
    · exact Or.inl ⟨t, List.mem_append_left _ ht, hcompletes⟩
    · cases hin with
      | here hcompletes =>
        exact Or.inl ⟨⟨fresh, []⟩, List.mem_append_right _ List.mem_cons_self, hcompletes⟩
      | later hin => exact Or.inr ⟨_, _, rfl, hin⟩
  · rintro (⟨t, ht, hcompletes⟩ | ⟨symbol, rest, rfl, hin⟩)
    · rcases List.mem_append.mp ht with ht | ht
      · exact Or.inl ⟨t, ht, hcompletes⟩
      · rw [List.mem_singleton.mp ht] at hcompletes
        exact Or.inr (.here hcompletes)
    · exact Or.inr (.later hin)

/-- A search that has found nothing yet finds what a thread leads to, or what starts later. -/
lemma searchFrom_isSome_iff {index : Nat} :
    (searchFrom fresh next behind index threads none subject).isSome = true ↔
      (∃ t ∈ threads, Completes next t.todo behind subject) ∨
        CompletesIn next fresh behind subject := by
  induction subject generalizing behind index threads with
  | nil =>
    rw [completes_or_completesIn, searchFrom]
    simp only [Option.isNone_none, if_true]
    rcases hadvance : advance ⟨behind, next⟩ ⟨index, []⟩ (threads ++ [⟨fresh, []⟩]) with
      ⟨steps, _ | marks⟩
    · simp only [hadvance]
      constructor
      · intro h
        cases h
      · rintro (⟨t, ht, hcompletes⟩ | ⟨symbol, rest, heq, -⟩)
        · cases hcompletes with
          | done hmem => exact absurd hmem ((advance_eq_none hadvance t ht).1 _)
        · cases heq
    · obtain ⟨t, ht, slots, hdone⟩ := (of_advance _ _ _).2 marks (congrArg Prod.snd hadvance)
      simp only [hadvance]
      exact ⟨fun _ => Or.inl ⟨t, ht, .done hdone⟩, fun _ => rfl⟩
  | cons symbol rest ih =>
    rw [completes_or_completesIn, searchFrom]
    simp only [Option.isNone_none, if_true]
    rcases hadvance : advance ⟨behind, some symbol⟩ ⟨index, symbol :: rest⟩
      (threads ++ [⟨fresh, []⟩]) with ⟨steps, _ | marks⟩
    · simp only [hadvance, Option.isSome_none, Bool.and_false, Bool.false_eq_true, if_false]
      rw [completes_iff_of_advance hadvance, ih]
      simp
    · obtain ⟨t, ht, slots, hdone⟩ := (of_advance _ _ _).2 marks (congrArg Prod.snd hadvance)
      simp only [hadvance]
      refine ⟨fun _ => Or.inl ⟨t, ht, .done hdone⟩, fun _ => ?_⟩
      split
      · rfl
      · exact isSome_of_best rfl

lemma front_seq_mark (slot : Nat) (p : Pattern) (spot : Spot) :
    (seq (mark slot) p).front spot = (p.front spot).map (Move.after [slot]) := by
  rw [front, front]
  simp

/-- The mark where a match starts consumes nothing. -/
lemma completes_andThen_mark {slot : Nat} :
    Completes next (andThen (mark slot) p) behind subject ↔ Completes next p behind subject := by
  by_cases hp : p = empty
  · subst hp
    constructor
    · intro h
      cases h with
      | done => exact .done (List.mem_cons_self : Move.done [] ∈ empty.front _)
      | step hmem => cases List.mem_singleton.mp hmem
    · intro h
      cases h with
      | done => exact .done (List.mem_cons_self : Move.done [slot] ∈ (mark slot).front _)
      | step hmem => cases List.mem_singleton.mp hmem
  · have hseq : andThen (mark slot) p = seq (mark slot) p := by
      cases p <;> first | rfl | exact absurd rfl hp
    rw [hseq]
    constructor
    · intro h
      cases h with
      | done hmem =>
        rw [front_seq_mark] at hmem
        obtain ⟨m, hm, heq⟩ := List.mem_map.mp hmem
        cases m with
        | done => exact .done hm
        | step => cases heq
      | step hmem hc hrest =>
        rw [front_seq_mark] at hmem
        obtain ⟨m, hm, heq⟩ := List.mem_map.mp hmem
        cases m with
        | done => cases heq
        | step =>
          cases heq
          exact .step hm hc hrest
    · intro h
      cases h with
      | @done _ _ _ slots hmem =>
        have hdone : .done ([slot] ++ slots) ∈
            (seq (mark slot) p).front ⟨behind, subject.head?.or next⟩ := by
          rw [front_seq_mark]
          exact List.mem_map.mpr ⟨_, hmem, rfl⟩
        exact .done hdone
      | @step _ rest _ _ slots s c hmem hc hrest =>
        have hstep : .step ([slot] ++ slots) s rest ∈
            (seq (mark slot) p).front ⟨behind, some (.char c)⟩ := by
          rw [front_seq_mark]
          exact List.mem_map.mpr ⟨_, hmem, rfl⟩
        exact .step hstep hc hrest

lemma completesIn_andThen_mark {slot : Nat} :
    CompletesIn next (andThen (mark slot) p) behind subject ↔
      CompletesIn next p behind subject := by
  constructor
  · intro h
    induction h with
    | here h => exact .here (completes_andThen_mark.mp h)
    | later _ ih => exact .later ih
  · intro h
    induction h with
    | here h => exact .here (completes_andThen_mark.mpr h)
    | later _ ih => exact .later ih

/-- A search finds something exactly where its pattern completes at a position of the subject. -/
theorem search_isSome_iff {index : Nat} :
    (p.search behind next index subject).isSome = true ↔ CompletesIn next p behind subject := by
  rw [search, searchFrom_isSome_iff, completesIn_andThen_mark]
  simp

/-- If there are matches at all, a first search finds one. -/
lemma completesIn_of_mem_matchesIn {found : Match} (h : found ∈ p.matchesIn subject) :
    CompletesIn none p none subject := by
  rw [matchesIn, matchesFrom] at h
  split at h
  · cases h
  · rename_i hsearch
    exact search_isSome_iff.mp (by rw [hsearch]; rfl)

end Pattern

end Excerpt
