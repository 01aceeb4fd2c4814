import Excerpt.Pattern.Search
import Mathlib.Tactic.Common

/-!
# What a group can hold

A pattern whose first group is built from one set of characters captures only such characters.
`Pattern.after?` follows the marks of the first group through a pattern and checks the sets on the
way inside the group. What it says about a pattern it says about the rest of each first move, so it
holds of every thread of a search, and the characters between the marks are of the set.
-/

namespace Excerpt

namespace Pattern

/-- The mark where the first group starts. -/
def openSlot : Nat := 2

/-- The mark where the first group ends. -/
def closeSlot : Nat := 3

/-- Whether the position behind a mark is inside the first group, if the one before it may be
followed by the mark. -/
def afterMark? (slot : Nat) (within : Bool) : Option Bool :=
  if slot = openSlot then if within then none else some true
  else if slot = closeSlot then if within then some false else none
  else some within

/-- Whether the position behind a pattern is inside the first group, if inside it only `allowed` is
consumed and if its marks come in turn. -/
def after? (allowed : CharSet) : Pattern → Bool → Option Bool
  | empty, within | look _, within => some within
  | set s, within => if within ∧ s ≠ allowed then none else some within
  | mark slot, within => afterMark? slot within
  | seq a b, within => (after? allowed a within).bind (after? allowed b)
  | alt a b, within =>
    if after? allowed a within = after? allowed b within then after? allowed a within else none
  | opt _ r, within | plus _ r, within | loop _ r, within =>
    if after? allowed r within = some within then some within else none

/-- Whether the position behind some marks is inside the first group. -/
def afterMarks? : List Nat → Bool → Option Bool
  | [], within => some within
  | slot :: slots, within => (afterMark? slot within).bind (afterMarks? slots)

variable {allowed : CharSet} {p : Pattern} {within inside : Bool}

lemma afterMarks?_append (slots more : List Nat) (within : Bool) :
    afterMarks? (slots ++ more) within = (afterMarks? slots within).bind (afterMarks? more) := by
  induction slots generalizing within with
  | nil => rfl
  | cons slot slots ih =>
    rw [List.cons_append, afterMarks?, afterMarks?]
    cases afterMark? slot within with
    | none => rfl
    | some b => exact ih b

lemma after?_andThen (a b : Pattern) (within : Bool) :
    after? allowed (andThen a b) within = (after? allowed a within).bind (after? allowed b) := by
  simp only [andThen]
  split
  · rfl
  · cases after? allowed a within <;> rfl
  · rfl

/-- What a pattern does to the marks of the first group, a first move of it does. -/
def Follows (allowed : CharSet) (within inside : Bool) : Move → Prop
  | .done slots => afterMarks? slots within = some inside
  | .step slots s rest => ∃ here, afterMarks? slots within = some here ∧
      (here = true → s = allowed) ∧ after? allowed rest here = some inside

lemma Follows.after {m : Move} {slots : List Nat} {start : Bool}
    (hslots : afterMarks? slots start = some within) (h : Follows allowed within inside m) :
    Follows allowed start inside (m.after slots) := by
  cases m with
  | done more =>
    change afterMarks? (slots ++ more) start = some inside
    rw [afterMarks?_append, hslots]
    exact h
  | step more s rest =>
    obtain ⟨here, hmore, hs, hrest⟩ := h
    refine ⟨here, ?_, hs, hrest⟩
    rw [afterMarks?_append, hslots]
    exact hmore

/-- A remaining pattern with more behind it. -/
lemma Follows.mapRest {m : Move} {last : Bool} {q : Pattern}
    (h : Follows allowed within inside m) (hstep : m.isStep = true ∨ inside = last)
    (hq : after? allowed q inside = some last) :
    Follows allowed within last (m.mapRest (andThen · q)) := by
  cases m with
  | done slots =>
    rcases hstep with hstep | rfl
    · cases hstep
    · exact h
  | step slots s rest =>
    obtain ⟨here, hslots, hs, hrest⟩ := h
    refine ⟨here, hslots, hs, ?_⟩
    rw [after?_andThen, hrest]
    exact hq

lemma mem_orElse {first second : List Move} {m : Move} (h : m ∈ orElse first second) :
    m ∈ first ∨ m ∈ second := by
  unfold orElse at h
  split at h
  · exact List.mem_append.mp h
  · exact (List.mem_append.mp h).imp id fun h => (List.mem_filter.mp h).1

lemma after?_repeat {r : Pattern} (h : (if after? allowed r within = some within then some within
    else none) = some inside) : after? allowed r within = some within ∧ inside = within := by
  split at h
  · rename_i hr
    cases h
    exact ⟨hr, rfl⟩
  · cases h

theorem follows_of_mem_front (spot : Spot) (h : after? allowed p within = some inside) {m : Move}
    (hm : m ∈ p.front spot) : Follows allowed within inside m := by
  induction p generalizing within inside m with
  | empty =>
    rw [front, List.mem_singleton] at hm
    rw [hm]
    exact h
  | set s =>
    rw [front, List.mem_singleton] at hm
    rw [after?] at h
    split at h
    · cases h
    · rename_i hs
      cases h
      rw [hm]
      refine ⟨within, rfl, fun hw => ?_, rfl⟩
      by_contra hne
      exact hs ⟨hw, hne⟩
  | look l =>
    rw [front] at hm
    split at hm
    · rw [List.mem_singleton] at hm
      rw [hm]
      exact h
    · cases hm
  | mark slot =>
    rw [front, List.mem_singleton] at hm
    rw [hm]
    change (afterMark? slot within).bind some = some inside
    rw [Option.bind_fun_some]
    exact h
  | seq a b iha ihb =>
    rw [after?] at h
    obtain ⟨middle, ha, hb⟩ := Option.bind_eq_some_iff.mp h
    rw [front] at hm
    obtain ⟨first, hfirst, hm⟩ := List.mem_flatMap.mp hm
    have hfollows := iha ha hfirst
    cases first with
    | done slots =>
      obtain ⟨second, hsecond, rfl⟩ := List.mem_map.mp hm
      exact (ihb hb hsecond).after hfollows
    | step slots s rest =>
      rw [List.mem_singleton] at hm
      rw [hm]
      exact hfollows.mapRest (m := .step slots s rest) (Or.inl rfl) hb
  | alt a b iha ihb =>
    rw [after?] at h
    split at h
    · rename_i hab
      rcases mem_orElse hm with hm | hm
      · exact iha h hm
      · exact ihb (hab ▸ h) hm
    · cases h
  | opt greedy r ih =>
    obtain ⟨hr, rfl⟩ := after?_repeat h
    have hdone : Follows allowed inside inside (.done []) := rfl
    rw [front] at hm
    split at hm <;> rcases mem_orElse hm with hm | hm
    · exact ih hr hm
    · rw [List.mem_singleton.mp hm]
      exact hdone
    · rw [List.mem_singleton.mp hm]
      exact hdone
    · exact ih hr hm
  | plus greedy r ih =>
    have hloop : after? allowed (loop greedy r) within = some inside := h
    obtain ⟨hr, rfl⟩ := after?_repeat h
    rw [front] at hm
    obtain ⟨first, hfirst, rfl⟩ := List.mem_map.mp hm
    exact (ih hr hfirst).mapRest (Or.inr rfl) hloop
  | loop greedy r ih =>
    have hloop := h
    obtain ⟨hr, rfl⟩ := after?_repeat h
    have hturn : ∀ m ∈ ((r.front spot).filter Move.isStep).map
        (Move.mapRest (andThen · (loop greedy r))), Follows allowed inside inside m := by
      intro m hm
      obtain ⟨first, hfirst, rfl⟩ := List.mem_map.mp hm
      exact (ih hr (List.mem_filter.mp hfirst).1).mapRest (Or.inr rfl) hloop
    have hdone : Follows allowed inside inside (.done []) := rfl
    rw [front] at hm
    split at hm
    · rcases List.mem_append.mp hm with hm | hm
      · exact hturn m hm
      · rw [List.mem_singleton.mp hm]
        exact hdone
    · rcases List.mem_cons.mp hm with rfl | hm
      · exact hdone
      · exact hturn m hm

/-! ### Threads -/

/-- From one position to another there are only characters of a set. -/
def Covers (allowed : CharSet) (start stop : Cursor) : Prop :=
  ∃ text : Text, start.rest = text.map .char ++ stop.rest ∧
    stop.index = start.index + text.length ∧ ∀ c ∈ text, allowed.contains c = true

/-- What the recorded marks say: inside the group, that there are only characters of the set since
its start, and outside, that there were between its start and its end. -/
def Recorded (allowed : CharSet) (within : Bool) (here : Cursor) (marks : Marks) : Prop :=
  if within then ∃ start, marks.lookup openSlot = some start ∧ Covers allowed start here
  else ∀ start stop, marks.lookup openSlot = some start → marks.lookup closeSlot = some stop →
    Covers allowed start stop

lemma lookup_record_one (here : Cursor) (slot other : Nat) (marks : Marks) :
    ((slot, here) :: marks.filter (·.1 ≠ slot)).lookup other =
      if other = slot then some here else marks.lookup other := by
  by_cases h : other = slot
  · simp [h]
  · rw [if_neg h, List.lookup_cons, beq_eq_false_iff_ne.mpr h]
    simp only
    induction marks with
    | nil => rfl
    | cons e marks ih =>
      rw [List.filter_cons]
      by_cases he : e.1 = slot
      · rw [if_neg (by simpa using he), ih, List.lookup_cons,
          beq_eq_false_iff_ne.mpr (by rw [he]; exact h)]
      · rw [if_pos (by simpa using he), List.lookup_cons, List.lookup_cons, ih]

lemma Covers.refl (here : Cursor) : Covers allowed here here := ⟨[], rfl, rfl, by simp⟩

lemma Recorded.record {here : Cursor} {slots : List Nat} {marks : Marks}
    (hslots : afterMarks? slots within = some inside) (h : Recorded allowed within here marks) :
    Recorded allowed inside here (record here slots marks) := by
  induction slots generalizing within marks with
  | nil =>
    cases hslots
    exact h
  | cons slot slots ih =>
    rw [afterMarks?] at hslots
    obtain ⟨middle, hslot, hslots⟩ := Option.bind_eq_some_iff.mp hslots
    refine ih hslots ?_
    unfold afterMark? at hslot
    unfold Recorded at h ⊢
    simp only [lookup_record_one]
    split at hslot
    · rename_i hopen
      split at hslot
      · cases hslot
      · cases hslot
        rw [if_pos rfl, if_pos hopen.symm]
        exact ⟨here, rfl, .refl here⟩
    · rename_i hopen
      split at hslot
      · rename_i hclose
        split at hslot
        · rename_i hwithin
          cases hslot
          rw [if_pos hwithin] at h
          obtain ⟨start, hstart, hcovers⟩ := h
          rw [if_neg (by simp)]
          intro start' stop hstart' hstop
          rw [if_neg (Ne.symm hopen), hstart] at hstart'
          rw [if_pos hclose.symm] at hstop
          cases hstart'
          cases hstop
          exact hcovers
        · cases hslot
      · rename_i hclose
        cases hslot
        simp only [if_neg (Ne.symm hopen), if_neg (Ne.symm hclose)]
        exact h

/-- A thread that can only capture characters of a set. -/
def Thread.Careful (allowed : CharSet) (here : Cursor) (t : Thread) : Prop :=
  ∃ within, after? allowed t.todo within = some false ∧ Recorded allowed within here t.marks

/-- The first group of some marks, if it is there, holds only characters of a set. -/
def Marks.Careful (allowed : CharSet) (marks : Marks) : Prop :=
  ∀ start stop, marks.lookup openSlot = some start → marks.lookup closeSlot = some stop →
    Covers allowed start stop

/-- A step that makes a careful thread when its character is consumed. -/
def StepCareful (allowed : CharSet) (here : Cursor) (step : CharSet × Thread) : Prop :=
  ∃ within, (within = true → step.1 = allowed) ∧
    after? allowed step.2.todo within = some false ∧ Recorded allowed within here step.2.marks

lemma firstMoves_careful {here : Cursor} {marks : Marks} {moves : List Move}
    (hmarks : Recorded allowed within here marks)
    (hmoves : ∀ m ∈ moves, Follows allowed within false m) :
    (∀ step ∈ (firstMoves here marks moves).1, StepCareful allowed here step) ∧
      ∀ done, (firstMoves here marks moves).2 = some done → done.Careful allowed := by
  induction moves with
  | nil => exact ⟨by simp [firstMoves], by simp [firstMoves]⟩
  | cons m moves ih =>
    obtain ⟨hsteps, hdone⟩ := ih fun m hm => hmoves m (List.mem_cons_of_mem _ hm)
    have hfirst := hmoves m List.mem_cons_self
    cases m with
    | done slots =>
      refine ⟨by simp [firstMoves], fun done h => ?_⟩
      cases h
      exact hmarks.record hfirst
    | step slots s rest =>
      obtain ⟨inside, hslots, hs, hrest⟩ := hfirst
      refine ⟨fun step hstep => ?_, hdone⟩
      rcases List.mem_cons.mp hstep with rfl | hstep
      · exact ⟨inside, hs, hrest, hmarks.record hslots⟩
      · exact hsteps step hstep

lemma advance_careful (spot : Spot) {here : Cursor} {threads : List Thread}
    (h : ∀ t ∈ threads, t.Careful allowed here) :
    (∀ step ∈ (advance spot here threads).1, StepCareful allowed here step) ∧
      ∀ done, (advance spot here threads).2 = some done → done.Careful allowed := by
  induction threads with
  | nil => exact ⟨by simp [advance], by simp [advance]⟩
  | cons t threads ih =>
    obtain ⟨hsteps, hdone⟩ := ih fun t ht => h t (List.mem_cons_of_mem _ ht)
    obtain ⟨within, htodo, hmarks⟩ := h t List.mem_cons_self
    obtain ⟨hsteps', hdone'⟩ := firstMoves_careful hmarks
      fun m hm => follows_of_mem_front spot htodo hm
    rw [advance]
    split
    · rename_i steps done hfirst
      rw [hfirst] at hsteps' hdone'
      exact ⟨hsteps', hdone'⟩
    · rename_i steps hfirst
      rw [hfirst] at hsteps'
      refine ⟨fun step hstep => ?_, hdone⟩
      exact (List.mem_append.mp hstep).elim (hsteps' step) (hsteps step)

lemma mem_addThread {threads : List Thread} {t new : Thread} (h : t ∈ addThread threads new) :
    t ∈ threads ∨ t = new := by
  unfold addThread at h
  split at h
  · exact Or.inl h
  · exact (List.mem_append.mp h).imp id List.mem_singleton.mp

lemma mem_accept {symbol : Symbol} {steps : List (CharSet × Thread)} {t : Thread}
    (h : t ∈ accept symbol steps) :
    ∃ c s, symbol = .char c ∧ (s, t) ∈ steps ∧ s.contains c = true := by
  cases symbol with
  | bad =>
    have hnone : accept .bad steps = [] := by
      clear h
      simp only [accept]
      induction steps with
      | nil => rfl
      | cons step steps ih => exact ih
    rw [hnone] at h
    cases h
  | char c =>
    have hfold : ∀ (steps : List (CharSet × Thread)) (threads : List Thread),
        t ∈ steps.foldl (fun threads step =>
          if step.1.contains c then addThread threads step.2 else threads) threads →
        t ∈ threads ∨ ∃ s, (s, t) ∈ steps ∧ s.contains c = true := by
      intro steps
      induction steps with
      | nil => exact fun threads h => Or.inl h
      | cons step steps ih =>
        intro threads h
        rcases ih _ h with h | ⟨s, hmem, hs⟩
        · beta_reduce at h
          split at h
          · rename_i hs
            rcases mem_addThread h with h | rfl
            · exact Or.inl h
            · exact Or.inr ⟨step.1, List.mem_cons_self, hs⟩
          · exact Or.inl h
        · exact Or.inr ⟨s, List.mem_cons_of_mem _ hmem, hs⟩
    rcases hfold steps [] h with h | ⟨s, hmem, hs⟩
    · cases h
    · exact ⟨c, s, rfl, hmem, hs⟩

/-- After a symbol the threads are still careful. -/
lemma accept_careful {index : Nat} {symbol : Symbol} {rest : List Symbol}
    {steps : List (CharSet × Thread)}
    (h : ∀ step ∈ steps, StepCareful allowed ⟨index, symbol :: rest⟩ step) :
    ∀ t ∈ accept symbol steps, t.Careful allowed ⟨index + 1, rest⟩ := by
  intro t ht
  obtain ⟨c, s, rfl, hmem, hs⟩ := mem_accept ht
  obtain ⟨within, hallowed, htodo, hmarks⟩ := h _ hmem
  refine ⟨within, htodo, ?_⟩
  unfold Recorded at hmarks ⊢
  split
  · rename_i hwithin
    rw [if_pos hwithin] at hmarks
    obtain ⟨start, hstart, text, htext, hlength, hchars⟩ := hmarks
    refine ⟨start, hstart, text ++ [c], ?_, ?_, ?_⟩
    · rw [htext]
      simp
    · rw [List.length_append, List.length_singleton, ← Nat.add_assoc, ← hlength]
    · intro x hx
      rcases List.mem_append.mp hx with hx | hx
      · exact hchars x hx
      · rw [List.mem_singleton.mp hx]
        exact hallowed hwithin ▸ hs
  · rename_i hwithin
    rw [if_neg hwithin] at hmarks
    exact hmarks

/-! ### Matches -/

lemma searchFrom_careful {fresh : Pattern} {next behind : Option Symbol} {index : Nat}
    {threads : List Thread} {best : Option Match} {subject : List Symbol} {m : Match}
    (hfresh : after? allowed fresh false = some false)
    (hthreads : ∀ t ∈ threads, t.Careful allowed ⟨index, subject⟩)
    (hbest : ∀ m, best = some m → m.marks.Careful allowed)
    (h : searchFrom fresh next behind index threads best subject = some m) :
    m.marks.Careful allowed := by
  have hnew : ∀ here : Cursor, (⟨fresh, []⟩ : Thread).Careful allowed here := fun here =>
    ⟨false, hfresh, by intro start stop hstart; cases hstart⟩
  have hstarted : ∀ (here : Cursor) (threads : List Thread) (best : Option Match),
      (∀ t ∈ threads, t.Careful allowed here) →
      ∀ t ∈ (if best.isNone then threads ++ [⟨fresh, []⟩] else threads),
        t.Careful allowed here := by
    intro here threads best hthreads t ht
    split at ht
    · rcases List.mem_append.mp ht with ht | ht
      · exact hthreads t ht
      · rw [List.mem_singleton.mp ht]
        exact hnew here
    · exact hthreads t ht
  induction subject generalizing behind index threads best with
  | nil =>
    obtain ⟨-, hdone⟩ := advance_careful ⟨behind, next⟩ (hstarted _ _ best hthreads)
    rw [searchFrom] at h
    split at h
    · rename_i marks hadvance
      cases h
      exact hdone marks (by rw [hadvance])
    · exact hbest m h
  | cons symbol rest ih =>
    obtain ⟨hsteps, hdone⟩ := advance_careful ⟨behind, some symbol⟩
      (hstarted _ _ best hthreads)
    rw [searchFrom] at h
    rcases hadvance : advance ⟨behind, some symbol⟩ ⟨index, symbol :: rest⟩
      (if best.isNone then threads ++ [⟨fresh, []⟩] else threads) with ⟨steps, done⟩
    rw [hadvance] at hsteps hdone
    simp only [hadvance] at h
    have hnext : ∀ best : Option Match, (∀ m, best = some m → m.marks.Careful allowed) →
        (if (accept symbol steps).isEmpty && best.isSome then best
          else searchFrom fresh next (some symbol) (index + 1) (accept symbol steps) best rest) =
          some m → m.marks.Careful allowed := by
      intro best hbest h
      split at h
      · exact hbest m h
      · exact ih (accept_careful hsteps) hbest h
    cases done with
    | none => exact hnext best hbest h
    | some marks =>
      refine hnext _ (fun m hm => ?_) h
      cases hm
      exact hdone marks rfl

/-- What a first group holds is of the set. -/
lemma Match.group?_careful {m : Match} (hm : m.marks.Careful allowed) {t : Text}
    (h : m.group? 1 = some t) : ∀ c ∈ t, allowed.contains c = true := by
  simp only [Match.group?, Nat.one_ne_zero, if_false, Option.bind_eq_bind,
    Option.bind_eq_some_iff] at h
  obtain ⟨start, hstart, stop, hstop, ht⟩ := h
  obtain ⟨text, hrest, hindex, hchars⟩ := hm start stop hstart hstop
  have htext : textBetween start stop = text := by
    simp only [textBetween]
    rw [hrest, hindex, Nat.add_sub_cancel_left, List.take_append_of_le_length (by simp),
      List.take_of_length_le (by simp), List.filterMap_map]
    exact List.filterMap_some
  rw [htext] at ht
  cases ht
  exact hchars

lemma matchesFrom_careful (hp : after? allowed p false = some false) {fuel : Nat}
    {last : Option Nat} {behind : Option Symbol} {here : Cursor} :
    ∀ m ∈ matchesFrom p fuel last behind here, m.marks.Careful allowed := by
  induction fuel generalizing last behind here with
  | zero => simp [matchesFrom]
  | succ fuel ih =>
    intro m hm
    have hfresh : after? allowed (andThen (mark startSlot) p) false = some false := by
      rw [after?_andThen]
      exact hp
    rw [matchesFrom] at hm
    split at hm
    · cases hm
    · rename_i found hsearch
      have hfound : found.marks.Careful allowed :=
        searchFrom_careful hfresh (by simp) (by simp) hsearch
      simp only at hm
      split at hm
      · split at hm
        · cases hm
        · exact ih m hm
      · rcases List.mem_cons.mp hm with rfl | hm
        · exact hfound
        · exact ih m hm

theorem group?_of_mem_matchesIn (hp : after? allowed p false = some false)
    {subject : List Symbol} {m : Match} (hm : m ∈ p.matchesIn subject) {t : Text}
    (h : m.group? 1 = some t) : ∀ c ∈ t, allowed.contains c = true :=
  Match.group?_careful (matchesFrom_careful hp m hm) h

end Pattern

end Excerpt
