import Excerpt.Pattern.Parser
import Excerpt.Proofs.Pattern.Searching

/-!
# Patterns of one form

Two patterns are of one form if they are built alike from sets of characters and conditions that
correspond to each other. Whatever the first pattern can do at a position, the second one can do at
another position if the corresponding conditions and characters allow it. So the second pattern
completes where the first one does, also in a subject that stands between other neighbours or goes
on for longer.
-/

namespace Excerpt

namespace Pattern

variable {L M : Look → Look → Prop} {C D : CharSet → CharSet → Prop} {p p' q r a b : Pattern}
  {m m' : Move} {spot spot' : Spot} {slots slots' : List Nat} {greedy : Bool}

/-! ### One pattern after another -/

lemma andThen_empty (p : Pattern) : andThen p empty = p := by cases p <;> rfl

lemma andThen_of_ne (hp : p ≠ empty) (hq : q ≠ empty) : andThen p q = seq p q := by
  cases p <;> cases q <;> first | rfl | exact absurd rfl hp | exact absurd rfl hq

/-! ### Patterns of one form -/

/-- The second pattern is built like the first one, with conditions and sets that correspond to
those of the first. -/
inductive Recast (L : Look → Look → Prop) (C : CharSet → CharSet → Prop) :
    Pattern → Pattern → Prop where
  | empty : Recast L C empty empty
  | set {s s' : CharSet} : C s s' → Recast L C (set s) (set s')
  | look {l l' : Look} : L l l' → Recast L C (look l) (look l')
  | mark (slot : Nat) : Recast L C (mark slot) (mark slot)
  | seq {a a' b b' : Pattern} : Recast L C a a' → Recast L C b b' →
      Recast L C (seq a b) (seq a' b')
  | alt {a a' b b' : Pattern} : Recast L C a a' → Recast L C b b' →
      Recast L C (alt a b) (alt a' b')
  | opt (greedy : Bool) {r r' : Pattern} : Recast L C r r' →
      Recast L C (opt greedy r) (opt greedy r')
  | plus (greedy : Bool) {r r' : Pattern} : Recast L C r r' →
      Recast L C (plus greedy r) (plus greedy r')
  | loop (greedy : Bool) {r r' : Pattern} : Recast L C r r' →
      Recast L C (loop greedy r) (loop greedy r')

namespace Recast

lemma refl (hL : ∀ l, L l l) (hC : ∀ s, C s s) (p : Pattern) : Recast L C p p := by
  induction p with
  | empty => exact .empty
  | set s => exact .set (hC s)
  | look l => exact .look (hL l)
  | mark slot => exact .mark slot
  | seq _ _ iha ihb => exact .seq iha ihb
  | alt _ _ iha ihb => exact .alt iha ihb
  | opt greedy _ ih => exact .opt greedy ih
  | plus greedy _ ih => exact .plus greedy ih
  | loop greedy _ ih => exact .loop greedy ih

lemma trans (h : Recast L C p q) (h' : Recast M D q r) :
    Recast (fun l l' => ∃ k, L l k ∧ M k l') (fun s s' => ∃ t, C s t ∧ D t s') p r := by
  induction h generalizing r with
  | empty => cases h'; exact .empty
  | set hs => cases h' with | set hs' => exact .set ⟨_, hs, hs'⟩
  | look hl => cases h' with | look hl' => exact .look ⟨_, hl, hl'⟩
  | mark slot => cases h'; exact .mark slot
  | seq _ _ iha ihb => cases h' with | seq ha hb => exact .seq (iha ha) (ihb hb)
  | alt _ _ iha ihb => cases h' with | alt ha hb => exact .alt (iha ha) (ihb hb)
  | opt greedy _ ih => cases h' with | opt _ hr => exact .opt greedy (ih hr)
  | plus greedy _ ih => cases h' with | plus _ hr => exact .plus greedy (ih hr)
  | loop greedy _ ih => cases h' with | loop _ hr => exact .loop greedy (ih hr)

lemma mono (h : Recast L C p q) (hL : ∀ l l', L l l' → M l l') (hC : ∀ s s', C s s' → D s s') :
    Recast M D p q := by
  induction h with
  | empty => exact .empty
  | set hs => exact .set (hC _ _ hs)
  | look hl => exact .look (hL _ _ hl)
  | mark slot => exact .mark slot
  | seq _ _ iha ihb => exact .seq iha ihb
  | alt _ _ iha ihb => exact .alt iha ihb
  | opt greedy _ ih => exact .opt greedy ih
  | plus greedy _ ih => exact .plus greedy ih
  | loop greedy _ ih => exact .loop greedy ih

lemma eq_empty_iff (h : Recast L C p q) : p = Pattern.empty ↔ q = Pattern.empty := by
  cases h <;> simp

lemma andThen {a' b' : Pattern} (ha : Recast L C a a') (hb : Recast L C b b') :
    Recast L C (andThen a b) (andThen a' b') := by
  by_cases hae : a = Pattern.empty
  · rw [hae, ha.eq_empty_iff.mp hae]
    exact hb
  · by_cases hbe : b = Pattern.empty
    · rw [hbe, hb.eq_empty_iff.mp hbe, andThen_empty, andThen_empty]
      exact ha
    · rw [andThen_of_ne hae hbe,
        andThen_of_ne (mt ha.eq_empty_iff.mpr hae) (mt hb.eq_empty_iff.mpr hbe)]
      exact .seq ha hb

end Recast

/-! ### First moves -/

/-- A pattern that may be left out can be done at once, or it starts as its body does. -/
lemma of_mem_front_opt {greedy : Bool} {r : Pattern} (hm : m ∈ (opt greedy r).front spot) :
    m ∈ r.front spot ∨ m = .done [] := by
  rw [front] at hm
  split at hm <;> rcases mem_orElse hm with hm | hm
  · exact Or.inl hm
  · exact Or.inr (List.mem_singleton.mp hm)
  · exact Or.inr (List.mem_singleton.mp hm)
  · exact Or.inl hm

/-- A repetition can be done at once, or it starts as its body does if that consumes something. -/
lemma mem_front_loop {greedy : Bool} {r : Pattern} : m ∈ (loop greedy r).front spot ↔
    m = .done [] ∨ ∃ first ∈ r.front spot, first.isStep = true ∧
      first.mapRest (andThen · (loop greedy r)) = m := by
  have hturns : m ∈ ((r.front spot).filter Move.isStep).map
      (Move.mapRest (andThen · (loop greedy r))) ↔ ∃ first ∈ r.front spot,
        first.isStep = true ∧ first.mapRest (andThen · (loop greedy r)) = m := by
    simp only [List.mem_map, List.mem_filter, and_assoc]
  rw [front, ← hturns]
  split
  · rw [List.mem_append, List.mem_singleton, or_comm]
  · rw [List.mem_cons]

/-- What a choice can do first is what one of its sides can do, apart from marks. -/
lemma exists_mem_orElse {first second : List Move} (h : m ∈ first ∨ m ∈ second) :
    ∃ m' ∈ orElse first second, m' = m ∨ m.isStep = false ∧ m'.isStep = false := by
  unfold orElse
  split
  · exact ⟨m, List.mem_append.mpr h, Or.inl rfl⟩
  · rename_i hall
    rcases h with h | h
    · exact ⟨m, List.mem_append_left _ h, Or.inl rfl⟩
    · cases hm : m.isStep with
      | true => exact ⟨m, List.mem_append_right _ (List.mem_filter.mpr ⟨h, hm⟩), Or.inl rfl⟩
      | false =>
        rw [Bool.not_eq_true, List.all_eq_false] at hall
        obtain ⟨m', hm', hdone⟩ := hall
        exact ⟨m', List.mem_append_left _ hm', Or.inr ⟨rfl, by simpa using hdone⟩⟩

/-- The second move is like the first one, apart from marks. -/
def Move.Recast (L : Look → Look → Prop) (C : CharSet → CharSet → Prop) : Move → Move → Prop
  | .done _, .done _ => True
  | .step _ s rest, .step _ s' rest' => C s s' ∧ Pattern.Recast L C rest rest'
  | _, _ => False

namespace Move.Recast

lemma after (h : m.Recast L C m') : (m.after slots).Recast L C (m'.after slots') := by
  cases m <;> cases m' <;> exact h

lemma mapRest {b' : Pattern} (h : m.Recast L C m') (hb : Pattern.Recast L C b b') :
    (m.mapRest (andThen · b)).Recast L C (m'.mapRest (andThen · b')) := by
  cases m <;> cases m' <;> first | exact h | exact ⟨h.1, h.2.andThen hb⟩

lemma isStep_eq (h : m.Recast L C m') : m'.isStep = m.isStep := by
  cases m <;> cases m' <;> first | rfl | exact h.elim

lemma orElse {first second : List Move} (h : m.Recast L C m')
    (hm' : m' ∈ first ∨ m' ∈ second) : ∃ m'' ∈ Pattern.orElse first second, m.Recast L C m'' := by
  obtain ⟨m'', hmem, rfl | ⟨hdone, hdone'⟩⟩ := exists_mem_orElse hm'
  · exact ⟨m'', hmem, h⟩
  · refine ⟨m'', hmem, ?_⟩
    cases m' with
    | step => cases hdone
    | done =>
      cases m'' with
      | step => cases hdone'
      | done =>
        cases m with
        | step => exact h.elim
        | done => trivial

end Move.Recast

/-- What a pattern can do first, a pattern of the same form can do where the conditions that
correspond to those of the first hold as well. -/
theorem Recast.exists_mem_front (h : Recast L C p q)
    (hlook : ∀ l l', L l l' → l.holds spot = true → l'.holds spot' = true)
    (hm : m ∈ p.front spot) : ∃ m' ∈ q.front spot', m.Recast L C m' := by
  induction h generalizing m with
  | empty | mark =>
    rw [front, List.mem_singleton] at hm
    subst hm
    exact ⟨_, List.mem_cons_self, trivial⟩
  | set hs =>
    rw [front, List.mem_singleton] at hm
    subst hm
    exact ⟨_, List.mem_cons_self, hs, .empty⟩
  | look hl =>
    rw [front] at hm
    split at hm
    · rename_i hholds
      rw [List.mem_singleton] at hm
      subst hm
      rw [front, if_pos (hlook _ _ hl hholds)]
      exact ⟨_, List.mem_cons_self, trivial⟩
    · cases hm
  | seq ha hb iha ihb =>
    rw [front] at hm
    obtain ⟨first, hfirst, hm⟩ := List.mem_flatMap.mp hm
    obtain ⟨first', hfirst', hrecast⟩ := iha hfirst
    rw [front]
    cases first with
    | done slots =>
      obtain ⟨second, hsecond, rfl⟩ := List.mem_map.mp hm
      obtain ⟨second', hsecond', hrecast'⟩ := ihb hsecond
      cases first' with
      | step => exact hrecast.elim
      | done slots' =>
        exact ⟨_, List.mem_flatMap.mpr ⟨_, hfirst', List.mem_map_of_mem hsecond'⟩, hrecast'.after⟩
    | step slots s rest =>
      rw [List.mem_singleton] at hm
      subst hm
      cases first' with
      | done => exact hrecast.elim
      | step slots' s' rest' =>
        exact ⟨_, List.mem_flatMap.mpr ⟨_, hfirst', List.mem_cons_self⟩, hrecast.1,
          hrecast.2.andThen hb⟩
  | alt _ _ iha ihb =>
    rcases mem_orElse hm with hm | hm
    · obtain ⟨m', hm', hrecast⟩ := iha hm
      exact hrecast.orElse (Or.inl hm')
    · obtain ⟨m', hm', hrecast⟩ := ihb hm
      exact hrecast.orElse (Or.inr hm')
  | @opt greedy r r' _ ih =>
    have heither : ∃ m', (m' ∈ r'.front spot' ∨ m' ∈ [Move.done []]) ∧ m.Recast L C m' := by
      rcases of_mem_front_opt hm with hm | rfl
      · obtain ⟨m', hm', hrecast⟩ := ih hm
        exact ⟨m', Or.inl hm', hrecast⟩
      · exact ⟨.done [], Or.inr List.mem_cons_self, trivial⟩
    obtain ⟨m', hm', hrecast⟩ := heither
    rw [front]
    split
    · exact hrecast.orElse hm'
    · exact hrecast.orElse hm'.symm
  | plus greedy hr ih =>
    rw [front] at hm ⊢
    obtain ⟨first, hfirst, rfl⟩ := List.mem_map.mp hm
    obtain ⟨first', hfirst', hrecast⟩ := ih hfirst
    exact ⟨_, List.mem_map_of_mem hfirst', hrecast.mapRest (.loop greedy hr)⟩
  | loop greedy hr ih =>
    rcases mem_front_loop.mp hm with rfl | ⟨first, hfirst, hstep, rfl⟩
    · exact ⟨.done [], mem_front_loop.mpr (Or.inl rfl), trivial⟩
    · obtain ⟨first', hfirst', hrecast⟩ := ih hfirst
      exact ⟨_, mem_front_loop.mpr (Or.inr ⟨first', hfirst', hrecast.isStep_eq.trans hstep, rfl⟩),
        hrecast.mapRest (.loop greedy hr)⟩

/-! ### Completing between other neighbours -/

/-- Where a condition holds at a position of the symbols, between `behind` and `next`, the
corresponding one holds at the same position between `behind'` and `tail`, which `next'` follows. -/
def Carries (L : Look → Look → Prop) (next next' : Option Symbol) (tail : List Symbol) :
    (behind behind' : Option Symbol) → List Symbol → Prop
  | behind, behind', [] => ∀ l l', L l l' →
      l.holds ⟨behind, next⟩ = true → l'.holds ⟨behind', tail.head?.or next'⟩ = true
  | behind, behind', symbol :: ahead =>
    (∀ l l', L l l' →
      l.holds ⟨behind, some symbol⟩ = true → l'.holds ⟨behind', some symbol⟩ = true) ∧
    Carries L next next' tail (some symbol) (some symbol) ahead

variable {next next' behind behind' : Option Symbol} {ahead tail subject : List Symbol}

lemma Carries.holds (h : Carries L next next' tail behind behind' ahead) {l l' : Look}
    (hl : L l l') (hholds : l.holds ⟨behind, ahead.head?.or next⟩ = true) :
    l'.holds ⟨behind', (ahead ++ tail).head?.or next'⟩ = true := by
  cases ahead with
  | nil => exact h l l' hl hholds
  | cons symbol ahead => exact h.1 l l' hl hholds

/-- A pattern completes where one of the same form does. -/
lemma Completes.recast {P : Char → Prop} (h : Completes next p behind ahead)
    (hpq : Recast L C p q) (hset : ∀ s s', C s s' → ∀ c, P c → s.contains c = true →
      s'.contains c = true) (hahead : ∀ c, .char c ∈ ahead → P c)
    (hcarries : Carries L next next' tail behind behind' ahead) :
    Completes next' q behind' (ahead ++ tail) := by
  induction h generalizing q behind' with
  | done hmem =>
    obtain ⟨m', hm', hrecast⟩ := hpq.exists_mem_front (fun _ _ hl => hcarries.holds hl) hmem
    cases m' with
    | done => exact .done hm'
    | step => exact hrecast.elim
  | @step _ _ _ ahead _ _ c hmem hc _ ih =>
    obtain ⟨m', hm', hrecast⟩ := hpq.exists_mem_front (fun l l' hl => hcarries.1 l l' hl) hmem
    cases m' with
    | done => exact hrecast.elim
    | step =>
      refine .step hm' (hset _ _ hrecast.1 c (hahead c List.mem_cons_self) hc) ?_
      exact ih hrecast.2 (fun c hc => hahead c (List.mem_cons_of_mem _ hc)) hcarries.2

/-- A pattern is found where one of the same form is. -/
theorem CompletesIn.recast {P : Char → Prop} (h : CompletesIn next p behind subject)
    (hpq : Recast L C p q) (hset : ∀ s s', C s s' → ∀ c, P c → s.contains c = true →
      s'.contains c = true) (hsubject : ∀ c, .char c ∈ subject → P c)
    (hcarries : Carries L next next' tail behind behind' subject) :
    CompletesIn next' q behind' (subject ++ tail) := by
  induction h generalizing behind' with
  | here h => exact .here (h.recast hpq hset hsubject hcarries)
  | later _ ih =>
    exact .later (ih (fun c hc => hsubject c (List.mem_cons_of_mem _ hc)) hcarries.2)

end Pattern

end Excerpt
