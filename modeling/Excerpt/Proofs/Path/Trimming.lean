import Excerpt.Proofs.Path.Beneath
import Excerpt.Proofs.Path.Listing

/-!
# Trimmed spellings

Trimming takes away what a spelling may have behind its last step. Parents and what is left beneath
a base are trimmed, and so is whatever ends in them. What stands in front of the last step keeps its
spelling, so a spelling may be longer than its names, but it cannot be shorter.
-/

namespace Excerpt

namespace Path

variable {p q base rel : Path} {b : Bytes} {c : UInt8} {rest : Bytes} {names : List Bytes}
  {a : List Component}

/-- A spelling with nothing behind its last step. -/
def IsTrimmed (p : Path) : Prop := trimBack p.bytes = p.bytes

/-! ### Trimming twice -/

lemma trimFront_of_cons (hc : c ≠ slash)
    (hdot : c = dot → rest ≠ [] ∧ rest.head? ≠ some slash) : trimFront (c :: rest) = c :: rest := by
  cases rest with
  | nil =>
    have hne : ¬ (c = slash ∨ c = dot) := by
      rintro (rfl | rfl)
      · exact hc rfl
      · exact (hdot rfl).1 rfl
    rw [trimFront, if_neg hne]
  | cons d rest =>
    have hne : ¬ (c = dot ∧ d = slash) := by
      rintro ⟨rfl, rfl⟩
      exact (hdot rfl).2 rfl
    rw [trimFront, if_neg hc, if_neg hne]

/-- What is trimmed stays so behind anything else. -/
lemma trimBack_append_trimBack (front : Bytes) (h : trimBack b ≠ []) :
    trimBack (front ++ trimBack b) = front ++ trimBack b := by
  have hne : trimFront b.reverse ≠ [] := by simpa [trimBack] using h
  obtain ⟨c, rest, hcons⟩ := List.exists_cons_of_ne_nil hne
  obtain ⟨hc, hdot⟩ := trimFront_eq_cons hcons
  have hkept : trimFront (c :: (rest ++ front.reverse)) = c :: (rest ++ front.reverse) := by
    apply trimFront_of_cons hc
    intro he
    obtain ⟨hrest, hhead⟩ := hdot he
    obtain ⟨d, more, rfl⟩ := List.exists_cons_of_ne_nil hrest
    exact ⟨by simp, hhead⟩
  rw [trimBack, trimBack, List.reverse_append, List.reverse_reverse, hcons, List.cons_append, hkept]
  simp

/-- The last byte of a trimmed spelling, and what may stand in front of it. -/
lemma IsTrimmed.exists_last (h : p.IsTrimmed) (hne : p.bytes ≠ []) :
    ∃ front c, p.bytes = front ++ [c] ∧ c ≠ slash ∧
      (c = dot → front ≠ [] ∧ front.getLast? ≠ some slash) := by
  have htrim : trimFront p.bytes.reverse = p.bytes.reverse := by
    rw [IsTrimmed, trimBack] at h
    nth_rewrite 2 [← h]
    rw [List.reverse_reverse]
  obtain ⟨c, rest, hcons⟩ := List.exists_cons_of_ne_nil (List.reverse_ne_nil_iff.mpr hne)
  rw [hcons] at htrim
  obtain ⟨hc, hdot⟩ := trimFront_eq_cons htrim
  refine ⟨rest.reverse, c, ?_, hc, ?_⟩
  · rw [← List.reverse_reverse p.bytes, hcons, List.reverse_cons]
  · intro he
    simpa using hdot he

/-! ### Where trimmed spellings come from -/

lemma IsTrimmed.join (h : q.IsTrimmed) (hne : q.bytes ≠ []) (hq : q.isAbsolute = false) :
    (p.join q).IsTrimmed := by
  have htrim : trimBack q.bytes = q.bytes := h
  have hkept : ∀ front, trimBack (front ++ q.bytes) = front ++ q.bytes := by
    intro front
    have hfront := trimBack_append_trimBack front (htrim.symm ▸ hne)
    rwa [htrim] at hfront
  rw [IsTrimmed]
  rcases join_bytes (p := p) hq with ⟨-, hjoin⟩ | ⟨front, -, hjoin⟩ | ⟨-, -, hjoin⟩
  · rw [hjoin]
    exact h
  · rw [hjoin]
    simpa using hkept (front ++ [slash])
  · rw [hjoin]
    simpa using hkept (p.bytes ++ [slash])

/-- What trimming leaves is either trimmed or has no steps. -/
lemma isTrimmed_lead_append (p : Path)
    (h : bodyComponents ((splitLead p.bytes).1 ++ trimBack b) ≠ []) :
    (⟨(splitLead p.bytes).1 ++ trimBack b⟩ : Path).IsTrimmed := by
  apply trimBack_append_trimBack
  intro hnil
  rw [hnil, List.append_nil] at h
  rcases splitLead_cases p.bytes with ⟨rest, -, hs⟩ | ⟨rest, -, -, hs⟩ | ⟨-, -, hs⟩
  · rw [hs] at h
    exact h rfl
  · rw [hs] at h
    exact h rfl
  · rw [hs] at h
    exact h rfl

lemma isTrimmed_parent (h : p.parent? = some q) (hq : q.steps ≠ []) : q.IsTrimmed := by
  simp only [parent?] at h
  split at h
  · split at h
    · rw [Option.some.injEq] at h
      rw [← h] at hq
      exact absurd rfl hq
    · cases h
  · rw [Option.some.injEq] at h
    rw [← h] at hq ⊢
    exact isTrimmed_lead_append p hq

lemma bodyComponents_body (p : Path) : bodyComponents (splitLead p.bytes).2 = p.steps := by
  have hcomponents := components_eq p
  unfold components at hcomponents
  rwa [lead, List.append_cancel_left_eq] at hcomponents

/-- What is left behind segments that are dropped is relative and trimmed. -/
lemma of_dropSegments {k : Nat} (hk : p.steps.drop k = names.map .name) (hne : names ≠ [])
    (hrel : rel = ⟨trimBack (trimFront (dropSegments k (splitLead p.bytes).2))⟩) :
    rel.isAbsolute = false ∧ rel.steps = names.map .name ∧ rel.IsTrimmed := by
  subst hrel
  have hsteps : bodyComponents (trimBack (trimFront (dropSegments k (splitLead p.bytes).2))) =
      names.map .name := by
    rw [bodyComponents_trimBack, bodyComponents_trimFront, bodyComponents_dropSegments,
      bodyComponents_body, hk]
  refine ⟨isAbsolute_trim _, hsteps, ?_⟩
  apply trimBack_append_trimBack []
  intro hnil
  rw [hnil] at hsteps
  exact hne (by simpa using hsteps.symm)

/-- A path of names only has nothing in front of them. -/
lemma of_components_eq_names (hcomponents : p.components = names.map .name) (hne : names ≠ []) :
    (splitLead p.bytes).1 = [] ∧ p.isAbsolute = false ∧ p.steps = names.map .name := by
  obtain ⟨m, more, rfl⟩ := List.exists_cons_of_ne_nil hne
  rw [components_eq] at hcomponents
  rcases splitLead_cases p.bytes with ⟨rest, -, hs⟩ | ⟨rest, -, -, hs⟩ | ⟨hslash, -, hs⟩
  · rw [lead, hs] at hcomponents
    simp [leadComponents] at hcomponents
  · rw [lead, hs] at hcomponents
    simp [leadComponents, slash, dot] at hcomponents
  · rw [lead, hs] at hcomponents
    refine ⟨by rw [hs], ?_, hcomponents⟩
    rw [← Bool.not_eq_true, isAbsolute_iff_head]
    exact hslash

lemma IsTrimmed.of_trimBack (hsteps : p.steps ≠ []) : (⟨trimBack p.bytes⟩ : Path).IsTrimmed := by
  apply trimBack_append_trimBack []
  intro hnil
  rw [steps, ← bodyComponents_trimBack, hnil] at hsteps
  exact hsteps rfl

/-- What is left beneath a base is spelled by the steps that are left. -/
lemma strip?_eq_some (hcomponents : p.components = base.components ++ names.map .name)
    (hne : names ≠ []) : ∃ rel, p.strip? base = some rel ∧ rel.isAbsolute = false ∧
      rel.steps = names.map .name ∧ rel.IsTrimmed := by
  have hstarts : p.startsWith base = true := by
    rw [startsWith, hcomponents, List.isPrefixOf_iff_prefix]
    exact List.prefix_append _ _
  have hdropped : ∀ {k : Nat}, p.steps.drop k = names.map .name →
      ∃ rel : Path, some (⟨trimBack (trimFront (dropSegments k (splitLead p.bytes).2))⟩ : Path) =
        some rel ∧ rel.isAbsolute = false ∧ rel.steps = names.map .name ∧ rel.IsTrimmed :=
    fun hk => ⟨_, rfl, of_dropSegments hk hne rfl⟩
  unfold strip?
  rw [if_pos hstarts]
  cases hbase : base.components.length with
  | zero =>
    rw [List.length_eq_zero_iff.mp hbase, List.nil_append] at hcomponents
    obtain ⟨hlead, hrelative, hsteps⟩ := of_components_eq_names hcomponents hne
    have hbody : (splitLead p.bytes).2 = p.bytes := by
      rcases splitLead_cases p.bytes with ⟨_, _, hs⟩ | ⟨_, _, _, hs⟩ | ⟨_, _, hs⟩
      · simp [hs] at hlead
      · simp [hs] at hlead
      · rw [hs]
    simp only [hlead, hbody, List.nil_append]
    refine ⟨_, rfl, ?_, ?_, IsTrimmed.of_trimBack (by simpa [hsteps] using hne)⟩
    · rw [← Bool.not_eq_true, isAbsolute_iff_head] at hrelative ⊢
      intro hhead
      rcases head?_of_prefix (trimBack_isPrefix p.bytes) with hnil | hsame
      · simp [hnil] at hhead
      · exact hrelative (hsame ▸ hhead)
    · rw [← hsteps, steps, steps, bodyComponents_trimBack]
  | succ k =>
    rw [components_eq] at hcomponents
    simp only
    by_cases hl : (splitLead p.bytes).1 = []
    · rw [if_pos hl]
      rw [lead, hl] at hcomponents
      apply hdropped
      rw [show p.steps = _ from hcomponents, List.drop_left' hbase]
    · rw [if_neg hl]
      obtain ⟨c, rest, hc⟩ := List.exists_cons_of_ne_nil hl
      have hlead : ∃ step, p.lead = [step] := by
        rw [lead, hc, leadComponents]
        split
        · exact ⟨_, rfl⟩
        · exact ⟨_, rfl⟩
      obtain ⟨step, hstep⟩ := hlead
      rw [hstep] at hcomponents
      apply hdropped
      have hdrop := congrArg (List.drop (k + 1)) hcomponents
      rwa [List.drop_left' hbase] at hdrop

lemma isAbsolute_join_of_relative (hp : p.isAbsolute = false) (hq : q.isAbsolute = false) :
    (p.join q).isAbsolute = false := by
  by_cases hne : p.bytes = []
  · rcases join_bytes (p := p) hq with ⟨-, hjoin⟩ | ⟨_, hbytes, -⟩ | ⟨hbytes, -, -⟩
    · rw [hjoin]
      exact hq
    · simp [hne] at hbytes
    · exact absurd hne hbytes
  · rw [isAbsolute_join hne hq]
    exact hp

/-! ### The length of a spelling -/

/-- A spelling is one segment, or it goes on behind one. -/
lemma exists_segment (b : Bytes) :
    slash ∉ b ∨ ∃ seg rest, slash ∉ seg ∧ b = seg ++ slash :: rest := by
  by_cases h : slash ∈ b
  · obtain ⟨seg, rest, hb, hseg⟩ := List.eq_append_cons_of_mem h
    exact Or.inr ⟨seg, rest, hseg, hb⟩
  · exact Or.inl h

/-- A NUL in a spelling is in a name. -/
lemma noNul_of_names (h : ∀ n, .name n ∈ bodyComponents b → (0 : UInt8) ∉ n) :
    (0 : UInt8) ∉ b := by
  have hsegment : ∀ seg : Bytes, slash ∉ seg →
      (∀ n, .name n ∈ bodyComponents seg → (0 : UInt8) ∉ n) → (0 : UInt8) ∉ seg := by
    intro seg hslash hnames hzero
    rw [bodyComponents_of_noSlash hslash] at hnames
    cases hc : segmentComponent? seg with
    | none =>
      rcases segmentComponent?_eq_none hc with rfl | rfl
      · cases hzero
      · exact absurd hzero (by decide)
    | some c =>
      rcases segmentComponent?_eq_some hc with ⟨rfl, -⟩ | ⟨-, -, -, rfl⟩
      · exact absurd hzero (by decide)
      · exact hnames seg (by simp [hc]) hzero
  induction hlength : b.length using Nat.strongRecOn generalizing b with
  | ind k ih =>
    rcases exists_segment b with hslash | ⟨seg, rest, hslash, rfl⟩
    · exact hsegment b hslash h
    · rw [bodyComponents_append_slash] at h
      have hrest : (0 : UInt8) ∉ rest := by
        apply ih rest.length _ _ rfl
        · simp at hlength
          omega
        · intro n hn
          exact h n (List.mem_append_right _ hn)
      have hseg : (0 : UInt8) ∉ seg := by
        apply hsegment seg hslash
        intro n hn
        exact h n (List.mem_append_left _ hn)
      rw [List.mem_append, List.mem_cons, not_or, not_or]
      exact ⟨hseg, by decide, hrest⟩

/-- A spelling has room for its names, with a slash between neighbours. -/
lemma length_names_le (h : bodyComponents b = names.map .name) :
    (names.flatMap (slash :: ·)).length ≤ b.length + 1 := by
  have hsegment : ∀ (seg : Bytes) (names : List Bytes), slash ∉ seg →
      bodyComponents seg = names.map .name →
      (names.flatMap (slash :: ·)).length ≤ seg.length + 1 := by
    intro seg names hslash hnames
    rw [bodyComponents_of_noSlash hslash] at hnames
    cases hc : segmentComponent? seg with
    | none =>
      obtain rfl : names = [] := by simpa [hc] using hnames.symm
      simp
    | some c =>
      rw [hc, Option.toList_some] at hnames
      obtain ⟨n, rfl, hn⟩ := List.map_eq_singleton_iff.mp hnames.symm
      rcases segmentComponent?_eq_some hc with ⟨-, rfl⟩ | ⟨-, -, -, rfl⟩
      · cases hn
      · cases hn
        simp
  induction hlength : b.length using Nat.strongRecOn generalizing b names with
  | ind k ih =>
    rcases exists_segment b with hslash | ⟨seg, rest, hslash, rfl⟩
    · rw [← hlength]
      exact hsegment b names hslash h
    · rw [bodyComponents_append_slash] at h
      obtain ⟨front, back, rfl, hfront, hback⟩ := List.map_eq_append_iff.mp h.symm
      have hseg := hsegment seg front hslash hfront.symm
      rw [List.length_append, List.length_cons] at hlength
      have hrest := ih rest.length (by omega) hback.symm rfl
      rw [List.flatMap_append, List.length_append]
      omega

end Path

end Excerpt
