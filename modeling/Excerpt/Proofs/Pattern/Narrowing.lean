import Excerpt.Proofs.Pattern.Recasting

/-!
# Patterns that never consume a newline

The form of a pattern that never consumes a newline is built like the pattern itself: its conditions
are the same, and its sets lose at most the newline.
-/

namespace Excerpt

namespace Pattern

variable {p q a b : Pattern} {s : CharSet} {c : Char}

lemma inRanges_cutRange {n lo hi : Nat} {rs : List (Nat × Nat)} (h : CharSet.inRanges n rs = true)
    (hn : n < lo ∨ hi < n) : CharSet.inRanges n (CharSet.cutRange lo hi rs) = true := by
  induction rs with
  | nil => cases h
  | cons r rs ih =>
    simp only [CharSet.inRanges, Bool.and_eq_true, Bool.or_eq_true, decide_eq_true_eq] at h
    have hrest : n ≤ r.2 ∨ CharSet.inRanges n (CharSet.cutRange lo hi rs) = true := h.2.imp_right ih
    have hcut : CharSet.cutRange lo hi (r :: rs) = (if r.2 < lo ∨ hi < r.1 then [r]
        else (if r.1 < lo then [(r.1, lo - 1)] else []) ++
          (if hi < r.2 then [(hi + 1, r.2)] else [])) ++ CharSet.cutRange lo hi rs := rfl
    rw [hcut]
    split_ifs <;>
      simp only [List.cons_append, List.nil_append, CharSet.inRanges, Bool.and_eq_true,
        Bool.or_eq_true, decide_eq_true_eq] <;> grind

lemma contains_without {d : Char} (h : s.contains c = true) (hc : c ≠ d) :
    (s.without d).contains c = true := by
  refine inRanges_cutRange h ?_
  have hne : c.toNat ≠ d.toNat := fun he => hc (Char.ext (UInt32.toNat_inj.mp he))
  omega

@[simp] lemma withoutNewline_seq : (seq a b).withoutNewline? = some q ↔
    ∃ a' b', a.withoutNewline? = some a' ∧ b.withoutNewline? = some b' ∧ seq a' b' = q := by
  simp [withoutNewline?, Option.bind_eq_some_iff]

@[simp] lemma withoutNewline_alt : (alt a b).withoutNewline? = some q ↔
    ∃ a' b', a.withoutNewline? = some a' ∧ b.withoutNewline? = some b' ∧ alt a' b' = q := by
  simp [withoutNewline?, Option.bind_eq_some_iff]

@[simp] lemma withoutNewline_opt {greedy : Bool} : (opt greedy p).withoutNewline? = some q ↔
    ∃ p', p.withoutNewline? = some p' ∧ opt greedy p' = q := by
  simp [withoutNewline?, Option.bind_eq_some_iff]

@[simp] lemma withoutNewline_plus {greedy : Bool} : (plus greedy p).withoutNewline? = some q ↔
    ∃ p', p.withoutNewline? = some p' ∧ plus greedy p' = q := by
  simp [withoutNewline?, Option.bind_eq_some_iff]

@[simp] lemma withoutNewline_loop {greedy : Bool} : (loop greedy p).withoutNewline? = some q ↔
    ∃ p', p.withoutNewline? = some p' ∧ loop greedy p' = q := by
  simp [withoutNewline?, Option.bind_eq_some_iff]

lemma withoutNewline_set : (set s).withoutNewline? = some q →
    ∃ s', q = set s' ∧ ∀ c, c ≠ '\n' → s.contains c = true → s'.contains c = true := by
  intro h
  rw [withoutNewline?] at h
  split_ifs at h with hempty hnone
  · cases h
    exact ⟨s, rfl, fun _ _ hc => hc⟩
  · cases h
    exact ⟨_, rfl, fun _ hne hc => contains_without hc hne⟩

/-- The second set has what the first one has, apart from a newline. -/
def NarrowsTo (s s' : CharSet) : Prop := ∀ c, c ≠ '\n' → s.contains c = true → s'.contains c = true

/-- The form of a pattern without newlines differs from it in sets only. -/
lemma recast_of_withoutNewline (h : p.withoutNewline? = some q) : Recast Eq NarrowsTo p q := by
  induction p generalizing q with
  | empty => cases h; exact .empty
  | mark slot => cases h; exact .mark slot
  | look l => cases h; exact .look rfl
  | set s =>
    obtain ⟨s', rfl, hs⟩ := withoutNewline_set h
    exact .set hs
  | seq a b iha ihb =>
    obtain ⟨a', b', ha, hb, rfl⟩ := withoutNewline_seq.mp h
    exact .seq (iha ha) (ihb hb)
  | alt a b iha ihb =>
    obtain ⟨a', b', ha, hb, rfl⟩ := withoutNewline_alt.mp h
    exact .alt (iha ha) (ihb hb)
  | opt greedy r ih =>
    obtain ⟨r', hr, rfl⟩ := withoutNewline_opt.mp h
    exact .opt greedy (ih hr)
  | plus greedy r ih =>
    obtain ⟨r', hr, rfl⟩ := withoutNewline_plus.mp h
    exact .plus greedy (ih hr)
  | loop greedy r ih =>
    obtain ⟨r', hr, rfl⟩ := withoutNewline_loop.mp h
    exact .loop greedy (ih hr)

end Pattern

end Excerpt
