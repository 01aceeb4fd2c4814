import Mathlib.Tactic.Common
import Excerpt.Pattern.Category

/-!
# Control characters are no characters of words

The table of categories starts with a run of control characters. A set of other categories has
nothing in that run, whatever is done to its ranges afterwards.
-/

namespace Excerpt

namespace CharSet

variable {bound n : Nat} {rs : List (Nat × Nat)} {s : CharSet}

/-- No range starts before the bound. -/
def StartsAt (bound : Nat) (rs : List (Nat × Nat)) : Prop := ∀ r ∈ rs, bound ≤ r.1

lemma StartsAt.inRanges (h : StartsAt bound rs) (hn : n < bound) : inRanges n rs = false := by
  induction rs with
  | nil => rfl
  | cons r rs ih =>
    have hr := h r List.mem_cons_self
    have hnot : ¬ r.1 ≤ n := by omega
    simp [CharSet.inRanges, hnot]

lemma StartsAt.insertRange (h : StartsAt bound rs) {lo hi : Nat} (hlo : bound ≤ lo) :
    StartsAt bound (insertRange lo hi rs) := by
  induction rs generalizing lo hi with
  | nil => simpa [StartsAt, CharSet.insertRange] using hlo
  | cons r rs ih =>
    have hr := h r List.mem_cons_self
    have hrest : StartsAt bound rs := fun r hr => h r (List.mem_cons_of_mem _ hr)
    rw [CharSet.insertRange]
    split_ifs
    · intro x hx
      rcases List.mem_cons.mp hx with rfl | hx
      · exact hlo
      · exact h x hx
    · intro x hx
      rcases List.mem_cons.mp hx with rfl | hx
      · exact hr
      · exact ih hrest hlo x hx
    · exact ih hrest (by omega)

lemma StartsAt.addRanges (h : StartsAt bound s.ranges) (hrs : StartsAt bound rs) :
    StartsAt bound (s.addRanges rs).ranges := by
  obtain ⟨ranges⟩ := s
  rw [CharSet.addRanges]
  induction rs generalizing ranges with
  | nil => exact h
  | cons r rs ih =>
    exact ih (fun r hr => hrs r (List.mem_cons_of_mem _ hr)) _
      (h.insertRange (hrs r List.mem_cons_self))

lemma StartsAt.joinTouching (h : StartsAt bound rs) : StartsAt bound (joinTouching rs) := by
  induction rs with
  | nil => exact h
  | cons r rs ih =>
    have hr := h r List.mem_cons_self
    have hrest := ih fun r hr => h r (List.mem_cons_of_mem _ hr)
    rw [CharSet.joinTouching]
    split
    · simpa [StartsAt] using hr
    · rename_i c d more heq
      rw [heq] at hrest
      split_ifs
      · intro x hx
        rcases List.mem_cons.mp hx with rfl | hx
        · exact hr
        · exact hrest x (List.mem_cons_of_mem _ hx)
      · intro x hx
        rcases List.mem_cons.mp hx with rfl | hx
        · exact hr
        · exact hrest x hx

lemma StartsAt.cutRange (h : StartsAt bound rs) {lo hi : Nat} (hhi : bound ≤ hi) :
    StartsAt bound (cutRange lo hi rs) := by
  intro x hx
  obtain ⟨r, hr, hx⟩ := List.mem_flatMap.mp hx
  have hbound := h r hr
  split_ifs at hx <;> simp at hx <;> grind

lemma startsAt_runsOnto {wanted : List Char} {t : Text} {start count : Nat}
    {done : List (Nat × Nat)} (hstart : bound ≤ start) (hdone : StartsAt bound done) :
    StartsAt bound (runsOnto wanted t start count done) := by
  induction t generalizing start count done with
  | nil => exact hdone
  | cons c t ih =>
    have hadd : ∀ stop, StartsAt bound ((start, stop) :: done) := by
      intro stop r hr
      rcases List.mem_cons.mp hr with rfl | hr
      · exact hstart
      · exact hdone r hr
    rw [runsOnto]
    split_ifs
    · exact ih hstart hdone
    · exact ih (by omega) (hadd _)
    · exact ih (by omega) hdone

/-- The first run of the table is that of the control characters. -/
lemma exists_categoryRuns : ∃ rest, categoryRuns = '3' :: '2' :: 'A' :: rest := by
  have htake : categoryRuns.take 3 = ['3', '2', 'A'] := by decide +kernel
  refine ⟨categoryRuns.drop 3, ?_⟩
  conv_lhs => rw [← List.take_append_drop 3 categoryRuns, htake]
  rfl

lemma startsAt_ofCategories {letters : List Char} (h : 'A' ∉ letters) :
    StartsAt 32 (ofCategories letters).ranges := by
  obtain ⟨rest, hrest⟩ := exists_categoryRuns
  have hcontains : letters.contains 'A' = false := by simpa using h
  have hrun : runsOnto letters ('3' :: '2' :: 'A' :: rest) 0 0 [] =
      runsOnto letters rest 32 0 (if letters.contains 'A' then [(0, 31)] else []) := rfl
  rw [hcontains, if_neg Bool.false_ne_true] at hrun
  rw [ofCategories, hrest, hrun]
  refine StartsAt.cutRange (StartsAt.joinTouching ?_) (by omega)
  intro r hr
  exact startsAt_runsOnto (Nat.le_refl 32) (by simp [StartsAt]) r (List.mem_reverse.mp hr)

/-- A control character of ASCII is no character of words. -/
theorem wordChars_contains {c : Char} (hc : c.toNat < 32) : wordChars.contains c = false := by
  have hwords : StartsAt 32 wordChars.ranges := by
    refine StartsAt.addRanges (startsAt_ofCategories (by decide)) ?_
    intro r hr
    simp only [otherAlphabetic, List.mem_cons, List.not_mem_nil, or_false] at hr
    rcases hr with rfl | rfl | rfl | rfl | rfl <;> omega
  exact hwords.inRanges hc

end CharSet

end Excerpt
