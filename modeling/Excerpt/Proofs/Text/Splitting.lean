import Excerpt.Text.Basic
import Mathlib.Tactic.Common

/-!
# Cutting lists

`Text.splitOn` cuts a list at the elements that satisfy a condition. Its equations follow the list
from the front; `splitOn_append_cons` is what paths need, which are put together at their slashes.
-/

namespace Excerpt

namespace Text

variable {α : Type} {p : α → Bool}

lemma splitOnto_eq (as piece : List α) (done : List (List α)) :
    splitOnto p as piece done =
      done.reverse ++ (splitOn p as).modifyHead (piece.reverse ++ ·) := by
  induction as generalizing piece done with
  | nil => simp [splitOn, splitOnto]
  | cons a as ih =>
    simp only [splitOn]
    simp only [splitOnto]
    split
    · rw [ih [], ih [] [[].reverse]]
      simp
    · rw [ih (a :: piece) done, ih [a] []]
      cases splitOn p as <;> simp

@[simp] lemma splitOn_nil : splitOn p [] = [[]] := rfl

lemma splitOn_cons (a : α) (as : List α) :
    splitOn p (a :: as) =
      if p a then [] :: splitOn p as else (splitOn p as).modifyHead (a :: ·) := by
  rw [splitOn, splitOnto]
  split
  · rw [splitOnto_eq]
    cases splitOn p as <;> simp
  · rw [splitOnto_eq]
    simp

lemma splitOn_cons_of_pos {a : α} (h : p a = true) (as : List α) :
    splitOn p (a :: as) = [] :: splitOn p as := by
  rw [splitOn_cons, if_pos h]

lemma splitOn_ne_nil (as : List α) : splitOn p as ≠ [] := by
  induction as with
  | nil => simp
  | cons a as ih =>
    rw [splitOn_cons]
    split
    · simp
    · cases h : splitOn p as <;> simp_all

/-- What stands before the first cut, and the pieces behind it. -/
lemma splitOn_cons_of_neg {a : α} (h : p a = false) (as : List α) :
    ∃ piece rest, splitOn p as = piece :: rest ∧ splitOn p (a :: as) = (a :: piece) :: rest := by
  obtain ⟨piece, rest, hs⟩ := List.exists_cons_of_ne_nil (splitOn_ne_nil (p := p) as)
  refine ⟨piece, rest, hs, ?_⟩
  rw [splitOn_cons, if_neg (by simp [h]), hs, List.modifyHead_cons]

/-- A list without cuts is one piece. -/
lemma splitOn_of_forall {as : List α} (h : ∀ a ∈ as, p a = false) : splitOn p as = [as] := by
  induction as with
  | nil => rfl
  | cons a as ih =>
    rw [splitOn_cons, if_neg (by simp [h a]), ih fun b hb => h b (List.mem_cons_of_mem _ hb)]
    rfl

/-- A list without the separator is one piece. -/
lemma splitOn_of_notMem [BEq α] [LawfulBEq α] {a : α} {as : List α} (h : a ∉ as) :
    splitOn (· == a) as = [as] :=
  splitOn_of_forall fun _ hb => beq_eq_false_iff_ne.mpr fun he => h (he ▸ hb)

lemma splitOn_append_cons {b : α} (hb : p b = true) (as cs : List α) :
    splitOn p (as ++ b :: cs) = splitOn p as ++ splitOn p cs := by
  induction as with
  | nil => simp [splitOn_cons_of_pos hb]
  | cons a as ih =>
    rw [List.cons_append, splitOn_cons, splitOn_cons, ih]
    split
    · simp
    · cases h : splitOn p as with
      | nil => exact absurd h (splitOn_ne_nil as)
      | cons piece rest => simp

/-- The elements of a piece are elements of the list, and none of them is a cut. -/
lemma of_mem_splitOn {as piece : List α} (h : piece ∈ splitOn p as) :
    ∀ a ∈ piece, a ∈ as ∧ p a = false := by
  induction as generalizing piece with
  | nil =>
    rw [splitOn_nil, List.mem_singleton] at h
    simp [h]
  | cons b as ih =>
    cases hb : p b with
    | true =>
      rw [splitOn_cons_of_pos hb, List.mem_cons] at h
      rcases h with rfl | h
      · simp
      · exact fun a ha => ⟨List.mem_cons_of_mem _ (ih h a ha).1, (ih h a ha).2⟩
    | false =>
      obtain ⟨first, rest, hs, he⟩ := splitOn_cons_of_neg hb as
      rw [he, List.mem_cons] at h
      rcases h with rfl | h
      · intro a ha
        rcases List.mem_cons.mp ha with rfl | ha
        · exact ⟨List.mem_cons_self, hb⟩
        · have := ih (by rw [hs]; exact List.mem_cons_self) a ha
          exact ⟨List.mem_cons_of_mem _ this.1, this.2⟩
      · intro a ha
        have := ih (by rw [hs]; exact List.mem_cons_of_mem _ h) a ha
        exact ⟨List.mem_cons_of_mem _ this.1, this.2⟩

/-- The pieces before the last stay when the list goes on. -/
lemma dropLast_splitOn_isPrefix (as bs : List α) :
    (splitOn p as).dropLast <+: splitOn p (as ++ bs) := by
  induction as with
  | nil => exact List.nil_prefix
  | cons a as ih =>
    cases ha : p a with
    | true =>
      rw [List.cons_append, splitOn_cons_of_pos ha, splitOn_cons_of_pos ha,
        List.dropLast_cons_of_ne_nil (splitOn_ne_nil as)]
      exact List.cons_prefix_cons.mpr ⟨rfl, ih⟩
    | false =>
      obtain ⟨piece, rest, hs, he⟩ := splitOn_cons_of_neg ha as
      obtain ⟨piece', rest', hs', he'⟩ := splitOn_cons_of_neg ha (as ++ bs)
      rw [hs, hs'] at ih
      rw [List.cons_append, he, he']
      cases rest with
      | nil => exact List.nil_prefix
      | cons next rest =>
        rw [List.dropLast_cons_of_ne_nil (by simp), List.cons_prefix_cons] at ih
        rw [List.dropLast_cons_of_ne_nil (by simp), List.cons_prefix_cons]
        exact ⟨by rw [ih.1], ih.2⟩

/-! ### Cutting -/

lemma of_cutFirst?_eq_some {q : Char → Bool} {t before after : Text}
    (h : cutFirst? q t = some (before, after)) :
    ∃ c, q c = true ∧ t = before ++ c :: after := by
  unfold cutFirst? at h
  split at h
  · cases h
  · rename_i c rest hdrop
    cases h
    refine ⟨c, ?_, ?_⟩
    · have hhead := List.head?_dropWhile_not (!q ·) t
      rw [hdrop] at hhead
      simpa using hhead
    · rw [← hdrop, List.takeWhile_append_dropWhile]

lemma of_cutLast?_eq_some {q : Char → Bool} {t before after : Text}
    (h : cutLast? q t = some (before, after)) :
    ∃ c, q c = true ∧ t = before ++ c :: after := by
  unfold cutLast? at h
  obtain ⟨parts, hparts, he⟩ := Option.map_eq_some_iff.mp h
  obtain ⟨c, hc, ht⟩ := of_cutFirst?_eq_some hparts
  cases he
  refine ⟨c, hc, ?_⟩
  rw [← List.reverse_reverse t, ht]
  simp

end Text

end Excerpt
