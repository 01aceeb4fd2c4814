import Excerpt.Proofs.Text.Splitting
import Mathlib.Data.List.TakeWhile

/-!
# The ends of a text

What trimming leaves, what stands behind a given front and before a given end, and where a text is
cut at its first or last separator. Each lemma reads a text that was put together from known parts.
-/

namespace Excerpt

namespace Text

variable {p : Char → Bool} {front rest : Text}

/-! ### Trimming -/

/-- Nothing is trimmed from a text that neither starts nor ends with a blank. -/
lemma trim_of_ends {first last : Char} (hfirst : isBlank first = false)
    (hlast : isBlank last = false) (t : Text) :
    trim (first :: t ++ [last]) = first :: t ++ [last] := by
  have hstart : trimStart (first :: t ++ [last]) = first :: t ++ [last] := by
    rw [trimStart, List.cons_append, List.dropWhile_cons_of_neg (by simp [hfirst])]
  rw [trim, hstart, trimEnd, dropEndWhile, List.reverse_append, List.reverse_singleton,
    List.singleton_append, List.dropWhile_cons_of_neg (by simp [hlast])]
  simp

/-! ### Fronts and ends -/

lemma takeWhile_append_of_stop (hfront : ∀ c ∈ front, p c = true)
    (hrest : ∀ c ∈ rest.head?, p c = false) : (front ++ rest).takeWhile p = front := by
  rw [List.takeWhile_append_of_pos hfront]
  cases rest with
  | nil => rw [List.takeWhile_nil, List.append_nil]
  | cons c rest => rw [List.takeWhile_cons_of_neg (by simp [hrest c rfl]), List.append_nil]

lemma dropWhile_append_of_stop (hfront : ∀ c ∈ front, p c = true)
    (hrest : ∀ c ∈ rest.head?, p c = false) : (front ++ rest).dropWhile p = rest := by
  rw [List.dropWhile_append_of_pos hfront]
  cases rest with
  | nil => rfl
  | cons c rest => rw [List.dropWhile_cons_of_neg (by simp [hrest c rfl])]

/-- What dropping leaves starts with nothing that is dropped. -/
lemma head?_dropWhile_eq_false (t : Text) : ∀ c ∈ (t.dropWhile p).head?, p c = false := by
  intro c hc
  have hnot := List.head?_dropWhile_not p t
  rw [hc] at hnot
  simpa using hnot

lemma dropEndWhile_append_cons {c : Char} (hc : p c = false) (front rest : Text) :
    dropEndWhile p (front ++ c :: rest) = front ++ c :: dropEndWhile p rest := by
  have hreverse : (front ++ c :: rest).reverse = rest.reverse ++ c :: front.reverse := by simp
  have hstop : (c :: front.reverse).dropWhile p = c :: front.reverse :=
    List.dropWhile_cons_of_neg (by simp [hc])
  rw [dropEndWhile, dropEndWhile, hreverse, List.dropWhile_append, hstop]
  split
  · rename_i hempty
    rw [List.isEmpty_iff.mp hempty]
    simp
  · simp

@[simp] lemma afterStart?_append (front t : Text) : afterStart? front (front ++ t) = some t := by
  rw [afterStart?, if_pos (List.isPrefixOf_iff_prefix.mpr (List.prefix_append front t)),
    List.drop_left]

lemma of_afterStart?_eq_some {t : Text} (h : afterStart? front t = some rest) :
    t = front ++ rest := by
  rw [afterStart?] at h
  split at h
  · rename_i hprefix
    obtain ⟨more, rfl⟩ := List.isPrefixOf_iff_prefix.mp hprefix
    rw [List.drop_left, Option.some.injEq] at h
    rw [h]
  · cases h

@[simp] lemma beforeEnd?_append (t back : Text) : beforeEnd? back (t ++ back) = some t := by
  rw [beforeEnd?, if_pos (List.isSuffixOf_iff_suffix.mpr (List.suffix_append t back)),
    List.length_append, Nat.add_sub_cancel, List.take_left]

lemma of_beforeEnd?_eq_some {back t u : Text} (h : beforeEnd? back t = some u) : t = u ++ back := by
  unfold beforeEnd? at h
  split at h
  · rename_i hsuffix
    obtain ⟨front, rfl⟩ := List.isSuffixOf_iff_suffix.mp hsuffix
    rw [List.length_append, Nat.add_sub_cancel, List.take_left, Option.some.injEq] at h
    rw [h]
  · cases h

/-! ### First and last separator -/

lemma cutFirst?_append_cons {before after : Text} {c : Char} (hbefore : ∀ d ∈ before, p d = false)
    (hc : p c = true) : cutFirst? p (before ++ c :: after) = some (before, after) := by
  have hkeep : ∀ d ∈ before, (!p d) = true := fun d hd => by rw [hbefore d hd]; rfl
  rw [cutFirst?, List.dropWhile_append_of_pos hkeep,
    List.dropWhile_cons_of_neg (by simp [hc]), List.takeWhile_append_of_pos hkeep,
    List.takeWhile_cons_of_neg (by simp [hc]), List.append_nil]

lemma cutLast?_append_cons {before after : Text} {c : Char} (hafter : ∀ d ∈ after, p d = false)
    (hc : p c = true) : cutLast? p (before ++ c :: after) = some (before, after) := by
  have hrev : (before ++ c :: after).reverse = after.reverse ++ c :: before.reverse := by simp
  rw [cutLast?, hrev, cutFirst?_append_cons (by simpa using hafter) hc]
  simp

lemma cutLast?_append_of_notMem {before after : Text} {c : Char} (h : c ∉ after) :
    cutLast? (· == c) (before ++ c :: after) = some (before, after) := by
  refine cutLast?_append_cons ?_ (by simp)
  intro d hd
  rw [beq_eq_false_iff_ne]
  rintro rfl
  exact h hd

/-- Without a first cut there is no separator. -/
lemma of_cutFirst?_eq_none {t : Text} (h : cutFirst? p t = none) : ∀ d ∈ t, p d = false := by
  unfold cutFirst? at h
  split at h
  · rename_i hdrop
    simpa using List.dropWhile_eq_nil_iff.mp hdrop
  · cases h

lemma of_cutLast?_eq_none {t : Text} (h : cutLast? p t = none) : ∀ d ∈ t, p d = false := by
  rw [cutLast?, Option.map_eq_none_iff] at h
  exact fun d hd => of_cutFirst?_eq_none h d (List.mem_reverse.mpr hd)

/-- The part before the first cut has no separator. -/
lemma forall_of_cutFirst? {t before after : Text} (h : cutFirst? p t = some (before, after)) :
    ∀ d ∈ before, p d = false := by
  unfold cutFirst? at h
  split at h
  · cases h
  · cases h
    intro d hd
    simpa using List.all_eq_true.mp (List.all_takeWhile (p := (!p ·)) (l := t)) d hd

/-- The part behind the last cut has no separator. -/
lemma forall_of_cutLast? {t before after : Text} (h : cutLast? p t = some (before, after)) :
    ∀ d ∈ after, p d = false := by
  obtain ⟨parts, hparts, he⟩ := Option.map_eq_some_iff.mp h
  cases he
  exact fun d hd => forall_of_cutFirst? hparts d (List.mem_reverse.mp hd)

end Text

end Excerpt
