import Excerpt.Proofs.Path.Beneath

/-!
# Paths written as texts

A text is written into a path as UTF-8. Bytes below 128 stand only for themselves there, so slashes
and dots of a text are those of its path, and a text between slashes is one segment.
-/

namespace Excerpt

namespace Utf8

/-- A byte below 128 in the encoding of a character is the character. -/
lemma of_mem_encodeChar {c : Char} {b : UInt8} (h : b ∈ encodeChar c) (hb : b.toNat < 0x80) :
    c.toNat = b.toNat := by
  have hc : c.toNat < 0x110000 := by
    have := c.valid
    simp only [UInt32.isValidChar, Nat.isValidChar] at this
    change c.val.toNat < 0x110000
    omega
  have hround : ∀ n : Nat, n.toUInt8.toNat = n % 256 := fun n => UInt8.toNat_ofNat'
  unfold encodeChar at h
  simp only at h
  split at h
  · rw [List.mem_singleton] at h
    rw [h, hround]
    omega
  · split at h
    · simp only [List.mem_cons, List.not_mem_nil, or_false] at h
      rcases h with rfl | rfl <;> rw [hround] at hb <;> omega
    · split at h
      · simp only [List.mem_cons, List.not_mem_nil, or_false] at h
        rcases h with rfl | rfl | rfl <;> rw [hround] at hb <;> omega
      · simp only [List.mem_cons, List.not_mem_nil, or_false] at h
        rcases h with rfl | rfl | rfl | rfl <;> rw [hround] at hb <;> omega

lemma encodeChar_ne_nil (c : Char) : encodeChar c ≠ [] := by
  unfold encodeChar
  simp only
  split
  · simp
  · split
    · simp
    · split <;> simp

/-- A byte below 128 in the encoding of a text is a character of the text. -/
lemma exists_of_mem_encode {t : Text} {b : UInt8} (h : b ∈ encode t) (hb : b.toNat < 0x80) :
    ∃ c ∈ t, c.toNat = b.toNat := by
  obtain ⟨c, hc, hmem⟩ := List.mem_flatMap.mp h
  exact ⟨c, hc, of_mem_encodeChar hmem hb⟩

lemma encode_eq_nil {t : Text} : encode t = [] ↔ t = [] := by
  constructor
  · intro h
    cases t with
    | nil => rfl
    | cons c t =>
      rw [encode, List.flatMap_cons, List.append_eq_nil_iff] at h
      exact absurd h.1 (encodeChar_ne_nil c)
  · rintro rfl
    rfl

end Utf8

namespace Path

/-- A text without slashes is written without slashes. -/
lemma slash_notMem_encode {t : Text} (h : '/' ∉ t) : slash ∉ Utf8.encode t := by
  intro hs
  obtain ⟨c, hc, he⟩ := Utf8.exists_of_mem_encode hs (by decide)
  have : c = '/' := Char.ext (UInt32.toNat_inj.mp he)
  exact h (this ▸ hc)

lemma dot_notMem_encode {t : Text} (h : '.' ∉ t) : dot ∉ Utf8.encode t := by
  intro hs
  obtain ⟨c, hc, he⟩ := Utf8.exists_of_mem_encode hs (by decide)
  have : c = '.' := Char.ext (UInt32.toNat_inj.mp he)
  exact h (this ▸ hc)

lemma encodeChar_dot {c : Char} {rest : Bytes} {more : Bytes}
    (h : Utf8.encodeChar c ++ more = dot :: rest) : c = '.' ∧ more = rest := by
  obtain ⟨b, bs, hb⟩ := List.exists_cons_of_ne_nil (Utf8.encodeChar_ne_nil c)
  have hfirst : b = dot := by
    rw [hb, List.cons_append, List.cons.injEq] at h
    exact h.1
  have hc : c = '.' := by
    refine Char.ext (UInt32.toNat_inj.mp ?_)
    exact Utf8.of_mem_encodeChar (b := dot) (by rw [hb, hfirst]; exact List.mem_cons_self)
      (by decide)
  subst hc
  have hdot : Utf8.encodeChar '.' = [dot] := by decide
  rw [hdot, List.cons_append, List.nil_append, List.cons.injEq] at h
  exact ⟨rfl, h.2⟩

/-- The two dots are written only by themselves. -/
lemma encode_eq_dots {t : Text} (h : Utf8.encode t = [dot, dot]) : t = ['.', '.'] := by
  cases t with
  | nil => cases h
  | cons c t =>
    rw [Utf8.encode, List.flatMap_cons] at h
    obtain ⟨hc, hrest⟩ := encodeChar_dot h
    cases t with
    | nil => cases hrest
    | cons d t =>
      rw [List.flatMap_cons] at hrest
      obtain ⟨hd, hnil⟩ := encodeChar_dot hrest
      rw [hc, hd, Utf8.encode_eq_nil.mp hnil]

/-- A text without slashes is joined as one segment. -/
lemma isAbsolute_ofText {t : Text} (h : '/' ∉ t) : (ofText t).isAbsolute = false := by
  rw [← Bool.not_eq_true, isAbsolute_iff_head]
  intro hhead
  obtain ⟨rest, hr⟩ := List.head?_eq_some_iff.mp hhead
  refine slash_notMem_encode h ?_
  change slash ∈ (ofText t).bytes
  rw [hr]
  exact List.mem_cons_self

lemma steps_ofText {t : Text} (h : '/' ∉ t) :
    (ofText t).steps = (segmentComponent? (Utf8.encode t)).toList :=
  bodyComponents_of_noSlash (slash_notMem_encode h)

lemma steps_joinText {p : Path} {t : Text} (h : '/' ∉ t) :
    (p.joinText t).steps = p.steps ++ (segmentComponent? (Utf8.encode t)).toList := by
  rw [joinText, steps_join (isAbsolute_ofText h), steps_ofText h]

lemma isAbsolute_joinText {p : Path} {t : Text} (hp : p.isAbsolute = true)
    (ht : (ofText t).isAbsolute = false) : (p.joinText t).isAbsolute = true := by
  rw [joinText, isAbsolute_join (bytes_ne_nil_of_isAbsolute hp) ht, hp]

/-- Texts without slashes, joined one after the other. -/
lemma steps_foldl_joinText (ts : List Text) (p : Path) (h : ∀ t ∈ ts, '/' ∉ t) :
    (ts.foldl joinText p).steps =
      p.steps ++ ts.flatMap fun t => (segmentComponent? (Utf8.encode t)).toList := by
  induction ts generalizing p with
  | nil => simp
  | cons t ts ih =>
    rw [List.foldl_cons, ih _ fun t ht => h t (List.mem_cons_of_mem _ ht),
      steps_joinText (h t List.mem_cons_self), List.flatMap_cons, List.append_assoc]

lemma isAbsolute_foldl_joinText (ts : List Text) (p : Path) (h : ∀ t ∈ ts, '/' ∉ t) :
    (ts.foldl joinText p).isAbsolute = p.isAbsolute := by
  induction ts generalizing p with
  | nil => rfl
  | cons t ts ih =>
    have ht := isAbsolute_ofText (h t List.mem_cons_self)
    rw [List.foldl_cons, ih _ fun t ht => h t (List.mem_cons_of_mem _ ht), joinText]
    by_cases hp : p.bytes = []
    · rcases join_bytes (p := p) ht with ⟨-, hj⟩ | ⟨front, hf, -⟩ | ⟨hn, -⟩
      · rw [hj, ht, isAbsolute, hp]
        rfl
      · rw [hp] at hf
        exact absurd hf.symm (by simp)
      · exact absurd hp hn
    · rw [isAbsolute_join hp ht]

end Path

end Excerpt
