import Mathlib.Tactic.Common
import Excerpt.Proofs.Text.Encoding
import Excerpt.Scan

/-!
# Scanning encoded texts

The lines of a file that holds an encoded text are the encoded lines of the text. What is captured is
put in order without repetitions, which loses nothing.
-/

namespace Excerpt

open Utf8 (encode)

/-! ### What is searched -/

/-- The text without a byte order mark at its front. -/
def Text.withoutMark : Text → Text
  | '\uFEFF' :: t => t
  | t => t

namespace Scan

lemma zero_notMem_encode {t : Text} (h : '\x00' ∉ t) : (0 : UInt8) ∉ encode t := by
  intro hmem
  obtain ⟨c, hc, he⟩ := Utf8.exists_of_mem_encode hmem (by decide)
  have hnul : c = '\x00' := Char.ext (UInt32.toNat_inj.mp he)
  exact h (hnul ▸ hc)

lemma searchedPlain_encode {firstRead : Option Nat} {t : Text} (h : '\x00' ∉ t) :
    searchedPlain firstRead (encode t) = encode t := by
  rw [searchedPlain, if_neg]
  simpa using zero_notMem_encode h

/-- The encoding of a text starts with the bytes of a mark only if the text starts with the mark. -/
lemma searched_encode {t : Text} (h : '\x00' ∉ t) : searched (encode t) = encode t.withoutMark := by
  cases t with
  | nil => rfl
  | cons c t =>
    by_cases hc : c = '\uFEFF'
    · subst hc
      have hmark : Utf8.encodeChar '\uFEFF' = [0xEF, 0xBB, 0xBF] := by decide
      rw [Utf8.encode_cons, hmark]
      exact searchedPlain_encode fun hmem => h (List.mem_cons_of_mem _ hmem)
    · have hwithout : Text.withoutMark (c :: t) = c :: t := by
        unfold Text.withoutMark
        split
        · rename_i heq
          cases heq
          exact absurd rfl hc
        · rfl
      obtain ⟨b, bs, hbytes, hhead⟩ := Utf8.head_encodeChar c
      have hcontent : encode (c :: t) = b :: (bs ++ encode t) := by
        rw [Utf8.encode_cons, hbytes, List.cons_append]
      have hplain : searchedPlain (some markSize) (encode (c :: t)) = encode (c :: t) :=
        searchedPlain_encode h
      specialize hhead (encode t)
      rw [hwithout]
      rw [hcontent] at hplain ⊢
      generalize bs ++ encode t = rest at hhead hplain
      unfold searched
      split
      · rename_i more heq
        cases heq
        have hread : Utf8.head 0xEF (0xBB :: 0xBF :: more) = .char '\uFEFF' 3 := rfl
        rw [hread, Utf8.Head.char.injEq] at hhead
        exact absurd hhead.1.symm hc
      · rename_i more heq
        cases heq
        cases hhead
      · rename_i more heq
        cases heq
        cases hhead
      · exact hplain

end Scan

/-! ### Lines and captures -/

namespace Scanner

variable {sc : Scanner} {t line v : Text}

/-- The lines of a text, without their ends. -/
def textLines (t : Text) : List Text :=
  (Text.cutLines '\n' t.withoutMark).map fun line =>
    Text.dropEndWhile (fun c => c == '\r' || c == '\n') line.1

lemma withoutMark_of_head? (h : t.head? ≠ some '\uFEFF') : t.withoutMark = t := by
  unfold Text.withoutMark
  split
  · exact absurd rfl h
  · rfl

/-- The pieces between newlines are the lines, and perhaps an empty one behind the last newline. -/
lemma splitOn_eq_cutLines (t : Text) :
    Text.splitOn (· == '\n') t = (Text.cutLines '\n' t).map (·.1) ∨
      Text.splitOn (· == '\n') t = (Text.cutLines '\n' t).map (·.1) ++ [[]] := by
  rw [Text.cutLines]
  rcases List.eq_nil_or_concat (Text.splitOn (· == '\n') t) with h | ⟨front, last, h⟩
  · exact absurd h (Text.splitOn_ne_nil t)
  · rw [List.concat_eq_append] at h
    rw [h, List.reverse_append, List.reverse_singleton, List.singleton_append]
    cases last with
    | nil => exact Or.inr (by simp [Function.comp_def])
    | cons c last => exact Or.inl (by simp [Function.comp_def])

/-- What an empty line does not have is looked for in the pieces as in the lines. -/
lemma findSome?_splitOn {α : Type} {f : Text → Option α} (hf : f [] = none) (t : Text) :
    (Text.splitOn (· == '\n') t).findSome? f =
      (Text.cutLines '\n' t).findSome? (f ∘ (·.1)) := by
  rw [← List.findSome?_map]
  rcases splitOn_eq_cutLines t with h | h
  · rw [h]
  · rw [h, List.findSome?_append, List.findSome?_singleton, hf, Option.or_none]

/-- The lines that are searched are those of the text. -/
lemma cutLines_searched (ht : '\x00' ∉ t) :
    Text.cutLines Scan.newline (Scan.searched (encode t)) =
      (Text.cutLines '\n' t.withoutMark).map fun l => (encode l.1, l.2) := by
  rw [Scan.searched_encode ht]
  exact Utf8.cutLines_encode _

lemma lineText_encode (line : Text) :
    lineText (encode line) = Text.dropEndWhile (fun c => c == '\r' || c == '\n') line := by
  rw [lineText, Utf8.lossy_encode]

lemma newline_notMem_of_cutLines {l : Text × Bool} (h : l ∈ Text.cutLines '\n' t) :
    '\n' ∉ l.1 := by
  have hpiece : l.1 ∈ Text.splitOn (· == '\n') t := by
    unfold Text.cutLines at h
    split at h
    · cases h
    · rename_i last before hpieces
      have hmem : l.1 ∈ last :: before := by
        simp only at h
        split at h
        · obtain ⟨piece, hpiece, rfl⟩ := List.mem_map.mp h
          exact List.mem_cons_of_mem _ (List.mem_reverse.mp hpiece)
        · rcases List.mem_append.mp h with h | h
          · obtain ⟨piece, hpiece, rfl⟩ := List.mem_map.mp h
            exact List.mem_cons_of_mem _ (List.mem_reverse.mp hpiece)
          · rw [List.mem_singleton.mp h]
            exact List.mem_cons_self
      rwa [← hpieces, List.mem_reverse] at hmem
  intro hmem
  have hnot := (Text.of_mem_splitOn hpiece _ hmem).2
  simp at hnot

end Scanner

/-! ### Distinct texts -/

lemma mem_insertText {t u : Text} {ts : List Text} : u ∈ insertText t ts ↔ u = t ∨ u ∈ ts := by
  induction ts with
  | nil => rw [insertText, List.mem_singleton]; simp
  | cons v ts ih =>
    rw [insertText]
    split_ifs with heq
    · rw [← heq]
      simp
    · rw [List.mem_cons, ih, List.mem_cons]
      tauto
    · rw [List.mem_cons]

/-- Putting texts in order and leaving out repetitions loses none of them. -/
@[simp] theorem mem_distinctTexts {u : Text} {ts : List Text} : u ∈ distinctTexts ts ↔ u ∈ ts := by
  have hfold : ∀ done : List Text,
      u ∈ ts.foldl (fun done t => insertText t done) done ↔ u ∈ done ∨ u ∈ ts := by
    induction ts with
    | nil => simp
    | cons t ts ih =>
      intro done
      rw [List.foldl_cons, ih, mem_insertText, List.mem_cons]
      tauto
  rw [distinctTexts, hfold]
  simp

end Excerpt
