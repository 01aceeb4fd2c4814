import Excerpt.Proofs.Text.Ends
import Excerpt.Text.Utf8

/-!
# Lines of decoded bytes

A newline byte is never part of a longer character, so decoding goes on afresh behind it: the lines
of decoded bytes are the decoded lines of the bytes, whatever bytes they are. What reading a text
line by line adds to the pieces between the newlines are carriage returns that are taken away.
-/

namespace Excerpt

/-! ### Decoding -/

namespace Utf8

/-- The byte that ends a line. -/
def newline : UInt8 := 10

/-- A newline is not a byte that may follow a lead byte. -/
lemma readTail_append_newline {count lo : Nat} (hlo : 0x80 ≤ lo) (hi value width : Nat)
    (a b : Bytes) :
    readTail count lo hi value width (a ++ newline :: b) = readTail count lo hi value width a := by
  induction a generalizing count lo hi value width with
  | nil =>
    cases count with
    | zero => rfl
    | succ count =>
      rw [List.nil_append, readTail, readTail, if_neg]
      · rintro ⟨hle, -⟩
        exact absurd (hlo.trans hle) (by decide)
  | cons x a ih =>
    cases count with
    | zero => rfl
    | succ count =>
      rw [List.cons_append, readTail, readTail]
      split
      · exact ih (Nat.le_refl _) _ _ _
      · rfl

lemma le_of_following {lead count lo hi : Nat} (h : following lead = some (count, lo, hi)) :
    0x80 ≤ lo := by
  unfold following at h
  grind

/-- How bytes start does not depend on what stands behind a newline. -/
lemma head_append_newline (x : UInt8) (a b : Bytes) : head x (a ++ newline :: b) = head x a := by
  unfold head
  simp only
  split
  · rfl
  · split
    · rfl
    · rename_i count lo hi hf
      exact readTail_append_newline (le_of_following hf) _ _ _ a b

/-- The bytes that a character or an ill-formed piece is made of. -/
def Head.width : Head → Nat
  | .char _ width | .broken width => width

lemma width_readTail (count lo hi value width : Nat) (rest : Bytes) :
    (readTail count lo hi value width rest).width ≤ width + rest.length := by
  induction rest generalizing count lo hi value width with
  | nil => cases count <;> exact Nat.le_refl _
  | cons b rest ih =>
    cases count with
    | zero => exact Nat.le_add_right _ _
    | succ count =>
      rw [readTail]
      split
      · refine (ih ..).trans ?_
        rw [List.length_cons]
        omega
      · exact Nat.le_add_right _ _

lemma width_head (x : UInt8) (rest : Bytes) : (head x rest).width ≤ 1 + rest.length := by
  unfold head
  simp only
  split
  · exact Nat.le_add_right _ _
  · split
    · exact Nat.le_add_right _ _
    · exact width_readTail ..

/-- The character that stands for what bytes start with. -/
def Head.shown : Head → Char
  | .char c _ => c
  | .broken _ => '\uFFFD'

lemma lossyOnto_cons (x : UInt8) (rest : Bytes) (done : Text) :
    lossyOnto 0 (x :: rest) done =
      lossyOnto ((head x rest).width - 1) rest ((head x rest).shown :: done) := by
  rw [lossyOnto]
  cases head x rest <;> rfl

lemma lossyOnto_eq (k : Nat) (bs : Bytes) (done : Text) :
    lossyOnto k bs done = lossyOnto k bs [] ++ done := by
  induction bs generalizing k done with
  | nil => cases k <;> rfl
  | cons x bs ih =>
    cases k with
    | zero =>
      rw [lossyOnto_cons, lossyOnto_cons, ih, ih _ [_], List.append_assoc]
      rfl
    | succ k => exact ih k done

/-- Decoding starts afresh behind a newline. -/
lemma lossyOnto_append_newline {k : Nat} {a : Bytes} (hk : k ≤ a.length) (b : Bytes) (done : Text) :
    lossyOnto k (a ++ newline :: b) done = lossyOnto 0 b ('\n' :: lossyOnto k a done) := by
  induction a generalizing k done with
  | nil =>
    obtain rfl := Nat.le_zero.mp hk
    rfl
  | cons x a ih =>
    cases k with
    | zero =>
      have hwidth := width_head x a
      rw [List.cons_append, lossyOnto_cons, lossyOnto_cons, head_append_newline]
      exact ih (by omega) _
    | succ k => exact ih (Nat.le_of_succ_le_succ hk) done

lemma lossy_append_newline (a b : Bytes) :
    lossy (a ++ newline :: b) = lossy a ++ '\n' :: lossy b := by
  unfold lossy
  rw [lossyOnto_append_newline (Nat.zero_le _), lossyOnto_eq]
  simp

/-! ### No other newlines -/

/-- The value of a character grows with each byte that is read. -/
lemma of_readTail_eq_char {count lo hi value width w : Nat} {rest : Bytes} {c : Char}
    (h : readTail count lo hi value width rest = .char c w) :
    ∃ v, c = Char.ofNat v ∧ value ≤ v ∧ (0 < count → value * 0x40 + (lo - 0x80) ≤ v) := by
  induction rest generalizing count lo hi value width with
  | nil =>
    cases count with
    | zero =>
      cases h
      exact ⟨value, rfl, Nat.le_refl _, fun h => absurd h (Nat.lt_irrefl 0)⟩
    | succ count => cases h
  | cons b rest ih =>
    cases count with
    | zero =>
      cases h
      exact ⟨value, rfl, Nat.le_refl _, fun h => absurd h (Nat.lt_irrefl 0)⟩
    | succ count =>
      rw [readTail] at h
      split at h
      · rename_i hb
        obtain ⟨v, hv, hle, -⟩ := ih h
        exact ⟨v, hv, by omega, fun _ => by omega⟩
      · cases h

lemma ofNat_eq_newline {v : Nat} (h : Char.ofNat v = '\n') : v = 10 := by
  by_cases hv : v.isValidChar
  · have hnat : (Char.ofNat v).toNat = v := by
      rw [Char.ofNat, dif_pos hv]
      unfold Char.ofNatAux Char.toNat
      simp
    rw [← hnat, h]
    rfl
  · rw [Char.ofNat, dif_neg hv] at h
    exact absurd h (by decide)

lemma shown_readTail_ne_newline {count lo value : Nat} (hcount : 0 < count)
    (h : 10 < value * 0x40 + (lo - 0x80)) (hi width : Nat) (rest : Bytes) :
    (readTail count lo hi value width rest).shown ≠ '\n' := by
  cases hr : readTail count lo hi value width rest with
  | broken => exact (by decide : '\uFFFD' ≠ '\n')
  | char c w =>
    obtain ⟨v, rfl, -, hv⟩ := of_readTail_eq_char hr
    intro hc
    have := ofNat_eq_newline hc
    have := hv hcount
    omega

/-- The first byte that follows a lead byte makes the value larger than that of a newline. -/
lemma newline_lt_of_following {lead count lo hi : Nat}
    (h : following lead = some (count, lo, hi)) :
    0 < count ∧ 10 < (if count = 1 then lead - 0xC0 else if count = 2 then lead - 0xE0
      else lead - 0xF0) * 0x40 + (lo - 0x80) := by
  unfold following at h
  grind

/-- Only the newline byte is shown as a newline. -/
lemma eq_newline_of_shown {x : UInt8} {rest : Bytes} (h : (head x rest).shown = '\n') :
    x = newline := by
  unfold head at h
  simp only at h
  split at h
  · exact UInt8.toNat_inj.mp (ofNat_eq_newline h)
  · generalize hf : following x.toNat = f at h
    cases f with
    | none => exact absurd h (by decide : '\uFFFD' ≠ '\n')
    | some range =>
      obtain ⟨hcount, hvalue⟩ := newline_lt_of_following hf
      exact absurd h (shown_readTail_ne_newline hcount hvalue _ _ _)

lemma newline_notMem_lossyOnto {k : Nat} {bs : Bytes} {done : Text} (hbs : newline ∉ bs)
    (hdone : '\n' ∉ done) : '\n' ∉ lossyOnto k bs done := by
  induction bs generalizing k done with
  | nil =>
    cases k <;> exact hdone
  | cons x bs ih =>
    rw [List.mem_cons, not_or] at hbs
    cases k with
    | zero =>
      rw [lossyOnto_cons]
      refine ih hbs.2 fun hmem => ?_
      rcases List.mem_cons.mp hmem with hshown | hmem
      · exact hbs.1 (eq_newline_of_shown hshown.symm).symm
      · exact hdone hmem
    | succ k => exact ih hbs.2 hdone

lemma newline_notMem_lossy {bs : Bytes} (h : newline ∉ bs) : '\n' ∉ lossy bs := fun hmem =>
  newline_notMem_lossyOnto h List.not_mem_nil (List.mem_reverse.mp hmem)

/-- The pieces of decoded bytes between newlines are the decoded pieces of the bytes. -/
lemma splitOn_lossy (bs : Bytes) :
    Text.splitOn (· == '\n') (lossy bs) = (Text.splitOn (· == newline) bs).map lossy := by
  induction hn : bs.length using Nat.strong_induction_on generalizing bs with
  | _ n ih =>
    by_cases hmem : newline ∈ bs
    · obtain ⟨a, b, rfl, ha⟩ := List.eq_append_cons_of_mem hmem
      have hb : b.length < n := by
        rw [← hn, List.length_append, List.length_cons]
        omega
      rw [lossy_append_newline, Text.splitOn_append_cons (by rfl), Text.splitOn_append_cons (by rfl),
        Text.splitOn_of_notMem ha, Text.splitOn_of_notMem (newline_notMem_lossy ha), ih _ hb b rfl]
      rfl
    · rw [Text.splitOn_of_notMem hmem, Text.splitOn_of_notMem (newline_notMem_lossy hmem)]
      rfl

end Utf8

/-! ### Lines -/

namespace Text

/-- A blank at the end is trimmed. -/
lemma trim_append_blank {c : Char} (hc : isBlank c = true) (t : Text) :
    trim (t ++ [c]) = trim t := by
  have hend : ∀ u : Text, trimEnd (u ++ [c]) = trimEnd u := fun u => by
    simp [trimEnd, dropEndWhile, hc]
  by_cases hall : ∀ d ∈ t, isBlank d = true
  · have hblank : ∀ d ∈ t ++ [c], isBlank d = true := by
      intro d hd
      rcases List.mem_append.mp hd with hd | hd
      · exact hall d hd
      · rw [List.mem_singleton.mp hd, hc]
    rw [trim, trim, trimStart, trimStart, List.dropWhile_eq_nil_iff.mpr hblank,
      List.dropWhile_eq_nil_iff.mpr hall]
  · have hne : trimStart t ≠ [] := fun he => hall (List.dropWhile_eq_nil_iff.mp he)
    have hstart : trimStart (t ++ [c]) = trimStart t ++ [c] := by
      rw [trimStart, List.dropWhile_append, if_neg (by simpa [trimStart] using hne)]
      rfl
    rw [trim, trim, hstart, hend]

/-- A line without the carriage return that belongs to its end. -/
def withoutReturn (t : Text) : Text := (beforeEnd? ['\r'] t).getD t

/-- The lines are the pieces between newlines, apart from an empty last one. -/
lemma exists_lines_eq (t : Text) : ∃ front last, splitOn (· == '\n') t = front ++ [last] ∧
    lines t = front.map withoutReturn ++ if last.isEmpty then [] else [last] := by
  rcases List.eq_nil_or_concat (splitOn (· == '\n') t) with h | ⟨front, last, h⟩
  · exact absurd h (splitOn_ne_nil t)
  · rw [List.concat_eq_append] at h
    refine ⟨front, last, h, ?_⟩
    rw [lines, cutLines, h, List.reverse_append, List.reverse_singleton, List.singleton_append]
    simp only [List.reverse_reverse]
    split <;> simp [withoutReturn, Function.comp_def]

/-- A condition that does not look at a carriage return at the end, and does not hold of nothing,
holds of a line of a text exactly if it holds of a piece between newlines. -/
lemma exists_mem_lines {q : Text → Prop} (hreturn : ∀ t, q (t ++ ['\r']) ↔ q t) (hnil : ¬ q [])
    (t : Text) : (∃ line ∈ lines t, q line) ↔ ∃ piece ∈ splitOn (· == '\n') t, q piece := by
  have hwithout : ∀ t, q (withoutReturn t) ↔ q t := by
    intro t
    unfold withoutReturn
    cases h : beforeEnd? ['\r'] t with
    | none => rfl
    | some u =>
      rw [of_beforeEnd?_eq_some h]
      exact (hreturn u).symm
  obtain ⟨front, last, hpieces, hlines⟩ := exists_lines_eq t
  rw [hpieces, hlines]
  simp only [List.mem_append, or_and_right, exists_or, List.mem_map, exists_exists_and_eq_and,
    hwithout, List.mem_singleton, exists_eq_left]
  refine or_congr_right ?_
  cases last with
  | nil => simpa using hnil
  | cons c last => simp

end Text

end Excerpt
