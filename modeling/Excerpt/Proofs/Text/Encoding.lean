import Excerpt.Proofs.Path.Texts
import Excerpt.Proofs.Text.Lines
import Excerpt.Text.Utf8

/-!
# Texts that were encoded

A text comes back from its encoding, whichever way the bytes are read: as symbols, or as a text. The
bytes of a character other than the newline are no newline bytes, so the lines of an encoded text are
the encoded lines of the text.
-/

namespace Excerpt

namespace Utf8

/-! ### One character -/

lemma toNat_lt (c : Char) : c.toNat < 0xD800 ∨ 0xDFFF < c.toNat ∧ c.toNat < 0x110000 := by
  have hvalid := c.valid
  simp only [UInt32.isValidChar, Nat.isValidChar] at hvalid
  change c.val.toNat < 0xD800 ∨ 0xDFFF < c.val.toNat ∧ c.val.toNat < 0x110000
  omega

lemma toNat_toUInt8 {n : Nat} (h : n < 256) : n.toUInt8.toNat = n := by
  rw [Nat.toUInt8, UInt8.toNat_ofNat']
  exact Nat.mod_eq_of_lt h

/-- A byte that continues a character is read. -/
lemma readTail_cons {count lo hi value width n : Nat} {rest : Bytes} (hn : n < 256) (hlo : lo ≤ n)
    (hhi : n ≤ hi) :
    readTail (count + 1) lo hi value width (n.toUInt8 :: rest) =
      readTail count 0x80 0xBF (value * 0x40 + (n - 0x80)) (width + 1) rest := by
  rw [readTail, toNat_toUInt8 hn, if_pos ⟨hlo, hhi⟩]

/-- A lead byte says how many bytes follow it. -/
lemma head_of_following {lead count lo hi : Nat} (h : following lead = some (count, lo, hi))
    (hlead : lead < 256) (rest : Bytes) :
    head lead.toUInt8 rest = readTail count lo hi (if count = 1 then lead - 0xC0
      else if count = 2 then lead - 0xE0 else lead - 0xF0) 1 rest := by
  have hlow : ¬ lead < 0x80 := by
    unfold following at h
    grind
  rw [head]
  simp only [toNat_toUInt8 hlead, h]
  rw [if_neg hlow]

/-- The second byte of a character of three bytes; the bounds on the lead bytes rule out overlong
forms and surrogates. -/
lemma following_of_three (lead second : Nat) (hlead : 0xE0 ≤ lead ∧ lead < 0xF0)
    (hsecond : 0x80 ≤ second ∧ second ≤ 0xBF) (hlow : lead = 0xE0 → 0xA0 ≤ second)
    (hhigh : lead = 0xED → second ≤ 0x9F) :
    ∃ lo hi, following lead = some (2, lo, hi) ∧ lo ≤ second ∧ second ≤ hi := by
  unfold following
  rw [if_neg (by omega), if_neg (by omega)]
  split
  · exact ⟨_, _, rfl, by omega, by omega⟩
  · split
    · exact ⟨_, _, rfl, by omega, by omega⟩
    · rw [if_pos (by omega)]
      exact ⟨_, _, rfl, by omega, by omega⟩

/-- The second byte of a character of four bytes; the bounds on the lead bytes rule out overlong
forms and values that are too large. -/
lemma following_of_four (lead second : Nat) (hlead : 0xF0 ≤ lead ∧ lead < 0xF5)
    (hsecond : 0x80 ≤ second ∧ second ≤ 0xBF) (hlow : lead = 0xF0 → 0x90 ≤ second)
    (hhigh : lead = 0xF4 → second ≤ 0x8F) :
    ∃ lo hi, following lead = some (3, lo, hi) ∧ lo ≤ second ∧ second ≤ hi := by
  unfold following
  rw [if_neg (by omega), if_neg (by omega), if_neg (by omega), if_neg (by omega), if_neg (by omega)]
  split
  · exact ⟨_, _, rfl, by omega, by omega⟩
  · split
    · exact ⟨_, _, rfl, by omega, by omega⟩
    · rw [if_pos (by omega)]
      exact ⟨_, _, rfl, by omega, by omega⟩

/-- An encoded character is read, whatever follows it. -/
lemma head_encodeChar (c : Char) : ∃ b bs, encodeChar c = b :: bs ∧
    ∀ more, head b (bs ++ more) = .char c (bs.length + 1) := by
  have hc := toNat_lt c
  have hback : Char.ofNat c.toNat = c := Char.ofNat_toNat c
  unfold encodeChar
  generalize c.toNat = n at hc hback
  simp only
  by_cases h₁ : n < 0x80
  · rw [if_pos h₁]
    refine ⟨_, [], rfl, fun more => ?_⟩
    rw [head]
    simp only [toNat_toUInt8 (show n < 256 by omega)]
    rw [if_pos h₁, hback]
    rfl
  rw [if_neg h₁]
  by_cases h₂ : n < 0x800
  · rw [if_pos h₂]
    have hfollowing : following (0xC0 + n / 0x40) = some (1, 0x80, 0xBF) := by
      unfold following
      rw [if_neg (by omega), if_pos (by omega)]
    have hvalue : (0xC0 + n / 0x40 - 0xC0) * 0x40 + (0x80 + n % 0x40 - 0x80) = n := by omega
    refine ⟨_, _, rfl, fun more => ?_⟩
    rw [head_of_following hfollowing (by omega), if_pos rfl, List.singleton_append,
      readTail_cons (by omega) (by omega) (by omega), readTail, hvalue, hback]
    rfl
  rw [if_neg h₂]
  by_cases h₃ : n < 0x10000
  · rw [if_pos h₃]
    obtain ⟨lo, hi, hfollowing, hlo, hhi⟩ := following_of_three (0xE0 + n / 0x1000)
      (0x80 + n / 0x40 % 0x40) (by omega) (by omega) (by omega) (by omega)
    have hvalue : ((0xE0 + n / 0x1000 - 0xE0) * 0x40 + (0x80 + n / 0x40 % 0x40 - 0x80)) * 0x40 +
        (0x80 + n % 0x40 - 0x80) = n := by omega
    refine ⟨_, _, rfl, fun more => ?_⟩
    rw [head_of_following hfollowing (by omega), if_neg (by decide), if_pos rfl, List.cons_append,
      List.singleton_append, readTail_cons (by omega) hlo hhi,
      readTail_cons (by omega) (by omega) (by omega), readTail, hvalue, hback]
    rfl
  · rw [if_neg h₃]
    obtain ⟨lo, hi, hfollowing, hlo, hhi⟩ := following_of_four (0xF0 + n / 0x40000)
      (0x80 + n / 0x1000 % 0x40) (by omega) (by omega) (by omega) (by omega)
    have hvalue : (((0xF0 + n / 0x40000 - 0xF0) * 0x40 + (0x80 + n / 0x1000 % 0x40 - 0x80)) * 0x40 +
        (0x80 + n / 0x40 % 0x40 - 0x80)) * 0x40 + (0x80 + n % 0x40 - 0x80) = n := by omega
    refine ⟨_, _, rfl, fun more => ?_⟩
    rw [head_of_following hfollowing (by omega), if_neg (by decide), if_neg (by decide),
      List.cons_append, List.cons_append, List.singleton_append, readTail_cons (by omega) hlo hhi,
      readTail_cons (by omega) (by omega) (by omega),
      readTail_cons (by omega) (by omega) (by omega), readTail, hvalue, hback]
    rfl

/-! ### Texts -/

lemma symbolsOnto_skip (bs : Bytes) (more : Bytes) (done : List Symbol) :
    symbolsOnto bs.length (bs ++ more) done = symbolsOnto 0 more done := by
  induction bs with
  | nil => rfl
  | cons b bs ih => rw [List.length_cons, List.cons_append, symbolsOnto, ih]

lemma lossyOnto_skip (bs : Bytes) (more : Bytes) (done : Text) :
    lossyOnto bs.length (bs ++ more) done = lossyOnto 0 more done := by
  induction bs with
  | nil => rfl
  | cons b bs ih => rw [List.length_cons, List.cons_append, lossyOnto, ih]

lemma encode_cons (c : Char) (t : Text) : encode (c :: t) = encodeChar c ++ encode t := by
  rw [encode, List.flatMap_cons]
  rfl

lemma symbolsOnto_encode (t : Text) (done : List Symbol) :
    symbolsOnto 0 (encode t) done = (t.map .char).reverse ++ done := by
  induction t generalizing done with
  | nil => rfl
  | cons c t ih =>
    obtain ⟨b, bs, hbytes, hhead⟩ := head_encodeChar c
    rw [encode_cons, hbytes, List.cons_append, symbolsOnto, hhead]
    simp only [Nat.add_sub_cancel]
    rw [symbolsOnto_skip, ih]
    simp

lemma lossyOnto_encode (t done : Text) : lossyOnto 0 (encode t) done = t.reverse ++ done := by
  induction t generalizing done with
  | nil => rfl
  | cons c t ih =>
    obtain ⟨b, bs, hbytes, hhead⟩ := head_encodeChar c
    rw [encode_cons, hbytes, List.cons_append, lossyOnto, hhead]
    simp only [Nat.add_sub_cancel]
    rw [lossyOnto_skip, ih]
    simp

/-- The symbols of an encoded text are its characters. -/
@[simp] theorem symbols_encode (t : Text) : symbols (encode t) = t.map .char := by
  rw [symbols, symbolsOnto_encode]
  simp

/-- An encoded text is read back. -/
@[simp] theorem lossy_encode (t : Text) : lossy (encode t) = t := by
  rw [lossy, lossyOnto_encode]
  simp

lemma encode_append (t u : Text) : encode (t ++ u) = encode t ++ encode u := List.flatMap_append

/-! ### Lines -/

/-- What stands before a list without being cut belongs to its first piece. -/
lemma splitOn_append_of_notMem {as : Bytes} (h : newline ∉ as) (bs : Bytes) :
    Text.splitOn (· == newline) (as ++ bs) =
      (Text.splitOn (· == newline) bs).modifyHead (as ++ ·) := by
  induction as with
  | nil =>
    obtain ⟨piece, rest, hs⟩ := List.exists_cons_of_ne_nil
      (Text.splitOn_ne_nil (p := (· == newline)) bs)
    rw [List.nil_append, hs]
    rfl
  | cons a as ih =>
    have ha : a ≠ newline := fun he => h (he ▸ List.mem_cons_self)
    obtain ⟨piece, rest, hs⟩ := List.exists_cons_of_ne_nil
      (Text.splitOn_ne_nil (p := (· == newline)) bs)
    rw [List.cons_append, Text.splitOn_cons, if_neg (by simpa using ha),
      ih fun hmem => h (List.mem_cons_of_mem _ hmem), hs]
    rfl

/-- The pieces of an encoded text are the encoded pieces of the text. -/
lemma splitOn_encode (t : Text) :
    Text.splitOn (· == newline) (encode t) = (Text.splitOn (· == '\n') t).map encode := by
  induction t with
  | nil => rfl
  | cons c t ih =>
    rw [encode_cons]
    by_cases hc : c = '\n'
    · subst hc
      have hnewline : encodeChar '\n' = [newline] := by decide
      rw [hnewline, List.singleton_append, Text.splitOn_cons_of_pos (by rfl),
        Text.splitOn_cons_of_pos (by rfl), ih]
      rfl
    · have hnot : newline ∉ encodeChar c := by
        intro hmem
        exact hc (Char.ext (UInt32.toNat_inj.mp (of_mem_encodeChar hmem (by decide))))
      obtain ⟨piece, rest, hs, he⟩ :=
        Text.splitOn_cons_of_neg (p := (· == '\n')) (beq_eq_false_iff_ne.mpr hc) t
      rw [splitOn_append_of_notMem hnot, ih, hs, he]
      simp only [List.map_cons, List.modifyHead_cons, encode_cons]

/-- The lines of an encoded text are the encoded lines of the text. -/
theorem cutLines_encode (t : Text) : Text.cutLines newline (encode t) =
    (Text.cutLines '\n' t).map fun line => (encode line.1, line.2) := by
  unfold Text.cutLines
  rw [splitOn_encode, ← List.map_reverse]
  cases hpieces : (Text.splitOn (· == '\n') t).reverse with
  | nil => rfl
  | cons last before =>
    have hempty : (encode last).isEmpty = last.isEmpty := by
      rw [Bool.eq_iff_iff, List.isEmpty_iff, List.isEmpty_iff, encode_eq_nil]
    simp only [List.map_cons, hempty, ← List.map_reverse, List.map_map]
    split
    · rw [List.map_map]
      rfl
    · rw [List.map_append, List.map_map]
      rfl

end Utf8

end Excerpt
