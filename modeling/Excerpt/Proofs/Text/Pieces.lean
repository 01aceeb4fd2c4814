import Excerpt.Proofs.Text.Ends
import Mathlib.Data.List.Find
import Mathlib.Data.List.Infix

/-!
# Pieces of a text

A piece occurs in a text where it is an infix of it. `Text.substitute` replaces the occurrences of
several pieces in one pass, and what it has put in is not looked at again; with a single piece it is
`Text.replace`. The pass can be cut wherever no occurrence reaches over the cut, so the parts of a
text that was put together are treated one by one.
-/

namespace Excerpt

namespace Text

variable {piece new front rest t u : Text} {table : List (Text × Text)} {c : Char}

/-! ### Occurrences -/

lemma cutAt?_eq_some {before after : Text} (h : cutAt? piece t = some (before, after)) :
    t = before ++ piece ++ after := by
  induction t generalizing before with
  | nil =>
    simp only [cutAt?, List.isEmpty_iff] at h
    split at h
    · cases h
      simpa
    · cases h
  | cons c t ih =>
    rw [cutAt?, afterStart?] at h
    by_cases hfront : piece <+: c :: t
    · obtain ⟨more, hmore⟩ := hfront
      simp [← hmore] at h
      obtain ⟨rfl, rfl⟩ := h
      exact hmore.symm
    · simp only [List.isPrefixOf_iff_prefix, hfront, if_false, Option.map_eq_some_iff,
        Prod.mk.injEq, Prod.exists] at h
      obtain ⟨before', after', hcut, rfl, rfl⟩ := h
      rw [ih hcut]
      simp

lemma cutAt?_append_isSome (front rest : Text) : (cutAt? piece (front ++ piece ++ rest)).isSome := by
  induction front with
  | nil =>
    cases hwhole : [] ++ piece ++ rest with
    | nil =>
      have hpiece : piece = [] := by simp_all
      simp [cutAt?, hpiece]
    | cons c t =>
      have hfront : piece <+: c :: t := by
        rw [← hwhole]
        simp
      simp [cutAt?, afterStart?, List.isPrefixOf_iff_prefix.mpr hfront]
  | cons c front ih =>
    rw [List.cons_append, List.cons_append, cutAt?]
    split
    · rfl
    · simpa using ih

/-- Looking for a piece finds out whether it occurs. -/
lemma hasPiece_iff : hasPiece piece t = true ↔ piece <:+: t := by
  rw [hasPiece]
  constructor
  · intro h
    obtain ⟨⟨before, after⟩, hcut⟩ := Option.isSome_iff_exists.mp h
    exact ⟨before, after, (cutAt?_eq_some hcut).symm⟩
  · rintro ⟨front, rest, rfl⟩
    exact cutAt?_append_isSome front rest

/-! ### Replacing several pieces in one pass -/

/-- Replaces, from left to right, each piece of a table by the text beside it; `skip` characters
belong to an occurrence that has been replaced already. -/
def substituteFrom (table : List (Text × Text)) : (skip : Nat) → Text → Text
  | _, [] => []
  | skip + 1, _ :: rest => substituteFrom table skip rest
  | 0, c :: rest =>
    match table.find? (·.1.isPrefixOf (c :: rest)) with
    | some entry => entry.2 ++ substituteFrom table (entry.1.length - 1) rest
    | none => c :: substituteFrom table 0 rest

/-- The text with every piece of a table replaced, all in one pass: no occurrence is looked for in
what was put in. -/
def substitute (table : List (Text × Text)) (t : Text) : Text := substituteFrom table 0 t

@[simp] lemma substitute_nil : substitute table [] = [] := rfl

lemma substituteFrom_append (front rest : Text) :
    substituteFrom table front.length (front ++ rest) = substitute table rest := by
  induction front with
  | nil => rfl
  | cons c front ih => simpa [substituteFrom] using ih

/-- At an occurrence the text beside the piece is put in, and the pass goes on behind it. -/
lemma substitute_of_find {entry : Text × Text} (hne : entry.1 ≠ [])
    (h : table.find? (·.1.isPrefixOf (entry.1 ++ t)) = some entry) :
    substitute table (entry.1 ++ t) = entry.2 ++ substitute table t := by
  obtain ⟨c, more, hpiece⟩ := List.exists_cons_of_ne_nil hne
  rw [hpiece, List.cons_append] at h ⊢
  rw [substitute, substituteFrom, h]
  simp only [hpiece, List.length_cons, Nat.add_sub_cancel]
  rw [substituteFrom_append]

lemma substitute_of_find_eq_none (h : table.find? (·.1.isPrefixOf (c :: t)) = none) :
    substitute table (c :: t) = c :: substitute table t := by
  rw [substitute, substituteFrom, h]
  rfl

/-- Replacing one piece is a pass with one piece. -/
lemma replace_eq_substitute (hne : piece ≠ []) (new t : Text) :
    replace piece new t = substitute [(piece, new)] t := by
  have hfrom : ∀ skip, replaceFrom piece new skip t = substituteFrom [(piece, new)] skip t := by
    induction t with
    | nil =>
      intro skip
      cases skip <;> rfl
    | cons c t ih =>
      intro skip
      cases skip with
      | succ skip => exact ih skip
      | zero =>
        by_cases hfront : piece.isPrefixOf (c :: t) = true
        · simp [replaceFrom, substituteFrom, hfront, ih]
        · simp [replaceFrom, substituteFrom, hfront, ih]
  rw [replace, if_neg (by simpa using hne)]
  exact hfrom 0

/-! ### Cutting a pass -/

/-- No occurrence of the piece reaches from `front` into `rest`. -/
def Apart (piece front rest : Text) : Prop :=
  ∀ u v, u ≠ [] → v ≠ [] → piece = u ++ v → u <:+ front → ¬ v <+: rest

/-- A shorter text in front of the cut gives less room. -/
lemma Apart.of_suffix (h : Apart piece front rest) (hsuffix : u <:+ front) : Apart piece u rest :=
  fun a b ha hb hpiece hback => h a b ha hb hpiece (hback.trans hsuffix)

/-- The text behind the cut starts with a character that the piece does not have. -/
lemma apart_of_notMem (hc : c ∉ piece) (front rest : Text) : Apart piece front (c :: rest) := by
  rintro u v - hv rfl - hstart
  obtain ⟨d, more, rfl⟩ := List.exists_cons_of_ne_nil hv
  obtain ⟨rfl, -⟩ := List.cons_prefix_cons.mp hstart
  apply hc
  simp

/-- The text in front of the cut ends in nothing that the piece starts with. -/
lemma apart_of_inits (h : ∀ u ∈ piece.inits, u ≠ [] → ¬ u <:+ front) (rest : Text) :
    Apart piece front rest := by
  rintro u v hu - rfl hback
  refine absurd hback (h u ?_ hu)
  simp

/-- Over such a cut no occurrence at the front is found, and none is lost. -/
lemma Apart.isPrefixOf_append (h : Apart piece front rest) (hfront : front ≠ []) :
    piece.isPrefixOf (front ++ rest) = piece.isPrefixOf front := by
  rw [Bool.eq_iff_iff, List.isPrefixOf_iff_prefix, List.isPrefixOf_iff_prefix]
  constructor
  · intro hpiece
    rcases Nat.le_total piece.length front.length with hle | hle
    · exact List.prefix_of_prefix_length_le hpiece (List.prefix_append front rest) hle
    · obtain ⟨v, rfl⟩ := List.prefix_of_prefix_length_le (List.prefix_append front rest) hpiece hle
      rw [List.prefix_append_right_inj] at hpiece
      by_cases hnil : v = []
      · simp [hnil]
      · exact absurd hpiece (h front v hfront hnil rfl List.suffix_rfl)
  · intro hpiece
    exact hpiece.trans (List.prefix_append front rest)

/-- A pass can be cut where no occurrence reaches over the cut. The induction is on the length of
the text in front of it, since a whole occurrence is taken at a time. -/
theorem substitute_append (hne : ∀ entry ∈ table, entry.1 ≠ [])
    (h : ∀ entry ∈ table, Apart entry.1 front rest) :
    substitute table (front ++ rest) = substitute table front ++ substitute table rest := by
  induction hlength : front.length using Nat.strong_induction_on generalizing front with
  | _ n ih =>
    cases front with
    | nil => rfl
    | cons c t =>
      have hfind : table.find? (·.1.isPrefixOf (c :: t ++ rest)) =
          table.find? (·.1.isPrefixOf (c :: t)) := by
        apply List.find?_congr
        intro entry hentry
        exact (h entry hentry).isPrefixOf_append (by simp)
      cases hfound : table.find? (·.1.isPrefixOf (c :: t)) with
      | none =>
        rw [hfound, List.cons_append] at hfind
        have hrest := ih t.length (by simp [← hlength])
          (fun entry hentry => (h entry hentry).of_suffix (List.suffix_cons c t)) rfl
        rw [substitute_of_find_eq_none hfound, List.cons_append,
          substitute_of_find_eq_none hfind, hrest, List.cons_append]
      | some entry =>
        have hmem := List.mem_of_find?_eq_some hfound
        have hpiece := List.find?_some hfound
        obtain ⟨more, hmore⟩ := List.isPrefixOf_iff_prefix.mp hpiece
        have hpos := List.length_pos_of_ne_nil (hne entry hmem)
        have hshorter : more.length < n := by
          rw [← hlength, ← hmore, List.length_append]
          omega
        have hrest := ih more.length hshorter
          (fun e he => (h e he).of_suffix (hmore ▸ List.suffix_append entry.1 more)) rfl
        rw [hfound] at hfind
        rw [← hmore] at hfound hfind ⊢
        rw [List.append_assoc] at hfind ⊢
        rw [substitute_of_find (hne entry hmem) hfind, substitute_of_find (hne entry hmem) hfound,
          hrest, List.append_assoc]

/-- A text in which no piece occurs stays as it is. -/
lemma substitute_of_notInfix (h : ∀ entry ∈ table, ¬ entry.1 <:+: t) : substitute table t = t := by
  induction t with
  | nil => rfl
  | cons c t ih =>
    have hfind : table.find? (·.1.isPrefixOf (c :: t)) = none := by
      simp only [List.find?_eq_none, List.isPrefixOf_iff_prefix]
      intro entry hentry hfront
      exact h entry hentry hfront.isInfix
    rw [substitute_of_find_eq_none hfind, ih]
    intro entry hentry hlater
    exact h entry hentry (hlater.trans (List.suffix_cons c t).isInfix)

lemma replace_of_notInfix (h : ¬ piece <:+: t) (new : Text) : replace piece new t = t := by
  have hne : piece ≠ [] := by
    rintro rfl
    exact h List.nil_infix
  rw [replace_eq_substitute hne]
  apply substitute_of_notInfix
  simpa

lemma replace_self (hne : piece ≠ []) (new : Text) : replace piece new piece = new := by
  have hentry : [(piece, new)].find? (·.1.isPrefixOf ((piece, new).1 ++ [])) = some (piece, new) := by
    simp
  rw [replace_eq_substitute hne]
  simpa using substitute_of_find hne hentry

end Text

end Excerpt
