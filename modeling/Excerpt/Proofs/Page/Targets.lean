import Excerpt.Page
import Excerpt.Proofs.Text.Pieces

/-!
# What a link says

A link is relative if it neither names a scheme nor starts with a slash; its path stands before its
query and its anchor. A path that is read from a link is always the one that the link says. But a
relative link is not followed if it has `://` anywhere, be it in its query, or if the first colon in
it comes before every slash, be it in its anchor.
-/

namespace Excerpt

namespace Page

variable {link path w : Text}

/-! ### Relative links -/

/-- The link starts with a scheme: a colon comes before every slash, query and anchor. -/
def HasScheme (w : Text) : Prop :=
  ∃ scheme rest, w = scheme ++ ':' :: rest ∧ '/' ∉ scheme ∧ '?' ∉ scheme ∧ '#' ∉ scheme

/-- The path stands at the front of the link, and nothing, a query or an anchor behind it. -/
structure IsPathPart (path w : Text) : Prop where
  cut : ∃ rest, w = path ++ rest ∧ (rest = [] ∨ rest.head? = some '?' ∨ rest.head? = some '#')
  noQuery : '?' ∉ path
  noAnchor : '#' ∉ path

/-- The link is relative, and it has this path. -/
structure Says (w path : Text) : Prop where
  ne_nil : path ≠ []
  isPathPart : IsPathPart path w
  noRoot : w.head? ≠ some '/'
  noScheme : ¬ HasScheme w

/-- What is taken for a scheme: `://` anywhere, or a colon with no slash in front of it. -/
def LooksExternal (w : Text) : Prop :=
  "://".toList <:+: w ∨ ∃ front rest, w = front ++ ':' :: rest ∧ '/' ∉ front

lemma HasScheme.looksExternal (h : HasScheme w) : LooksExternal w := by
  obtain ⟨scheme, rest, hw, hslash, -, -⟩ := h
  exact Or.inr ⟨scheme, rest, hw, hslash⟩

/-! ### Reading a link -/

/-- The path of a link is what stands before the first `#` or `?`. -/
lemma isPathPart_iff : IsPathPart path w ↔ (w.takeWhile fun c => !(c == '#' || c == '?')) = path := by
  constructor
  · rintro ⟨⟨rest, rfl, hrest⟩, hquery, hanchor⟩
    have hpath : ∀ c ∈ path, (!(c == '#' || c == '?')) = true := by
      intro c hc
      have hne : c ≠ '#' ∧ c ≠ '?' := by
        constructor <;> rintro rfl
        · exact hanchor hc
        · exact hquery hc
      simp [hne]
    rw [List.takeWhile_append_of_pos hpath]
    rcases hrest with rfl | hhead | hhead
    · simp
    · obtain ⟨more, rfl⟩ := List.head?_eq_some_iff.mp hhead
      simp
    · obtain ⟨more, rfl⟩ := List.head?_eq_some_iff.mp hhead
      simp
  · rintro rfl
    have hkept := List.all_eq_true.mp (List.all_takeWhile (p := fun c => !(c == '#' || c == '?'))
      (l := w))
    refine ⟨⟨_, List.takeWhile_append_dropWhile.symm, ?_⟩, ?_, ?_⟩
    · cases hdrop : w.dropWhile fun c => !(c == '#' || c == '?') with
      | nil => exact Or.inl rfl
      | cons c rest =>
        have hc := List.head_dropWhile_not (fun c => !(c == '#' || c == '?')) (l := w)
          (by rw [hdrop]; simp)
        simp only [hdrop, List.head_cons, Bool.not_eq_false', Bool.or_eq_true, beq_iff_eq] at hc
        rcases hc with rfl | rfl <;> simp
    · intro hmem
      simpa using hkept _ hmem
    · intro hmem
      simpa using hkept _ hmem

/-- If there is no slash in front of some colon, there is none in front of the first one. -/
lemma noSlash_iff_of_cutFirst? {scheme after : Text}
    (hcut : Text.cutFirst? (· == ':') w = some (scheme, after)) :
    '/' ∉ scheme ↔ ∃ front rest, w = front ++ ':' :: rest ∧ '/' ∉ front := by
  obtain ⟨c, hc, hw⟩ := Text.of_cutFirst?_eq_some hcut
  obtain rfl : c = ':' := by simpa using hc
  constructor
  · intro hslash
    exact ⟨scheme, after, hw, hslash⟩
  · rintro ⟨front, rest, hfront, hslash⟩ hmem
    apply hslash
    have hscheme : scheme <+: w := ⟨_, hw.symm⟩
    have hlength : scheme.length ≤ front.length := by
      by_contra hlong
      -- Otherwise the colon behind `front` would be in front of the first colon.
      have hbefore : front ++ [':'] <+: scheme := by
        have hlink : front ++ [':'] <+: w := ⟨rest, by simp [hfront]⟩
        apply List.prefix_of_prefix_length_le hlink hscheme
        simp only [List.length_append, List.length_singleton]
        omega
      have hcolon := Text.forall_of_cutFirst? hcut ':' (hbefore.subset (by simp))
      simp at hcolon
    exact (List.prefix_of_prefix_length_le hscheme ⟨_, hfront.symm⟩ hlength).subset hmem

/-- When a link is read, and what is read from it. -/
lemma relativeTarget?_cases (link : Text) : ∃ scheme : Bool,
    (scheme = true ↔ ∃ front rest, Text.trim link = front ++ ':' :: rest ∧ '/' ∉ front) ∧
    relativeTarget? link =
      if (Text.trim link).isEmpty || (Text.trim link).head? == some '/' ||
        (Text.trim link).head? == some '#' || Text.hasPiece "://".toList (Text.trim link) || scheme
      then none
      else if ((Text.trim link).takeWhile fun c => !(c == '#' || c == '?')).isEmpty then none
      else some ((Text.trim link).takeWhile fun c => !(c == '#' || c == '?')) := by
  rw [relativeTarget?]
  generalize Text.trim link = w
  cases hcut : Text.cutFirst? (· == ':') w with
  | none =>
    refine ⟨false, ?_, rfl⟩
    have hnone := Text.of_cutFirst?_eq_none hcut
    simp only [Bool.false_eq_true, false_iff, not_exists, not_and]
    rintro front rest rfl
    simpa using hnone ':' (by simp)
  | some parts =>
    refine ⟨!parts.1.contains '/', ?_, rfl⟩
    simpa using noSlash_iff_of_cutFirst? hcut

/-- What is said by a link starts it. -/
lemma Says.head?_eq (h : Says w path) : w.head? = path.head? := by
  obtain ⟨rest, rfl, -⟩ := h.isPathPart.cut
  obtain ⟨c, more, rfl⟩ := List.exists_cons_of_ne_nil h.ne_nil
  rfl

/-- A path that is read from a link is the one that the link says, and every relative link that does
not look external is read. -/
theorem relativeTarget?_eq_some_iff :
    relativeTarget? link = some path ↔
      Says (Text.trim link) path ∧ ¬ LooksExternal (Text.trim link) := by
  obtain ⟨scheme, hscheme, hread⟩ := relativeTarget?_cases link
  rw [hread]
  generalize Text.trim link = w at hscheme hread ⊢
  have hexternal : LooksExternal w ↔ Text.hasPiece "://".toList w = true ∨ scheme = true := by
    rw [hscheme, Text.hasPiece_iff]
    rfl
  constructor
  · intro h
    split_ifs at h with hcheck hne
    simp only [Bool.or_eq_true, not_or, beq_iff_eq] at hcheck
    obtain ⟨⟨⟨⟨-, hroot⟩, -⟩, hpiece⟩, hcolon⟩ := hcheck
    have hkept : ¬ LooksExternal w := by
      rw [hexternal, not_or]
      exact ⟨hpiece, hcolon⟩
    rw [Option.some.injEq] at h
    refine ⟨⟨?_, isPathPart_iff.mpr h, hroot, ?_⟩, hkept⟩
    · rintro rfl
      exact hne (List.isEmpty_iff.mpr h)
    · intro hnamed
      exact hkept hnamed.looksExternal
  · rintro ⟨hsaid, hkept⟩
    rw [hexternal, not_or] at hkept
    have hhead := hsaid.head?_eq
    have hempty : w ≠ [] := by
      rintro rfl
      have hnil : path = [] := List.head?_eq_none_iff.mp hhead.symm
      exact hsaid.ne_nil hnil
    have hanchor : w.head? ≠ some '#' := by
      rw [hhead]
      intro h
      exact hsaid.isPathPart.noAnchor (List.mem_of_head? h)
    rw [isPathPart_iff.mp hsaid.isPathPart, if_neg, if_neg]
    · simpa using hsaid.ne_nil
    · simp only [Bool.or_eq_true, not_or, beq_iff_eq, List.isEmpty_iff]
      exact ⟨⟨⟨⟨hempty, hsaid.noRoot⟩, hanchor⟩, hkept.1⟩, hkept.2⟩

/-! ### Relative links that are lost -/

/-- A character that no scheme has. -/
def endsScheme (c : Char) : Bool := c == ':' || c == '/' || c == '?' || c == '#'

/-- Among the characters that no scheme has, the colon is the first. -/
lemma hasScheme_iff : HasScheme w ↔ (w.dropWhile (!endsScheme ·)).head? = some ':' := by
  constructor
  · rintro ⟨scheme, rest, rfl, hslash, hquery, hanchor⟩
    induction scheme with
    | nil => simp [endsScheme]
    | cons c scheme ih =>
      simp only [List.mem_cons, not_or] at hslash hquery hanchor
      by_cases hc : c = ':'
      · simp [endsScheme, hc]
      · have hkeep : (!endsScheme c) = true := by
          simp [endsScheme, hc, Ne.symm hslash.1, Ne.symm hquery.1, Ne.symm hanchor.1]
        rw [List.cons_append, List.dropWhile_cons, if_pos hkeep]
        exact ih hslash.2 hquery.2 hanchor.2
  · intro h
    obtain ⟨rest, hrest⟩ := List.head?_eq_some_iff.mp h
    have hkept : ∀ c ∈ w.takeWhile (!endsScheme ·), (!endsScheme c) = true :=
      List.all_eq_true.mp List.all_takeWhile
    refine ⟨w.takeWhile (!endsScheme ·), rest, ?_, ?_, ?_, ?_⟩
    · rw [← hrest]
      exact List.takeWhile_append_dropWhile.symm
    all_goals
      intro hmem
      exact absurd (hkept _ hmem) (by decide)

instance (w : Text) : Decidable (HasScheme w) := decidable_of_iff' _ hasScheme_iff

instance (path w : Text) : Decidable (IsPathPart path w) := decidable_of_iff' _ isPathPart_iff

instance (w path : Text) : Decidable (Says w path) :=
  decidable_of_iff (path ≠ [] ∧ IsPathPart path w ∧ w.head? ≠ some '/' ∧ ¬ HasScheme w)
    ⟨fun h => ⟨h.1, h.2.1, h.2.2.1, h.2.2.2⟩,
      fun h => ⟨h.ne_nil, h.isPathPart, h.noRoot, h.noScheme⟩⟩

/-- Links to a file beside the page with a colon in the query or in the anchor, and a link with `://`
in a later segment, are relative, but they are not followed. -/
theorem relativeTarget?_loses_colons :
    Says "a.txt?u=http://x".toList "a.txt".toList ∧
      relativeTarget? "a.txt?u=http://x".toList = none ∧
      Says "a.txt#n:m".toList "a.txt".toList ∧ relativeTarget? "a.txt#n:m".toList = none ∧
      Says "d/a://b".toList "d/a://b".toList ∧ relativeTarget? "d/a://b".toList = none := by
  decide

end Page

end Excerpt
