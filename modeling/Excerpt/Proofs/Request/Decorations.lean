import Excerpt.Proofs.Path.Texts
import Excerpt.Proofs.Text.Encoding
import Excerpt.Proofs.Text.Ends
import Excerpt.Request

/-!
# Decorations of test names

A test can be named by its directory, or by a page in it; in front of that may stand a slash and the
name of the directory of tests, and an anchor behind it. Each of these names is read as the same
directory, and the path of the directory does not depend on how many slashes are between its
segments.
-/

namespace Excerpt

/-! ### Texts joined to a path -/

namespace Path

/-- Whether a text is an absolute path is seen from its first character. -/
lemma isAbsolute_ofText_cons {c : Char} (h : c ≠ '/') (t : Text) :
    (ofText (c :: t)).isAbsolute = false := by
  have hfirst : (ofText [c]).isAbsolute = false := isAbsolute_ofText (by simpa using h.symm)
  obtain ⟨b, rest, hb⟩ := List.exists_cons_of_ne_nil (Utf8.encodeChar_ne_nil c)
  simpa [isAbsolute, ofText, Utf8.encode, hb] using hfirst

/-- A text behind a segment. -/
lemma join_ofText {seg t : Text} (hne : seg ≠ []) (hseg : '/' ∉ seg)
    (ht : (ofText t).isAbsolute = false) :
    (ofText seg).join (ofText t) = ofText (seg ++ '/' :: t) := by
  have hslash : slash ∉ (ofText seg).bytes := slash_notMem_encode hseg
  rcases join_bytes (p := ofText seg) ht with ⟨hnil, -⟩ | ⟨front, hfront, -⟩ | ⟨-, -, hjoin⟩
  · exact absurd (Utf8.encode_eq_nil.mp hnil) hne
  · rw [hfront] at hslash
    simp at hslash
  · rw [hjoin, ofText, ofText, ofText, Utf8.encode_append, Utf8.encode_cons]
    rfl

/-- Segments that are joined one after the other spell what they spell with slashes between them. -/
lemma foldl_joinText {segs : List Text} (hne : segs ≠ []) (h : ∀ t ∈ segs, t ≠ [] ∧ '/' ∉ t)
    (p : Path) : segs.foldl joinText p = p.joinText (Text.join ['/'] segs) := by
  induction segs generalizing p with
  | nil => exact absurd rfl hne
  | cons t segs ih =>
    cases segs with
    | nil => rfl
    | cons u segs =>
      obtain ⟨ht, hrest⟩ := List.forall_mem_cons.mp h
      have hrel : (ofText (Text.join ['/'] (u :: segs))).isAbsolute = false := by
        obtain ⟨c, more, rfl⟩ := List.exists_cons_of_ne_nil (hrest u List.mem_cons_self).1
        have hc : c ≠ '/' := by
          rintro rfl
          simpa using (hrest _ List.mem_cons_self).2
        cases segs <;> exact isAbsolute_ofText_cons hc _
      rw [List.foldl_cons, ih (by simp) hrest, joinText, joinText,
        join_join (isAbsolute_ofText ht.2) hrel, join_ofText ht.1 ht.2 hrel, joinText]
      simp [Text.join]

end Path

namespace TestName

variable {testsDir ext page dir a t : Text}

/-! ### Taking parts off -/

lemma dropAnchor_of_notMem (h : '#' ∉ t) : dropAnchor t = t := by
  rw [dropAnchor]
  cases hcut : Text.cutLast? (· == '#') t with
  | none => rfl
  | some parts =>
    obtain ⟨c, hc, rfl⟩ := Text.of_cutLast?_eq_some hcut
    obtain rfl : c = '#' := by simpa using hc
    exact absurd (by simp) h

lemma dropAnchor_append (ht : t ≠ []) (ha : '#' ∉ a) : dropAnchor (t ++ '#' :: a) = t := by
  simp [dropAnchor, Text.cutLast?_append_of_notMem ha, ht]

@[simp] lemma dropStart_append (piece t : Text) : dropStart piece (piece ++ t) = t := by
  simp [dropStart]

lemma dropStart_of_not_prefix {piece : Text} (h : ¬ piece <+: t) : dropStart piece t = t := by
  simp [dropStart, Text.afterStart?, h]

lemma dropPage_append (ht : t ≠ []) (hpage : '/' ∉ page) : dropPage (t ++ '/' :: page) = t := by
  simp [dropPage, Text.cutLast?_append_of_notMem hpage, ht]

/-! ### Decorations -/

/-- A directory of tests whose name neither starts with a slash nor has an anchor in it. -/
structure IsTestsDir (testsDir : Text) : Prop where
  ne_nil : testsDir ≠ []
  noRoot : ¬ ['/'] <+: testsDir
  noAnchor : '#' ∉ testsDir

/-- Nothing can be taken off the name but a page. -/
structure Undecorated (testsDir t : Text) : Prop where
  ne_nil : t ≠ []
  noRoot : ¬ ['/'] <+: t
  noAnchor : '#' ∉ t
  notBeneath : ¬ testsDir ++ ['/'] <+: t

/-- What stands around a name: a slash and the directory of tests in front of it, and an anchor. -/
structure Decoration where
  slash : Bool
  tests : Bool
  anchor : Option Text
  deriving DecidableEq, Repr

/-- The name with a decoration around it. -/
def Decoration.around (d : Decoration) (testsDir t : Text) : Text :=
  (if d.slash then ['/'] else []) ++ ((if d.tests then testsDir ++ ['/'] else []) ++ t) ++
    match d.anchor with
    | some a => '#' :: a
    | none => []

/-- A page of the directory. -/
def withPage (dir page ext : Text) : Text := dir ++ '/' :: (page ++ '.' :: ext)

/-- A name is read without its decoration. -/
lemma Undecorated.dropStart_dropAnchor (htests : IsTestsDir testsDir) (h : Undecorated testsDir t)
    (d : Decoration) (hanchor : ∀ a ∈ d.anchor, '#' ∉ a) :
    dropStart (testsDir ++ ['/']) (dropStart ['/'] (dropAnchor (d.around testsDir t))) = t := by
  obtain ⟨slash, tests, anchor⟩ := d
  -- The anchor goes first.
  have hname : dropAnchor ((Decoration.mk slash tests anchor).around testsDir t) =
      (if slash then ['/'] else []) ++ ((if tests then testsDir ++ ['/'] else []) ++ t) := by
    cases anchor with
    | none =>
      rw [Decoration.around, List.append_nil]
      apply dropAnchor_of_notMem
      split_ifs <;> simp [htests.noAnchor, h.noAnchor]
    | some a =>
      apply dropAnchor_append _ (hanchor a rfl)
      simp [h.ne_nil]
  -- Behind it, neither the name nor the directory of tests starts with a slash.
  have hslash : dropStart ['/'] ((if slash then ['/'] else []) ++
      ((if tests then testsDir ++ ['/'] else []) ++ t)) =
      (if tests then testsDir ++ ['/'] else []) ++ t := by
    cases slash with
    | true => exact dropStart_append ['/'] _
    | false =>
      apply dropStart_of_not_prefix
      cases tests with
      | true =>
        have hroot := htests.noRoot
        obtain ⟨b, more, rfl⟩ := List.exists_cons_of_ne_nil htests.ne_nil
        simpa using hroot
      | false => exact h.noRoot
  rw [hname, hslash]
  cases tests with
  | true => exact dropStart_append _ t
  | false => exact dropStart_of_not_prefix h.notBeneath

/-- With a page in it, a directory is still outside of the directory of tests: the slash behind the
name of that could only be the one in front of the page. -/
lemma Undecorated.withPage (h : Undecorated testsDir dir) (hne : dir ≠ testsDir)
    (hpage : '/' ∉ page ∧ '#' ∉ page) (hext : '/' ∉ ext ∧ '#' ∉ ext) :
    Undecorated testsDir (withPage dir page ext) where
  ne_nil := by simp [TestName.withPage]
  noRoot := by
    have hroot := h.noRoot
    obtain ⟨c, rest, rfl⟩ := List.exists_cons_of_ne_nil h.ne_nil
    simpa [TestName.withPage] using hroot
  noAnchor := by simp [TestName.withPage, h.noAnchor, hpage.2, hext.2]
  notBeneath := by
    intro hbeneath
    have hdir : dir ++ ['/'] <+: TestName.withPage dir page ext :=
      ⟨page ++ '.' :: ext, by simp [TestName.withPage]⟩
    rcases List.prefix_or_prefix_of_prefix hbeneath hdir with hshort | hlong
    · rcases List.prefix_concat_iff.mp hshort with heq | hshort
      · exact hne (List.append_cancel_right heq).symm
      · exact h.notBeneath hshort
    · rcases List.prefix_concat_iff.mp hlong with heq | ⟨more, rfl⟩
      · exact hne (List.append_cancel_right heq)
      · have hslash : more ++ ['/'] <+: page ++ '.' :: ext := by
          simpa [TestName.withPage] using hbeneath
        have hmem : '/' ∈ page ++ '.' :: ext := hslash.subset (by simp)
        simp [hpage.1, hext.1] at hmem

/-- The name is read as this directory and page, and it leads to the directory. -/
structure LeadsTo (name : TestName) (dir : Text) (descriptor : Option Text) : Prop where
  dir_eq : name.dir = dir
  descriptor_eq : name.descriptor = descriptor
  resolve_eq : ∀ root : Path, name.resolve root =
    root.joinText (Text.join ['/'] ((Text.splitOn (· == '/') dir).filter (!·.isEmpty)))

/-- A directory has a segment that is not empty. -/
lemma segments_ne_nil (hne : t ≠ []) (hroot : ¬ ['/'] <+: t) :
    (Text.splitOn (· == '/') t).filter (!·.isEmpty) ≠ [] := by
  obtain ⟨c, rest, rfl⟩ := List.exists_cons_of_ne_nil hne
  have hc : (c == '/') = false := by
    rw [beq_eq_false_iff_ne]
    rintro rfl
    simp at hroot
  obtain ⟨seg, segs, -, hsegs⟩ := Text.splitOn_cons_of_neg (p := (· == '/')) hc rest
  rw [hsegs]
  simp

lemma leadsTo_mk (hne : dir ≠ []) (hroot : ¬ ['/'] <+: dir) (descriptor : Option Text) :
    LeadsTo ⟨dir, descriptor⟩ dir descriptor where
  dir_eq := rfl
  descriptor_eq := rfl
  resolve_eq root := by
    rw [resolve, resolveText]
    apply Path.foldl_joinText (segments_ne_nil hne hroot)
    intro seg hseg
    obtain ⟨hmem, hnonempty⟩ := List.mem_filter.mp hseg
    constructor
    · simpa using hnonempty
    · intro hslash
      simpa using (Text.of_mem_splitOn hmem '/' hslash).2

/-- However a directory is decorated, by itself or with a page, its name leads to it. By itself it
must not be taken for a page. -/
theorem parse_around (htests : IsTestsDir testsDir) (hext : '/' ∉ ext ∧ '#' ∉ ext)
    (hpage : '/' ∉ page ∧ '#' ∉ page) (hdir : Undecorated testsDir dir) (hne : dir ≠ testsDir)
    (d : Decoration) (hanchor : ∀ a ∈ d.anchor, '#' ∉ a) :
    (¬ '.' :: ext <:+ dir → LeadsTo (parse (d.around testsDir dir) testsDir ext) dir none) ∧
      LeadsTo (parse (d.around testsDir (withPage dir page ext)) testsDir ext) dir
        (some (withPage dir page ext)) := by
  have hwith := hdir.withPage hne hpage hext
  have hleads := leadsTo_mk hdir.ne_nil hdir.noRoot
  constructor
  · intro hsuffix
    have hparse : parse (d.around testsDir dir) testsDir ext = ⟨dir, none⟩ := by
      simp only [parse, hdir.dropStart_dropAnchor htests d hanchor, List.isSuffixOf_iff_suffix,
        if_neg hsuffix]
    rw [hparse]
    exact hleads none
  · have hsuffix : '.' :: ext <:+ withPage dir page ext := ⟨dir ++ '/' :: page, by simp [withPage]⟩
    have hdrop : dropPage (withPage dir page ext) = dir :=
      dropPage_append hdir.ne_nil (by simp [hpage.1, hext.1])
    have hparse : parse (d.around testsDir (withPage dir page ext)) testsDir ext =
        ⟨dir, some (withPage dir page ext)⟩ := by
      simp only [parse, hwith.dropStart_dropAnchor htests d hanchor, List.isSuffixOf_iff_suffix,
        if_pos hsuffix, hdrop]
    rw [hparse]
    exact hleads _

/-- A directory with extra slashes, decorated in all three ways. -/
theorem parse_around_api :
    LeadsTo (parse "/tests/api//Foo/#Foo0001".toList "tests".toList "html".toList)
      "api//Foo/".toList none ∧
    LeadsTo (parse "/tests/api//Foo//index.html#Foo0001".toList "tests".toList "html".toList)
      "api//Foo/".toList (some "api//Foo//index.html".toList) := by
  have htests : IsTestsDir "tests".toList := ⟨by decide, by decide, by decide⟩
  have hext : '/' ∉ "html".toList ∧ '#' ∉ "html".toList := by decide
  have hpage : '/' ∉ "index".toList ∧ '#' ∉ "index".toList := by decide
  have hdir : Undecorated "tests".toList "api//Foo/".toList :=
    ⟨by decide, by decide, by decide, by decide⟩
  have hleads := parse_around htests hext hpage hdir (by decide) ⟨true, true, some "Foo0001".toList⟩
    (by simp)
  exact ⟨hleads.1 (by decide), hleads.2⟩

end TestName

end Excerpt
