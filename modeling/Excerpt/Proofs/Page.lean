import Excerpt.Assembly
import Excerpt.Page
import Excerpt.Proofs.Path.Beneath
import Excerpt.Proofs.Scan.Selecting
import Excerpt.Proofs.Store.Places

/-!
# What the links of a page lead to

Whatever a page says, its links give exactly the regular files beneath the corpus that one of them
names: with all links of the file system followed, and as long as the canonical path of the file is
short enough to be looked up. Such a file is not a link itself, and it has a place in the output.
-/

namespace Excerpt

open Store

namespace Page

variable {s t : Store} {c l : Location} {node : Node} {dir corpus output page file : Path}
  {found : Links} {link text : Text} {sc : Scanner}

/-! ### Following links -/

/-- Following the link from a directory gives the file. -/
def Keeps (s : Store) (dir corpus : Path) (link : Text) (file : Path) : Prop :=
  ∃ rel, relativeTarget? link = some rel ∧ s.canonical (dir.joinText rel) = .ok file ∧
    s.isFile file = true ∧ file.startsWith corpus = true

lemma mem_follow : file ∈ (follow s dir corpus found link).files ↔
    file ∈ found.files ∨ Keeps s dir corpus link file := by
  unfold follow Keeps
  split
  · rename_i hrel
    simp [hrel]
  · rename_i rel hrel
    split
    · rename_i hcanonical
      simp [hrel, hcanonical]
    · rename_i target hcanonical
      split_ifs with hkeep
      · rw [Bool.and_eq_true] at hkeep
        constructor
        · intro h
          rcases List.mem_append.mp h with h | h
          · exact Or.inl h
          · rw [List.mem_singleton.mp h]
            exact Or.inr ⟨rel, hrel, hcanonical, hkeep⟩
        · rintro (h | ⟨rel', hrel', hcanonical', -⟩)
          · exact List.mem_append_left _ h
          · cases hrel.symm.trans hrel'
            cases hcanonical.symm.trans hcanonical'
            exact List.mem_append_right _ (List.mem_singleton_self _)
      · refine ⟨Or.inl, ?_⟩
        rintro (h | ⟨rel', hrel', hcanonical', hkeep'⟩)
        · exact h
        · cases hrel.symm.trans hrel'
          cases hcanonical.symm.trans hcanonical'
          exact absurd (by rw [hkeep'.1, hkeep'.2]; rfl) hkeep

/-- Following links one after the other gives what each of them gives. -/
theorem mem_foldl_follow {links : List Text} :
    file ∈ (links.foldl (follow s dir corpus) found).files ↔
      file ∈ found.files ∨ ∃ link ∈ links, Keeps s dir corpus link file := by
  induction links generalizing found with
  | nil => simp
  | cons link links ih =>
    rw [List.foldl_cons, ih, mem_follow, List.exists_mem_cons_iff]
    exact or_assoc

/-- A file is given by one of the links. -/
lemma keeps_of_mem_links (h : links s sc page corpus = .ok found) (hfile : file ∈ found.files) :
    ∃ dir link, Keeps s dir corpus link file := by
  unfold links at h
  split at h
  · cases h
    cases hfile
  · rename_i dir _
    split at h
    · cases h
    · cases h
      rcases mem_foldl_follow.mp hfile with hfile | ⟨link, -, hkeeps⟩
      · cases hfile
      · exact ⟨dir, link, hkeeps⟩

/-! ### Naming files -/

/-- Read from a directory and with all links of the file system followed, the link names a regular
file beneath the corpus. -/
def Names (s : Store) (c : Location) (dir : Path) (link : Text) (l : Location) : Prop :=
  ∃ rel node, relativeTarget? link = some rel ∧ s.find true (dir.joinText rel) = .ok (l, node) ∧
    node.isFile = true ∧ c <+: l

lemma map_name_prefix_iff : c.map Component.name <+: l.map .name ↔ c <+: l := by
  have hinjective : Function.Injective (List.map Component.name) :=
    List.map_injective_iff.mpr fun _ _ => Component.name.inj
  rw [List.prefix_iff_eq_take, List.prefix_iff_eq_take, List.length_map, ← List.map_take,
    hinjective.eq_iff]

lemma startsWith_pathOf (hs : s.WellFormed) (hc : s.get? c ≠ none) (hl : s.get? l ≠ none) :
    (pathOf l).startsWith (pathOf c) = true ↔ c <+: l := by
  rw [Path.startsWith_iff (isAbsolute_pathOf c), hs.steps_pathOf hc, hs.steps_pathOf hl,
    map_name_prefix_iff]
  exact and_iff_right (isAbsolute_pathOf l)

/-- A file is kept if the link names it and its path can be looked up. -/
lemma keeps_iff (hs : s.WellFormed) (hc : s.get? c ≠ none) :
    Keeps s dir (pathOf c) link file ↔
      ∃ l, Names s c dir link l ∧ (pathOf l).bytes.length < maxPath ∧ file = pathOf l := by
  constructor
  · rintro ⟨rel, hrel, hcanonical, hfile, hbeneath⟩
    obtain ⟨l, node, hfind, rfl⟩ := canonical_eq_ok_iff.mp hcanonical
    have hnode := get?_of_find hs hfind
    have hfile' := (isFile_pathOf_iff hs hnode (isLink_of_find hs hfind)).mp hfile
    have hinside := (startsWith_pathOf hs hc (by rw [hnode]; simp)).mp hbeneath
    exact ⟨l, ⟨rel, node, hrel, hfind, hfile'.1, hinside⟩, hfile'.2, rfl⟩
  · rintro ⟨l, ⟨rel, node, hrel, hfind, hfile, hinside⟩, hshort, rfl⟩
    have hnode := get?_of_find hs hfind
    refine ⟨rel, hrel, canonical_eq_ok_iff.mpr ⟨l, node, hfind, rfl⟩, ?_, ?_⟩
    · exact (isFile_pathOf_iff hs hnode (isLink_of_find hs hfind)).mpr ⟨hfile, hshort⟩
    · exact (startsWith_pathOf hs hc (by rw [hnode]; simp)).mpr hinside

/-! ### Pages -/

lemma scanner_satisfies {q : Scanner → Bool} (h : scanner = .ok sc)
    (hq : scanner.toOption.any q = true) : q sc = true := by
  rwa [h] at hq

lemma exists_scanner : ∃ sc, scanner = .ok sc := by
  have hsome : scanner.toOption.any (fun _ => true) = true := by decide +kernel
  cases h : scanner with
  | ok sc => exact ⟨sc, rfl⟩
  | error => rw [h] at hsome; cases hsome

lemma ofText_of_scanner (h : scanner = .ok sc) : Scanner.ofText? linkPattern = some sc := by
  unfold scanner at h
  split at h
  · rename_i hread
    cases h
    exact hread
  · cases h

/-- The pattern for links has no condition on the end of a line, so each line from which it takes a
link is selected. -/
lemma hasLineEnd_of_scanner (h : scanner = .ok sc) : sc.select.hasLineEnd = false := by
  have hnone := scanner_satisfies (q := fun sc => !sc.select.hasLineEnd) h (by decide +kernel)
  simpa using hnone

/-- A page that can be read stands in a directory. -/
lemma exists_dir {content : Bytes} (hs : s.WellFormed) (h : s.read page = .ok content) :
    ∃ dir, page.parent? = some dir := by
  refine Path.exists_parent fun hsteps => ?_
  unfold Store.read at h
  split at h
  · cases h
  · rename_i hfind
    have hleads := (leads_of_find hs hfind (isLink_of_find hs hfind)).1
    rw [hsteps] at hleads
    cases hleads
    have hdir := hs.get?_start page
    rw [get?_of_find hs hfind] at hdir
    cases hdir
  · cases h

/-- The link is taken from a line of the text. -/
def Mentions (sc : Scanner) (text link : Text) : Prop :=
  ∃ line ∈ Scanner.textLines text, link ∈ sc.capturesIn line

instance : Decidable (Mentions sc text link) :=
  inferInstanceAs (Decidable (∃ line ∈ Scanner.textLines text, link ∈ sc.capturesIn line))

/-- What the links of a page give, by what they name. -/
lemma mem_links (hs : s.WellFormed) (hc : s.get? c ≠ none) (hsc : scanner = .ok sc)
    (hdir : page.parent? = some dir) (hpage : s.read page = .ok (Utf8.encode text))
    (hnul : '\x00' ∉ text) :
    ∃ found, links s sc page (pathOf c) = .ok found ∧ ∀ file, file ∈ found.files ↔
      ∃ l, (∃ link, Mentions sc text link ∧ Names s c dir link l) ∧
        (pathOf l).bytes.length < maxPath ∧ file = pathOf l := by
  have hcaptures := Scanner.captures_eq (ofText_of_scanner hsc) hnul
    fun _ _ => Or.inl (hasLineEnd_of_scanner hsc)
  refine ⟨_, by rw [links, hdir, hpage], fun file => ?_⟩
  rw [mem_foldl_follow]
  have hmem : ∀ link, link ∈ distinctTexts (sc.captures (Utf8.encode text)) ↔
      Mentions sc text link := by
    intro link
    rw [mem_distinctTexts, hcaptures, List.mem_flatMap]
    rfl
  constructor
  · rintro (h | ⟨link, hlink, hkeeps⟩)
    · cases h
    · obtain ⟨l, hnames, hshort, rfl⟩ := (keeps_iff hs hc).mp hkeeps
      exact ⟨l, ⟨link, (hmem link).mp hlink, hnames⟩, hshort, rfl⟩
  · rintro ⟨l, ⟨link, hlink, hnames⟩, hshort, rfl⟩
    exact Or.inr ⟨link, (hmem link).mpr hlink, (keeps_iff hs hc).mpr ⟨l, hnames, hshort, rfl⟩⟩

/-! ### What becomes of the files -/

/-- A regular file under its own path is no link, whatever is added to the store. -/
lemma resolveLink_pathOf (hs : s.WellFormed) (hl : s.get? l = some node)
    (hfile : node.isFile = true) (hshort : (pathOf l).bytes.length < maxPath) (ht : t.WellFormed)
    (hext : Extends s t) : t.resolveLink (pathOf l) = pathOf l := by
  have hlink : node.isLink = false := by
    cases node with
    | file => rfl
    | _ => cases hfile
  obtain ⟨node', hfind, hshape⟩ := hext.find (find_pathOf hs hl hlink hshort false)
  exact resolveLink_of_file ht hfind ((Node.isFile_of_shape hshape).trans hfile)
    (by simp [Path.same])

/-- The path lies in the output, and no `..` leads out again. -/
def LiesInside (output dst : Path) : Prop :=
  dst.startsWith output = true ∧
    ∃ rel, dst = output.join rel ∧ rel.isAbsolute = false ∧ .parent ∉ rel.steps

lemma destination_pathOf (hs : s.WellFormed) (hc : s.get? c ≠ none) (hl : s.get? l ≠ none)
    (hinside : c <+: l) (output : Path) :
    ∃ dst, Assembly.destination (pathOf c) output (pathOf l) = .ok dst ∧ LiesInside output dst := by
  have hbeneath := (startsWith_pathOf hs hc hl).mpr hinside
  rw [← Path.strip?_isSome] at hbeneath
  obtain ⟨rel, hrel⟩ := Option.isSome_iff_exists.mp hbeneath
  obtain ⟨-, hsteps, habs⟩ := Path.of_strip?_eq_some (isAbsolute_pathOf c) hrel
  refine ⟨output.join rel, by rw [Assembly.destination, hrel], Path.startsWith_join habs, rel, rfl,
    habs, fun hparent => ?_⟩
  have hmem := List.mem_append_right (pathOf c).steps hparent
  rw [← hsteps, hs.steps_pathOf hl] at hmem
  simp at hmem

/-! ### All links of a page -/

/-- What the links of a page in a directory should give. -/
structure GivesNamed (s : Store) (c : Location) (sc : Scanner) (dir : Path) (text : Text)
    (found : Links) : Prop where
  /-- The files that are named, and no others. -/
  mem_iff : ∀ file, file ∈ found.files ↔
    ∃ l, (∃ link, Mentions sc text link ∧ Names s c dir link l) ∧
      (pathOf l).bytes.length < maxPath ∧ file = pathOf l
  /-- They stay as they are when links are resolved, also after something was added. -/
  resolved : ∀ file ∈ found.files, ∀ t, t.WellFormed → Extends s t → t.resolveLink file = file
  /-- Each has its place in the output. -/
  placed : ∀ file ∈ found.files, ∀ output, ∃ dst,
    Assembly.destination (pathOf c) output file = .ok dst ∧ LiesInside output dst

/-- The links of a page lead to the regular files of the corpus that they name and that can be
looked up. Whatever the page says, nothing else is taken in: no file is changed by resolving links,
and none is copied to a place outside of the output. -/
theorem links_give_named (hs : s.WellFormed) (hc : s.get? c = some .dir) (hsc : scanner = .ok sc)
    (hpage : s.read page = .ok (Utf8.encode text)) (hnul : '\x00' ∉ text) :
    ∃ dir found, page.parent? = some dir ∧ links s sc page (pathOf c) = .ok found ∧
      GivesNamed s c sc dir text found := by
  have hcorpus : s.get? c ≠ none := by
    rw [hc]
    simp
  obtain ⟨dir, hdir⟩ := exists_dir hs hpage
  obtain ⟨found, hfound, hmem⟩ := mem_links hs hcorpus hsc hdir hpage hnul
  have hfile : ∀ file ∈ found.files, ∃ l node, s.get? l = some node ∧ node.isFile = true ∧
      c <+: l ∧ (pathOf l).bytes.length < maxPath ∧ file = pathOf l := by
    intro file h
    obtain ⟨l, ⟨link, -, rel, node, -, hfind, hfile, hinside⟩, hshort, rfl⟩ := (hmem file).mp h
    exact ⟨l, node, get?_of_find hs hfind, hfile, hinside, hshort, rfl⟩
  refine ⟨dir, found, hdir, hfound, hmem, fun file h t ht hext => ?_, fun file h output => ?_⟩
  · obtain ⟨l, node, hl, hfile, -, hshort, rfl⟩ := hfile file h
    exact resolveLink_pathOf hs hl hfile hshort ht hext
  · obtain ⟨l, node, hl, -, hinside, -, rfl⟩ := hfile file h
    exact destination_pathOf hs hcorpus (by rw [hl]; simp) hinside output

/-! ### A page that links out of the corpus, and a file with a long path -/

/-- A corpus with a page, a file beside it and a link out of the corpus. -/
def pageStore : Store where
  entries :=
    [(locationOf ["w"], .dir), (locationOf ["w", "jck"], .dir),
      (locationOf ["w", "jck", "tests"], .dir), (locationOf ["w", "jck", "tests", "t"], .dir),
      (locationOf ["w", "jck", "tests", "t", "index.html"],
        .file (Utf8.encode "<a href=\"a.txt\"> <a href=\"up/b.txt\">\n".toList) plainMode ⟨0, 0⟩),
      (locationOf ["w", "jck", "tests", "t", "a.txt"], .file [97, 10] plainMode ⟨0, 0⟩),
      (locationOf ["w", "jck", "tests", "t", "up"], .link (.ofText "../../../side".toList)),
      (locationOf ["w", "side"], .dir),
      (locationOf ["w", "side", "b.txt"], .file [98, 10] plainMode ⟨0, 0⟩)]
  cwd := []
  clock := ⟨1, 0⟩

theorem links_pageStore :
    pageStore.WellFormed ∧ pageStore.get? (locationOf ["w", "jck"]) = some .dir ∧
      ∃ sc dir found, scanner = .ok sc ∧
        links pageStore sc (.ofText "/w/jck/tests/t/index.html".toList)
          (pathOf (locationOf ["w", "jck"])) = .ok found ∧
        GivesNamed pageStore (locationOf ["w", "jck"]) sc dir
          "<a href=\"a.txt\"> <a href=\"up/b.txt\">\n".toList found := by
  have hs : pageStore.WellFormed := by decide +kernel
  have hpage : pageStore.read (.ofText "/w/jck/tests/t/index.html".toList) =
      .ok (Utf8.encode "<a href=\"a.txt\"> <a href=\"up/b.txt\">\n".toList) := by decide +kernel
  have hcorpus : pageStore.get? (locationOf ["w", "jck"]) = some .dir := by decide +kernel
  obtain ⟨sc, hsc⟩ := exists_scanner
  obtain ⟨dir, found, -, hfound, hgives⟩ := links_give_named hs hcorpus hsc hpage (by decide)
  exact ⟨hs, by decide +kernel, sc, dir, found, hsc, hfound, hgives⟩

/-- A name that is long but not too long. -/
def longName (b : UInt8) : Bytes := List.replicate 200 b

/-- The names of a chain of directories with a path that can just be looked up. -/
def deepNames : Location := List.replicate 19 (longName 100)

/-- Where a file stands two directories deeper. -/
def deepFile : Location :=
  locationOf ["w", "jck"] ++ deepNames ++ [longName 120, longName 121] ++ locationOf ["f.txt"]

/-- A link to the end of the chain, and a page with a link through it. -/
def deepStore : Store where
  entries :=
    [(locationOf ["w"], .dir), (locationOf ["w", "jck"], .dir)] ++
      (List.range 21).map (fun i => (deepFile.take (i + 3), .dir)) ++
      [(deepFile, .file [102, 10] plainMode ⟨0, 0⟩),
        (locationOf ["w", "jck", "k"], .link ⟨(deepNames.flatMap (· ++ [Path.slash])).dropLast⟩),
        (locationOf ["w", "jck", "tests"], .dir), (locationOf ["w", "jck", "tests", "t"], .dir),
        (locationOf ["w", "jck", "tests", "t", "f"],
          .link ⟨Utf8.encode "../../k/".toList ++ longName 120 ++ Path.slash :: longName 121 ++
            Utf8.encode "/f.txt".toList⟩),
        (locationOf ["w", "jck", "tests", "t", "index.html"],
          .file (Utf8.encode "<a href=\"f\">\n".toList) plainMode ⟨0, 0⟩)]
  cwd := []
  clock := ⟨1, 0⟩

set_option maxRecDepth 10000 in
lemma deepStore_wellFormed : deepStore.WellFormed := by decide +kernel

set_option maxRecDepth 10000 in
lemma find_deepFile : deepStore.find true (.ofText "/w/jck/tests/t/f".toList) =
    .ok (deepFile, .file [102, 10] plainMode ⟨0, 0⟩) := by
  decide +kernel

/-- A page names a regular file of the corpus with a path that can be looked up, but the canonical
path of the file cannot, so its links do not give the file. -/
theorem links_miss_long_path :
    deepStore.WellFormed ∧ deepStore.get? (locationOf ["w", "jck"]) = some .dir ∧
      ∃ sc found, scanner = .ok sc ∧
        deepStore.read (.ofText "/w/jck/tests/t/index.html".toList) =
          .ok (Utf8.encode "<a href=\"f\">\n".toList) ∧
        Mentions sc "<a href=\"f\">\n".toList "f".toList ∧
        Names deepStore (locationOf ["w", "jck"]) (.ofText "/w/jck/tests/t".toList) "f".toList
          deepFile ∧
        links deepStore sc (.ofText "/w/jck/tests/t/index.html".toList)
          (pathOf (locationOf ["w", "jck"])) = .ok found ∧
        pathOf deepFile ∉ found.files := by
  have hs := deepStore_wellFormed
  have hread : deepStore.read (.ofText "/w/jck/tests/t/index.html".toList) =
      .ok (Utf8.encode "<a href=\"f\">\n".toList) := by decide +kernel
  have hparent : (Path.ofText "/w/jck/tests/t/index.html".toList).parent? =
      some (.ofText "/w/jck/tests/t".toList) := by decide +kernel
  obtain ⟨sc, hsc⟩ := exists_scanner
  have hmentions : Mentions sc "<a href=\"f\">\n".toList "f".toList :=
    of_decide_eq_true (scanner_satisfies (q := fun sc => decide (Mentions sc _ _)) hsc
      (by decide +kernel))
  have hnames : Names deepStore (locationOf ["w", "jck"]) (.ofText "/w/jck/tests/t".toList)
      "f".toList deepFile := by
    have hjoin : (Path.ofText "/w/jck/tests/t".toList).joinText "f".toList =
        .ofText "/w/jck/tests/t/f".toList := by decide +kernel
    have hrel : relativeTarget? "f".toList = some "f".toList := by decide +kernel
    refine ⟨"f".toList, _, hrel, hjoin ▸ find_deepFile, rfl, ?_⟩
    rw [deepFile, List.append_assoc, List.append_assoc]
    exact List.prefix_append _ _
  obtain ⟨found, hfound, hmem⟩ := mem_links hs (c := locationOf ["w", "jck"]) (by decide +kernel)
    hsc hparent hread (by decide)
  refine ⟨hs, by decide +kernel, sc, found, hsc, hread, hmentions, hnames, hfound,
    fun h => ?_⟩
  obtain ⟨l, -, hshort, heq⟩ := (hmem _).mp h
  rw [← heq] at hshort
  exact absurd hshort (by decide +kernel)

end Page

end Excerpt
