import Excerpt.Proofs.Closure.Account
import Excerpt.Proofs.Extraction.Copying
import Excerpt.Proofs.Extraction.Preservation

/-!
# What becomes of the files of a test

A regular file in the directory of a test is in the closure of the test under its own path, so a run
that succeeds copies it to the place that it has in the corpus. A link in that directory is taken
for a bridge, and the file behind it is copied in its place: at the path of the link there is
nothing in the output.
-/

namespace Excerpt

open Store

namespace Closure

variable {oracle : Oracle} {host : Host} {settings : Settings} {r : Request} {c : Closure}
  {w v : World} {n : Bytes} {names : List Bytes} {l : Location} {node : Node}

/-- A regular file in the directory of the test is in the closure, in some spelling. -/
lemma contains_of_own (ho : oracle.ReadOnly) (hw : w.store.WellFormed)
    (hbuild : build host settings oracle r w = (.ok c, v)) (hlist : w.store.list r.testDir = .ok names)
    (hn : n ∈ names) (hfind : w.store.find false (r.testDir.child n) = .ok (l, node))
    (hfile : node.isFile = true) : c.files.contains (r.testDir.child n) = true := by
  obtain ⟨found, library, root, t, answers, hmade, -, -⟩ := build_ok ho hw hbuild
  obtain ⟨links, classes, hfound⟩ := hmade.findings
  have hnotdir : w.store.isDir (r.testDir.child n) = false := by
    rw [Bool.eq_false_iff]
    intro hisDir
    obtain ⟨d, hdir⟩ := exists_of_isDir hisDir
    have hlink : node.isLink = false := by
      cases node with
      | file => rfl
      | _ => cases hfile
    obtain ⟨hleads, hnode⟩ := leads_of_find hw hfind hlink
    obtain ⟨hleads', hnode'⟩ := leads_of_find hw hdir rfl
    rw [hleads.unique hleads', hnode'] at hnode
    cases hnode
    cases hfile
  have hown : r.testDir.child n ∈ found.contents.files := by
    obtain ⟨d, hdir, rfl⟩ := ListsChildren.of_list hlist
    obtain ⟨node, hnode⟩ := (mem_names hw).mp hn
    refine ((TestContents.ofDir_ok hw hfound.contents).mem _).mpr ?_
    exact ⟨d, n, hdir, by rw [hnode]; simp, rfl, hnotdir⟩
  have hpart : (answers.foldl PathSet.union found.files).contains (r.testDir.child n) = true := by
    rw [hfound.files, contains_parts]
    exact Or.inl ⟨_, List.mem_append_left _ hown, Path.same_refl _⟩
  obtain ⟨q, hq, hsame⟩ := PathSet.contains_iff.mp hpart
  have ht := hmade.asked.inScratch
  obtain ⟨node', hfind', hshape⟩ := ht.extends.find hfind
  rw [hmade.asked.resolved, contains_resolveLinks]
  refine ⟨q, hq, ?_⟩
  rw [resolveLink_of_file ht.wellFormed hfind' ((Node.isFile_of_shape hshape).trans hfile) hsame]
  exact hsame

end Closure

namespace Extraction

variable {layout : Layout} {settings : Settings} {h : Host} {oracle : Oracle} {r : Request}
  {c : Closure} {s t : Store} {w v : World} {n : Bytes} {names : List Bytes} {l : Location}

/-- One of the places that an extraction writes to is a path that leads to this location. -/
def WritesAt (layout : Layout) (r : Request) (c : Closure) (s : Store) (l : Location) : Prop :=
  ∃ p node, Destination layout r c s p ∧ s.find true p = .ok (l, node)

/-- In a run of an extraction a file keeps its content unless a destination leads to it. -/
lemma content_kept {content : Bytes} {mode : Nat} {stamp : Stamp} (hs : s.WellFormed)
    (hrun : Runs (Permits layout r c) s t) (hl : s.get? l = some (.file content mode stamp)) :
    ∃ content' mode' stamp', t.get? l = some (.file content' mode' stamp') ∧
      (content' = content ∨ WritesAt layout r c t l) := by
  obtain ⟨content', mode', stamp', hn, hkept⟩ := hrun.file_kept hs hl
  refine ⟨content', mode', stamp', hn, hkept.imp id ?_⟩
  rintro ⟨u, p, node, hdst, hext, hfind⟩
  exact ⟨p, node, Destination.of_extends hdst hext, hfind⟩

lemma WritesAt.of_extends (h : WritesAt layout r c s l) (hext : Extends s t) :
    WritesAt layout r c t l := by
  obtain ⟨p, node, hdst, hfind⟩ := h
  obtain ⟨node', hfind', -⟩ := hext.find hfind
  exact ⟨p, node', hdst.of_extends hext, hfind'⟩

/-- After a run that succeeds, the output has each regular file of the test at the place that it has
in the corpus, and with its bytes, unless another destination leads to that place or a destination
leads to the file itself. -/
theorem run_keeps_own_file {summary : Summary} {content : Bytes} {mode : Nat} {stamp : Stamp}
    (ho : oracle.ReadOnly) (hw : w.store.WellFormed)
    (hrun : run h settings oracle false r w = (.ok summary, v))
    (hlist : w.store.list r.testDir = .ok names) (hn : n ∈ names)
    (hfind : w.store.find false (r.testDir.child n) = .ok (l, .file content mode stamp)) :
    ∃ file dst l' content' mode' stamp', file ∈ summary.closure.files.toList ∧
      file.same (r.testDir.child n) = true ∧
      Assembly.destination r.corpus r.output file = .ok dst ∧
      v.store.find true dst = .ok (l', .file content' mode' stamp') ∧
      (content' = content ∨
        WritesAt settings.layout r (summary.closure.without file) v.store l' ∨
        WritesAt settings.layout r summary.closure v.store l) := by
  have hwarn := warnMissing_reads (r := r) w hw
  obtain ⟨w₁, hw₁, ⟨w₂, hbuild⟩, -⟩ := run_ok ho hw hrun
  have hcontains := Closure.contains_of_own ho (hwarn ▸ hw) hbuild (hwarn ▸ hlist) hn
    (hwarn ▸ hfind) rfl
  obtain ⟨file, hfile, hsame⟩ := PathSet.contains_iff.mp hcontains
  obtain ⟨dst, t, u, origin, l', copied, hdst, hbefore, hcopies, hafter⟩ :=
    run_copies ho hw hrun hfile
  have ht := hbefore.wellFormed hw
  have hu := hcopies.changes.wellFormed ht
  have htu := hcopies.changes.extends ht
  have huv := hafter.extends hu
  obtain ⟨mode₁, stamp₁, hsource⟩ := hcopies.source
  obtain ⟨mode₂, stamp₂, -, htarget⟩ := hcopies.target
  -- What is copied is the file itself, with what it holds by then.
  have horigin : origin = l := by
    obtain ⟨hleads, hl⟩ := leads_of_find hw hfind rfl
    obtain ⟨hleads', -⟩ := leads_of_find ht hsource rfl
    obtain ⟨hlead, hsteps⟩ := Path.same_iff.mp hsame
    rw [start, Path.isAbsolute_eq_of_lead hlead, ← start, hsteps, hbefore.extends hw |>.start]
      at hleads'
    exact hleads'.unique ((hbefore.extends hw).leads hleads (by rw [hl]; simp))
  subst horigin
  obtain ⟨content₁, _, _, hn₁, hkept₁⟩ := content_kept hw hbefore (get?_of_find hw hfind)
  rw [get?_of_find ht hsource, Option.some.injEq] at hn₁
  obtain ⟨rfl, -, -⟩ := Node.file.inj hn₁
  obtain ⟨content₂, mode', stamp', hn₂, hkept₂⟩ := content_kept hu hafter (get?_of_find hu htarget)
  have hfound : v.store.find true dst = .ok (l', .file content₂ mode' stamp') := by
    obtain ⟨node, hfind', -⟩ := huv.find htarget
    have hnode := get?_of_find (hafter.wellFormed hu) hfind'
    rw [hn₂, Option.some.injEq] at hnode
    rw [hfind', hnode]
  refine ⟨file, dst, l', content₂, mode', stamp', hfile, hsame, hdst, hfound, ?_⟩
  rcases hkept₂ with hcontent | hwrites
  · by_cases honto : l' = origin
    · exact Or.inr (Or.inr ⟨dst, _, .closure hfile hdst, honto ▸ hfound⟩)
    · rw [if_neg honto] at hcontent
      rcases hkept₁ with hcontent' | hwrites
      · exact Or.inl (hcontent.trans hcontent')
      · exact Or.inr (Or.inr (hwrites.of_extends (htu.trans huv)))
  · exact Or.inr (Or.inl hwrites)

/-! ### A test with a link -/

/-- The name of a link in the directory of a test. -/
def linkName : Bytes := Utf8.encode "L.txt".toList

/-- A corpus with a test that has a regular file, and a link to a file beside the test. -/
def linkStore : Store where
  entries :=
    [(locationOf ["w"], .dir), (locationOf ["w", "jck"], .dir),
      (locationOf ["w", "jck", "src"], .dir), (locationOf ["w", "jck", "tests"], .dir),
      (locationOf ["w", "jck", "tests", "data.txt"], .file [100, 10] plainMode ⟨0, 0⟩),
      (locationOf ["w", "jck", "tests", "t"], .dir),
      (locationOf ["w", "jck", "tests", "t", "a.txt"], .file [97, 10] plainMode ⟨0, 0⟩),
      (locationOf ["w", "jck", "tests", "t"] ++ [linkName],
        .link (.ofText "../data.txt".toList)),
      (locationOf ["w", "out"], .dir), (locationOf ["tmp"], .dir)]
  cwd := []
  clock := ⟨1, 0⟩

/-- The request for the test in `linkStore`. -/
def linkRequest : Request where
  corpus := .ofText "/w/jck".toList
  output := .ofText "/w/out".toList
  testDir := .ofText "/w/jck/tests/t".toList
  testArg := "t".toList
  missingDescriptor := none

/-- What an extraction of the test in `linkStore` comes to. -/
def linkSummary : Summary :=
  ⟨⟨⟨[.ofText "/w/jck/tests/data.txt".toList, .ofText "/w/jck/tests/t/a.txt".toList]⟩, false⟩, 2, 0⟩

set_option maxRecDepth 10000 in
lemma run_linkStore :
    Request.validate linkStore .default (.ofText "/w/jck".toList) (.ofText "/w/out".toList)
        "t".toList = .ok linkRequest ∧
      linkStore.WellFormed ∧ linkStore.names (locationOf ["w", "out"]) = [] ∧
      linkStore.list linkRequest.testDir = .ok [Utf8.encode "a.txt".toList, linkName] ∧
      linkStore.isDir (linkRequest.testDir.child linkName) = false ∧
      linkStore.read (linkRequest.testDir.child linkName) = .ok [100, 10] ∧
      linkStore.find false (linkRequest.testDir.child (Utf8.encode "a.txt".toList)) =
        .ok (locationOf ["w", "jck", "tests", "t", "a.txt"], .file [97, 10] plainMode ⟨0, 0⟩) ∧
      (run .bare .default .silent false linkRequest (.ofStore linkStore)).1 = .ok linkSummary ∧
      (run .bare .default .silent false linkRequest (.ofStore linkStore)).2.store.get?
        (locationOf ["w", "out", "tests", "t"] ++ [linkName]) = none := by
  decide +kernel

/-- A link in the directory of a test leads to a file that can be read, and in the output there is
nothing in its place, although the extraction succeeds. -/
theorem run_drops_link :
    Request.validate linkStore .default (.ofText "/w/jck".toList) (.ofText "/w/out".toList)
        "t".toList = .ok linkRequest ∧
      linkStore.WellFormed ∧ Oracle.silent.ReadOnly ∧
      linkStore.names (locationOf ["w", "out"]) = [] ∧
      linkStore.list linkRequest.testDir = .ok [Utf8.encode "a.txt".toList, linkName] ∧
      linkStore.isDir (linkRequest.testDir.child linkName) = false ∧
      linkStore.read (linkRequest.testDir.child linkName) = .ok [100, 10] ∧
      (run .bare .default .silent false linkRequest (.ofStore linkStore)).1 = .ok linkSummary ∧
      (run .bare .default .silent false linkRequest (.ofStore linkStore)).2.store.get?
        (locationOf ["w", "out", "tests", "t"] ++ [linkName]) = none := by
  obtain ⟨hvalid, hw, hempty, hlist, hnotdir, hread, -, hrun, hnone⟩ := run_linkStore
  exact ⟨hvalid, hw, Oracle.silent_readOnly, hempty, hlist, hnotdir, hread, hrun, hnone⟩

/-- The regular file beside that link is kept. -/
theorem run_linkStore_keeps_file :
    linkStore.WellFormed ∧ Oracle.silent.ReadOnly ∧
      ∃ file dst l' content' mode' stamp', file ∈ linkSummary.closure.files.toList ∧
        file.same (linkRequest.testDir.child (Utf8.encode "a.txt".toList)) = true ∧
        Assembly.destination linkRequest.corpus linkRequest.output file = .ok dst ∧
        (run .bare .default .silent false linkRequest (.ofStore linkStore)).2.store.find true dst =
          .ok (l', .file content' mode' stamp') ∧
        (content' = [97, 10] ∨
          WritesAt Layout.default linkRequest (linkSummary.closure.without file)
            (run .bare .default .silent false linkRequest (.ofStore linkStore)).2.store l' ∨
          WritesAt Layout.default linkRequest linkSummary.closure
            (run .bare .default .silent false linkRequest (.ofStore linkStore)).2.store
            (locationOf ["w", "jck", "tests", "t", "a.txt"])) := by
  obtain ⟨-, hw, -, hlist, -, -, hfind, hrun, -⟩ := run_linkStore
  exact ⟨hw, Oracle.silent_readOnly, run_keeps_own_file Oracle.silent_readOnly
    (w := .ofStore linkStore) hw (Act.run_eq_of_fst hrun) hlist List.mem_cons_self hfind⟩

end Extraction

end Excerpt
