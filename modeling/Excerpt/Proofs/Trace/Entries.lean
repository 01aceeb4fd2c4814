import Excerpt.Closure
import Excerpt.Proofs.Closure.Account
import Excerpt.Proofs.Compiler
import Excerpt.Proofs.Store.Places
import Excerpt.Proofs.Store.Reach

/-!
# Entry units in an answer

The units that are compiled are left out of an answer by their paths: what is left out is exactly
what spells the path of an entry unit (`discover_excludes_entries`). A path that is direct, that is
one that spells the canonical path of what it leads to, leads to an entry unit with a direct path
only if it is left out.

The other names of an entry unit are reported. One of them is its bridge in the tree that is made
for its test (`discover_reports_entry`).
-/

namespace Excerpt

open Store

/-! ### Direct paths -/

/-- The path spells the canonical path of what it leads to: there is no link on its way, also not
at its end, and no `..` leads it back. -/
def Store.IsDirect (s : Store) (p : Path) : Prop :=
  ∃ file, s.canonical p = .ok file ∧ file.same p = true

namespace Store

variable {s : Store} {p q : Path}

/-- Direct paths that lead to one place are spellings of one path. -/
lemma IsDirect.same (hp : s.IsDirect p) (hq : s.IsDirect q)
    (h : s.canonical p = s.canonical q) : p.same q = true := by
  obtain ⟨file, hfile, hsame⟩ := hp
  obtain ⟨file', hfile', hsame'⟩ := hq
  have heq : file = file' := by
    rw [hfile, hfile', Except.ok.injEq] at h
    exact h
  rw [Path.same_comm] at hsame
  exact Path.same_trans hsame (heq ▸ hsame')

/-- A direct path is no link. -/
lemma IsDirect.ownNode?_ne_link (hs : s.WellFormed) (hp : s.IsDirect p) (target : Path) :
    s.ownNode? p ≠ some (.link target) := by
  obtain ⟨file, hfile, hsame⟩ := hp
  obtain ⟨l, node, hfind, rfl⟩ := canonical_eq_ok_iff.mp hfile
  have hl := get?_of_find hs hfind
  obtain ⟨hlead, hsteps⟩ := Path.same_iff.mp hsame
  have habs : p.isAbsolute = true := by
    rw [← Path.isAbsolute_eq_of_lead hlead]
    exact isAbsolute_pathOf l
  rw [hs.steps_pathOf (by rw [hl]; simp)] at hsteps
  intro hown
  unfold ownNode? at hown
  cases hlink : s.find false p with
  | error => rw [hlink] at hown; cases hown
  | ok found =>
    obtain ⟨m, node'⟩ := found
    rw [hlink] at hown
    obtain rfl : node' = .link target := by simpa using hown
    obtain ⟨front, n, d, hlast, hd, rfl⟩ := of_find_link hs hlink
    rw [start_of_isAbsolute habs] at hd
    -- the names before the last are those of a directory, so they lead to it and to nothing else
    rw [hlast] at hsteps
    obtain ⟨dir, last, rfl, hdir, hone⟩ := List.map_eq_append_iff.mp hsteps
    obtain ⟨n', rfl, hn'⟩ := List.map_eq_singleton_iff.mp hone
    obtain rfl : n' = n := by simpa using hn'
    have hparent := hs.get?_of_concat (n := n') (by rw [hl]; simp)
    rw [← hdir] at hd
    obtain rfl := hd.unique (hs.leads_names hparent)
    have hnode := get?_of_find hs hlink
    rw [hl, Option.some.injEq] at hnode
    have hno := isLink_of_find hs hfind
    rw [hnode] at hno
    cases hno

/-- A direct path stays as it is when links are resolved. -/
lemma IsDirect.resolveLink (hs : s.WellFormed) (hp : s.IsDirect p) : s.resolveLink p = p := by
  unfold Store.resolveLink
  split
  · rename_i target hown
    exact absurd hown (hp.ownNode?_ne_link hs target)
  · rfl

end Store

/-! ### What is left out -/

namespace FileObject

variable {roots : List Path} {e : Path} {o : FileObject}

/-- An object beneath the roots is the unit with some path exactly if the paths agree. -/
lemma sameFile_plain (h : o.claimedBy roots = true) :
    (plain e).sameFile o = e.same o.path := by
  cases o with
  | archive => cases h
  | _ => rfl

end FileObject

namespace Watch

variable {roots entries : List Path} {ext line : Text} {o : FileObject}

/-- What counts is what would count without entry units, less what spells the path of one. -/
lemma announces_iff : Announces ⟨roots, entries, ext⟩ line o ↔
    Announces ⟨roots, [], ext⟩ line o ∧ ∀ e ∈ entries, e.same o.path = false := by
  constructor
  · rintro ⟨hopened, hclaimed, hentries⟩
    refine ⟨⟨hopened, hclaimed, fun e he => by cases he⟩, fun e he => ?_⟩
    rw [← FileObject.sameFile_plain hclaimed]
    exact hentries e he
  · rintro ⟨⟨hopened, hclaimed, -⟩, hentries⟩
    refine ⟨hopened, hclaimed, fun e he => ?_⟩
    rw [FileObject.sameFile_plain hclaimed]
    exact hentries e he

end Watch

namespace Compiler

variable {c : Compiler} {h : Host} {entries roots : List Path} {w : World}
  {result : ProgramResult} {found : PathSet} {ext : Text} {p : Path}

/-- The path is that of an object beneath the roots which a line of either stream says was opened,
be it an entry unit or not. -/
def IsOpened (roots : List Path) (ext : Text) (result : ProgramResult) (p : Path) : Prop :=
  ∃ line ∈ Text.lines (Utf8.lossy result.stderr) ++ Text.lines (Utf8.lossy result.stdout),
    ∃ o, Watch.Announces ⟨roots, [], ext⟩ line o ∧ o.path.same p = true

/-- A monitor notes what is opened, less what spells the path of an entry unit. -/
lemma contains_monitorOf_iff :
    (monitorOf ⟨roots, entries, ext⟩ result).used.contains p = true ↔
      IsOpened roots ext result p ∧ ∀ e ∈ entries, e.same p = false := by
  rw [contains_monitorOf]
  constructor
  · rintro ⟨line, hline, o, hannounces, hsame⟩
    obtain ⟨hopened, hentries⟩ := Watch.announces_iff.mp hannounces
    refine ⟨⟨line, hline, o, hopened, hsame⟩, fun e he => ?_⟩
    by_contra hep
    rw [Bool.not_eq_false] at hep
    rw [Path.same_comm] at hsame
    exact Bool.noConfusion ((hentries e he).symm.trans (Path.same_trans hep hsame))
  · rintro ⟨⟨line, hline, o, hopened, hsame⟩, hentries⟩
    refine ⟨line, hline, o, Watch.announces_iff.mpr ⟨hopened, fun e he => ?_⟩, hsame⟩
    by_contra heo
    rw [Bool.not_eq_false] at heo
    exact Bool.noConfusion ((hentries e he).symm.trans (Path.same_trans heo hsame))

/-- An answer has exactly the files beneath the roots that were opened, except what spells the path
of an entry unit. In any store, a direct path in the answer does not lead to where the direct path
of an entry unit leads, and resolving it does not give an entry unit. -/
theorem discover_excludes_entries (hok : (c.discover h entries roots w).1 = .ok found) :
    ∃ result, c.Prints h entries roots w.store result ∧
      (∀ p, found.contains p = true ↔
        IsOpened roots c.sourceExt result p ∧ ∀ e ∈ entries, e.same p = false) ∧
      ∀ s : Store, s.WellFormed → ∀ p ∈ found.toList, s.IsDirect p → ∀ e ∈ entries,
        (s.resolveLink p).same e = false ∧ (s.IsDirect e → s.canonical p ≠ s.canonical e) := by
  obtain ⟨result, hprints, rfl⟩ := fst_discover_eq_ok_iff.mp hok
  refine ⟨result, hprints, fun p => contains_monitorOf_iff, ?_⟩
  intro s hs p hp hdirect e he
  have hcontains := PathSet.contains_iff.mpr ⟨p, hp, Path.same_refl p⟩
  have hentry : e.same p = false := (contains_monitorOf_iff.mp hcontains).2 e he
  refine ⟨?_, fun hedirect hcanonical => ?_⟩
  · rw [hdirect.resolveLink hs, Path.same_comm]
    exact hentry
  · rw [hedirect.same hdirect hcanonical.symm] at hentry
    cases hentry

/-! ### A unit and its bridge -/

/-- A corpus with a library source and a test of one source file, beside a compiler. -/
def unitStore : Store where
  entries :=
    [(locationOf ["bin"], .dir), (locationOf ["bin", "javac"], .file [] 493 ⟨0, 0⟩),
      (locationOf ["jck"], .dir), (locationOf ["jck", "src"], .dir),
      (locationOf ["jck", "src", "A.java"], .file [] plainMode ⟨0, 0⟩),
      (locationOf ["jck", "tests"], .dir), (locationOf ["jck", "tests", "t"], .dir),
      (locationOf ["jck", "tests", "t", "T.java"],
        .file (Utf8.encode "package p;".toList) plainMode ⟨0, 0⟩),
      (locationOf ["tmp"], .dir), (locationOf ["tmp", "scratch"], .dir)]
  cwd := []
  clock := ⟨1, 0⟩

/-- A host on which every program prints this on its error stream. -/
def hostPrinting (trace : String) : Host where
  scratchDir := .ofText "/tmp/scratch".toList
  classDir := .ofText "/tmp/classes".toList
  environment := [("PATH".toList, "/bin".toList)]
  date := []
  execute _ _ _ :=
    { stdout := [], stderr := Utf8.encode trace.toList, exitCode := 0, written := [] }

/-- The source file of the test in `unitStore`. -/
def unitPath : Path := .ofText "/jck/tests/t/T.java".toList

/-- The library source in `unitStore`. -/
def librarySource : Path := .ofText "/jck/src/A.java".toList

/-- A trace in which a unit is opened under another spelling of its path, and a library source. -/
def unitTrace : String :=
  "[parsing started RegularFileObject[/jck/tests/t/./T.java]]\n" ++
    "[parsing started DirectoryFileObject[/jck/src:A.java]]\n"

/-- The roots beneath which `unitTrace` opens files. -/
def unitRoots : List Path := [.ofText "/jck/src".toList, .ofText "/jck/tests".toList]

/-- Of the two files in `unitTrace`, the library source is found. -/
theorem discover_excludes_unit :
    (javac.discover (hostPrinting unitTrace) [unitPath] unitRoots (.ofStore unitStore)).1 =
        .ok ⟨[librarySource]⟩ ∧
      unitStore.WellFormed ∧ unitStore.IsDirect librarySource ∧ unitStore.IsDirect unitPath ∧
      unitStore.canonical librarySource ≠ unitStore.canonical unitPath := by
  have hok : (javac.discover (hostPrinting unitTrace) [unitPath] unitRoots
      (.ofStore unitStore)).1 = .ok ⟨[librarySource]⟩ := by decide +kernel
  have hs : unitStore.WellFormed := by decide +kernel
  have hlibrary : unitStore.IsDirect librarySource := ⟨librarySource, by decide +kernel⟩
  have hunit : unitStore.IsDirect unitPath := ⟨unitPath, by decide +kernel⟩
  obtain ⟨result, -, -, hdirect⟩ := discover_excludes_entries hok
  exact ⟨hok, hs, hlibrary, hunit, (hdirect unitStore hs librarySource (List.mem_singleton_self _)
    hlibrary unitPath (List.mem_singleton_self _)).2 hunit⟩

/-- The registration of the tree for the test in `unitStore`. -/
def unitBridges : Except Failure SourceRoots × World :=
  Closure.addBridgeRoots .default Closure.scriptRequest (.ofText "/tmp/scratch".toList)
    ⟨[.ofText "/jck/src".toList]⟩ (.ofStore unitStore)

/-- With the roots that are registered for the test in `unitStore`, a compiler that opens the bridge
of the unit has it reported, and resolving that bridge gives the unit. -/
theorem discover_reports_entry :
    (TestContents.ofDir unitStore Closure.scriptRequest.testDir).map (·.sources .default) =
        .ok [unitPath] ∧
      libraryRoots unitStore .default (Closure.scriptRequest.srcRoot .default) =
        .ok ⟨[.ofText "/jck/src".toList]⟩ ∧
      unitBridges.1 = .ok ⟨[.ofText "/jck/src".toList, .ofText "/tmp/scratch/tests".toList]⟩ ∧
      ∃ found, (javac.discover
          (hostPrinting "[parsing started DirectoryFileObject[/tmp/scratch/tests:p/T.java]]\n")
          [unitPath] [.ofText "/jck/src".toList, .ofText "/tmp/scratch/tests".toList]
          unitBridges.2).1 = .ok found ∧
        ∃ p ∈ found.toList, unitBridges.2.store.resolveLink p = unitPath := by
  refine ⟨by decide +kernel, by decide +kernel, by decide +kernel,
    ⟨[.ofText "/tmp/scratch/tests/p/T.java".toList]⟩, by decide +kernel, ?_⟩
  exact ⟨_, List.mem_singleton_self _, by decide +kernel⟩

end Compiler

end Excerpt
