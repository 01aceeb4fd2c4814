import Excerpt.Proofs.Closure.Listings
import Excerpt.Proofs.Closure.Phases
import Excerpt.Proofs.Store.Places

/-!
# What a closure consists of

For an oracle whose answers depend on the question alone, a closure is determined by its parts: the
files of the test, the links of its pages, and the answers to a list of questions that is known
beforehand. `Account` says what the parts are, without the order in which they are computed, and a
closure that is computed has such an account.
-/

namespace Excerpt

open Store

/-- The oracle answers from the entry units, the source roots and the store, and changes neither
the store nor the list of questions. -/
def Oracle.AnswersBy (oracle : Oracle)
    (answer : (entries roots : List Path) → Store → Except Failure PathSet) : Prop :=
  ∀ entries roots (w : World), (oracle entries roots w).1 = answer entries roots w.store ∧
    (oracle entries roots w).2.store = w.store ∧
    (oracle entries roots w).2.questions = w.questions

/-- An oracle that answers from the question only reads. -/
lemma Oracle.AnswersBy.readOnly {oracle : Oracle}
    {answer : (entries roots : List Path) → Store → Except Failure PathSet}
    (ho : oracle.AnswersBy answer) : oracle.ReadOnly :=
  fun entries roots w _ => (ho entries roots w).2.1

namespace Closure

variable {oracle : Oracle} {answer : (entries roots : List Path) → Store → Except Failure PathSet}
  {host : Host} {settings : Settings} {r : Request} {s t : Store} {c : Closure} {w v : World}
  {dir p q : Path} {root : Location} {good : Path → Prop}

/-! ### Source roots -/

/-- All source roots, in order: the library sources, their modules, the tree of the test, and the
tree of the tests among the library sources, if there are any. -/
def rootList (layout : Layout) (r : Request) (scratch : Path) (t : Store) (modules : List Path) :
    List Path :=
  r.srcRoot layout :: modules ++ scratch.joinText "tests".toList ::
    if t.isDir ((r.srcRoot layout).joinText layout.testsDir) then
      [scratch.joinText "src-tests".toList] else []

/-- No path of a directory from before is a spelling of a path in the scratch directory. -/
lemma not_same_of_isDir {n : Bytes} (ht : Scratch s host.scratchDir root good t)
    (hp : p.isAbsolute = host.scratchDir.isAbsolute)
    (hsteps : p.steps = host.scratchDir.steps ++ [.name n]) (hq : s.isDir q = true) :
    q.same p = false := by
  obtain ⟨l, hfind⟩ := exists_of_isDir hq
  rw [Bool.eq_false_iff]
  intro hsame
  obtain ⟨hlead, hqsteps⟩ := Path.same_iff.mp hsame
  refine ht.not_prefix_of_found hfind ((Path.isAbsolute_eq_of_lead hlead).trans hp) ?_
  rw [hqsteps, hsteps]
  exact List.prefix_append _ _

/-- The two trees of links are different. -/
lemma tests_not_same_srcTests {scratch : Path} (h : scratch.bytes ≠ []) :
    (scratch.joinText "tests".toList).same (scratch.joinText "src-tests".toList) = false := by
  rw [Bool.eq_false_iff]
  intro hsame
  have hsteps := (Path.same_iff.mp hsame).2
  rw [(isTree_tests h).1, (isTree_srcTests h).1, List.append_cancel_left_eq] at hsteps
  revert hsteps
  decide

/-- The source roots are all different, and registered in this order. -/
lemma withTrees_eq {library : SourceRoots} {modules : List Path}
    (ht : Scratch s host.scratchDir root good t) (hscratch : host.scratchDir.bytes ≠ [])
    (hmodules : ListsChildren s (r.srcRoot settings.layout)
      (fun n p => IsModuleName settings.layout n ∧ s.isDir p = true) modules)
    (hlibrary : library.toList = r.srcRoot settings.layout :: modules)
    (hsrc : s.isDir (r.srcRoot settings.layout) = true)
    (hdistinct : library.toList.Pairwise fun p q => p.same q = false) :
    (withTrees settings.layout r host.scratchDir t library).toList =
        rootList settings.layout r host.scratchDir t modules ∧
      (rootList settings.layout r host.scratchDir t modules).Pairwise
        fun p q => p.same q = false := by
  obtain ⟨htests, habs, -, -⟩ := isTree_tests hscratch
  obtain ⟨hsrcTests, habs', -, -⟩ := isTree_srcTests hscratch
  have hold : ∀ q ∈ library.toList, s.isDir q = true := by
    rw [hlibrary]
    intro q hq
    rcases List.mem_cons.mp hq with rfl | hq
    · exact hsrc
    · obtain ⟨_, _, _, _, _, _, hdir⟩ := (hmodules.mem q).mp hq
      exact hdir
  have htests' := fun q hq => not_same_of_isDir ht habs htests (hold q hq)
  have hsrcTests' := fun q hq => not_same_of_isDir ht habs' hsrcTests (hold q hq)
  have hdiffer := tests_not_same_srcTests hscratch
  have hone : (library.add (host.scratchDir.joinText "tests".toList)).toList =
      library.toList ++ [host.scratchDir.joinText "tests".toList] :=
    SourceRoots.toList_add htests'
  unfold withTrees rootList
  rw [← hlibrary]
  split
  · have hboth : ∀ q ∈ library.toList ++ [host.scratchDir.joinText "tests".toList],
        q.same (host.scratchDir.joinText "src-tests".toList) = false := by
      intro q hq
      rcases List.mem_append.mp hq with hq | hq
      · exact hsrcTests' q hq
      · rw [List.mem_singleton.mp hq]
        exact hdiffer
    rw [SourceRoots.toList_add (by rw [hone]; exact hboth), hone, List.append_assoc]
    refine ⟨rfl, List.pairwise_append.mpr ⟨hdistinct, by simpa using hdiffer, ?_⟩⟩
    intro q hq p hp
    rcases List.mem_cons.mp hp with rfl | hp
    · exact htests' q hq
    · rw [List.mem_singleton.mp hp]
      exact hsrcTests' q hq
  · rw [hone]
    refine ⟨rfl, List.pairwise_append.mpr ⟨hdistinct, by simp, ?_⟩⟩
    intro q hq p hp
    rw [List.mem_singleton.mp hp]
    exact htests' q hq

/-! ### Classes and files -/

/-- The names of classes, each where it appears first. -/
lemma firstAppearances_eq (seen names : List Text) :
    Script.firstAppearances seen names = (names.filter (!seen.contains ·)).eraseDups := by
  induction names generalizing seen with
  | nil => rfl
  | cons name names ih =>
    rw [Script.firstAppearances, List.filter_cons]
    by_cases hseen : seen.contains name = true
    · rw [if_pos hseen, ih, hseen]
      rfl
    · rw [if_neg hseen, ih, Bool.eq_false_iff.mpr hseen, Bool.not_false, if_pos rfl,
        List.eraseDups_cons, List.filter_filter]
      congr 2
      refine List.filter_congr fun other _ => ?_
      rw [List.contains_cons, Bool.not_or]

lemma sources_eq (contents : TestContents) (layout : Layout) :
    contents.sources layout = contents.files.filter (·.hasExtension layout.sourceExt) := by
  refine List.filter_congr fun p _ => ?_
  unfold ChildKind.of
  split
  · rename_i hext
    rw [hext]
    rfl
  · rename_i hext
    rw [Bool.eq_false_iff.mpr hext]
    split <;> [rfl; split <;> [rfl; split <;> rfl]]

/-- All parts together hold what one of them holds. -/
lemma contains_parts {own linked : List Path} {answers : List PathSet} :
    (answers.foldl PathSet.union ((PathSet.ofList own).insertAll linked)).contains p = true ↔
      (∃ q ∈ own ++ linked, q.same p = true) ∨ ∃ a ∈ answers, a.contains p = true := by
  have hfold : ∀ (answers : List PathSet) (files : PathSet),
      (answers.foldl PathSet.union files).contains p = true ↔
        files.contains p = true ∨ ∃ a ∈ answers, a.contains p = true := by
    intro answers
    induction answers with
    | nil => simp
    | cons a answers ih =>
      intro files
      rw [List.foldl_cons, ih, PathSet.contains_union, List.exists_mem_cons_iff, or_assoc]
  rw [hfold, PathSet.contains_insertAll, PathSet.contains_ofList]
  simp only [List.mem_append, or_and_right, exists_or]

/-! ### The account -/

/-- What a closure that was computed in the store `s` consists of: `own` are the files of the test,
`links` what its pages link to, `names` the candidates of its scripts, and `answers` what the oracle
answered in the store `t`, where the trees of bridges are. -/
structure Account (answer : (entries roots : List Path) → Store → Except Failure PathSet)
    (host : Host) (settings : Settings) (r : Request) (s : Store) (own modules : List Path)
    (links : List Page.Links) (names : List (List Text)) (t : Store) (answers : List PathSet)
    (asked : List Question) (c : Closure) : Prop where
  ownFiles : ListsChildren s r.testDir (fun _ p => s.isDir p = false) own
  linked : PageLinks s r (own.filter (ChildKind.of settings.layout · = .descriptor)) links
  named : ScriptNames settings s (own.filter (ChildKind.of settings.layout · = .script)) names
  moduleDirs : ListsChildren s (r.srcRoot settings.layout)
    (fun n p => IsModuleName settings.layout n ∧ s.isDir p = true) modules
  trees : ∃ (library roots : SourceRoots) (w u : World),
    library.toList = r.srcRoot settings.layout :: modules ∧
    s.makeDir host.scratchDir = .ok w.store ∧
    addBridgeRoots settings.layout r host.scratchDir library w = (.ok roots, u) ∧
    roots.toList = rootList settings.layout r host.scratchDir t modules ∧ u.store = t
  rootsDiffer : (rootList settings.layout r host.scratchDir t modules).Pairwise
    fun p q => p.same q = false
  questions : asked = questions (rootList settings.layout r host.scratchDir t modules)
    host.scratchDir t (own.filter (·.hasExtension settings.layout.sourceExt))
    names.flatten.eraseDups
  stubs : ∀ name ∈ names.flatten.eraseDups,
    (withStub host.scratchDir t name).read (Stub.file host.scratchDir) =
      .ok (Utf8.encode (Stub.source name))
  answered : List.Forall₂ (fun (q : Question) found =>
    answer q.entries q.roots q.store = .ok found) asked answers
  files : ∃ parts : PathSet,
    (∀ p, parts.contains p = true ↔ (∃ q ∈ own ++ links.flatMap (·.files), q.same p = true) ∨
      ∃ a ∈ answers, a.contains p = true) ∧
    ∀ p, c.files.contains p = true ↔ ∃ q ∈ parts.toList, (t.resolveLink q).same p = true
  natives : c.hasNatives = own.any (ChildKind.of settings.layout · = .native)

lemma read_stub (ht : Scratch s dir root good t)
    (hfree : t.get? (root ++ [Scratch.stubName]) = none) {name : Text}
    (h : t.write (Stub.file dir) (Utf8.encode (Stub.source name)) = .ok (withStub dir t name)) :
    (withStub dir t name).read (Stub.file dir) = .ok (Utf8.encode (Stub.source name)) := by
  obtain ⟨mode, -, hfind, hmode, -⟩ := ht.write_stub h
  rw [Store.read, hfind]
  simp only
  rw [hmode hfree, if_pos (by decide)]

/-- A closure that is computed with an oracle that answers from the question has an account, and
the questions in it are the ones that were put. -/
theorem build_account (ho : oracle.AnswersBy answer) (hw : w.store.WellFormed)
    (h : build host settings oracle r w = (.ok c, v)) :
    ∃ own modules links names t answers asked,
      Account answer host settings r w.store own modules links names t answers asked c ∧
      v.questions = w.questions ++ asked ∧ v.store = w.store := by
  have hreads : oracle.ReadOnly := fun entries roots u _ => (ho entries roots u).2.1
  have hquiet : oracle.Quiet := fun entries roots u => (ho entries roots u).2.2
  obtain ⟨found, library, root, t, answers, hmade, hstore, hquestions⟩ := build_ok hreads hw h
  obtain ⟨links, names, hfound⟩ := hmade.findings
  obtain ⟨modules, hsrc, hmodules, hlibrary, hdistinct⟩ := libraryRoots_ok hw hmade.libraryRoots
  obtain ⟨wt, u, hmake, -, htrees, hu⟩ := hmade.trees
  obtain ⟨hroots, hrootsDistinct⟩ := withTrees_eq hmade.asked.inScratch hmade.ne_nil hmodules
    hlibrary hsrc (hlibrary ▸ hdistinct)
  have hown := TestContents.ofDir_ok hw hfound.contents
  have hclasses : found.classes = names.flatten.eraseDups := by
    rw [hfound.classes, firstAppearances_eq, List.filter_eq_self.mpr (by simp)]
  have hanswered := hmade.asked.answered
  rw [hroots, sources_eq, hclasses] at hquestions hanswered
  refine ⟨found.contents.files, modules, links, names, t, answers, _,
    ⟨hown, hfound.linked, hfound.named, hmodules, ⟨library, _, wt, u, hlibrary, hmake, htrees,
      hroots, hu⟩, hrootsDistinct, rfl, ?_, ?_, ?_, ?_⟩, ?_, hstore⟩
  · intro name hname
    exact read_stub hmade.asked.inScratch hmade.asked.stubFree
      (hmade.asked.stubs name (hclasses ▸ hname))
  · refine hanswered.imp fun q found hfound => ?_
    obtain ⟨u, u', hu, hrun⟩ := hfound
    have hanswer := (ho q.entries q.roots u).1
    rw [hrun, hu] at hanswer
    exact hanswer.symm
  · refine ⟨_, fun p => contains_parts, fun p => ?_⟩
    rw [hmade.asked.resolved, contains_resolveLinks, hfound.files]
  · rw [hmade.hasNatives, TestContents.hasNatives, TestContents.ofKind]
    rw [Bool.eq_iff_iff]
    simp
  · exact hquestions hquiet

/-! ### A test with a script -/

/-- A corpus with a library source and a module, and a test of one source file and one script. -/
def scriptStore : Store where
  entries :=
    [(locationOf ["jck"], .dir), (locationOf ["jck", "src"], .dir),
      (locationOf ["jck", "src", "A.java"], .file [] plainMode ⟨0, 0⟩),
      (locationOf ["jck", "src", "jck.base"], .dir), (locationOf ["jck", "tests"], .dir),
      (locationOf ["jck", "tests", "t"], .dir),
      (locationOf ["jck", "tests", "t", "T.java"], .file [] plainMode ⟨0, 0⟩),
      (locationOf ["jck", "tests", "t", "run.ksh"],
        .file (Utf8.encode "bin/java p.Main p.Main".toList) plainMode ⟨0, 0⟩),
      (locationOf ["out"], .dir), (locationOf ["tmp"], .dir)]
  cwd := []
  clock := ⟨1, 0⟩

/-- The request for the test in `scriptStore`. -/
def scriptRequest : Request where
  corpus := .ofText "/jck".toList
  output := .ofText "/out".toList
  testDir := .ofText "/jck/tests/t".toList
  testArg := "t".toList
  missingDescriptor := none

/-- An oracle that always names the library source of `scriptStore`. -/
def scriptOracle : Oracle := fun _ _ => return ⟨[.ofText "/jck/src/A.java".toList]⟩

/-- The closure of the test in `scriptStore`. -/
def scriptClosure : Closure :=
  ⟨⟨[.ofText "/jck/src/A.java".toList, .ofText "/jck/tests/t/T.java".toList,
    .ofText "/jck/tests/t/run.ksh".toList]⟩, false⟩

set_option maxRecDepth 10000 in
/-- The closure of the test in `scriptStore` has an account, of two questions. -/
theorem build_scriptStore_account :
    scriptStore.WellFormed ∧
      scriptOracle.AnswersBy (fun _ _ _ => .ok ⟨[.ofText "/jck/src/A.java".toList]⟩) ∧
      ∃ own modules links names t answers asked,
        Account (fun _ _ _ => .ok ⟨[.ofText "/jck/src/A.java".toList]⟩) .bare .default
          scriptRequest scriptStore own modules links names t answers asked scriptClosure ∧
        asked.length = 2 := by
  have ho : scriptOracle.AnswersBy (fun _ _ _ => .ok ⟨[.ofText "/jck/src/A.java".toList]⟩) :=
    fun _ _ _ => ⟨rfl, rfl, rfl⟩
  have hrun : scriptStore.WellFormed ∧
      (build .bare .default scriptOracle scriptRequest (.ofStore scriptStore)).1 =
        .ok scriptClosure ∧
      (build .bare .default scriptOracle scriptRequest
        (.ofStore scriptStore)).2.questions.length = 2 := by decide +kernel
  obtain ⟨hw, hclosure, hlength⟩ := hrun
  obtain ⟨own, modules, links, names, t, answers, asked, haccount, hquestions, -⟩ :=
    build_account ho (w := .ofStore scriptStore) hw (Act.run_eq_of_fst hclosure)
  rw [hquestions] at hlength
  exact ⟨hw, ho, own, modules, links, names, t, answers, asked, haccount, hlength⟩

end Closure

end Excerpt
