import Excerpt.Proofs.Closure.Effects
import Mathlib.Data.List.Forall2

/-!
# The phases of computing a closure

When a closure is computed, the phases before the questions see the store as it was, and all
questions are put in one and the same store: that with the trees of bridges, and with at most a
stub added. This module says for each phase what it gives when it succeeds, and `Made` collects
what is known of a closure in the end.
-/

namespace Excerpt

open Store

namespace Oracle

variable {oracle : Oracle}

/-- The oracle puts no questions of its own. -/
def Quiet (oracle : Oracle) : Prop := ∀ entries roots, Act.Quiet (oracle entries roots)

/-- The oracle may answer a question so. -/
def Answers (oracle : Oracle) (q : Question) (found : PathSet) : Prop :=
  ∃ w v : World, w.store = q.store ∧ oracle q.entries q.roots w = (.ok found, v)

end Oracle

namespace Closure

variable {oracle : Oracle} {layout : Layout} {r : Request} {scratch : Path}
  {roots library : SourceRoots} {s t : Store} {root : Location} {good : Path → Prop}
  {settings : Settings} {w v : World} {files files' : PathSet} {names : List Text}

/-! ### Questions -/

/-- The store with a stub in a scratch directory. -/
def withStub (scratch : Path) (t : Store) (name : Text) : Store :=
  match t.write (Stub.file scratch) (Utf8.encode (Stub.source name)) with
  | .ok u => u
  | .error _ => t

/-- The questions about source files. -/
def sourceQuestions (roots : List Path) (t : Store) (sources : List Path) : List Question :=
  sources.map fun p => ⟨[p], roots, t⟩

/-- The questions about classes. -/
def classQuestions (roots : List Path) (scratch : Path) (t : Store) (names : List Text) :
    List Question :=
  names.map fun name => ⟨[Stub.file scratch], roots, withStub scratch t name⟩

lemma ask_ok (ho : oracle.ReadOnly) {entries : List Path} {found : PathSet}
    (hw : w.store.WellFormed) (h : ask oracle entries roots w = (.ok found, v)) :
    oracle.Answers ⟨entries, roots.toList, w.store⟩ found ∧ v.store = w.store ∧
      (oracle.Quiet → v.questions = w.questions ++ [⟨entries, roots.toList, w.store⟩]) := by
  obtain ⟨_, u, hnote, h⟩ := Act.bind_eq_ok.mp h
  obtain ⟨-, rfl⟩ := Prod.mk.inj hnote
  refine ⟨⟨{ w with questions := _ }, v, rfl, h⟩, ?_, fun hquiet => ?_⟩
  · have hstore := fun hu => (ho entries roots.toList).eq_of_run hu h
    exact hstore hw
  · exact (hquiet entries roots.toList).eq_of_run h

lemma askSources_ok (ho : oracle.ReadOnly) {sources : List Path} (hw : w.store.WellFormed)
    (h : askSources oracle roots sources files w = (.ok files', v)) :
    ∃ answers, List.Forall₂ oracle.Answers (sourceQuestions roots.toList w.store sources) answers ∧
      files' = answers.foldl PathSet.union files ∧ v.store = w.store ∧
      (oracle.Quiet →
        v.questions = w.questions ++ sourceQuestions roots.toList w.store sources) := by
  induction sources generalizing files w with
  | nil =>
    cases h
    exact ⟨[], .nil, rfl, rfl, fun _ => (List.append_nil _).symm⟩
  | cons p sources ih =>
    obtain ⟨found, u, hask, h⟩ := Act.bind_eq_ok.mp h
    obtain ⟨hanswer, hstore, hquestions⟩ := ask_ok ho hw hask
    obtain ⟨answers, hanswers, rfl, hstore', hquestions'⟩ := ih (hstore ▸ hw) h
    rw [hstore] at hanswers hstore' hquestions'
    refine ⟨found :: answers, .cons hanswer hanswers, rfl, hstore', fun hquiet => ?_⟩
    rw [hquestions' hquiet, hquestions hquiet, List.append_assoc]
    rfl

/-- A stub is written, asked about and removed, and then all is as before. -/
lemma askClasses_ok (ho : oracle.ReadOnly)
    (hw : Scratch s scratch root good w.store)
    (hfree : w.store.get? (root ++ [Scratch.stubName]) = none)
    (h : askClasses oracle roots scratch names files w = (.ok files', v)) :
    (∀ name ∈ names, w.store.write (Stub.file scratch) (Utf8.encode (Stub.source name)) =
      .ok (withStub scratch w.store name)) ∧
    ∃ answers, List.Forall₂ oracle.Answers
        (classQuestions roots.toList scratch w.store names) answers ∧
      files' = answers.foldl PathSet.union files ∧ v.store = w.store ∧
      (oracle.Quiet →
        v.questions = w.questions ++ classQuestions roots.toList scratch w.store names) := by
  induction names generalizing files w with
  | nil =>
    cases h
    exact ⟨by simp, [], .nil, rfl, rfl, fun _ => (List.append_nil _).symm⟩
  | cons name names ih =>
    rw [askClasses, write_bind] at h
    obtain ⟨_, w₁, hchange, h⟩ := Act.bind_eq_ok.mp h
    obtain ⟨t, hwrite, rfl⟩ := Act.change_eq_ok.mp hchange
    obtain ⟨mode, rfl, -, -, ht⟩ := hw.write_stub hwrite
    obtain ⟨found, w₂, hask, h⟩ := Act.bind_eq_ok.mp h
    obtain ⟨hanswer, hstore, hquestions⟩ := ask_ok ho ht.wellFormed hask
    have hrest : ∃ w₃ : World, w₃.store = w₂.store ∧ w₃.questions = w₂.questions ∧
        (Stub.remove (Stub.file scratch) >>= fun _ =>
          askClasses oracle roots scratch names (files.union found)) w₃ = (.ok files', v) := by
      split at h
      · obtain ⟨_, w₃, hreport, h⟩ := Act.bind_eq_ok.mp h
        cases hreport
        refine ⟨_, ?_, ?_, h⟩ <;> rfl
      · exact ⟨w₂, rfl, rfl, h⟩
    obtain ⟨w₃, hstore₃, hquestions₃, h⟩ := hrest
    obtain ⟨_, w₄, hchange', h⟩ := Act.bind_eq_ok.mp h
    obtain ⟨u, hremove, rfl⟩ := Act.change_eq_ok.mp hchange'
    rw [hstore₃, hstore] at hremove
    obtain ⟨rfl, -⟩ := ht.removeFile_stub hremove
    rw [erase_put hfree] at h
    obtain ⟨hstubs, answers, hanswers, rfl, hstore₅, hquestions₅⟩ :=
      ih (w := { w₃ with store := w.store }) hw hfree h
    have hstub : withStub scratch w.store name =
        w.store.put (root ++ [Scratch.stubName])
          (.file (Utf8.encode (Stub.source name)) mode w.store.clock) := by
      rw [withStub, hwrite]
    rw [← hstub] at hanswer hquestions hwrite
    refine ⟨List.forall_mem_cons.mpr ⟨hwrite, hstubs⟩, found :: answers, .cons hanswer hanswers,
      rfl, hstore₅, fun hquiet => ?_⟩
    rw [hquestions₅ hquiet, hquestions₃, hquestions hquiet, List.append_assoc]
    rfl

/-! ### Source roots -/

lemma bridgeTree_quiet {source dest : Path} : Act.Quiet (bridgeTree layout source dest) :=
  Act.Quiet.edit.bind fun _ => Bridge.normalize_quiet.bind fun _ => .pure

lemma bridgeEach_quiet {dest : Path} {dirs : List Path} :
    Act.Quiet (bridgeEach layout dest dirs) := by
  induction dirs with
  | nil => exact Act.Quiet.pure
  | cons d dirs ih => exact Bridge.normalize_quiet.bind fun _ => ih

/-- The source roots: those of the library, the tree of the test, and, if there is a directory for
it, that of the tests among the library sources. -/
def withTrees (layout : Layout) (r : Request) (scratch : Path) (t : Store)
    (library : SourceRoots) : SourceRoots :=
  if t.isDir ((r.srcRoot layout).joinText layout.testsDir) then
    (library.add (scratch.joinText "tests".toList)).add (scratch.joinText "src-tests".toList)
  else library.add (scratch.joinText "tests".toList)

lemma addBridgeRoots_ok (hscratch : scratch.bytes ≠ []) (hw : w.store.WellFormed)
    (h : addBridgeRoots layout r scratch library w = (.ok roots, v)) :
    roots = withTrees layout r scratch v.store library ∧ v.questions = w.questions := by
  have htests : Act.Obeys (Scratch.Permits scratch (Bridge.Target (BridgeSource layout r)))
      (bridgeTree layout r.testDir (scratch.joinText "tests".toList)) :=
    bridgeTree_obeys (isTree_tests hscratch) (Or.inl rfl)
  have hancestors : Act.Obeys (Scratch.Permits scratch (Bridge.Target (BridgeSource layout r)))
      (bridgeEach layout (scratch.joinText "tests".toList)
        (ancestors (r.testsRoot layout) (r.testDir.bytes.length + 1) r.testDir.parent?)) :=
    bridgeEach_obeys (isTree_tests hscratch) fun d hd => Or.inr (Or.inl hd)
  have hsrcTests : Act.Obeys (Scratch.Permits scratch (Bridge.Target (BridgeSource layout r)))
      (bridgeTree layout ((r.srcRoot layout).joinText layout.testsDir)
        (scratch.joinText "src-tests".toList)) :=
    bridgeTree_obeys (isTree_srcTests hscratch) (Or.inr (Or.inr rfl))
  unfold addBridgeRoots at h
  obtain ⟨_, w₁, htree, h⟩ := Act.bind_eq_ok.mp h
  obtain ⟨_, w₂, heach, h⟩ := Act.bind_eq_ok.mp h
  have hw₁ := (htests.of_run hw htree).wellFormed hw
  have hw₂ := (hancestors.of_run hw₁ heach).wellFormed hw₁
  have hquestions : w₂.questions = w.questions :=
    (bridgeEach_quiet.eq_of_run heach).trans (bridgeTree_quiet.eq_of_run htree)
  obtain ⟨isDir, w₃, hlook, h⟩ := Act.bind_eq_ok.mp h
  rw [Act.run_look, Prod.mk.injEq, Except.ok.injEq] at hlook
  obtain ⟨rfl, rfl⟩ := hlook
  split at h
  · rename_i hdir
    obtain ⟨_, w₄, hmore, h⟩ := Act.bind_eq_ok.mp h
    cases h
    have hext := (hsrcTests.of_run hw₂ hmore).extends hw₂
    refine ⟨by rw [withTrees, if_pos (hext.isDir hdir)], ?_⟩
    exact (bridgeTree_quiet.eq_of_run hmore).trans hquestions
  · rename_i hdir
    cases h
    exact ⟨by rw [withTrees, if_neg hdir], hquestions⟩

/-! ### Findings -/

/-- The links of the test's pages, page by page. -/
def PageLinks (s : Store) (r : Request) (pages : List Path) (links : List Page.Links) : Prop :=
  ∃ sc, Page.scanner = .ok sc ∧
    List.Forall₂ (fun page found => Page.links s sc page r.corpus = .ok found) pages links

/-- The candidates of the test's scripts, script by script. -/
def ScriptNames (settings : Settings) (s : Store) (scripts : List Path)
    (names : List (List Text)) : Prop :=
  ∃ sc, Script.scanners settings.script = .ok sc ∧
    List.Forall₂ (fun script found => Script.candidates s sc script = .ok found) scripts names

/-- What the findings about a test are. -/
structure Found (settings : Settings) (r : Request) (s : Store) (found : Findings)
    (links : List Page.Links) (names : List (List Text)) : Prop where
  contents : TestContents.ofDir s r.testDir = .ok found.contents
  linked : PageLinks s r (found.contents.descriptors settings.layout) links
  files : found.files =
    (PathSet.ofList found.contents.files).insertAll (links.flatMap (·.files))
  named : ScriptNames settings s (found.contents.scripts settings.layout) names
  classes : found.classes = Script.firstAppearances [] names.flatten

lemma addLinks_ok {sc : Scanner} {corpus : Path} {pages : List Path} (hw : w.store.WellFormed)
    (h : addLinks sc corpus pages files w = (.ok files', v)) :
    ∃ links, List.Forall₂ (fun page found => Page.links w.store sc page corpus = .ok found)
        pages links ∧ files' = files.insertAll (links.flatMap (·.files)) := by
  induction pages generalizing files w with
  | nil =>
    cases h
    exact ⟨[], .nil, rfl⟩
  | cons page pages ih =>
    obtain ⟨found, w₁, hlook, h⟩ := Act.bind_eq_ok.mp h
    rw [Act.run_look, Prod.mk.injEq] at hlook
    obtain ⟨hfound, rfl⟩ := hlook
    obtain ⟨_, w₂, hreport, h⟩ := Act.bind_eq_ok.mp h
    have hstore := reportDangling_reads.eq_of_run hw hreport
    obtain ⟨links, hlinks, rfl⟩ := ih (hstore ▸ hw) h
    rw [hstore] at hlinks
    refine ⟨found :: links, .cons hfound hlinks, ?_⟩
    rw [List.flatMap_cons, PathSet.insertAll, PathSet.insertAll, PathSet.insertAll,
      List.foldl_append]

lemma reportDangling_quiet {page : Path} {links : List Text} :
    Act.Quiet (addLinks.reportDangling page links) := by
  induction links with
  | nil => exact Act.Quiet.pure
  | cons link links ih => exact Act.Quiet.report.bind fun _ => ih

lemma addLinks_quiet {sc : Scanner} {corpus : Path} {pages : List Path} :
    Act.Quiet (addLinks sc corpus pages files) := by
  induction pages generalizing files with
  | nil => exact Act.Quiet.pure
  | cons page pages ih =>
    exact Act.Quiet.look.bind fun _ => reportDangling_quiet.bind fun _ => ih

lemma findings_quiet : Act.Quiet (findings settings r) := by
  unfold findings
  refine Act.Quiet.look.bind fun contents => Act.Quiet.look.bind fun pages => ?_
  refine addLinks_quiet.bind fun files => Act.Quiet.look.bind fun scripts => ?_
  exact Act.Quiet.look.bind fun names => Act.Quiet.report.bind fun _ => .pure

lemma classNames_ok {sc : Script.Scanners} {scripts : List Path} {all : List Text}
    (h : classNames s sc scripts = .ok all) :
    ∃ names, List.Forall₂ (fun script found => Script.candidates s sc script = .ok found)
      scripts names ∧ all = names.flatten := by
  induction scripts generalizing all with
  | nil =>
    cases h
    exact ⟨[], .nil, rfl⟩
  | cons script scripts ih =>
    rw [classNames] at h
    cases hfound : Script.candidates s sc script with
    | error => rw [hfound] at h; cases h
    | ok found =>
      cases hrest : classNames s sc scripts with
      | error => rw [hfound, hrest] at h; cases h
      | ok more =>
        rw [hfound, hrest] at h
        cases h
        obtain ⟨names, hnames, rfl⟩ := ih hrest
        exact ⟨found :: names, .cons hfound hnames, rfl⟩

lemma findings_ok {found : Findings} (hw : w.store.WellFormed)
    (h : findings settings r w = (.ok found, v)) :
    (∃ links names, Found settings r w.store found links names) ∧ v.store = w.store ∧
      v.questions = w.questions := by
  refine ⟨?_, findings_reads.eq_of_run hw h, findings_quiet.eq_of_run h⟩
  obtain ⟨contents, w₁, hlook, h⟩ := Act.bind_eq_ok.mp h
  rw [Act.run_look, Prod.mk.injEq] at hlook
  obtain ⟨hcontents, rfl⟩ := hlook
  obtain ⟨pages, w₂, hlook, h⟩ := Act.bind_eq_ok.mp h
  rw [Act.run_look, Prod.mk.injEq] at hlook
  obtain ⟨hpages, rfl⟩ := hlook
  obtain ⟨files, w₃, hlinks, h⟩ := Act.bind_eq_ok.mp h
  have hstore := addLinks_reads.eq_of_run hw hlinks
  obtain ⟨links, hlinks, hfiles⟩ := addLinks_ok hw hlinks
  obtain ⟨scripts, w₄, hlook, h⟩ := Act.bind_eq_ok.mp h
  rw [Act.run_look, Prod.mk.injEq] at hlook
  obtain ⟨hscripts, rfl⟩ := hlook
  obtain ⟨all, w₅, hlook, h⟩ := Act.bind_eq_ok.mp h
  rw [Act.run_look, Prod.mk.injEq, hstore] at hlook
  obtain ⟨hall, rfl⟩ := hlook
  obtain ⟨names, hnames, rfl⟩ := classNames_ok hall
  obtain ⟨_, w₆, hreport, h⟩ := Act.bind_eq_ok.mp h
  cases h
  exact ⟨links, names, hcontents, ⟨pages, hpages, hlinks⟩, hfiles, ⟨scripts, hscripts, hnames⟩,
    rfl⟩

/-! ### All together -/

lemma reportResolved_quiet {ps : List Path} : Act.Quiet (reportResolved s ps) := by
  induction ps with
  | nil => exact Act.Quiet.pure
  | cons p ps ih =>
    rw [reportResolved]
    split
    · exact Act.Quiet.report.bind fun _ => ih
    · exact ih

lemma resolve_ok (hw : w.store.WellFormed) (h : resolve files w = (.ok files', v)) :
    files' = w.store.resolveLinks files ∧ v.store = w.store ∧ v.questions = w.questions := by
  refine ⟨?_, resolve_reads.eq_of_run hw h,
    (Act.Quiet.look.bind fun _ => reportResolved_quiet.bind fun _ => .pure).eq_of_run h⟩
  obtain ⟨t, w₁, hlook, h⟩ := Act.bind_eq_ok.mp h
  rw [Act.run_look, Prod.mk.injEq, Except.ok.injEq] at hlook
  obtain ⟨rfl, rfl⟩ := hlook
  obtain ⟨_, w₂, hreport, h⟩ := Act.bind_eq_ok.mp h
  cases h
  rfl

/-- All questions about a test. -/
def questions (roots : List Path) (scratch : Path) (t : Store) (sources : List Path)
    (names : List Text) : List Question :=
  sourceQuestions roots t sources ++ classQuestions roots scratch t names

/-- A target of a bridge, as it was seen when the bridge was made. -/
def Bridged (layout : Layout) (r : Request) (s : Store) (scratch : Path) (root : Location)
    (target : Path) : Prop :=
  ∃ t, Scratch s scratch root (fun _ => True) t ∧
    Bridge.Target (BridgeSource layout r) t target

/-- What is known about the answers: the store `t` that the questions were put in has the scratch
directory and the trees of bridges, and `files` are the links of all answers resolved. -/
structure Asked (oracle : Oracle) (layout : Layout) (r : Request) (found : Findings)
    (library : SourceRoots) (scratch : Path) (s : Store) (root : Location) (t : Store)
    (answers : List PathSet) (files : PathSet) : Prop where
  inScratch : Scratch s scratch root (Bridged layout r s scratch root) t
  stubFree : t.get? (root ++ [Scratch.stubName]) = none
  stubs : ∀ name ∈ found.classes, t.write (Stub.file scratch) (Utf8.encode (Stub.source name)) =
    .ok (withStub scratch t name)
  answered : List.Forall₂ oracle.Answers
    (questions (withTrees layout r scratch t library).toList scratch t
      (found.contents.sources layout) found.classes) answers
  resolved : files = t.resolveLinks (answers.foldl PathSet.union found.files)

lemma askAll_ok (ho : oracle.ReadOnly) {found : Findings}
    (hw : Scratch s scratch root (Bridged layout r s scratch root) w.store)
    (hfree : w.store.get? (root ++ [Scratch.stubName]) = none)
    (h : askAll oracle layout r found library scratch w = (.ok files, v)) :
    ∃ u answers, addBridgeRoots layout r scratch library w =
        (.ok (withTrees layout r scratch u.store library), u) ∧
      Asked oracle layout r found library scratch s root u.store answers files ∧
      v.store = u.store ∧ (oracle.Quiet → v.questions = w.questions ++
        questions (withTrees layout r scratch u.store library).toList scratch u.store
          (found.contents.sources layout) found.classes) := by
  have hgood : ∀ t target, Scratch s scratch root (Bridged layout r s scratch root) t →
      Bridge.Target (BridgeSource layout r) t target → Bridged layout r s scratch root target :=
    fun t target ht htarget => ⟨t, ht.mono fun _ _ => trivial, htarget⟩
  have hscratch := hw.encloses.dir_ne_nil
  obtain ⟨roots, u, hroots, h⟩ := Act.bind_eq_ok.mp h
  have hrun := (addBridgeRoots_obeys hscratch).of_run hw.wellFormed hroots
  have hu := hw.run hgood hrun
  have hufree := hw.stub_free_run hgood hrun hfree
  obtain ⟨rfl, huquestions⟩ := addBridgeRoots_ok hscratch hw.wellFormed hroots
  obtain ⟨_, u₁, hreport, h⟩ := Act.bind_eq_ok.mp h
  have hstore₁ := Act.Reads.report.eq_of_run hu.wellFormed hreport
  have hquestions₁ := Act.Quiet.report.eq_of_run hreport
  obtain ⟨files₁, u₂, hsources, h⟩ := Act.bind_eq_ok.mp h
  obtain ⟨answers₁, hanswers₁, rfl, hstore₂, hquestions₂⟩ :=
    askSources_ok ho (hstore₁ ▸ hu.wellFormed) hsources
  rw [hstore₁] at hanswers₁ hstore₂ hquestions₂
  obtain ⟨files₂, u₃, hclasses, h⟩ := Act.bind_eq_ok.mp h
  obtain ⟨hstubs, answers₂, hanswers₂, rfl, hstore₃, hquestions₃⟩ :=
    askClasses_ok ho (hstore₂ ▸ hu) (hstore₂ ▸ hufree) hclasses
  rw [hstore₂] at hstubs hanswers₂ hstore₃ hquestions₃
  obtain ⟨rfl, hstore₄, hquestions₄⟩ := resolve_ok (hstore₃ ▸ hu.wellFormed) h
  rw [hstore₃] at hstore₄ ⊢
  refine ⟨u, answers₁ ++ answers₂, hroots, ⟨hu, hufree, hstubs, ?_, ?_⟩, hstore₄, fun hquiet => ?_⟩
  · exact List.rel_append hanswers₁ hanswers₂
  · rw [List.foldl_append]
  · rw [hquestions₄, hquestions₃ hquiet, hquestions₂ hquiet, hquestions₁, huquestions, questions,
      List.append_assoc]

/-- How a closure came about. The store `s` is the one that it was computed in, and `t` the one
that the questions were put in. -/
structure Made (oracle : Oracle) (host : Host) (settings : Settings) (r : Request) (s : Store)
    (found : Findings) (library : SourceRoots) (root : Location) (t : Store)
    (answers : List PathSet) (c : Closure) : Prop where
  findings : ∃ links names, Found settings r s found links names
  libraryRoots : libraryRoots s settings.layout (r.srcRoot settings.layout) = .ok library
  trees : ∃ w u : World, s.makeDir host.scratchDir = .ok w.store ∧
    w.store.find false host.scratchDir = .ok (root, .dir) ∧
    addBridgeRoots settings.layout r host.scratchDir library w =
      (.ok (withTrees settings.layout r host.scratchDir t library), u) ∧ u.store = t
  ne_nil : host.scratchDir.bytes ≠ []
  asked : Asked oracle settings.layout r found library host.scratchDir s root t answers c.files
  hasNatives : c.hasNatives = found.contents.hasNatives settings.layout

/-- A closure that is computed is made in this way, and the store is as before. -/
theorem build_ok {host : Host} {c : Closure} (ho : oracle.ReadOnly) (hw : w.store.WellFormed)
    (h : build host settings oracle r w = (.ok c, v)) :
    ∃ found library root t answers,
      Made oracle host settings r w.store found library root t answers c ∧
      v.store = w.store ∧ (oracle.Quiet → v.questions = w.questions ++
        questions (withTrees settings.layout r host.scratchDir t library).toList host.scratchDir t
          (found.contents.sources settings.layout) found.classes) := by
  have hstore : v.store = w.store := by
    have hbuild : (build host settings oracle r w).2.store = w.store := build_store ho host hw
    rwa [h] at hbuild
  obtain ⟨found, w₁, hfindings, h⟩ := Act.bind_eq_ok.mp h
  obtain ⟨hfound, hstore₁, hquestions₁⟩ := findings_ok hw hfindings
  obtain ⟨library, w₂, hlook, h⟩ := Act.bind_eq_ok.mp h
  rw [Act.run_look, Prod.mk.injEq, hstore₁] at hlook
  obtain ⟨hlibrary, rfl⟩ := hlook
  obtain ⟨files, w₃, hwithin, h⟩ := Act.bind_eq_ok.mp h
  cases h
  unfold Act.within at hwithin
  split at hwithin
  · cases hwithin
  · rename_i t hmake
    rw [hstore₁] at hmake
    rcases hask : askAll oracle settings.layout r found library host.scratchDir
      { w₁ with store := t } with ⟨x, w₄⟩
    rw [hask, Prod.mk.injEq] at hwithin
    obtain ⟨rfl, rfl⟩ := hwithin
    obtain ⟨root, hscratch, hnone⟩ := Scratch.of_makeDir hw hmake
    have hencloses := (hscratch fun _ => True).encloses
    have hne := hencloses.dir_ne_nil
    obtain ⟨u, answers, htrees, hasked, -, hquestions⟩ :=
      askAll_ok ho (hscratch _) (hnone _) hask
    refine ⟨found, library, root, u.store, answers, ⟨hfound, hlibrary, ⟨_, u, hmake,
      hencloses.found, htrees, rfl⟩, hne, hasked, rfl⟩, hstore, fun hquiet => ?_⟩
    rw [hquestions hquiet, hquestions₁]

end Closure

end Excerpt
