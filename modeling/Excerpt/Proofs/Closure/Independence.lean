import Excerpt.Proofs.Closure.Naming
import Excerpt.Proofs.Closure.Trees

/-!
# What a closure does not depend on

Neither the order in which directories are listed nor the name of the scratch directory has an
influence on a closure: with an oracle whose answers go with that name, two runs end in the same way,
make the same trees of bridges, put the same questions and give the same files.

Two things are asked of the names and of the corpus. The names are new: nothing is called so, and no
link mentions them. And the directory of tests among the library sources is none that the scratch
directory is made in; then the walk over these tests would come to the bridges that were just made,
and what it finds there has the name of the scratch directory in its path.
-/

namespace Excerpt

open Store

namespace Closure

variable {oracle : Oracle} {answer : (entries roots : List Path) → Store → Except Failure PathSet}
  {s s' t : Store} {tmp p q : Path} {a b : Bytes} {d l : Location} {node : Node} {settings : Settings}
  {layout : Layout} {r : Request} {host host' : Host} {found : Findings} {library : SourceRoots}
  {w w' : World} {Q : Question → Question → Prop}

/-! ### Two runs -/

/-- Two runs for one request. The stores list their directories in different orders, and the scratch
directory is called `a` in the one run and `b` in the other. -/
structure Variation (settings : Settings) (r : Request) (tmp : Path) (a b : Bytes) (s s' : Store)
    (host host' : Host) : Prop where
  wellFormed : s.WellFormed
  rearranged : Rearranged s s'
  names : Exchangeable a b
  unused : Unnamed a s ∧ Unnamed b s
  scratch : host.scratchDir = tmp.child a ∧ host'.scratchDir = tmp.child b
  absolute : r.testDir.isAbsolute = true ∧ r.corpus.isAbsolute = true
  srcTests : Avoids a b (segments ((r.srcRoot settings.layout).joinText settings.layout.testsDir))
  apart : ∀ l root,
    s.find true ((r.srcRoot settings.layout).joinText settings.layout.testsDir) = .ok (l, .dir) →
    ScratchAt s host.scratchDir root → ¬ l <+: root

/-! ### What is there does not mention the names -/

/-- What was found before the questions does not mention the names. -/
structure Prepared (a b : Bytes) (layout : Layout) (found : Findings) (library : SourceRoots) :
    Prop where
  sources : ∀ p ∈ found.contents.sources layout, Avoids a b (segments p)
  files : ∀ p ∈ found.files.toList, Avoids a b (segments p)
  ordered : found.files.Ordered
  library : ∀ p ∈ library.toList, Avoids a b (segments p)

namespace Variation

lemma avoids_of_get? (h : Variation settings r tmp a b s s' host host') (hl : s.get? l ≠ none) :
    Avoids a b l :=
  .of_notMem (h.unused.1.notMem hl) (h.unused.2.notMem hl)

lemma avoids_of_find (h : Variation settings r tmp a b s s' host host')
    (hf : s.find true p = .ok (l, node)) : Avoids a b (segments p) :=
  .of_notMem (h.unused.1.notMem_of_find h.names.left.isName h.wellFormed hf)
    (h.unused.2.notMem_of_find h.names.right.isName h.wellFormed hf)

/-- The children of a directory. -/
lemma avoids_of_listed (h : Variation settings r tmp a b s s' host host') {dir : Path}
    {keep : Bytes → Path → Prop} {ps : List Path} (hps : ListsChildren s dir keep ps)
    (hp : p ∈ ps) : Avoids a b (segments p) := by
  obtain ⟨l, n, hdir, hn, rfl, -⟩ := (hps.mem p).mp hp
  have hname := (h.wellFormed.isEntryName hn (List.mem_append_right l List.mem_cons_self)).isName
  rw [segments_child _ hname]
  refine (h.avoids_of_find hdir).append fun m hm => ?_
  exact h.avoids_of_get? hn m (List.mem_append_right l hm)

/-- What a page links to. -/
lemma avoids_of_linked (h : Variation settings r tmp a b s s' host host') {sc : Scanner}
    {page corpus : Path} {links : Page.Links} (hlinks : Page.links s sc page corpus = .ok links)
    (hp : p ∈ links.files) : Avoids a b (segments p) := by
  obtain ⟨dir, link, rel, -, hcanonical, -, -⟩ := Page.keeps_of_mem_links hlinks hp
  obtain ⟨l, node, hfind, rfl⟩ := canonical_eq_ok_iff.mp hcanonical
  have hl : s.get? l ≠ none := by
    rw [get?_of_find h.wellFormed hfind]
    simp
  have hmem : ∀ n, Path.IsName n → n ∈ segments (pathOf l) → n ∈ l := by
    intro n hn hmem
    have hstep := mem_steps_of_mem_segments hn hmem
    rw [h.wellFormed.steps_pathOf hl] at hstep
    simpa using hstep
  have havoids := h.avoids_of_get? hl
  exact .of_notMem (fun hm => havoids.left (hmem a h.names.left.isName hm))
    fun hm => havoids.right (hmem b h.names.right.isName hm)

lemma prepared (h : Variation settings r tmp a b s s' host host') {links : List Page.Links}
    {names : List (List Text)} (hfound : Found settings r s found links names)
    (hlibrary : libraryRoots s settings.layout (r.srcRoot settings.layout) = .ok library) :
    Prepared a b settings.layout found library := by
  have hown := TestContents.ofDir_ok h.wellFormed hfound.contents
  obtain ⟨modules, hsrc, hmodules, hroots, -⟩ := libraryRoots_ok h.wellFormed hlibrary
  refine ⟨fun p hp => h.avoids_of_listed hown (List.mem_filter.mp hp).1, fun p hp => ?_, ?_,
    fun p hp => ?_⟩
  · rw [hfound.files] at hp
    rcases PathSet.mem_insertAll hp with hp | hp
    · exact h.avoids_of_listed hown (PathSet.mem_ofList hp)
    · obtain ⟨links', hlinks', hp⟩ := List.mem_flatMap.mp hp
      obtain ⟨sc, -, hlinked⟩ := hfound.linked
      obtain ⟨page, -, hpage⟩ := exists_of_mem_forall₂ hlinked hlinks'
      exact h.avoids_of_linked hpage hp
  · rw [hfound.files]
    exact (PathSet.ordered_empty.insertAll _).insertAll _
  · rw [hroots] at hp
    rcases List.mem_cons.mp hp with rfl | hp
    · obtain ⟨l, hfind⟩ := exists_of_isDir hsrc
      exact h.avoids_of_find hfind
    · exact h.avoids_of_listed hmodules hp

lemma sources (h : Variation settings r tmp a b s s' host host') {t t' : Store}
    {contents : TestContents} (hcontents : TestContents.ofDir s r.testDir = .ok contents)
    (hmake : s.makeDir host.scratchDir = .ok t) (hfresh : FreshTwins s s' tmp a b d t t') :
    Sources a b d s settings.layout r := by
  obtain ⟨l, hdir⟩ : ∃ l, s.find true r.testDir = .ok (l, .dir) := by
    unfold TestContents.ofDir listPaths at hcontents
    cases hlist : s.list r.testDir with
    | error => rw [hlist] at hcontents; cases hcontents
    | ok names =>
      obtain ⟨l, hdir, -⟩ := ListsChildren.of_list hlist
      exact ⟨l, hdir⟩
  refine ⟨⟨h.absolute.1, h.avoids_of_find hdir⟩, ⟨?_, h.srcTests⟩, fun m hfind hp => ?_⟩
  · exact Path.isAbsolute_join_of_left (Path.isAbsolute_join_of_left h.absolute.2 _) _
  · have hroot : ScratchAt s host.scratchDir (d ++ [a]) := by
      refine ⟨t, hmake, ?_⟩
      rw [h.scratch.1]
      exact hfresh.twins.left.encloses.found
    exact h.apart m _ hfind hroot (hp.trans (List.prefix_append ..))

end Variation

/-! ### In the scratch directory -/

/-- Two runs that go the same way in the scratch directory go the same way altogether, whatever
was done before them. -/
lemma lockstep_from {α β : Type} {f : Findings → SourceRoots → Path → Act α}
    {g : Findings → α → β} {R : β → β → Prop} (h : Variation settings r tmp a b s s' host host')
    (hstores : Unchanged s s' w.store w'.store) (hQ : List.Forall₂ Q w.questions w'.questions)
    (hf : ∀ found library d (w w' : World), Prepared a b settings.layout found library →
      FreshTwins s s' tmp a b d w.store w'.store → Sources a b d s settings.layout r →
      List.Forall₂ Q w.questions w'.questions →
      Act.Lockstep (fun _ _ => True) Q (fun x y => R (g found x) (g found y))
        (f found library (tmp.child a)) (f found library (tmp.child b)) w w') :
    Act.Lockstep (fun _ _ => True) Q R
      (findings settings r >>= fun found =>
        Act.look (libraryRoots · settings.layout (r.srcRoot settings.layout)) >>= fun library =>
          Act.within .makeScratch host.scratchDir (f found library host.scratchDir) >>= fun x =>
            pure (g found x))
      (findings settings r >>= fun found =>
        Act.look (libraryRoots · settings.layout (r.srcRoot settings.layout)) >>= fun library =>
          Act.within .makeScratch host'.scratchDir (f found library host'.scratchDir) >>= fun x =>
            pure (g found x))
      w w' := by
  have hs := h.wellFormed
  refine .bind (findings_lockstep (.of_rearranged h.rearranged hs) hQ hstores) ?_
  rintro found _ v v' hx - rfl hv hQ
  obtain ⟨⟨links, names, hfound⟩, -, -⟩ := findings_ok (hstores.1.symm ▸ hs) hx
  rw [hstores.1] at hfound
  have hchildren := h.rearranged.sameChildren hs (r.srcRoot settings.layout)
  refine .look_bind hQ (by rw [hv.1, hv.2, libraryRoots_eq hchildren]) fun library hlook => ?_
  rw [hv.1] at hlook
  have hmake : Act.EndAlike (fun t t' => ∃ d, FreshTwins s s' tmp a b d t t')
      (v.store.makeDir host.scratchDir) (v'.store.makeDir host'.scratchDir) := by
    rw [hv.1, hv.2, h.scratch.1, h.scratch.2]
    exact makeDir_endAlike hs h.rearranged h.names h.unused.1 h.unused.2
  refine .bind (R := fun x y => R (g found x) (g found y)) (.within hQ hmake fun u u' hu _ hd => ?_)
    fun x y _ _ _ _ hxy _ hQ' => .pure hQ' trivial hxy
  obtain ⟨d, hd⟩ := hd
  rw [hv.1] at hu
  have hsources := h.sources hfound.contents hu hd
  rw [h.scratch.1, h.scratch.2]
  exact hf found library d _ _ (h.prepared hfound hlook) hd hsources hQ

/-- Two runs with nothing done before them. -/
lemma lockstep_of_inScratch {α β : Type} {f : Findings → SourceRoots → Path → Act α}
    {g : Findings → α → β} {R : β → β → Prop} (h : Variation settings r tmp a b s s' host host')
    (hf : ∀ found library d (w w' : World), Prepared a b settings.layout found library →
      FreshTwins s s' tmp a b d w.store w'.store → Sources a b d s settings.layout r →
      List.Forall₂ Q w.questions w'.questions →
      Act.Lockstep (fun _ _ => True) Q (fun x y => R (g found x) (g found y))
        (f found library (tmp.child a)) (f found library (tmp.child b)) w w') :
    Act.Lockstep (fun _ _ => True) Q R
      (findings settings r >>= fun found =>
        Act.look (libraryRoots · settings.layout (r.srcRoot settings.layout)) >>= fun library =>
          Act.within .makeScratch host.scratchDir (f found library host.scratchDir) >>= fun x =>
            pure (g found x))
      (findings settings r >>= fun found =>
        Act.look (libraryRoots · settings.layout (r.srcRoot settings.layout)) >>= fun library =>
          Act.within .makeScratch host'.scratchDir (f found library host'.scratchDir) >>= fun x =>
            pure (g found x))
      (.ofStore s) (.ofStore s') :=
  lockstep_from h ⟨rfl, rfl⟩ .nil hf

/-- What comes before the first question; the result is the store with all trees of bridges. -/
def beforeQuestions (host : Host) (settings : Settings) (r : Request) : Act Store := do
  let layout := settings.layout
  let _ ← findings settings r
  let library ← Act.look (libraryRoots · layout (r.srcRoot layout))
  Act.within .makeScratch host.scratchDir do
    let _ ← addBridgeRoots layout r host.scratchDir library
    Act.look .ok

/-- In the scratch directory both runs do the same. -/
lemma askAll_lockstep (ho : oracle.AnswersBy answer) (halike : AnswersAlike answer s s' tmp a b)
    (hfresh : FreshTwins s s' tmp a b d w.store w'.store) (hr : Sources a b d s layout r)
    (hprepared : Prepared a b layout found library)
    (hQ : List.Forall₂ (Question.Moved s s' tmp a b) w.questions w'.questions) :
    Act.Lockstep (fun _ _ => True) (Question.Moved s s' tmp a b)
      (fun files files' => ∀ p, files'.contains p = files.contains p)
      (askAll oracle layout r found library (tmp.child a))
      (askAll oracle layout r found library (tmp.child b)) w w' := by
  have hlibrary : List.Forall₂ (Path.Moved tmp a b) library.toList library.toList :=
    List.forall₂_same.mpr fun p hp => .outside (hprepared.library p hp)
  -- No stub is made while the bridges are made.
  have hfree : ∀ {s : Store} {dir : Path} {root : Location} {roots : SourceRoots} {x v : World},
      FreshScratch s dir root x.store → addBridgeRoots layout r dir library x = (.ok roots, v) →
      v.store.get? (root ++ [Scratch.stubName]) = none := by
    intro s dir root roots x v hx hrun
    have hscratch := hx.scratch fun _ => True
    exact hscratch.stub_free_run (fun _ _ _ _ => trivial)
      ((addBridgeRoots_obeys hscratch.encloses.dir_ne_nil).of_run hscratch.wellFormed hrun)
      (hx.empty _)
  unfold askAll
  refine .bind (addBridgeRoots_lockstep hfresh hQ hr hlibrary) ?_
  intro roots roots' v v' hx hy hroots htwins hQ'
  have hleft := hfree hfresh.left hx
  have hright := hfree hfresh.right hy
  refine .bind (.report (S := Unchanged v.store v'.store) hQ' ⟨rfl, rfl⟩) ?_
  intro _ _ x x' _ _ _ hx' hQ''
  refine .bind (askSources_lockstep ho halike htwins hprepared.sources hQ'' hx' hroots ?_) ?_
  · exact .of_avoids htwins.exchangeable hprepared.ordered hprepared.files
  · intro files files' y y' _ _ hfiles hy' hQ'''
    refine .bind (askClasses_lockstep ho halike htwins hleft hright hQ''' hy' hroots hfiles) ?_
    intro files files' z z' _ _ hfiles hz hQ''''
    exact (resolve_lockstep htwins hQ'''' hz hfiles).mono (fun _ _ _ => trivial) fun _ _ h => h

/-- A closure does not depend on the order in which directories are listed, nor on the name of the
scratch directory. Both runs put the same questions, whether they fail or not; both fail or both
give a closure of the same files, with native sources or not; and the trees of bridges are the same
or cannot be made in both. -/
theorem build_independent (h : Variation settings r tmp a b s s' host host')
    (ho : oracle.AnswersBy answer) (halike : AnswersAlike answer s s' tmp a b) :
    List.Forall₂ (Question.Moved s s' tmp a b)
        (build host settings oracle r (.ofStore s)).2.questions
        (build host' settings oracle r (.ofStore s')).2.questions ∧
      Act.EndAlike (fun c c' : Closure => c'.hasNatives = c.hasNatives ∧
          ∀ p, c'.files.contains p = c.files.contains p)
        (build host settings oracle r (.ofStore s)).1
        (build host' settings oracle r (.ofStore s')).1 ∧
      Act.EndAlike (fun t t' => ∃ d, Twins s s' tmp a b d t t')
        (beforeQuestions host settings r (.ofStore s)).1
        (beforeQuestions host' settings r (.ofStore s')).1 := by
  have hbuild := lockstep_of_inScratch (Q := Question.Moved s s' tmp a b)
    (R := fun c c' : Closure => c'.hasNatives = c.hasNatives ∧
      ∀ p, c'.files.contains p = c.files.contains p)
    (f := askAll oracle settings.layout r)
    (g := fun found files => ⟨files, found.contents.hasNatives settings.layout⟩) h
    fun found library d w w' hprepared hfresh hr hQ =>
      (askAll_lockstep ho halike hfresh hr hprepared hQ).mono (fun _ _ h => h)
        fun _ _ hfiles => ⟨rfl, hfiles⟩
  have hbefore := lockstep_of_inScratch (Q := fun _ _ => True)
    (R := fun t t' => ∃ d, Twins s s' tmp a b d t t')
    (f := fun _ library scratch => addBridgeRoots settings.layout r scratch library >>= fun _ =>
      Act.look .ok) (g := fun _ t => t) h
    fun found library d w w' hprepared hfresh hr hQ => by
      have hlibrary : List.Forall₂ (Path.Moved tmp a b) library.toList library.toList :=
        List.forall₂_same.mpr fun p hp => .outside (hprepared.library p hp)
      refine .bind (addBridgeRoots_lockstep hfresh hQ hr hlibrary) ?_
      intro _ _ v v' _ _ _ hv hQ'
      exact ⟨hQ', Or.inr ⟨_, _, rfl, rfl, ⟨d, hv⟩, trivial⟩⟩
  simp only [bind_pure] at hbefore
  exact ⟨hbuild.questions, hbuild.endAlike, hbefore.endAlike⟩

/-! ### A corpus with tests among the library sources -/

/-- Where scratch directories are made. -/
def scratchPlace : Path := .ofText "/tmp".toList

/-- A name for a scratch directory. -/
def firstName : Bytes := Utf8.encode "one".toList

/-- Another name for a scratch directory. -/
def secondName : Bytes := Utf8.encode "two".toList

/-- A host on which the scratch directory has this name. -/
def hostNaming (name : Bytes) : Host := { Host.bare with scratchDir := scratchPlace.child name }

/-- A corpus with a test of one source file. The tests among the library sources are as given. -/
def mirrorStore (srcTests : Node) : Store where
  entries :=
    [(locationOf ["jck"], .dir), (locationOf ["jck", "src"], .dir),
      (locationOf ["jck", "src", "tests"], srcTests), (locationOf ["jck", "tests"], .dir),
      (locationOf ["jck", "tests", "t"], .dir),
      (locationOf ["jck", "tests", "t", "T.java"],
        .file (Utf8.encode "package p;".toList) plainMode ⟨0, 0⟩), (locationOf ["tmp"], .dir)]
  cwd := []
  clock := ⟨1, 0⟩

/-- `mirrorStore` with its entries the other way round. -/
def mirroredStore (srcTests : Node) : Store :=
  { mirrorStore srcTests with entries := (mirrorStore srcTests).entries.reverse }

/-- The place of the bridge for the source file in one of the trees. -/
def mirrorBridge (top : Bytes) : Location :=
  [top, Utf8.encode "p".toList] ++ [Utf8.encode "T.java".toList]

/-- The oracle that names the bridge for the source file in one of the trees. -/
def mirrorOracle (top : Bytes) : Oracle := .namingLinks scratchPlace (mirrorBridge top)

lemma mirrorOracle_answersBy (top : Bytes) :
    (mirrorOracle top).AnswersBy fun _ _ => linksIn scratchPlace (mirrorBridge top) :=
  Oracle.namingLinks_answersBy _ _

lemma mirrorOracle_answersAlike {srcTests : Node} {top : Bytes}
    (hs : (mirrorStore srcTests).WellFormed) (h : Rearranged (mirrorStore srcTests) s')
    (htop : top = Scratch.testsName ∨ top = Scratch.srcTestsName)
    (hfind : (mirrorStore srcTests).find true scratchPlace = .ok (locationOf ["tmp"], .dir)) :
    AnswersAlike (fun _ _ => linksIn scratchPlace (mirrorBridge top)) (mirrorStore srcTests) s'
      scratchPlace firstName secondName := by
  refine linksIn_answersAlike hs h (by decide) hfind (by rfl) ⟨top, _, rfl, htop, ?_⟩ (by decide)
  rintro n hn
  rw [List.mem_singleton.mp hn]
  exact ⟨by decide, by decide⟩

lemma exchangeable_names : Exchangeable firstName secondName := ⟨by decide, by decide, rfl⟩

/-- The closure of the test in `mirrorStore`. -/
def mirrorClosure : Closure := ⟨⟨[.ofText "/jck/tests/t/T.java".toList]⟩, false⟩

lemma variation_mirrorStore :
    Variation .default scriptRequest scratchPlace firstName secondName (mirrorStore .dir)
      (mirroredStore .dir) (hostNaming firstName) (hostNaming secondName) := by
  have hsrcTests : (mirrorStore .dir).find true
      ((scriptRequest.srcRoot Settings.default.layout).joinText Settings.default.layout.testsDir) =
        .ok (locationOf ["jck", "src", "tests"], .dir) := by decide +kernel
  have hmake : ((mirrorStore .dir).makeDir (hostNaming firstName).scratchDir).map
      (·.find false (hostNaming firstName).scratchDir) =
        .ok (.ok (locationOf ["tmp", "one"], .dir)) := by decide +kernel
  refine ⟨by decide +kernel, ⟨List.reverse_perm _, rfl, rfl⟩, exchangeable_names,
    ⟨by decide +kernel, by decide +kernel⟩, ⟨rfl, rfl⟩, ⟨by decide, by decide⟩,
    .of_notMem (by decide +kernel) (by decide +kernel), ?_⟩
  rintro l root hfind ⟨t, ht, hroot⟩
  rw [hsrcTests] at hfind
  rw [ht] at hmake
  simp only [Except.map, Except.ok.injEq] at hmake
  rw [hroot] at hmake
  cases hfind
  cases hmake
  decide

set_option maxRecDepth 10000 in
/-- For the test in `mirrorStore` both runs give the one file of the test. -/
theorem build_mirrorStore_independent :
    Variation .default scriptRequest scratchPlace firstName secondName (mirrorStore .dir)
        (mirroredStore .dir) (hostNaming firstName) (hostNaming secondName) ∧
      AnswersAlike (fun _ _ => linksIn scratchPlace (mirrorBridge Scratch.testsName))
        (mirrorStore .dir) (mirroredStore .dir) scratchPlace firstName secondName ∧
      (build (hostNaming firstName) .default (mirrorOracle Scratch.testsName) scriptRequest
        (.ofStore (mirrorStore .dir))).1 = .ok mirrorClosure ∧
      ∃ c, (build (hostNaming secondName) .default (mirrorOracle Scratch.testsName) scriptRequest
          (.ofStore (mirroredStore .dir))).1 = .ok c ∧
        ∀ p, c.files.contains p = mirrorClosure.files.contains p := by
  have hvariation := variation_mirrorStore
  have halike := mirrorOracle_answersAlike hvariation.wellFormed hvariation.rearranged (Or.inl rfl)
    (by decide +kernel)
  have hclosure : (build (hostNaming firstName) .default (mirrorOracle Scratch.testsName)
      scriptRequest (.ofStore (mirrorStore .dir))).1 = .ok mirrorClosure := by decide +kernel
  obtain ⟨-, hends, -⟩ := build_independent hvariation (mirrorOracle_answersBy _) halike
  refine ⟨hvariation, halike, hclosure, ?_⟩
  rw [hclosure] at hends
  generalize (build (hostNaming secondName) .default (mirrorOracle Scratch.testsName)
    scriptRequest (.ofStore (mirroredStore .dir))).1 = x at hends
  cases hends with
  | ok h => exact ⟨_, rfl, h.2⟩

/-- A path that shows the name of a scratch directory. -/
def leakedPath : Path := .ofText "/jck/src/tests/one/tests/p/T.java".toList

set_option maxRecDepth 10000 in
/-- If the tests among the library sources are a link to the place of the scratch directory, the
walk over them comes to the bridges of the test, and a bridge to a bridge is resolved only once: the
name of the scratch directory is in the closure. -/
theorem build_mirrorStore_depends :
    (mirrorStore (.link scratchPlace)).WellFormed ∧ Exchangeable firstName secondName ∧
      Unnamed firstName (mirrorStore (.link scratchPlace)) ∧
      Unnamed secondName (mirrorStore (.link scratchPlace)) ∧
      (mirrorOracle Scratch.srcTestsName).AnswersBy
        (fun _ _ => linksIn scratchPlace (mirrorBridge Scratch.srcTestsName)) ∧
      AnswersAlike (fun _ _ => linksIn scratchPlace (mirrorBridge Scratch.srcTestsName))
        (mirrorStore (.link scratchPlace)) (mirrorStore (.link scratchPlace)) scratchPlace firstName
        secondName ∧
      ∃ c c', (build (hostNaming firstName) .default (mirrorOracle Scratch.srcTestsName)
          scriptRequest (.ofStore (mirrorStore (.link scratchPlace)))).1 = .ok c ∧
        (build (hostNaming secondName) .default (mirrorOracle Scratch.srcTestsName)
          scriptRequest (.ofStore (mirrorStore (.link scratchPlace)))).1 = .ok c' ∧
        c.files.contains leakedPath = true ∧ c'.files.contains leakedPath = false := by
  have hs : (mirrorStore (.link scratchPlace)).WellFormed := by decide +kernel
  have hrun : (build (hostNaming firstName) .default (mirrorOracle Scratch.srcTestsName)
        scriptRequest (.ofStore (mirrorStore (.link scratchPlace)))).1 =
          .ok ⟨⟨[leakedPath, .ofText "/jck/tests/t/T.java".toList]⟩, false⟩ ∧
      (build (hostNaming secondName) .default (mirrorOracle Scratch.srcTestsName)
        scriptRequest (.ofStore (mirrorStore (.link scratchPlace)))).1 =
          .ok ⟨⟨[.ofText "/jck/src/tests/two/tests/p/T.java".toList,
            .ofText "/jck/tests/t/T.java".toList]⟩, false⟩ := by decide +kernel
  refine ⟨hs, exchangeable_names, by decide +kernel, by decide +kernel, mirrorOracle_answersBy _,
    mirrorOracle_answersAlike hs ⟨.refl _, rfl, rfl⟩ (Or.inr rfl) (by decide +kernel), _, _, hrun.1,
    hrun.2, by decide +kernel, by decide +kernel⟩

end Closure

end Excerpt
