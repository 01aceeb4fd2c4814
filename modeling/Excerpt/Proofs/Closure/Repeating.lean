import Excerpt.Proofs.Closure.Asking
import Excerpt.Proofs.Closure.Companions

/-!
# A closure that is computed again

A closure is computed once more after the store has grown in the output. If nothing that the closure
depends on is there, the oracle does not look there, and no link of a page runs into something that is
missing there, then the closure is the same as before.
-/

namespace Excerpt

open Store

variable {oracle : Oracle} {answer : (entries roots : List Path) → Store → Except Failure PathSet}
  {s t x y : Store} {c o root : Location} {dir p : Path} {settings : Settings} {r : Request}
  {test link : Text} {host : Host} {roots : SourceRoots} {files : PathSet} {w w' : World}
  {Q : Question → Question → Prop}

/-! ### What a closure depends on -/

/-- Following a link of a page gives the same where the link runs into nothing that is new. -/
lemma Page.follow_eq (h : Outgrowth o s t) {corpus : Path} {found : Page.Links}
    (hlink : ∀ rel, relativeTarget? link = some rel → KeepsOut s o true (dir.joinText rel)) :
    follow t dir corpus found link = follow s dir corpus found link := by
  unfold follow
  split
  · rfl
  · rename_i rel hrel
    rcases h.locate true Outgrowth.follows_true (hlink rel hrel) with
      ⟨l, node, node', asDir, hl, hl', hshape⟩ | ⟨hnot, he⟩
    · have hfind := find_of_locate hl
      have hfind' := find_of_locate hl'
      have hfile := isFile_pathOf_iff h.base (get?_of_find h.base hfind)
        (isLink_of_find h.base hfind)
      have hfile' := isFile_pathOf_iff h.wellFormed (get?_of_find h.wellFormed hfind')
        (isLink_of_find h.wellFormed hfind')
      rw [Node.isFile_of_shape hshape, ← hfile, ← Bool.eq_iff_iff] at hfile'
      rw [canonical_eq_ok_iff.mpr ⟨l, node, hfind, rfl⟩,
        canonical_eq_ok_iff.mpr ⟨l, node', hfind', rfl⟩]
      simp only [hfile']
    · have hsame : t.canonical (dir.joinText rel) = s.canonical (dir.joinText rel) := by
        rw [Store.canonical, Store.canonical, Store.find, Store.find, he]
      rw [hsame]
      cases hcanonical : s.canonical (dir.joinText rel) with
      | error => rfl
      | ok file =>
        obtain ⟨l, node, hfind, -⟩ := canonical_eq_ok_iff.mp hcanonical
        obtain ⟨asDir, hl⟩ := locate_of_find hfind
        exact absurd hl (hnot l node asDir)

/-- The children of a directory that keeps to what can be reached are the same. -/
lemma Store.Undisturbed.sameChildren (h : Undisturbed s c t) (hp : KeepsTo s c dir) :
    SameChildren s t dir where
  left := h.base
  right := h.wellFormed
  find := h.find_eq hp true
  get? _ _ hfind := h.get?_append_eq hp hfind
  isDir l n _ hn := by
    have hname := (h.base.isEntryName hn (List.mem_append_right l List.mem_cons_self)).isName
    exact h.isDir_eq (hp.child h.base h.corpusDir hname)

namespace Closure

/-- No link of a page of the test runs into a place beneath `o` where nothing stands. -/
def PagesKeepOut (settings : Settings) (r : Request) (s : Store) (o : Location) : Prop :=
  ∀ contents sc page dir content link rel, TestContents.ofDir s r.testDir = .ok contents →
    Page.scanner = .ok sc → page ∈ contents.descriptors settings.layout →
    page.parent? = some dir → s.read page = .ok content → link ∈ sc.captures content →
    Page.relativeTarget? link = some rel → KeepsOut s o true (dir.joinText rel)

/-- Nothing that the closure of the request depends on is in the output at `o`, and the scratch
directory is neither there nor in reach of the corpus at `c`. -/
structure Secluded (settings : Settings) (r : Request) (test : Text) (s : Store) (c o : Location)
    (scratch : Path) : Prop where
  wellFormed : s.WellFormed
  plain : settings.layout.IsPlain
  accepted : Request.Accepted s settings.layout r test c o
  output : s.OutOfReach c o
  testDir : KeepsTo s c r.testDir
  pages : PagesKeepOut settings r s o
  scratch : ∃ root, ScratchAt s scratch root ∧ ¬ o <+: root ∧ s.OutOfReach c root

namespace Secluded

variable {scratch : Path}

lemma undisturbed (h : Secluded settings r test s c o scratch) (ht : Outgrowth o s t) :
    Undisturbed s c t :=
  ht.undisturbed h.accepted.corpusDir h.output

lemma keepsTo_srcRoot (h : Secluded settings r test s c o scratch) :
    KeepsTo s c (r.srcRoot settings.layout) := by
  obtain ⟨habs, hsteps⟩ := h.accepted.srcRoot_steps h.wellFormed h.plain
  obtain ⟨hcorpus, hcorpusSteps⟩ := h.accepted.corpus_steps h.wellFormed
  refine (KeepsTo.of_steps_eq hcorpus hcorpusSteps).append h.wellFormed h.accepted.corpusDir habs ?_
    h.plain.src.2
  rw [hsteps, hcorpusSteps]

/-- The directories that bridges are made for keep to what can be reached. -/
lemma keepsTo_source (h : Secluded settings r test s c o scratch)
    (hp : BridgeSource settings.layout r p) : KeepsTo s c p := by
  rcases hp with rfl | hp | rfl
  · exact h.testDir
  · obtain ⟨⟨hsteps, habs⟩, hbeneath⟩ := of_mem_ancestors hp
    obtain ⟨htests, htestsSteps⟩ := h.accepted.testsRoot_steps h.wellFormed h.plain
    have hinitial := ((Path.startsWith_iff htests).mp hbeneath).2
    rw [htestsSteps] at hinitial
    exact h.testDir.of_prefix (habs.trans h.testDir.1) ((List.prefix_append _ _).trans hinitial)
      hsteps
  · obtain ⟨habs, hsteps⟩ := h.plain.tests.joinText h.keepsTo_srcRoot.1
    exact h.keepsTo_srcRoot.append h.wellFormed h.accepted.corpusDir habs hsteps h.plain.tests.2

lemma keepsTo_own (h : Secluded settings r test s c o scratch) {contents : TestContents}
    (hcontents : TestContents.ofDir s r.testDir = .ok contents) (hp : p ∈ contents.files) :
    KeepsTo s c p := by
  obtain ⟨l, n, -, hn, rfl, -⟩ := ((TestContents.ofDir_ok h.wellFormed hcontents).mem p).mp hp
  have hname := (h.wellFormed.isEntryName hn (List.mem_append_right l List.mem_cons_self)).isName
  exact h.testDir.child h.wellFormed h.accepted.corpusDir hname

lemma links_eq (h : Secluded settings r test s c o scratch) (ht : Outgrowth o s t)
    {contents : TestContents} (hcontents : TestContents.ofDir s r.testDir = .ok contents)
    {sc : Scanner} (hsc : Page.scanner = .ok sc) {page : Path}
    (hpage : page ∈ contents.descriptors settings.layout) :
    Page.links t sc page r.corpus = Page.links s sc page r.corpus := by
  have hread := (h.undisturbed ht).read_eq
    (h.keepsTo_own hcontents (List.mem_filter.mp hpage).1)
  unfold Page.links
  rw [hread]
  split
  · rfl
  · rename_i dir hdir
    split
    · rfl
    · rename_i content hcontent
      refine congrArg Except.ok (List.foldl_ext _ _ _ fun found link hlink => ?_)
      exact Page.follow_eq ht fun rel hrel => h.pages contents sc page dir content link rel hcontents
        hsc hpage hdir hcontent (mem_distinctTexts.mp hlink) hrel

lemma classNames_eq (h : Secluded settings r test s c o scratch) (ht : Outgrowth o s t)
    {sc : Script.Scanners} {scripts : List Path} (hscripts : ∀ p ∈ scripts, KeepsTo s c p) :
    classNames t sc scripts = classNames s sc scripts := by
  induction scripts with
  | nil => rfl
  | cons script scripts ih =>
    rw [classNames, classNames, ih fun p hp => hscripts p (List.mem_cons_of_mem _ hp),
      Script.candidates, Script.candidates,
      (h.undisturbed ht).read_eq (hscripts script List.mem_cons_self)]

/-- The same is found about the test. -/
lemma findsSame (h : Secluded settings r test s c o scratch) (ht : Outgrowth o s t) :
    FindsSame settings r s t where
  contents := TestContents.ofDir_eq ((h.undisturbed ht).sameChildren h.testDir)
  links _ _ hcontents hsc _ hpage := h.links_eq ht hcontents hsc hpage
  names _ _ hcontents := h.classNames_eq ht fun _ hp =>
    h.keepsTo_own hcontents (List.mem_filter.mp hp).1

/-- The path of the scratch directory runs into nothing but its own place. -/
lemma keepsOut_scratch (h : Secluded settings r test s c o scratch) :
    KeepsOut s o true scratch := by
  obtain ⟨root, ⟨u, hmake, hfind⟩, hroot, -⟩ := h.scratch
  intro q hq
  obtain ⟨d, n, asDir, hl, rfl⟩ := makeDir_eq_ok_iff.mp hmake
  have hplace : (s.put (d ++ [n]) .dir).find false scratch = .ok (d ++ [n], .dir) :=
    find_put_new h.wellFormed hl rfl fun _ => rfl
  rw [hfind, Except.ok.injEq, Prod.mk.injEq] at hplace
  rw [(of_locate_vacant h.wellFormed hl).1.eq_of_misses hq, ← hplace.1]
  exact hroot

end Secluded

/-! ### Asking -/

/-- The answers do not depend on what is beneath `o`. -/
def IgnoresBeneath (answer : (entries roots : List Path) → Store → Except Failure PathSet)
    (o : Location) : Prop :=
  ∀ entries roots s t, Outgrowth o s t → answer entries roots t = answer entries roots s

lemma ask_again (ho : oracle.AnswersBy answer) (hanswer : IgnoresBeneath answer o)
    (hw : Companions s c o dir root w.store w'.store)
    (hQ : List.Forall₂ (fun _ _ => True) w.questions w'.questions) {entries : List Path} :
    Act.Lockstep (Companions s c o dir root) (fun _ _ => True) Eq (ask oracle entries roots)
      (ask oracle entries roots) w w' := by
  unfold ask
  refine .bind (.noteQuestion hQ hw trivial) fun _ _ v v' _ _ _ hv hQ' => ?_
  refine ho.lockstep hQ' hv ?_
  rw [hanswer _ _ _ _ hv.grown]
  cases answer entries roots.toList v.store with
  | error => exact .error
  | ok => exact .ok rfl

lemma askSources_again (ho : oracle.AnswersBy answer) (hanswer : IgnoresBeneath answer o)
    (hw : Companions s c o dir root w.store w'.store)
    (hQ : List.Forall₂ (fun _ _ => True) w.questions w'.questions) {sources : List Path} :
    Act.Lockstep (Companions s c o dir root) (fun _ _ => True) Eq
      (askSources oracle roots sources files) (askSources oracle roots sources files) w w' := by
  induction sources generalizing files w w' with
  | nil => exact .pure hQ hw rfl
  | cons p sources ih =>
    refine .bind (ask_again ho hanswer hw hQ) ?_
    rintro found _ v v' - - rfl hv hQ'
    exact ih hv hQ'

lemma askClasses_again (ho : oracle.AnswersBy answer) (hanswer : IgnoresBeneath answer o)
    (hw : Companions s c o dir root w.store w'.store)
    (hQ : List.Forall₂ (fun _ _ => True) w.questions w'.questions) {names : List Text} :
    Act.Lockstep (Companions s c o dir root) (fun _ _ => True) Eq
      (askClasses oracle roots dir names files) (askClasses oracle roots dir names files) w w' := by
  induction names generalizing files w w' with
  | nil => exact .pure hQ hw rfl
  | cons name names ih =>
    rw [askClasses, write_bind]
    refine .bind (.change hQ (hw.writeStub _)) fun _ _ v v' _ _ _ hv hQ' => ?_
    refine .bind (ask_again ho hanswer hv hQ') ?_
    rintro found _ x x' - - rfl hx hQ''
    have hrest : ∀ y y' : World, Companions s c o dir root y.store y'.store →
        List.Forall₂ (fun _ _ => True) y.questions y'.questions →
        Act.Lockstep (Companions s c o dir root) (fun _ _ => True) Eq
          (Stub.remove (Stub.file dir) >>= fun _ =>
            askClasses oracle roots dir names (files.union found))
          (Stub.remove (Stub.file dir) >>= fun _ =>
            askClasses oracle roots dir names (files.union found)) y y' := fun y y' hy hQ''' =>
      .bind (.change hQ''' hy.removeStub) fun _ _ z z' _ _ _ hz hQ'''' => ih hz hQ''''
    split
    · exact .bind (.report hQ'' hx) fun _ _ y y' _ _ _ hy hQ''' => hrest y y' hy hQ'''
    · exact hrest x x' hx hQ''

/-! ### Resolving -/

/-- A link is resolved in the same way, and so is a path that keeps to what can be reached. -/
lemma resolveLink_again (h : Companions s c o dir root x y)
    (hp : x.resolveLink p = p → KeepsTo s c p) : y.resolveLink p = x.resolveLink p := by
  by_cases hlink : ∃ l target, x.find false p = .ok (l, .link target)
  · obtain ⟨l, target, hfind⟩ := hlink
    obtain ⟨node, hfind', hshape⟩ := h.grown.ext.find hfind
    rw [resolveLink, resolveLink, ownNode?, ownNode?, hfind, hfind', Node.shape_eq_link.mp hshape]
  · have hself : x.resolveLink p = p := by
      unfold resolveLink ownNode?
      split
      · rename_i target hown
        split at hown
        · rename_i l node hfind
          cases hown
          exact absurd ⟨l, target, hfind⟩ hlink
        · cases hown
      · rfl
    rw [h.undisturbed_left.resolveLink_eq (hp hself), h.undisturbed_right.resolveLink_eq (hp hself)]

/-- If all files in the end keep to what can be reached, they are the same. -/
lemma resolve_again (hw : Companions s c o dir root w.store w'.store)
    (hQ : List.Forall₂ (fun _ _ => True) w.questions w'.questions) :
    Act.Lockstep (fun _ _ => True) (fun _ _ => True)
      (fun found found' => (∀ p ∈ found.toList, KeepsTo s c p) → found' = found) (resolve files)
      (resolve files) w w' := by
  obtain ⟨v, hx, hstore, hquestions⟩ := run_resolve files w
  obtain ⟨v', hx', hstore', hquestions'⟩ := run_resolve files w'
  refine ⟨by rw [hx, hx', hquestions, hquestions']; exact hQ, Or.inr ⟨_, _, by rw [hx], by rw [hx'],
    fun hkeeps => ?_, trivial⟩⟩
  have hmap : files.toList.map w'.store.resolveLink = files.toList.map w.store.resolveLink := by
    refine List.map_congr_left fun p hp => resolveLink_again hw fun hself => ?_
    have hmem : (w.store.resolveLinks files).contains p = true :=
      contains_resolveLinks.mpr ⟨p, hp, by rw [hself]; exact Path.same_refl p⟩
    obtain ⟨q, hq, hsame⟩ := PathSet.contains_iff.mp hmem
    exact (hkeeps q hq).of_same hsame
  rw [resolveLinks, resolveLinks, hmap]

/-! ### All together -/

lemma askAll_again (h : ∀ p, BridgeSource settings.layout r p → KeepsTo s c p)
    (ho : oracle.AnswersBy answer) (hanswer : IgnoresBeneath answer o) {found : Findings}
    {library : SourceRoots} (hw : Companions s c o dir root w.store w'.store)
    (hQ : List.Forall₂ (fun _ _ => True) w.questions w'.questions) :
    Act.Lockstep (fun _ _ => True) (fun _ _ => True)
      (fun found found' => (∀ p ∈ found.toList, KeepsTo s c p) → found' = found)
      (askAll oracle settings.layout r found library dir)
      (askAll oracle settings.layout r found library dir) w w' := by
  unfold askAll
  refine .bind (Companions.addBridgeRoots_lockstep hw hQ h) ?_
  rintro roots _ v v' - - rfl hv hQ'
  refine .bind (.report hQ' hv) fun _ _ x x' _ _ _ hx hQ'' => ?_
  refine .bind (askSources_again ho hanswer hx hQ'') ?_
  rintro files _ y y' - - rfl hy hQ'''
  refine .bind (askClasses_again ho hanswer hy hQ''') ?_
  rintro files _ z z' - - rfl hz hQ''''
  exact resolve_again hz hQ''''

/-- The scratch directory is made in both stores. -/
lemma Secluded.makeDir_alike {scratch : Path} (h : Secluded settings r test s c o scratch)
    (ht : Outgrowth o s t) :
    Act.EndAlike (fun u u' => ∃ root, Companions s c o scratch root u u') (s.makeDir scratch)
      (t.makeDir scratch) := by
  obtain ⟨root, hat, hroot, hout⟩ := h.scratch
  have halike := ht.makeDir_alike h.keepsOut_scratch
  generalize hu : s.makeDir scratch = a at halike
  generalize t.makeDir scratch = b at halike
  cases halike with
  | error => exact .error
  | ok hgrown =>
    obtain ⟨l, hscratch, -⟩ := Scratch.of_makeDir h.wellFormed hu
    have hleft := hscratch fun _ => True
    obtain rfl := hat.eq hu hleft.encloses.found
    exact .ok ⟨root, h.accepted.corpusDir, h.accepted.outputDir, h.output, hout, hroot, hleft, hgrown⟩

/-- If the files of the closure keep to what can be reached, then the closure is the same in a store
that has grown in the output. -/
theorem build_again (h : Secluded settings r test s c o host.scratchDir)
    (ho : oracle.AnswersBy answer) (hanswer : IgnoresBeneath answer o) (ht : Outgrowth o s t)
    (hw : w.store = s) (hw' : w'.store = t)
    (hQ : List.Forall₂ (fun _ _ => True) w.questions w'.questions) {closure : Closure}
    (hbuild : (build host settings oracle r w).1 = .ok closure)
    (hfiles : ∀ p ∈ closure.files.toList, KeepsTo s c p) :
    (build host settings oracle r w').1 = .ok closure := by
  have hlockstep : Act.Lockstep (fun _ _ => True) (fun _ _ => True)
      (fun found found' : Closure =>
        (∀ p ∈ found.files.toList, KeepsTo s c p) → found' = found)
      (build host settings oracle r) (build host settings oracle r) w w' := by
    unfold build
    refine .bind (findings_lockstep (h.findsSame ht) hQ ⟨hw, hw'⟩) ?_
    rintro found _ v v' - - rfl ⟨hv, hv'⟩ hQ'
    have hchildren := (h.undisturbed ht).sameChildren h.keepsTo_srcRoot
    refine .look_bind hQ' (by rw [hv, hv', libraryRoots_eq hchildren]) fun library _ => ?_
    have hmake : Act.EndAlike (fun u u' => ∃ root, Companions s c o host.scratchDir root u u')
        (v.store.makeDir host.scratchDir) (v'.store.makeDir host.scratchDir) := by
      rw [hv, hv']
      exact h.makeDir_alike ht
    have hasked : Act.Lockstep (fun _ _ => True) (fun _ _ => True)
        (fun found found' => (∀ p ∈ found.toList, KeepsTo s c p) → found' = found)
        (Act.within .makeScratch host.scratchDir
          (askAll oracle settings.layout r found library host.scratchDir))
        (Act.within .makeScratch host.scratchDir
          (askAll oracle settings.layout r found library host.scratchDir)) v v' :=
      .within hQ' hmake fun u u' _ _ ⟨_, hu⟩ =>
        askAll_again (fun _ => h.keepsTo_source) ho hanswer hu hQ'
    exact .bind hasked fun files files' _ _ _ _ hsame _ hQ'' =>
      .pure hQ'' trivial fun hkeeps => congrArg (Closure.mk · _) (hsame hkeeps)
  have hends := hlockstep.endAlike
  rw [hbuild] at hends
  generalize (build host settings oracle r w').1 = b at hends
  cases hends with
  | ok hsame => rw [hsame hfiles]

end Closure

end Excerpt
