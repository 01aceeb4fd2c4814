import Excerpt.Proofs.Closure.Landing
import Excerpt.Proofs.Closure.Planting
import Excerpt.Proofs.Moving

/-!
# The trees of bridges under two names of the scratch directory

All trees of bridges are made alike in two scratch directories, and the same source roots are
registered, but for the names of the directories. No walk for a bridge comes into the scratch
directory: the first one is over when there are only directories in it, those beside the ancestors
of the test list no more than one directory, and the one over the tests among the library sources
is a walk of another part of the store.
-/

namespace Excerpt

open Store

variable {s s' t t' : Store} {tmp source dest p : Path} {a b c top : Bytes} {d root l : Location}
  {layout : Layout} {r : Request} {w w' : World} {Q : Question → Question → Prop}

/-! ### Making the scratch directories -/

/-- A directory that is made directly behind a path stands in the directory of that path. -/
lemma Store.of_makeDir_child (hs : s.WellFormed) (hc : Path.IsName c)
    (h : s.makeDir (p.child c) = .ok t) :
    ∃ d, Leads s (s.start (p.child c)) p.steps d ∧ s.get? d = some .dir ∧
      s.get? (d ++ [c]) = none ∧ t = s.put (d ++ [c]) .dir := by
  obtain ⟨d, n, asDir, hl, rfl⟩ := makeDir_eq_ok_iff.mp h
  obtain ⟨-, hd, -, hfree⟩ := of_locate_vacant hs hl
  obtain ⟨front, hsteps, hleads⟩ := last_of_locate_vacant hs hl (wantsDir_child p hc)
  rw [Path.steps_child hc] at hsteps
  obtain ⟨rfl, hlast⟩ := List.append_inj' hsteps rfl
  rw [List.singleton_inj, Component.name.injEq] at hlast
  subst hlast
  exact ⟨d, hleads, hd, hfree, rfl⟩

/-- A scratch directory that was just made. -/
structure FreshScratch (s : Store) (dir : Path) (root : Location) (t : Store) : Prop where
  scratch : ∀ good, Scratch s dir root good t
  empty : ∀ n, t.get? (root ++ [n]) = none

lemma FreshScratch.of_makeDir (hs : s.WellFormed) (hc : Path.IsName c)
    (h : s.makeDir (p.child c) = .ok t) :
    ∃ d, s.get? d = some .dir ∧ t = s.put (d ++ [c]) .dir ∧ s.get? (d ++ [c]) = none ∧
      FreshScratch s (p.child c) (d ++ [c]) t := by
  obtain ⟨d, -, hd, hfree, rfl⟩ := of_makeDir_child hs hc h
  obtain ⟨root, hscratch, hempty⟩ := Scratch.of_makeDir hs h
  have hroot : root = d ++ [c] := by
    have hdir := (hscratch fun _ => True).isDir
    by_contra hne
    rw [get?_put_of_ne (by simp) hne, (hscratch fun _ => True).free] at hdir
    cases hdir
  rw [hroot] at hscratch hempty
  exact ⟨d, hd, rfl, hfree, hscratch, hempty⟩

/-- Stores in which neither name is in use correspond. -/
lemma Store.Rearranged.corresponds (h : Rearranged s s') (hs : s.WellFormed) (ha : Unnamed a s)
    (hb : Unnamed b s) : Corresponds a b s s' := by
  refine ⟨fun l l' hl => ?_, fun l target hn => ⟨?_, fun hmem => ?_⟩, h.cwd, ?_, h.clock⟩
  · cases hl with
    | same => exact h.get?_eq hs l
    | @within front names =>
      have hleft : s.get? (front ++ a :: names) = none := by
        by_contra hn
        exact ha.notMem hn (by simp)
      have hright : s'.get? (front ++ b :: names) = none := by
        by_contra hn
        exact (h.unnamed hb).notMem hn (by simp)
      rw [hleft, hright]
  · exact .of_notMem (ha.notMem_target hn) (hb.notMem_target hn)
  · exact absurd hmem (ha.notMem (by rw [hn]; simp))
  · have hcwd : s.get? s.cwd ≠ none := by
      rw [hs.cwd]
      simp
    exact .of_notMem (ha.notMem hcwd) (hb.notMem hcwd)

/-- Two scratch directories that were just made in one place. -/
structure FreshTwins (s s' : Store) (tmp : Path) (a b : Bytes) (d : Location) (t t' : Store) :
    Prop where
  twins : Twins s s' tmp a b d t t'
  left : FreshScratch s (tmp.child a) (d ++ [a]) t
  right : FreshScratch s' (tmp.child b) (d ++ [b]) t'

lemma FreshTwins.of_makeDir (hs : s.WellFormed) (h : Rearranged s s') (hab : Exchangeable a b)
    (ha : Unnamed a s) (hb : Unnamed b s) (htmp : Avoids a b (segments tmp)) :
    Alike (fun t t' => ∃ d, FreshTwins s s' tmp a b d t t') (s.makeDir (tmp.child a))
      (s'.makeDir (tmp.child b)) := by
  have hcorresponds := h.corresponds hs ha hb
  have hmatch : PathsMatch a b s (tmp.child a) (tmp.child b) :=
    .chain hab htmp fun l _ =>
      ⟨fun _ hn => absurd hn List.not_mem_nil, fun front hp hne =>
        absurd (List.prefix_nil.mp hp) hne⟩
  have halike := hcorresponds.makeDir hab hmatch
  have hleft := fun t => FreshScratch.of_makeDir (t := t) (p := tmp) hs hab.left.isName
  have hright := fun t => FreshScratch.of_makeDir (t := t) (p := tmp) (h.wellFormed hs)
    hab.right.isName
  generalize s.makeDir (tmp.child a) = x at halike hleft
  generalize s'.makeDir (tmp.child b) = y at halike hright
  cases halike with
  | error => exact .error
  | @ok t t' hput =>
    obtain ⟨d, hd, ht, hfree, hfresh⟩ := hleft t rfl
    obtain ⟨d', -, ht', hfree', hfresh'⟩ := hright t' rfl
    obtain ⟨l, l', hl, hne, hu, hu'⟩ := hput
    -- What was put is what was made.
    have hplace : ∀ {s t : Store} {l m : Location}, m ≠ [] → t = s.put l .dir →
        t = s.put m .dir → l ≠ [] → s.get? m = none → l = m := by
      rintro s t l m hm rfl hput hne hfree
      by_contra hlm
      have hget := congrArg (·.get? m) hput
      beta_reduce at hget
      rw [get?_put_self hm, get?_put_of_ne hne (Ne.symm hlm), hfree] at hget
      cases hget
    obtain rfl := hplace (by simp) hu ht hne hfree
    obtain rfl := hplace (by simp) hu' ht' (hl.ne_nil hne) hfree'
    have havoids : Avoids a b d :=
      .of_notMem (ha.notMem (by rw [hd]; simp)) (hb.notMem (by rw [hd]; simp))
    have hown : Renamed a b (d ++ [a]) (d ++ [b]) := .within havoids
    obtain ⟨rfl, -⟩ := List.append_inj' (hl.unique hown) rfl
    refine .ok ⟨d', ⟨hab, htmp, havoids, ⟨ha, hb, h.unnamed ha, h.unnamed hb⟩, hfresh.scratch _,
      hfresh'.scratch _, ?_⟩, hfresh, hfresh'⟩
    rw [hu, hu']
    exact hcorresponds.put hl hne fun _ he => by cases he

/-- The scratch directory can be made under both names or under neither. -/
theorem makeDir_endAlike (hs : s.WellFormed) (h : Rearranged s s') (hab : Exchangeable a b)
    (ha : Unnamed a s) (hb : Unnamed b s) :
    Act.EndAlike (fun t t' => ∃ d, FreshTwins s s' tmp a b d t t') (s.makeDir (tmp.child a))
      (s'.makeDir (tmp.child b)) := by
  by_cases htmp : Avoids a b (segments tmp)
  · have halike := FreshTwins.of_makeDir hs h hab ha hb htmp
    generalize s.makeDir (tmp.child a) = x at halike
    generalize s'.makeDir (tmp.child b) = y at halike
    cases halike with
    | error => exact .error
    | ok hd => exact .ok hd
  · -- A name that is not in use leads nowhere.
    have hfails : ∀ (u : Store) (c : Bytes), u.WellFormed → Unnamed a u → Unnamed b u →
        Path.IsName c → ∃ fault, u.makeDir (tmp.child c) = .error fault := by
      intro u c hu hau hbu hc
      cases hmake : u.makeDir (tmp.child c) with
      | error fault => exact ⟨fault, rfl⟩
      | ok t =>
        obtain ⟨d, hleads, hd, -⟩ := of_makeDir_child hu hc hmake
        have hmem : ∀ n, Path.IsName n → Unnamed n u → n ∉ segments tmp := fun n hn hnu hmem =>
          hnu.notMem_of_leads hleads (by rw [hd]; simp) (mem_steps_of_mem_segments hn hmem)
        exact absurd (.of_notMem (hmem a hab.left.isName hau) (hmem b hab.right.isName hbu)) htmp
    obtain ⟨fault, hx⟩ := hfails s a hs ha hb hab.left.isName
    obtain ⟨fault', hy⟩ := hfails s' b (h.wellFormed hs) (h.unnamed ha) (h.unnamed hb)
      hab.right.isName
    rw [hx, hy]
    exact .error

/-! ### Walks that list nothing of the scratch directory -/

/-- As long as there are only directories to be made, there are only directories in it. -/
lemma Scratch.eq_dir_of_run {u : Store} {dir : Path}
    (h : Scratch s dir root (fun _ => False) t) (hfree : ∀ n, t.get? (root ++ [n]) = none)
    (hrun : Runs (Scratch.Permits dir fun _ _ => False) t u) {names : Location} {node : Node}
    (hn : u.get? (root ++ names) = some node) : node = .dir := by
  have hu := h.run (fun _ _ _ hf => hf) hrun
  have hstub := h.stub_free_run (fun _ _ _ hf => hf) hrun (hfree _)
  rcases eq_or_ne names [] with rfl | hne
  · rw [List.append_nil, hu.isDir, Option.some.injEq] at hn
    exact hn.symm
  · cases hu.holds names node hne hn with
    | dir => rfl
    | bridge _ _ hf => exact hf.elim
    | stub => rw [hstub] at hn; cases hn

/-- After the top of a tree was made, there is nothing to be listed. -/
lemma FreshScratch.walksClear {limits : Walk.Limits} {dir : Path} {u : Store}
    (h : FreshScratch s dir root t) (htop : Bridge.IsTree dir top dest)
    (hmake : makeDirs dest t = (.ok (), u)) : Twins.WalksClear u root limits source := by
  have ht := (h.scratch fun _ => False).wellFormed
  have hrun : Runs (Scratch.Permits dir fun _ _ => False) t u := by
    have hrun := runs_makeDirs ht dest
    rw [hmake] at hrun
    refine hrun.mono fun _ c ⟨q, hc, hq⟩ => hc ▸ ?_
    refine Bridge.permits_dir [] htop (by simp) ?_ hq.2
    simpa using hq.1
  exact Twins.walksClear_of_dirs fun _ _ hn =>
    (h.scratch _).eq_dir_of_run h.empty hrun hn

namespace Closure

lemma clearOf_children (h : Twins s s' tmp a b d t t') (hsource : IsBridgeTarget a b source) :
    Bridge.ClearOf a b d layout source false t t' := by
  have hagree := h.corresponds.agree
  have hloc : ∀ l, t.find true source = .ok (l, .dir) → Avoids a b l :=
    fun _ hfind => hagree.uses_of_find hsource.2 hfind
  intro gs _
  constructor
  · exact Twins.walksClear_of_maxDepth h.left.isDir rfl fun l hfind =>
      ⟨(hloc l hfind).left, get?_of_find h.left.wellFormed hfind⟩
  · exact Twins.walksClear_of_maxDepth h.right.isDir rfl fun l hfind =>
      ⟨(hloc l ((hagree.find _ hsource.2).symm.trans hfind)).right,
        get?_of_find h.right.wellFormed hfind⟩

lemma clearOf_apart (h : Twins s s' tmp a b d t t') (hsource : IsBridgeTarget a b source)
    (hapart : ∀ l, t.find true source = .ok (l, .dir) → ¬ l <+: d) {recursive : Bool} :
    Bridge.ClearOf a b d layout source recursive t t' := by
  have hagree := h.corresponds.agree
  have hloc : ∀ l, t.find true source = .ok (l, .dir) →
      Avoids a b l ∧ ∀ c ∈ [a, b], ¬ l <+: d ++ [c] := by
    intro l hfind
    have hl : Avoids a b l := hagree.uses_of_find hsource.2 hfind
    refine ⟨hl, fun c hc hp => ?_⟩
    rcases List.prefix_concat_iff.mp hp with rfl | hp
    · rcases List.mem_pair.mp hc with rfl | rfl
      · exact hl.left (by simp)
      · exact hl.right (by simp)
    · exact hapart l hfind hp
  intro gs _
  constructor
  · exact Twins.walksClear_of_apart fun l hfind =>
      ⟨(hloc l hfind).1.left, (hloc l hfind).2 a (by simp)⟩
  · refine Twins.walksClear_of_apart fun l hfind => ?_
    have hfind' := (hagree.find _ hsource.2).symm.trans hfind
    exact ⟨(hloc l hfind').1.right, (hloc l hfind').2 b (by simp)⟩

/-! ### Trees -/

lemma bridgeTree_lockstep (hw : Twins s s' tmp a b d w.store w'.store)
    (hQ : List.Forall₂ Q w.questions w'.questions)
    (htop : top = Scratch.testsName ∨ top = Scratch.srcTestsName)
    (hsource : IsBridgeTarget a b source)
    (hclear : ∀ u u', makeDirs (chain (tmp.child a) [top]) w.store = (.ok (), u) →
      makeDirs (chain (tmp.child b) [top]) w'.store = (.ok (), u') →
      Twins s s' tmp a b d u u' → Bridge.ClearOf a b d layout source true u u') :
    Act.Lockstep (Bridge.Planted s s' tmp a b d top) Q (fun _ _ => True)
      (bridgeTree layout source (chain (tmp.child a) [top]))
      (bridgeTree layout source (chain (tmp.child b) [top])) w w' := by
  have htree := Bridge.isTreeDir_top htop
  have hne := (start_chain (s := w.store) hw.left.encloses.dir_ne_nil
    (Twins.isName_of_isTreeDir htree)).1
  obtain ⟨halike, hmade⟩ := hw.makeDirs htree
  unfold bridgeTree
  refine .bind (.edit hQ halike fun _ _ => hmade) fun _ _ v v' hx hy _ hv hQ' => ?_
  obtain ⟨u, hu, rfl⟩ := Act.edit_eq_ok.mp hx
  obtain ⟨u', hu', rfl⟩ := Act.edit_eq_ok.mp hy
  have hthere : u.isDir (chain (tmp.child a) [top]) = true :=
    isDir_of_makeDirs hw.left.wellFormed hne hu
  have hplanted : Bridge.Planted s s' tmp a b d top u u' := ⟨hv, htop, hthere⟩
  refine .bind (hplanted.normalize_lockstep hQ' hsource (hclear u u' hu hu' hv)) ?_
  exact fun _ _ _ _ _ _ _ hv' hQ'' => .pure hQ'' hv' trivial

lemma bridgeEach_lockstep {dirs : List Path}
    (hw : Bridge.Planted s s' tmp a b d top w.store w'.store)
    (hQ : List.Forall₂ Q w.questions w'.questions) (hdirs : ∀ dir ∈ dirs, IsBridgeTarget a b dir) :
    Act.Lockstep (Bridge.Planted s s' tmp a b d top) Q (fun _ _ => True)
      (bridgeEach layout (chain (tmp.child a) [top]) dirs)
      (bridgeEach layout (chain (tmp.child b) [top]) dirs) w w' := by
  induction dirs generalizing w w' with
  | nil => exact .pure hQ hw trivial
  | cons dir dirs ih =>
    have hdir := hdirs dir List.mem_cons_self
    refine .bind (hw.normalize_lockstep hQ hdir (clearOf_children hw.twins hdir)) ?_
    exact fun _ _ _ _ _ _ _ hv hQ' => ih hv hQ' fun dir' h => hdirs dir' (List.mem_cons_of_mem _ h)

lemma isBridgeTarget_of_mem_ancestors (hab : Exchangeable a b)
    (htest : IsBridgeTarget a b r.testDir)
    (hp : p ∈ ancestors (r.testsRoot layout) (r.testDir.bytes.length + 1) r.testDir.parent?) :
    IsBridgeTarget a b p := by
  obtain ⟨⟨hsteps, habs⟩, -⟩ := of_mem_ancestors hp
  exact htest.of_prefix hab habs hsteps

/-- The directories that bridges are made for, and where they are not. -/
structure Sources (a b : Bytes) (d : Location) (s : Store) (layout : Layout) (r : Request) :
    Prop where
  test : IsBridgeTarget a b r.testDir
  srcTests : IsBridgeTarget a b ((r.srcRoot layout).joinText layout.testsDir)
  apart : ∀ l, s.find true ((r.srcRoot layout).joinText layout.testsDir) = .ok (l, .dir) →
    ¬ l <+: d

lemma joinText_tests (scratch : Path) :
    scratch.joinText "tests".toList = chain scratch [Scratch.testsName] := rfl

lemma joinText_srcTests (scratch : Path) :
    scratch.joinText "src-tests".toList = chain scratch [Scratch.srcTestsName] := rfl

/-- The same trees are made in two scratch directories, and registered under their names. -/
theorem addBridgeRoots_lockstep {roots roots' : SourceRoots}
    (hfresh : FreshTwins s s' tmp a b d w.store w'.store)
    (hQ : List.Forall₂ Q w.questions w'.questions) (hr : Sources a b d s layout r)
    (hroots : List.Forall₂ (Path.Moved tmp a b) roots.toList roots'.toList) :
    Act.Lockstep (Twins s s' tmp a b d) Q
      (fun roots roots' => List.Forall₂ (Path.Moved tmp a b) roots.toList roots'.toList)
      (addBridgeRoots layout r (tmp.child a) roots) (addBridgeRoots layout r (tmp.child b) roots')
      w w' := by
  have hw := hfresh.twins
  have hab := hw.exchangeable
  have hmoved : ∀ {n}, Path.IsName n →
      Path.Moved tmp a b (chain (tmp.child a) [n]) (chain (tmp.child b) [n]) := fun hn =>
    .inside (by simpa using hn)
  have htests := SourceRoots.moved_add hab hroots (hmoved Scratch.isName_testsName)
  unfold addBridgeRoots
  simp only [joinText_tests, joinText_srcTests]
  refine .bind (bridgeTree_lockstep hw hQ (Or.inl rfl) hr.test fun u u' hu hu' _ gs _ => ⟨?_, ?_⟩) ?_
  · exact hfresh.left.walksClear (isTree_tests hw.left.encloses.dir_ne_nil) hu
  · exact hfresh.right.walksClear (isTree_tests hw.right.encloses.dir_ne_nil) hu'
  · intro _ _ v v' _ _ _ hv hQ'
    refine .bind (bridgeEach_lockstep hv hQ' fun dir hdir =>
      isBridgeTarget_of_mem_ancestors hab hr.test hdir) fun _ _ x x' _ _ _ hx hQ'' => ?_
    refine .look_bind hQ'' (by rw [hx.twins.corresponds.agree.isDir hr.srcTests.2])
      fun isDir _ => ?_
    split
    · refine .bind (bridgeTree_lockstep hx.twins hQ'' (Or.inr rfl) hr.srcTests
        fun u u' _ _ hu => clearOf_apart hu hr.srcTests fun l hfind => hr.apart l ?_) ?_
      · rw [← hfind, hu.agree_left.find _ hr.srcTests.2]
      · exact fun _ _ _ _ _ _ _ hy hQ''' => .pure hQ''' hy.twins
          (SourceRoots.moved_add hab htests (hmoved Scratch.isName_srcTestsName))
    · exact .pure hQ'' hx.twins htests

end Closure

end Excerpt
