import Excerpt.Proofs.Closure.Account
import Excerpt.Proofs.Closure.Rearranging
import Excerpt.Proofs.Moving

/-!
# Asking under two names of the scratch directory

An oracle whose answers go with the name of the scratch directory is asked the same in two runs, and
the sets of files that are collected differ in that name only. In the end no name is left: what an
answer names in the scratch directory is a bridge, and a bridge is resolved to its target.
-/

namespace Excerpt

open Store

variable {oracle : Oracle} {answer : (entries roots : List Path) → Store → Except Failure PathSet}
  {s s' t t' u u' : Store} {tmp p p' scratch : Path} {a b : Bytes} {d root : Location}
  {files files' more more' : PathSet} {w w' : World}

/-! ### What is asked of an oracle -/

/-- The path leads to a bridge in the scratch directory. -/
def IsBridge (t : Store) (scratch p : Path) : Prop :=
  ∃ root names target, t.find false scratch = .ok (root, .dir) ∧ (∀ n ∈ names, Path.IsName n) ∧
    p = chain scratch names ∧ t.find false p = .ok (root ++ names, .link target)

/-- In the scratch directory, only bridges are in the set. -/
def PathSet.NamesBridges (t : Store) (scratch : Path) (files : PathSet) : Prop :=
  ∀ p ∈ files.toList, ∀ names, (∀ n ∈ names, Path.IsName n) → p = chain scratch names →
    IsBridge t scratch p

/-- Whether the scratch directory is called `a` or `b`, the answers are the same, but for this name.
In the scratch directory they only name bridges. -/
structure AnswersAlike (answer : (entries roots : List Path) → Store → Except Failure PathSet)
    (s s' : Store) (tmp : Path) (a b : Bytes) : Prop where
  commutes : ∀ q q', Question.Moved s s' tmp a b q q' → Act.EndAlike (PathSet.Moved tmp a b)
    (answer q.entries q.roots q.store) (answer q'.entries q'.roots q'.store)
  bridges : ∀ q q' found, Question.Moved s s' tmp a b q q' →
    answer q.entries q.roots q.store = .ok found → found.NamesBridges q.store (tmp.child a)

/-! ### Sets of files -/

/-- The files that were collected are the same in both runs, but for the name of the scratch
directory. -/
structure FilesMoved (t : Store) (tmp : Path) (a b : Bytes) (files files' : PathSet) : Prop where
  moved : PathSet.Moved tmp a b files files'
  bridges : files.NamesBridges t (tmp.child a)

lemma FilesMoved.union (hab : Exchangeable a b) (h : FilesMoved t tmp a b files files')
    (hmore : FilesMoved t tmp a b more more') :
    FilesMoved t tmp a b (files.union more) (files'.union more') := by
  refine ⟨h.moved.union hab hmore.moved, fun p hp => ?_⟩
  rcases PathSet.mem_union hp with hp | hp
  · exact h.bridges p hp
  · exact hmore.bridges p hp

lemma FilesMoved.of_avoids (hab : Exchangeable a b) (hfiles : files.Ordered)
    (h : ∀ p ∈ files.toList, Avoids a b (segments p)) : FilesMoved t tmp a b files files := by
  refine ⟨.of_avoids hfiles h, fun p hp names hnames he => absurd ?_ (h p hp).left⟩
  rw [he, segments_chain _ hnames, segments_child _ hab.left.isName]
  simp

lemma PathSet.Moved.isEmpty_eq (h : PathSet.Moved tmp a b files files') :
    files'.isEmpty = files.isEmpty := by
  rw [Bool.eq_iff_iff, PathSet.isEmpty, PathSet.isEmpty, List.isEmpty_iff, List.isEmpty_iff,
    List.eq_nil_iff_forall_not_mem, List.eq_nil_iff_forall_not_mem]
  constructor
  · rintro hnone p hp
    obtain ⟨p', hp', -⟩ := h.forth p hp
    exact hnone p' hp'
  · rintro hnone p' hp'
    obtain ⟨p, hp, -⟩ := h.back p' hp'
    exact hnone p hp

/-! ### Stubs -/

/-- The store `u` is `t` with a file in the place of the stub. -/
def WithStub (t : Store) (root : Location) (u : Store) : Prop :=
  ∃ content mode stamp, u = t.put (root ++ [Scratch.stubName]) (.file content mode stamp)

lemma Twins.writeStub_exact (h : Twins s s' tmp a b d t t') (content : Bytes) :
    Alike (fun u u' => Twins s s' tmp a b d u u' ∧ WithStub t (d ++ [a]) u ∧
        WithStub t' (d ++ [b]) u')
      (t.write (Stub.file (tmp.child a)) content) (t'.write (Stub.file (tmp.child b)) content) := by
  have halike := h.writeStub content
  have hleft := fun u (hu : t.write (Stub.file (tmp.child a)) content = .ok u) =>
    h.left.write_stub hu
  have hright := fun u (hu : t'.write (Stub.file (tmp.child b)) content = .ok u) =>
    h.right.write_stub hu
  generalize t.write (Stub.file (tmp.child a)) content = x at halike hleft
  generalize t'.write (Stub.file (tmp.child b)) content = y at halike hright
  cases halike with
  | error => exact .error
  | @ok u u' hu =>
    obtain ⟨mode, he, -⟩ := hleft u rfl
    obtain ⟨mode', he', -⟩ := hright u' rfl
    exact .ok ⟨hu, ⟨_, _, _, he⟩, _, _, _, he'⟩

/-- When the stubs are removed all is as before. -/
lemma Twins.removeStub_exact (h : Twins s s' tmp a b d u u') (hu : WithStub t (d ++ [a]) u)
    (hu' : WithStub t' (d ++ [b]) u') (hfree : t.get? (d ++ [a] ++ [Scratch.stubName]) = none)
    (hfree' : t'.get? (d ++ [b] ++ [Scratch.stubName]) = none) :
    Alike (Closure.Unchanged t t') (u.removeFile (Stub.file (tmp.child a)))
      (u'.removeFile (Stub.file (tmp.child b))) := by
  have halike := h.removeStub
  have hleft := fun v => h.left.removeFile_stub (u := v)
  have hright := fun v => h.right.removeFile_stub (u := v)
  generalize u.removeFile (Stub.file (tmp.child a)) = x at halike hleft
  generalize u'.removeFile (Stub.file (tmp.child b)) = y at halike hright
  cases halike with
  | error => exact .error
  | @ok v v' =>
    obtain ⟨rfl, -⟩ := hleft v rfl
    obtain ⟨rfl, -⟩ := hright v' rfl
    obtain ⟨content, mode, stamp, rfl⟩ := hu
    obtain ⟨content', mode', stamp', rfl⟩ := hu'
    exact .ok ⟨erase_put hfree, erase_put hfree'⟩

/-- A bridge that is there beside a stub is there without it. -/
lemma IsBridge.of_withStub {good : Path → Prop} (ht : Scratch s scratch root good t)
    (hu : Scratch s scratch root good u) (hstub : WithStub t root u) (h : IsBridge u scratch p) :
    IsBridge t scratch p := by
  obtain ⟨root', names, target, hroot, hnames, rfl, hfind⟩ := h
  rw [hu.encloses.found, Except.ok.injEq, Prod.mk.injEq] at hroot
  obtain ⟨rfl, -⟩ := hroot
  refine ⟨root, names, target, ht.encloses.found, hnames, rfl, ?_⟩
  have hn := get?_of_find hu.wellFormed hfind
  obtain ⟨content, mode, stamp, rfl⟩ := hstub
  refine find_put_file (by simp) rfl hfind ?_
  intro he
  rw [he, get?_put_self (by simp)] at hn
  cases hn

/-! ### Questions -/

lemma Oracle.AnswersBy.lockstep {S : Store → Store → Prop} {Q : Question → Question → Prop}
    {R : PathSet → PathSet → Prop} {entries entries' roots roots' : List Path}
    (ho : oracle.AnswersBy answer) (hQ : List.Forall₂ Q w.questions w'.questions)
    (hS : S w.store w'.store)
    (h : Act.EndAlike R (answer entries roots w.store) (answer entries' roots' w'.store)) :
    Act.Lockstep S Q R (oracle entries roots) (oracle entries' roots') w w' := by
  obtain ⟨hanswer, hstore, hquestions⟩ := ho entries roots w
  obtain ⟨hanswer', hstore', hquestions'⟩ := ho entries' roots' w'
  refine ⟨by rw [hquestions, hquestions']; exact hQ, ?_⟩
  rw [hanswer, hanswer', hstore, hstore']
  generalize answer entries roots w.store = x at h
  generalize answer entries' roots' w'.store = y at h
  cases h with
  | error => exact Or.inl ⟨_, _, rfl, rfl⟩
  | ok hr => exact Or.inr ⟨_, _, rfl, rfl, hr, hS⟩

namespace Closure

variable {roots roots' : SourceRoots}

lemma ask_lockstep (ho : oracle.AnswersBy answer) (halike : AnswersAlike answer s s' tmp a b)
    (h : Twins s s' tmp a b d t t') {entries entries' : List Path}
    (hQ : List.Forall₂ (Question.Moved s s' tmp a b) w.questions w'.questions)
    (hw : Unchanged t t' w.store w'.store)
    (hentries : List.Forall₂ (Path.Moved tmp a b) entries entries')
    (hroots : List.Forall₂ (Path.Moved tmp a b) roots.toList roots'.toList) :
    Act.Lockstep (Unchanged t t') (Question.Moved s s' tmp a b) (FilesMoved t tmp a b)
      (ask oracle entries roots) (ask oracle entries' roots') w w' := by
  have hquestion : ∀ u u', Unchanged t t' u u' → Question.Moved s s' tmp a b
      ⟨entries, roots.toList, u⟩ ⟨entries', roots'.toList, u'⟩ := by
    rintro _ _ ⟨rfl, rfl⟩
    exact ⟨hentries, hroots, d, h⟩
  unfold ask
  refine .bind (.noteQuestion hQ hw (hquestion _ _ hw)) fun _ _ v v' _ _ _ hv hQ' => ?_
  refine ho.lockstep hQ' hv ?_
  have hcommutes := halike.commutes _ _ (hquestion _ _ hv)
  have hbridges := fun found => halike.bridges _ _ found (hquestion _ _ hv)
  rw [← hv.1]
  generalize answer entries roots.toList v.store = x at hcommutes hbridges
  generalize answer entries' roots'.toList v'.store = y at hcommutes
  cases hcommutes with
  | error => exact .error
  | ok hmoved => exact .ok ⟨hmoved, hbridges _ rfl⟩

lemma askSources_lockstep (ho : oracle.AnswersBy answer)
    (halike : AnswersAlike answer s s' tmp a b) (h : Twins s s' tmp a b d t t')
    {sources : List Path} (hsources : ∀ p ∈ sources, Avoids a b (segments p))
    (hQ : List.Forall₂ (Question.Moved s s' tmp a b) w.questions w'.questions)
    (hw : Unchanged t t' w.store w'.store)
    (hroots : List.Forall₂ (Path.Moved tmp a b) roots.toList roots'.toList)
    (hfiles : FilesMoved t tmp a b files files') :
    Act.Lockstep (Unchanged t t') (Question.Moved s s' tmp a b) (FilesMoved t tmp a b)
      (askSources oracle roots sources files) (askSources oracle roots' sources files') w w' := by
  induction sources generalizing files files' w w' with
  | nil => exact .pure hQ hw hfiles
  | cons p sources ih =>
    have hp : Path.Moved tmp a b p p := .outside (hsources p List.mem_cons_self)
    refine .bind (ask_lockstep ho halike h hQ hw (.cons hp .nil) hroots) ?_
    intro found found' v v' _ _ hfound hv hQ'
    exact ih (fun q hq => hsources q (List.mem_cons_of_mem _ hq)) hQ' hv
      (hfiles.union h.exchangeable hfound)

lemma askClasses_lockstep (ho : oracle.AnswersBy answer)
    (halike : AnswersAlike answer s s' tmp a b) (h : Twins s s' tmp a b d t t')
    (hfree : t.get? (d ++ [a] ++ [Scratch.stubName]) = none)
    (hfree' : t'.get? (d ++ [b] ++ [Scratch.stubName]) = none) {names : List Text}
    (hQ : List.Forall₂ (Question.Moved s s' tmp a b) w.questions w'.questions)
    (hw : Unchanged t t' w.store w'.store)
    (hroots : List.Forall₂ (Path.Moved tmp a b) roots.toList roots'.toList)
    (hfiles : FilesMoved t tmp a b files files') :
    Act.Lockstep (Unchanged t t') (Question.Moved s s' tmp a b) (FilesMoved t tmp a b)
      (askClasses oracle roots (tmp.child a) names files)
      (askClasses oracle roots' (tmp.child b) names files') w w' := by
  induction names generalizing files files' w w' with
  | nil => exact .pure hQ hw hfiles
  | cons name names ih =>
    have hnames : ∀ m ∈ [Scratch.stubName], Path.IsName m :=
      List.forall_mem_singleton.mpr Twins.isName_stubName
    have hstub : Path.Moved tmp a b (Stub.file (tmp.child a)) (Stub.file (tmp.child b)) :=
      .inside hnames
    have hwrite := h.writeStub_exact (Utf8.encode (Stub.source name))
    rw [askClasses, askClasses, write_bind, write_bind]
    refine .bind (.change hQ (by rw [hw.1, hw.2]; exact hwrite)) fun _ _ v v' _ _ _ hv hQ' => ?_
    obtain ⟨htwins, hleft, hright⟩ := hv
    refine .bind (ask_lockstep ho halike htwins hQ' ⟨rfl, rfl⟩ (.cons hstub .nil) hroots) ?_
    intro found found' x x' _ _ hfound hx hQ''
    have hfound' : FilesMoved t tmp a b found found' :=
      ⟨hfound.moved, fun p hp names hnames he =>
        (hfound.bridges p hp names hnames he).of_withStub h.left htwins.left hleft⟩
    have hrest : ∀ y y' : World, Unchanged v.store v'.store y.store y'.store →
        List.Forall₂ (Question.Moved s s' tmp a b) y.questions y'.questions →
        Act.Lockstep (Unchanged t t') (Question.Moved s s' tmp a b) (FilesMoved t tmp a b)
          (Stub.remove (Stub.file (tmp.child a)) >>= fun _ =>
            askClasses oracle roots (tmp.child a) names (files.union found))
          (Stub.remove (Stub.file (tmp.child b)) >>= fun _ =>
            askClasses oracle roots' (tmp.child b) names (files'.union found')) y y' := by
      intro y y' hy hQ'''
      have hremove := htwins.removeStub_exact hleft hright hfree hfree'
      refine .bind (.change hQ''' (by rw [hy.1, hy.2]; exact hremove)) ?_
      exact fun _ _ z z' _ _ _ hz hQ'''' => ih hQ'''' hz (hfiles.union h.exchangeable hfound')
    rw [hfound.moved.isEmpty_eq]
    split
    · exact .bind (.report hQ'' hx) fun _ _ y y' _ _ _ hy hQ''' => hrest y y' hy hQ'''
    · exact hrest x x' hx hQ''

/-! ### Resolving -/

/-- Resolving leaves no trace of the name of the scratch directory. -/
lemma resolveLink_eq (h : Twins s s' tmp a b d t t') (hp : Path.Moved tmp a b p p')
    (hbridge : ∀ names, (∀ n ∈ names, Path.IsName n) → p = chain (tmp.child a) names →
      IsBridge t (tmp.child a) p) : t'.resolveLink p' = t.resolveLink p := by
  cases hp with
  | outside havoids =>
    unfold resolveLink
    rw [h.corresponds.agree.ownNode? havoids]
  | @inside names hnames =>
    obtain ⟨root, names', target, hroot, hnames', he, hfind⟩ := hbridge names hnames rfl
    rw [h.left.encloses.found, Except.ok.injEq, Prod.mk.injEq] at hroot
    obtain ⟨rfl, -⟩ := hroot
    obtain rfl : names = names' := by
      rw [← same_chain_iff h.exchangeable.left.isName hnames hnames', ← he]
      exact Path.same_refl _
    have hlink := get?_of_find h.left.wellFormed hfind
    have habs := (h.corresponds.targets _ target hlink).2 (by simp)
    have hown : t.ownNode? (chain (tmp.child a) names) = some (.link target) := by
      rw [ownNode?, hfind]
    have hown' := h.corresponds.ownNode? h.exchangeable (h.matches_of_get? (by rw [hlink]; simp))
    rw [hown] at hown'
    unfold resolveLink
    rw [hown, hown']
    simp only [habs, if_true]

lemma contains_resolveLinks_eq (h : Twins s s' tmp a b d t t')
    (hfiles : FilesMoved t tmp a b files files') (p : Path) :
    (t'.resolveLinks files').contains p = (t.resolveLinks files).contains p := by
  rw [Bool.eq_iff_iff, contains_resolveLinks, contains_resolveLinks]
  constructor
  · rintro ⟨q', hq', hsame⟩
    obtain ⟨q, hq, hmoved⟩ := hfiles.moved.back q' hq'
    exact ⟨q, hq, by rwa [← resolveLink_eq h hmoved (hfiles.bridges q hq)]⟩
  · rintro ⟨q, hq, hsame⟩
    obtain ⟨q', hq', hmoved⟩ := hfiles.moved.forth q hq
    exact ⟨q', hq', by rwa [resolveLink_eq h hmoved (hfiles.bridges q hq)]⟩

lemma run_reportResolved (ps : List Path) (w : World) :
    ∃ v, reportResolved s ps w = (.ok (), v) ∧ v.store = w.store ∧ v.questions = w.questions := by
  induction ps generalizing w with
  | nil => exact ⟨w, rfl, rfl, rfl⟩
  | cons p ps ih =>
    rw [reportResolved]
    split
    · rw [Act.run_bind]
      exact ih _
    · exact ih w

/-- Resolving never fails, and changes nothing. -/
lemma run_resolve (files : PathSet) (w : World) : ∃ v,
    resolve files w = (.ok (w.store.resolveLinks files), v) ∧ v.store = w.store ∧
      v.questions = w.questions := by
  obtain ⟨v, hreport, hstore, hquestions⟩ := run_reportResolved (s := w.store) files.toList w
  refine ⟨v, ?_, hstore, hquestions⟩
  unfold resolve
  rw [Act.run_bind, Act.run_look]
  simp only
  rw [Act.run_bind, hreport]
  rfl

/-- In the end both runs have the same files. -/
lemma resolve_lockstep (h : Twins s s' tmp a b d t t')
    (hQ : List.Forall₂ (Question.Moved s s' tmp a b) w.questions w'.questions)
    (hw : Unchanged t t' w.store w'.store) (hfiles : FilesMoved t tmp a b files files') :
    Act.Lockstep (Unchanged t t') (Question.Moved s s' tmp a b)
      (fun found found' => ∀ p, found'.contains p = found.contains p) (resolve files)
      (resolve files') w w' := by
  obtain ⟨v, hx, hstore, hquestions⟩ := run_resolve files w
  obtain ⟨v', hx', hstore', hquestions'⟩ := run_resolve files' w'
  refine ⟨by rw [hx, hx', hquestions, hquestions']; exact hQ, Or.inr ⟨_, _, by rw [hx], by rw [hx'],
    fun p => ?_, ?_⟩⟩
  · rw [hw.1, hw.2]
    exact contains_resolveLinks_eq h hfiles p
  · rw [hx, hx', hstore, hstore']
    exact hw

end Closure

end Excerpt
