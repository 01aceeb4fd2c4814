import Excerpt.Proofs.Closure.Listings
import Excerpt.Proofs.Lockstep
import Excerpt.Proofs.Twins

/-!
# What is found about a test, whatever the order of listings

Before any question is asked, the files of a test, the links of its pages, the classes of its
scripts and the modules of the library are looked up. All listings are sorted, so the order in
which directories are read has no influence.
-/

namespace Excerpt

open Store

variable {s s' : Store} {dir : Path}

/-! ### Listings -/

/-- The directory holds the same in both stores, and directories in it are directories in both. -/
structure SameChildren (s t : Store) (dir : Path) : Prop where
  left : s.WellFormed
  right : t.WellFormed
  find : t.find true dir = s.find true dir
  get? : ∀ l n, s.find true dir = .ok (l, .dir) → t.get? (l ++ [n]) = s.get? (l ++ [n])
  isDir : ∀ l n, s.find true dir = .ok (l, .dir) → s.get? (l ++ [n]) ≠ none →
    t.isDir (dir.child n) = s.isDir (dir.child n)

namespace SameChildren

variable {t : Store}

/-- The directory can be listed in one store if it can be listed in the other. -/
lemma list_alike (h : SameChildren s t dir) : Alike (fun _ _ => True) (s.list dir) (t.list dir) := by
  unfold Store.list
  rw [h.find]
  split
  · exact .error
  · exact .ok trivial
  · exact .error

/-- Those children that are kept are the same. -/
lemma eq_of_iff (h : SameChildren s t dir) {keep keep' : Bytes → Path → Prop} {ps qs : List Path}
    (hps : ListsChildren s dir keep ps) (hqs : ListsChildren t dir keep' qs)
    (hkeep : ∀ n, t.isDir (dir.child n) = s.isDir (dir.child n) →
      (keep' n (dir.child n) ↔ keep n (dir.child n))) : qs = ps := by
  refine Path.eq_of_sorted hqs.sorted hps.sorted fun p => ?_
  rw [hqs.mem, hps.mem, h.find]
  constructor
  · rintro ⟨l, n, hl, hn, rfl, hk⟩
    rw [h.get? l n hl] at hn
    exact ⟨l, n, hl, hn, rfl, (hkeep n (h.isDir l n hl hn)).mp hk⟩
  · rintro ⟨l, n, hl, hn, rfl, hk⟩
    exact ⟨l, n, hl, by rwa [h.get? l n hl], rfl, (hkeep n (h.isDir l n hl hn)).mpr hk⟩

end SameChildren

namespace Store.Rearranged

lemma find_eq (h : Rearranged s s') (hs : s.WellFormed) (follow : Bool) (p : Path) :
    s'.find follow p = s.find follow p :=
  (h.agree hs).find _ fun _ _ => trivial

lemma isDir_eq (h : Rearranged s s') (hs : s.WellFormed) (p : Path) : s'.isDir p = s.isDir p :=
  (h.agree hs).isDir fun _ _ => trivial

lemma read_eq (h : Rearranged s s') (hs : s.WellFormed) (p : Path) : s'.read p = s.read p :=
  (h.agree hs).read fun _ _ => trivial

lemma sameChildren (h : Rearranged s s') (hs : s.WellFormed) (dir : Path) :
    SameChildren s s' dir :=
  ⟨hs, h.wellFormed hs, h.find_eq hs true dir, fun _ _ _ => h.get?_eq hs _,
    fun _ _ _ _ => h.isDir_eq hs _⟩

end Store.Rearranged

lemma TestContents.ofDir_eq (h : SameChildren s s' dir) : ofDir s' dir = ofDir s dir := by
  have hlist := h.list_alike
  have hok := fun c (hc : ofDir s dir = .ok c) => ofDir_ok h.left hc
  have hok' := fun c (hc : ofDir s' dir = .ok c) => ofDir_ok h.right hc
  unfold ofDir listPaths at hok hok' ⊢
  generalize s.list dir = x at hlist hok
  generalize s'.list dir = y at hlist hok'
  cases hlist with
  | error => rfl
  | ok =>
    have hfiles := h.eq_of_iff (hok _ rfl) (hok' _ rfl) fun _ hdir => by rw [hdir]
    exact congrArg (fun files => Except.ok (TestContents.mk files)) hfiles

lemma libraryRoots_eq {layout : Layout} (h : SameChildren s s' dir) :
    libraryRoots s' layout dir = libraryRoots s layout dir := by
  have hlist := h.list_alike
  have hok := fun roots (hr : libraryRoots s layout dir = .ok roots) => libraryRoots_ok h.left hr
  have hok' := fun roots (hr : libraryRoots s' layout dir = .ok roots) =>
    libraryRoots_ok h.right hr
  unfold libraryRoots at hok hok' ⊢
  generalize s.list dir = x at hlist hok
  generalize s'.list dir = y at hlist hok'
  cases hlist with
  | error => rfl
  | ok =>
    obtain ⟨modules, -, hmodules, hroots, -⟩ := hok _ rfl
    obtain ⟨modules', -, hmodules', hroots', -⟩ := hok' _ rfl
    have hsame : modules' = modules := h.eq_of_iff hmodules hmodules' fun _ hdir => by rw [hdir]
    rw [hsame, ← hroots] at hroots'
    exact congrArg Except.ok (congrArg SourceRoots.mk hroots')

/-! ### Pages and scripts -/

lemma Page.links_eq (h : Rearranged s s') (hs : s.WellFormed) (sc : Scanner) (page corpus : Path) :
    Page.links s' sc page corpus = Page.links s sc page corpus := by
  have hfollow : ∀ dir, Page.follow s' dir corpus = Page.follow s dir corpus := by
    intro dir
    funext found link
    unfold Page.follow Store.canonical Store.isFile Store.node?
    simp only [h.find_eq hs]
  unfold Page.links
  simp only [h.read_eq hs, hfollow]

lemma Script.candidates_eq (h : Rearranged s s') (hs : s.WellFormed) (sc : Script.Scanners)
    (script : Path) : Script.candidates s' sc script = Script.candidates s sc script := by
  unfold Script.candidates
  rw [h.read_eq hs]

namespace Closure

variable {settings : Settings} {r : Request} {w w' : World} {Q : Question → Question → Prop}

lemma classNames_eq (h : Rearranged s s') (hs : s.WellFormed) (sc : Script.Scanners)
    (scripts : List Path) : classNames s' sc scripts = classNames s sc scripts := by
  induction scripts with
  | nil => rfl
  | cons script scripts ih => rw [classNames, classNames, ih, Script.candidates_eq h hs]

/-! ### Findings -/

/-- The stores are still the ones at the beginning. -/
def Unchanged (s s' t t' : Store) : Prop := t = s ∧ t' = s'

lemma reportDangling_lockstep {page : Path} {links : List Text}
    (hQ : List.Forall₂ Q w.questions w'.questions) (hw : Unchanged s s' w.store w'.store) :
    Act.Lockstep (Unchanged s s') Q (fun _ _ => True) (addLinks.reportDangling page links)
      (addLinks.reportDangling page links) w w' := by
  induction links generalizing w w' with
  | nil => exact .pure hQ hw trivial
  | cons link links ih => exact .bind (.report hQ hw) fun _ _ _ _ _ _ _ hv hQ' => ih hQ' hv

lemma addLinks_lockstep {sc : Scanner} {corpus : Path} {pages : List Path} {files : PathSet}
    (hlinks : ∀ page ∈ pages, Page.links s' sc page corpus = Page.links s sc page corpus)
    (hQ : List.Forall₂ Q w.questions w'.questions) (hw : Unchanged s s' w.store w'.store) :
    Act.Lockstep (Unchanged s s') Q Eq (addLinks sc corpus pages files)
      (addLinks sc corpus pages files) w w' := by
  induction pages generalizing files w w' with
  | nil => exact .pure hQ hw rfl
  | cons page pages ih =>
    have hpage := hlinks page List.mem_cons_self
    have hrest := fun p hp => hlinks p (List.mem_cons_of_mem _ hp)
    refine .look_bind hQ (by rw [hw.1, hw.2, hpage]) fun found _ => ?_
    exact .bind (reportDangling_lockstep hQ hw) fun _ _ _ _ _ _ _ hv hQ' => ih hrest hQ' hv

/-- The files of the test, the links of its pages and the classes of its scripts are the same in
both stores. -/
structure FindsSame (settings : Settings) (r : Request) (s s' : Store) : Prop where
  contents : TestContents.ofDir s' r.testDir = TestContents.ofDir s r.testDir
  links : ∀ contents sc, TestContents.ofDir s r.testDir = .ok contents → Page.scanner = .ok sc →
    ∀ page ∈ contents.descriptors settings.layout,
      Page.links s' sc page r.corpus = Page.links s sc page r.corpus
  names : ∀ contents sc, TestContents.ofDir s r.testDir = .ok contents →
    classNames s' sc (contents.scripts settings.layout) =
      classNames s sc (contents.scripts settings.layout)

/-- The same is found in stores that list their directories in another order. -/
lemma FindsSame.of_rearranged (h : Rearranged s s') (hs : s.WellFormed) :
    FindsSame settings r s s' :=
  ⟨TestContents.ofDir_eq (h.sameChildren hs _), fun _ sc _ _ page _ => Page.links_eq h hs sc page r.corpus,
    fun _ sc _ => classNames_eq h hs sc _⟩

/-- The findings are made in lockstep where the same is found. -/
theorem findings_lockstep (h : FindsSame settings r s s')
    (hQ : List.Forall₂ Q w.questions w'.questions) (hw : Unchanged s s' w.store w'.store) :
    Act.Lockstep (Unchanged s s') Q Eq (findings settings r) (findings settings r) w w' := by
  unfold findings
  refine .look_bind hQ (by rw [hw.1, hw.2, h.contents]) fun contents hcontents => ?_
  rw [hw.1] at hcontents
  refine .look_bind hQ rfl fun pages hpages => ?_
  refine .bind (addLinks_lockstep (h.links contents pages hcontents hpages) hQ hw) ?_
  rintro files _ v v' - - rfl hv hQ'
  refine .look_bind hQ' rfl fun scripts _ => ?_
  refine .look_bind hQ' (by rw [hv.1, hv.2, h.names contents scripts hcontents]) fun names _ => ?_
  exact .bind (.report hQ' hv) fun _ _ _ _ _ _ _ hu hQ'' => .pure hQ'' hu rfl

end Closure

end Excerpt
