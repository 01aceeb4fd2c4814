import Excerpt.Assembly
import Excerpt.Proofs.Closure.Account
import Excerpt.Proofs.Closure.Bridges
import Excerpt.Proofs.Page

/-!
# Where the files of a closure lie

If there are no links in the corpus, the name of the test has no `..`, and the oracle keeps to the
source roots, then the files of a closure are regular files of the corpus. Files that the oracle
names by a bridge are no exception, as a bridge is resolved to its target, and all targets were met
in the corpus.

The one thing to be asked besides is that the files of the test have short enough paths. A path
that is too long cannot be told to lead to a directory, so it is taken for a file.
-/

namespace Excerpt

open Store

/-- The path is that of an existing file, it has no `..`, and it lies beneath one of the source
roots of the question. -/
structure Question.Admits (q : Question) (p : Path) : Prop where
  noParent : .parent ∉ p.steps
  found : q.store.exists p = true
  notDir : q.store.isDir p = false
  beneath : ∃ root ∈ q.roots, p.startsWith root = true

/-- The oracle names only existing files beneath the source roots. -/
def Oracle.KeepsToRoots (oracle : Oracle) : Prop :=
  ∀ q found, oracle.Answers q found → ∀ p ∈ found.toList, q.Admits p

lemma Oracle.silent_keepsToRoots : silent.KeepsToRoots := by
  rintro q found ⟨w, v, -, hrun⟩ p hp
  cases hrun
  cases hp

/-- The oracle that names those of some paths that are files beneath the source roots. -/
def Oracle.offering (ps : List Path) : Oracle := fun _ roots =>
  Act.look fun s => .ok (.ofList (ps.filter fun p =>
    decide (.parent ∉ p.steps) && s.exists p && !s.isDir p && roots.any p.startsWith))

lemma Oracle.offering_readOnly (ps : List Path) : (offering ps).ReadOnly :=
  fun _ _ => Act.Reads.look

lemma Oracle.offering_keepsToRoots (ps : List Path) : (offering ps).KeepsToRoots := by
  rintro q found ⟨w, v, hw, hrun⟩ p hp
  rw [offering, Act.run_look, Prod.mk.injEq, Except.ok.injEq] at hrun
  obtain ⟨rfl, rfl⟩ := hrun
  have hkeep := (List.mem_filter.mp (PathSet.mem_ofList hp)).2
  rw [hw] at hkeep
  simp only [Bool.and_eq_true, decide_eq_true_eq, Bool.not_eq_true', List.any_eq_true] at hkeep
  exact ⟨hkeep.1.1.1, hkeep.1.1.2, hkeep.1.2, hkeep.2⟩

/-- A regular file, by a path that does not climb out of the corpus. -/
structure InCorpus (s : Store) (c : Location) (p : Path) : Prop where
  enters : Enters c p
  file : ∃ l node, s.find true p = .ok (l, node) ∧ node.isFile = true

variable {layout : Layout} {r : Request} {test : Text} {scratch p : Path} {s t u : Store}
  {root c o l : Location} {node : Node} {good : Path → Prop}

/-! ### Files of the corpus -/

lemma Store.isFile_of_find (hs : s.WellFormed) (h : s.find true p = .ok (l, node))
    (hdir : node ≠ .dir) : node.isFile = true := by
  have hlink := isLink_of_find hs h
  cases node with
  | dir => exact absurd rfl hdir
  | link => cases hlink
  | file => rfl

lemma Question.Admits.exists_file {q : Question} (h : q.Admits p) (hq : q.store.WellFormed) :
    ∃ l node, q.store.find true p = .ok (l, node) ∧ node ≠ .dir ∧ node.isFile = true := by
  have hfound := h.found
  have hdir := h.notDir
  unfold Store.exists at hfound
  unfold isDir at hdir
  unfold node? at hfound hdir
  split at hfound
  · rename_i l node hfind
    have hnode : node ≠ .dir := by
      rintro rfl
      rw [hfind] at hdir
      cases hdir
    exact ⟨l, node, hfind, hnode, isFile_of_find hq hfind hnode⟩
  · cases hfound

namespace InCorpus

/-- A file of the corpus lies there. -/
lemma exists_location (h : InCorpus s c p) (hs : s.WellFormed)
    (hc : s.get? c = some .dir) (hfree : LinkFree s (c <+: ·)) :
    ∃ l node, s.find true p = .ok (l, node) ∧ node.isFile = true ∧ c <+: l ∧
      s.get? l = some node := by
  obtain ⟨l, node, hfind, hfile⟩ := h.file
  obtain ⟨a, ha⟩ := h.enters.goesBeneath
  obtain ⟨-, hbeneath, hn, -⟩ := ha.find hs hc hfree hfind
  exact ⟨l, node, hfind, hfile, hbeneath, hn⟩

/-- With a scratch directory elsewhere, the files of the corpus are the same. -/
lemma of_scratch (ht : Scratch s scratch root good t) (hc : s.get? c = some .dir)
    (hout : ¬ c <+: root) (hfree : LinkFree s (c <+: ·)) (henters : Enters c p)
    (hfile : ∃ l node, t.find true p = .ok (l, node) ∧ node.isFile = true) : InCorpus s c p := by
  obtain ⟨a, ha⟩ := henters.goesBeneath
  rw [ht.find_eq hc hout hfree ha] at hfile
  exact ⟨henters, hfile⟩

lemma leadsToFile (h : InCorpus s c p) (ht : Scratch s scratch root good t)
    (hc : s.get? c = some .dir) (hout : ¬ c <+: root) (hfree : LinkFree s (c <+: ·)) :
    LeadsToFile t p := by
  obtain ⟨a, ha⟩ := h.enters.goesBeneath
  refine ⟨h.enters.1, ?_⟩
  rw [ht.find_eq hc hout hfree ha]
  exact h.file

end InCorpus

/-- In a corpus without links resolving leaves all paths. -/
lemma Store.Enters.resolveLink_eq (h : Enters c p) (ht : Scratch s scratch root good t)
    (hc : s.get? c = some .dir) (hout : ¬ c <+: root) (hfree : LinkFree s (c <+: ·)) :
    t.resolveLink p = p := by
  obtain ⟨a, ha⟩ := h.goesBeneath
  unfold resolveLink ownNode?
  rw [ht.find_eq hc hout hfree ha]
  cases hfind : s.find false p with
  | error => rfl
  | ok found =>
    obtain ⟨l, node⟩ := found
    have hlink := (ha.find ht.base hc hfree hfind).2.2.2
    cases node with
    | link => cases hlink
    | _ => rfl

namespace Closure

/-! ### Bridges -/

lemma of_mem_ancestors {tests d : Path} {fuel : Nat} (h : d ∈ ancestors tests fuel p.parent?) :
    Over p d ∧ d.startsWith tests = true := by
  induction fuel generalizing p with
  | zero => cases h
  | succ fuel ih =>
    cases hparent : p.parent? with
    | none =>
      rw [hparent] at h
      cases h
    | some above =>
      rw [hparent, ancestors] at h
      split at h
      · cases h
      · rename_i hstop
        simp only [Bool.or_eq_true, Bool.not_eq_true', not_or, Bool.not_eq_false] at hstop
        rcases List.mem_cons.mp h with rfl | h
        · exact ⟨(Over.refl d).of_parent? hparent, hstop.2⟩
        · obtain ⟨hd, hbeneath⟩ := ih h
          exact ⟨hd.of_parent? hparent, hbeneath⟩

/-- All directories that bridges are made for are spelled within the corpus. -/
lemma BridgeSource.enters (h : BridgeSource layout r p) (hs : s.WellFormed)
    (hr : Request.Accepted s layout r test c o) (hlayout : layout.IsPlain)
    (hname : TestName.NoParent test) : Enters c p := by
  have htest := hr.testDir_enters hs hlayout hname
  rcases h with rfl | h | rfl
  · exact htest
  · obtain ⟨⟨hp, habs⟩, hbeneath⟩ := of_mem_ancestors h
    obtain ⟨htests, htestsSteps⟩ := hr.testsRoot_steps hs hlayout
    have hinitial := ((Path.startsWith_iff htests).mp hbeneath).2
    rw [htestsSteps] at hinitial
    exact htest.of_prefix (habs.trans htest.1) ((List.prefix_append _ _).trans hinitial) hp
  · obtain ⟨hsrc, hsteps⟩ := hr.srcRoot_steps hs hlayout
    obtain ⟨habs, hsteps'⟩ := hlayout.tests.joinText hsrc
    rw [hsteps, List.append_assoc] at hsteps'
    refine .of_noParent habs (hsteps' ▸ List.prefix_append _ _) ?_
    rw [hsteps']
    simp [hlayout.src.2, hlayout.tests.2]

/-- The target of a bridge is a file of the corpus. -/
lemma Bridged.inCorpus (h : Bridged layout r s scratch root p) (hs : s.WellFormed)
    (hr : Request.Accepted s layout r test c o) (hlayout : layout.IsPlain)
    (hname : TestName.NoParent test) (hout : ¬ c <+: root) (hfree : LinkFree s (c <+: ·)) :
    InCorpus s c p := by
  obtain ⟨t, ht, ⟨source, names, hsource, hnames, rfl⟩, hfile⟩ := h
  exact .of_scratch ht hr.corpusDir hout hfree
    ((hsource.enters hs hr hlayout hname).chain hnames) hfile

/-! ### Answers -/

/-- A source root is a directory of the corpus or one of the trees of bridges. -/
lemma of_mem_rootList {modules : List Path} {keep : Bytes → Path → Prop} (hs : s.WellFormed)
    (hr : Request.Accepted s layout r test c o) (hlayout : layout.IsPlain)
    (hscratch : scratch.bytes ≠ []) (hmodules : ListsChildren s (r.srcRoot layout) keep modules)
    (h : p ∈ rootList layout r scratch t modules) :
    (p.isAbsolute = true ∧ c.map .name <+: p.steps) ∨ ∃ top, Bridge.IsTree scratch top p := by
  obtain ⟨hsrc, hsteps⟩ := hr.srcRoot_steps hs hlayout
  unfold rootList at h
  rcases List.mem_append.mp h with h | h
  · left
    rcases List.mem_cons.mp h with rfl | h
    · exact ⟨hsrc, hsteps ▸ List.prefix_append _ _⟩
    · obtain ⟨l, n, -, hn, rfl, -⟩ := (hmodules.mem _).mp h
      have hname := (hs.isEntryName hn (List.mem_append_right l List.mem_cons_self)).isName
      refine ⟨Path.isAbsolute_child hsrc hname, ?_⟩
      rw [Path.steps_child hname, hsteps, List.append_assoc]
      exact List.prefix_append _ _
  · right
    rcases List.mem_cons.mp h with rfl | h
    · exact ⟨_, isTree_tests hscratch⟩
    · split at h
      · rw [List.mem_singleton.mp h]
        exact ⟨_, isTree_srcTests hscratch⟩
      · cases h

/-- A file in a tree of bridges is found by a bridge. -/
lemma bridge_of_beneath {dest : Path} {top : Bytes}
    (hu : Scratch s scratch root (Bridged layout r s scratch root) u)
    (hgood : ∀ target, Bridged layout r s scratch root target → LeadsToFile u target)
    (htree : Bridge.IsTree scratch top dest) (hp : p.startsWith dest = true)
    (hparent : .parent ∉ p.steps) (hfind : u.find true p = .ok (l, node)) (hnode : node ≠ .dir) :
    ∃ names target, u.find false p = .ok (root ++ names, .link target) ∧
      Bridged layout r s scratch root target := by
  obtain ⟨⟨b, hb⟩, habs⟩ := Path.of_startsWith hp (by rw [htree.steps]; simp)
  have hrest : .parent ∉ b := fun hmem => hparent (by rw [← hb]; exact List.mem_append_right _ hmem)
  have hcases : ∀ step ∈ b, step = .parent ∨ ∃ n, step = .name n ∧ Path.IsName n :=
    fun step hstep => Path.of_mem_steps (by rw [← hb]; exact List.mem_append_right _ hstep)
  obtain ⟨names, rfl, -⟩ := Path.exists_names hcases hrest
  have hsteps : p.steps = scratch.steps ++ (top :: names).map .name := by
    rw [← hb, htree.steps, List.append_assoc]
    rfl
  have hstub : ¬ [Scratch.stubName] <+: top :: names := by
    rw [List.cons_prefix_cons]
    rintro ⟨rfl, -⟩
    have htop := htree.top
    revert htop
    decide
  obtain ⟨target, hlink, htarget⟩ :=
    hu.bridge_of_find hgood (habs.trans htree.isAbsolute) hsteps hstub hfind hnode
  exact ⟨_, target, hlink, htarget⟩

/-- What is known about the store that a question is put in. -/
lemma Asked.store_of_question {oracle : Oracle} {found : Findings} {library : SourceRoots}
    {answers : List PathSet} {files : PathSet} {roots sources : List Path} {q : Question}
    (h : Asked oracle layout r found library scratch s root t answers files)
    (hq : q ∈ questions roots scratch t sources found.classes) :
    q.roots = roots ∧ Scratch s scratch root (Bridged layout r s scratch root) q.store ∧
      ∀ p m target, q.store.find false p = .ok (m, .link target) →
        t.find false p = .ok (m, .link target) := by
  rcases List.mem_append.mp hq with hq | hq
  · obtain ⟨p, -, rfl⟩ := List.mem_map.mp hq
    exact ⟨rfl, h.inScratch, fun _ _ _ hfind => hfind⟩
  · obtain ⟨name, hname, rfl⟩ := List.mem_map.mp hq
    obtain ⟨mode, hput, -, -, hu⟩ := h.inScratch.write_stub (h.stubs name hname)
    refine ⟨rfl, hu, fun p m target hfind => ?_⟩
    simp only at hfind hu
    have hn := get?_of_find hu.wellFormed hfind
    rw [hput] at hfind hn
    refine find_put_file (by simp) rfl hfind ?_
    rintro rfl
    rw [get?_put_self (by simp)] at hn
    cases hn

/-- What an answer names is resolved to a file of the corpus. -/
lemma inCorpus_of_admits {q : Question} {modules : List Path} {keep : Bytes → Path → Prop}
    (ht : Scratch s scratch root good t)
    (hu : Scratch s scratch root (Bridged layout r s scratch root) q.store)
    (hlinks : ∀ p m target, q.store.find false p = .ok (m, .link target) →
      t.find false p = .ok (m, .link target))
    (hr : Request.Accepted s layout r test c o) (hlayout : layout.IsPlain)
    (hname : TestName.NoParent test) (hscratch : scratch.bytes ≠ []) (hout : ¬ c <+: root)
    (hfree : LinkFree s (c <+: ·)) (hmodules : ListsChildren s (r.srcRoot layout) keep modules)
    (hroots : q.roots = rootList layout r scratch t modules) (h : q.Admits p) :
    InCorpus s c (t.resolveLink p) := by
  have hc := hr.corpusDir
  obtain ⟨l, node, hfind, hnode, hfile⟩ := h.exists_file hu.wellFormed
  obtain ⟨b, hb, hbeneath⟩ := h.beneath
  rw [hroots] at hb
  rcases of_mem_rootList ht.base hr hlayout hscratch hmodules hb with
    ⟨habs, hinitial⟩ | ⟨top, htree⟩
  · obtain ⟨hp, hsteps⟩ := (Path.startsWith_iff habs).mp hbeneath
    have hin : InCorpus s c p := .of_scratch hu hc hout hfree
      (.of_noParent hp (hinitial.trans hsteps) h.noParent) ⟨l, node, hfind, hfile⟩
    rwa [hin.enters.resolveLink_eq ht hc hout hfree]
  · have hgood : ∀ target, Bridged layout r s scratch root target → InCorpus s c target :=
      fun target htarget => htarget.inCorpus ht.base hr hlayout hname hout hfree
    obtain ⟨names, target, hlink, htarget⟩ := bridge_of_beneath hu
      (fun target htarget => (hgood target htarget).leadsToFile hu hc hout hfree) htree hbeneath
      h.noParent hfind hnode
    have hin := hgood target htarget
    have hresolve : t.resolveLink p = target := by
      unfold resolveLink ownNode?
      rw [hlinks _ _ _ hlink]
      exact if_pos hin.enters.1
    rwa [hresolve]

/-! ### The test's own files and the links of its pages -/

/-- The paths of what stands in a directory are short enough to be looked up. -/
def ShortChildren (s : Store) (dir : Path) : Prop :=
  ∀ ps, s.listPaths dir = .ok ps → ∀ p ∈ ps, p.bytes.length < maxPath

lemma enters_of_own {own : List Path} (hs : s.WellFormed)
    (hr : Request.Accepted s layout r test c o) (hlayout : layout.IsPlain)
    (hname : TestName.NoParent test) {keep : Bytes → Path → Prop}
    (hown : ListsChildren s r.testDir keep own) (h : p ∈ own) : Enters c p := by
  obtain ⟨l, n, -, hn, rfl, -⟩ := (hown.mem p).mp h
  have hn' := (hs.isEntryName hn (List.mem_append_right l List.mem_cons_self)).isName
  have hchild : Enters c (chain r.testDir [n]) :=
    (hr.testDir_enters hs hlayout hname).chain (by simpa using hn')
  exact hchild

lemma inCorpus_of_own {own : List Path} (hs : s.WellFormed)
    (hr : Request.Accepted s layout r test c o) (hlayout : layout.IsPlain)
    (hname : TestName.NoParent test) (hfree : LinkFree s (c <+: ·))
    (hshort : ShortChildren s r.testDir)
    (hown : ListsChildren s r.testDir (fun _ p => s.isDir p = false) own) (h : p ∈ own) :
    InCorpus s c p := by
  have hc := hr.corpusDir
  have hchild := enters_of_own hs hr hlayout hname hown h
  obtain ⟨l, n, hdir, hn, rfl, hnotdir⟩ := (hown.mem p).mp h
  obtain ⟨a, ha⟩ := (hr.testDir_enters hs hlayout hname).goesBeneath
  obtain ⟨-, hbeneath, -, -⟩ := ha.find hs hc hfree hdir
  obtain ⟨node, hnode⟩ := Option.ne_none_iff_exists'.mp hn
  have hlink : node.isLink = false := by
    cases node with
    | link target => exact absurd hnode (hfree _ (hbeneath.trans (List.prefix_append _ _)) target)
    | _ => rfl
  have hlist : s.listPaths r.testDir = .ok ((s.names l).map r.testDir.child) := by
    rw [listPaths, list, hdir]
    rfl
  have hlen := hshort _ hlist _ (List.mem_map_of_mem ((mem_names hs).mpr ⟨node, hnode⟩))
  have hfind := find_child hs hdir hnode hlink hlen true
  refine ⟨hchild, l ++ [n], node, hfind, isFile_of_find hs hfind ?_⟩
  rintro rfl
  rw [isDir_of_find hfind] at hnotdir
  cases hnotdir

lemma inCorpus_of_linked {sc : Scanner} {page : Path} {found : Page.Links} (hs : s.WellFormed)
    (hr : Request.Accepted s layout r test c o)
    (hfound : Page.links s sc page r.corpus = .ok found) (h : p ∈ found.files) :
    InCorpus s c p := by
  obtain ⟨dir, link, rel, -, hcanonical, hfile, hbeneath⟩ := Page.keeps_of_mem_links hfound h
  obtain ⟨hcorpus, hsteps⟩ := hr.corpus_steps hs
  obtain ⟨habs, hinitial⟩ := (Path.startsWith_iff hcorpus).mp hbeneath
  refine ⟨.of_noParent habs (hsteps ▸ hinitial) ?_, ?_⟩
  · obtain ⟨l, node, hfind, rfl⟩ := canonical_eq_ok_iff.mp hcanonical
    rw [hs.steps_pathOf (by rw [get?_of_find hs hfind]; simp)]
    simp
  · unfold isFile node? at hfile
    split at hfile
    · rename_i l node hfind
      exact ⟨l, node, hfind, hfile⟩
    · cases hfile

/-! ### All files -/

lemma exists_of_mem_forall₂ {α β : Type} {rel : α → β → Prop} {as : List α} {bs : List β}
    (h : List.Forall₂ rel as bs) {b : β} (hb : b ∈ bs) : ∃ a ∈ as, rel a b := by
  induction h with
  | nil => cases hb
  | cons hab _ ih =>
    rcases List.mem_cons.mp hb with rfl | hb
    · exact ⟨_, List.mem_cons_self, hab⟩
    · obtain ⟨a, ha, hrel⟩ := ih hb
      exact ⟨a, List.mem_cons_of_mem _ ha, hrel⟩

lemma mem_parts {answers : List PathSet} {files : PathSet}
    (h : p ∈ (answers.foldl PathSet.union files).toList) :
    p ∈ files.toList ∨ ∃ a ∈ answers, p ∈ a.toList := by
  induction answers generalizing files with
  | nil => exact Or.inl h
  | cons a answers ih =>
    rcases ih h with h | ⟨b, hb, h⟩
    · rcases PathSet.mem_union h with h | h
      · exact Or.inl h
      · exact Or.inr ⟨a, List.mem_cons_self, h⟩
    · exact Or.inr ⟨b, List.mem_cons_of_mem _ hb, h⟩

/-- A file of a closure is one of the test's own files or a file of the corpus. -/
lemma Made.own_or_inCorpus {oracle : Oracle} {host : Host} {settings : Settings} {found : Findings}
    {library : SourceRoots} {answers : List PathSet} {closure : Closure}
    (h : Made oracle host settings r s found library root t answers closure)
    (hkeeps : oracle.KeepsToRoots) (hr : Request.Accepted s settings.layout r test c o)
    (hlayout : settings.layout.IsPlain) (hname : TestName.NoParent test) (hout : ¬ c <+: root)
    (hfree : LinkFree s (c <+: ·)) (hp : p ∈ closure.files.toList) :
    p ∈ found.contents.files ∨ InCorpus s c p := by
  have ht := h.asked.inScratch
  have hs := ht.base
  obtain ⟨links, names, hfound⟩ := h.findings
  obtain ⟨modules, hsrc, hmodules, hlibrary, hdistinct⟩ := libraryRoots_ok hs h.libraryRoots
  obtain ⟨hroots, -⟩ := withTrees_eq ht h.ne_nil hmodules hlibrary hsrc (hlibrary ▸ hdistinct)
  rw [h.asked.resolved] at hp
  rcases PathSet.mem_insertAll hp with hp | hp
  · cases hp
  obtain ⟨q, hq, rfl⟩ := List.mem_map.mp hp
  rcases mem_parts hq with hq | ⟨a, ha, hq⟩
  · rw [hfound.files] at hq
    rcases PathSet.mem_insertAll hq with hq | hq
    · have hown := PathSet.mem_ofList hq
      have henters := enters_of_own hs hr hlayout hname
        (TestContents.ofDir_ok hs hfound.contents) hown
      rw [henters.resolveLink_eq ht hr.corpusDir hout hfree]
      exact Or.inl hown
    · obtain ⟨found', hfound', hq⟩ := List.mem_flatMap.mp hq
      obtain ⟨sc, -, hlinks⟩ := hfound.linked
      obtain ⟨page, -, hpage⟩ := exists_of_mem_forall₂ hlinks hfound'
      have hin := inCorpus_of_linked hs hr hpage hq
      rw [hin.enters.resolveLink_eq ht hr.corpusDir hout hfree]
      exact Or.inr hin
  · obtain ⟨question, hquestion, hanswer⟩ := exists_of_mem_forall₂ h.asked.answered ha
    obtain ⟨hrootsOf, hu, hlinks⟩ := h.asked.store_of_question hquestion
    exact Or.inr (inCorpus_of_admits ht hu hlinks hr hlayout hname h.ne_nil hout hfree hmodules
      (hrootsOf.trans hroots) (hkeeps question a hanswer q hq))

/-! ### Places in the output -/

/-- No file of the closure climbs out of the corpus. -/
def StaysBeneath (corpus : Path) (closure : Closure) : Prop :=
  ∀ file ∈ closure.files.toList, ∀ rel, file.strip? corpus = some rel → Inside 0 rel.steps

/-- The place where the scratch directory is made in the store. -/
def ScratchAt (s : Store) (scratch : Path) (root : Location) : Prop :=
  ∃ t, s.makeDir scratch = .ok t ∧ t.find false scratch = .ok (root, .dir)

/-- The path leads to a regular file in the corpus at `c` and not in the scratch directory at
`root`, and it has a destination beneath the output at `o`. -/
structure Lands (s : Store) (r : Request) (scratch : Path) (root c o : Location) (p : Path) :
    Prop where
  file : ∃ l node, s.find true p = .ok (l, node) ∧ node.isFile = true ∧ c <+: l ∧ ¬ root <+: l
  beneath : p.startsWith r.corpus = true
  notScratch : p.startsWith scratch = false
  destination : ∃ dst rest, Assembly.destination r.corpus r.output p = .ok dst ∧
    GoesBeneath o dst rest

/-- What is left of a path into the corpus. -/
lemma exists_strip (hr : Request.Accepted s layout r test c o) (hs : s.WellFormed)
    (h : Enters c p) : ∃ rel, p.strip? r.corpus = some rel ∧ rel.isAbsolute = false ∧
      p.steps = c.map .name ++ rel.steps ∧ Inside 0 rel.steps := by
  obtain ⟨hp, a, ha, hinside⟩ := h
  obtain ⟨hcorpus, hsteps⟩ := hr.corpus_steps hs
  have hbeneath : p.startsWith r.corpus = true := by
    rw [Path.startsWith_iff hcorpus, hsteps, ha]
    exact ⟨hp, List.prefix_append _ _⟩
  rw [← Path.strip?_isSome] at hbeneath
  obtain ⟨rel, hrel⟩ := Option.isSome_iff_exists.mp hbeneath
  obtain ⟨-, hrelSteps, hrelAbs⟩ := Path.of_strip?_eq_some hcorpus hrel
  rw [hsteps] at hrelSteps
  rw [ha, List.append_cancel_left_eq] at hrelSteps
  exact ⟨rel, hrel, hrelAbs, by rw [ha, hrelSteps], hrelSteps ▸ hinside⟩

lemma not_startsWith_scratch (ht : Scratch s scratch root good t)
    (h : s.find true p = .ok (l, node)) : p.startsWith scratch = false := by
  rw [Bool.eq_false_iff]
  intro hp
  have hne : scratch.steps ≠ [] := by
    intro he
    have hl := ht.leads
    rw [he] at hl
    cases hl
    have hfree := ht.free
    rw [ht.extends.start, ht.base.get?_start] at hfree
    cases hfree
  obtain ⟨hsteps, habs⟩ := Path.of_startsWith hp hne
  exact ht.not_prefix_of_found h habs hsteps

/-- A file of the corpus has a destination. -/
lemma lands_of_inCorpus (h : InCorpus s c p) (ht : Scratch s scratch root good t)
    (hr : Request.Accepted s layout r test c o) (hfree : LinkFree s (c <+: ·)) :
    Lands s r scratch root c o p := by
  have hs := ht.base
  obtain ⟨l, node, hfind, hfile, hbeneath, hn⟩ := h.exists_location hs hr.corpusDir hfree
  obtain ⟨rel, hrel, habs, -, hinside⟩ := exists_strip hr hs h.enters
  refine ⟨⟨l, node, hfind, hfile, hbeneath, fun hroot => ?_⟩, ?_, not_startsWith_scratch ht hfind,
    r.output.join rel, rel.steps, ?_, hr.join_output hs habs hinside⟩
  · rw [hs.get?_eq_none_of_prefix ht.free hroot] at hn
    cases hn
  · rw [← Path.strip?_isSome, hrel]
    rfl
  · rw [Assembly.destination, hrel]

/-- Files that enter the corpus stay beneath it, and so do their places in the output. -/
lemma staysBeneath_of_enters {closure : Closure} (hr : Request.Accepted s layout r test c o)
    (hs : s.WellFormed) (h : ∀ p ∈ closure.files.toList, Enters c p) :
    closure.StaysBeneath r.corpus := by
  intro file hfile rel hrel
  obtain ⟨rel', hrel', -, -, hinside⟩ := exists_strip hr hs (h file hfile)
  rw [hrel, Option.some.injEq] at hrel'
  rwa [hrel']

/-- Different paths into the corpus have different destinations. -/
lemma not_same_destination {q dst dst' : Path} (hr : Request.Accepted s layout r test c o)
    (hs : s.WellFormed) (hp : Enters c p) (hq : Enters c q) (hne : p.same q = false)
    (hdst : Assembly.destination r.corpus r.output p = .ok dst)
    (hdst' : Assembly.destination r.corpus r.output q = .ok dst') : dst.same dst' = false := by
  obtain ⟨rel, hrel, habs, hsteps, hinside⟩ := exists_strip hr hs hp
  obtain ⟨rel', hrel', habs', hsteps', hinside'⟩ := exists_strip hr hs hq
  rw [Assembly.destination, hrel] at hdst
  rw [Assembly.destination, hrel'] at hdst'
  cases hdst
  cases hdst'
  obtain ⟨hd, hdSteps, -⟩ := hr.join_output hs habs hinside
  obtain ⟨hd', hdSteps', -⟩ := hr.join_output hs habs' hinside'
  rw [Bool.eq_false_iff, Ne, Path.same_iff_of_isAbsolute hp.1 hq.1, hsteps, hsteps',
    List.append_cancel_left_eq] at hne
  rwa [Bool.eq_false_iff, Ne, Path.same_iff_of_isAbsolute hd hd', hdSteps, hdSteps',
    List.append_cancel_left_eq]

section Build

variable {oracle : Oracle} {host : Host} {settings : Settings} {corpus output : Path}
  {closure : Closure} {w v : World}

lemma build_inCorpus (ho : oracle.ReadOnly) (hkeeps : oracle.KeepsToRoots)
    (hw : w.store.WellFormed) (hlayout : settings.layout.IsPlain)
    (hname : TestName.NoParent test) (hr : Request.Accepted w.store settings.layout r test c o)
    (hfree : LinkFree w.store (c <+: ·))
    (hout : ∀ root, ScratchAt w.store host.scratchDir root → ¬ c <+: root)
    (hshort : ShortChildren w.store r.testDir)
    (h : build host settings oracle r w = (.ok closure, v)) :
    v.store = w.store ∧ closure.files.Ordered ∧
      (∀ p ∈ closure.files.toList, InCorpus w.store c p) ∧
      ∃ root t, ScratchAt w.store host.scratchDir root ∧
        Scratch w.store host.scratchDir root
          (Bridged settings.layout r w.store host.scratchDir root) t := by
  obtain ⟨found, library, root, t, answers, hmade, hstore, -⟩ := build_ok ho hw h
  obtain ⟨wt, u, hmake, hroot, -⟩ := hmade.trees
  have hat : ScratchAt w.store host.scratchDir root := ⟨wt.store, hmake, hroot⟩
  refine ⟨hstore, ?_, fun p hp => ?_, root, t, hat, hmade.asked.inScratch⟩
  · rw [hmade.asked.resolved]
    exact PathSet.ordered_empty.insertAll _
  · rcases hmade.own_or_inCorpus hkeeps hr hlayout hname (hout root hat) hfree hp with hown | hin
    · obtain ⟨links, names, hfound⟩ := hmade.findings
      exact inCorpus_of_own hw hr hlayout hname hfree hshort
        (TestContents.ofDir_ok hw hfound.contents) hown
    · exact hin

/-- No file of a closure climbs out of the corpus. -/
lemma build_enters (ho : oracle.ReadOnly) (hkeeps : oracle.KeepsToRoots)
    (hw : w.store.WellFormed) (hlayout : settings.layout.IsPlain)
    (hname : TestName.NoParent test) (hr : Request.Accepted w.store settings.layout r test c o)
    (hfree : LinkFree w.store (c <+: ·))
    (hout : ∀ root, ScratchAt w.store host.scratchDir root → ¬ c <+: root)
    (h : build host settings oracle r w = (.ok closure, v)) :
    ∀ p ∈ closure.files.toList, Enters c p := by
  obtain ⟨found, library, root, t, answers, hmade, -, -⟩ := build_ok ho hw h
  obtain ⟨wt, u, hmake, hroot, -⟩ := hmade.trees
  have hout' := hout root ⟨wt.store, hmake, hroot⟩
  intro p hp
  rcases hmade.own_or_inCorpus hkeeps hr hlayout hname hout' hfree hp with hown | hin
  · obtain ⟨links, names, hfound⟩ := hmade.findings
    exact enters_of_own hw hr hlayout hname (TestContents.ofDir_ok hw hfound.contents) hown
  · exact hin.enters

/-- What is left of a file of a closure does not climb out of the output. -/
theorem build_staysBeneath (ho : oracle.ReadOnly) (hkeeps : oracle.KeepsToRoots)
    (hw : w.store.WellFormed) (hlayout : settings.layout.IsPlain)
    (hname : TestName.NoParent test) (hr : Request.Accepted w.store settings.layout r test c o)
    (hfree : LinkFree w.store (c <+: ·))
    (hout : ∀ root, ScratchAt w.store host.scratchDir root → ¬ c <+: root)
    (h : build host settings oracle r w = (.ok closure, v)) : closure.StaysBeneath r.corpus :=
  staysBeneath_of_enters hr hw (build_enters ho hkeeps hw hlayout hname hr hfree hout h)

/-- If the paths of the test's files are short enough, then all files of a closure are regular files
of the corpus, not in the scratch directory, and they have different destinations beneath the
output. -/
theorem build_lands (ho : oracle.ReadOnly) (hkeeps : oracle.KeepsToRoots)
    (hw : w.store.WellFormed) (hlayout : settings.layout.IsPlain)
    (hname : TestName.NoParent test)
    (hvalid : Request.validate w.store settings.layout corpus output test = .ok r)
    (hcorpus : w.store.find true corpus = .ok (c, .dir))
    (houtput : w.store.find true output = .ok (o, .dir)) (hfree : LinkFree w.store (c <+: ·))
    (hout : ∀ root, ScratchAt w.store host.scratchDir root → ¬ c <+: root)
    (hshort : ShortChildren w.store r.testDir)
    (h : build host settings oracle r w = (.ok closure, v)) :
    (∃ root, ScratchAt w.store host.scratchDir root ∧ v.store.get? root = none ∧
      ∀ p ∈ closure.files.toList, Lands v.store r host.scratchDir root c o p) ∧
    closure.files.toList.Pairwise fun p q => ∀ dst dst',
      Assembly.destination r.corpus r.output p = .ok dst →
        Assembly.destination r.corpus r.output q = .ok dst' → dst.same dst' = false := by
  obtain ⟨c', o', hcorpus', houtput', hr⟩ := Request.accepted_of_validate hw hvalid
  rw [hcorpus, Except.ok.injEq, Prod.mk.injEq] at hcorpus'
  rw [houtput, Except.ok.injEq, Prod.mk.injEq] at houtput'
  obtain rfl := hcorpus'.1
  obtain rfl := houtput'.1
  obtain ⟨hstore, hordered, hin, root, t, hat, ht⟩ :=
    build_inCorpus ho hkeeps hw hlayout hname hr hfree hout hshort h
  rw [hstore]
  refine ⟨⟨root, hat, ht.free, fun p hp => lands_of_inCorpus (hin p hp) ht hr hfree⟩, ?_⟩
  refine hordered.imp_of_mem fun hp hq hbefore dst dst' => ?_
  exact not_same_destination hr hw (hin _ hp).enters (hin _ hq).enters
    (Path.not_same_of_before hbefore)

end Build

/-! ### A test with a bridge -/

instance (s : Store) (dir : Path) : Decidable (ShortChildren s dir) :=
  decidable_of_iff (∀ p ∈ (s.listPaths dir).toOption.getD [], p.bytes.length < maxPath) (by
    unfold ShortChildren
    cases s.listPaths dir <;> simp [Except.toOption])

/-- There is nothing where a scratch directory is made. -/
lemma ScratchAt.free (hs : s.WellFormed) (h : ScratchAt s scratch root) : s.get? root = none := by
  obtain ⟨t, hmake, hfind⟩ := h
  obtain ⟨d, n, rfl, hfree, hfound⟩ := Store.of_makeDir hs hmake
  rw [hfound, Except.ok.injEq, Prod.mk.injEq] at hfind
  rw [← hfind.1]
  exact hfree

lemma ScratchAt.eq (h : ScratchAt s scratch root) (hmake : s.makeDir scratch = .ok t)
    (hfind : t.find false scratch = .ok (l, .dir)) : root = l := by
  obtain ⟨u, hu, hroot⟩ := h
  rw [hmake, Except.ok.injEq] at hu
  subst hu
  rw [hfind, Except.ok.injEq, Prod.mk.injEq] at hroot
  exact hroot.1.symm

/-- A corpus with a library source, and a test beside whose directory there is another source. -/
def bridgeStore : Store where
  entries :=
    [(locationOf ["w"], .dir), (locationOf ["w", "jck"], .dir),
      (locationOf ["w", "jck", "src"], .dir),
      (locationOf ["w", "jck", "src", "A.java"], .file [] plainMode ⟨0, 0⟩),
      (locationOf ["w", "jck", "tests"], .dir), (locationOf ["w", "jck", "tests", "u"], .dir),
      (locationOf ["w", "jck", "tests", "u", "B.java"],
        .file (Utf8.encode "package p;".toList) plainMode ⟨0, 0⟩),
      (locationOf ["w", "jck", "tests", "u", "t"], .dir),
      (locationOf ["w", "jck", "tests", "u", "t", "T.java"], .file [] plainMode ⟨0, 0⟩),
      (locationOf ["w", "out"], .dir), (locationOf ["tmp"], .dir)]
  cwd := []
  clock := ⟨1, 0⟩

/-- The request for the test in `bridgeStore`. -/
def bridgeRequest : Request where
  corpus := .ofText "/w/jck".toList
  output := .ofText "/w/out".toList
  testDir := .ofText "/w/jck/tests/u/t".toList
  testArg := "u/t".toList
  missingDescriptor := none

/-- The oracle that names the library source, and the other source by its bridge. -/
def bridgeOracle : Oracle :=
  .offering [.ofText "/w/jck/src/A.java".toList, .ofText "/tmp/scratch/tests/p/B.java".toList]

/-- The closure of the test in `bridgeStore`. -/
def bridgeClosure : Closure :=
  ⟨⟨[.ofText "/w/jck/src/A.java".toList, .ofText "/w/jck/tests/u/B.java".toList,
    .ofText "/w/jck/tests/u/t/T.java".toList]⟩, false⟩

set_option maxRecDepth 10000 in
/-- In `bridgeStore` all files of the closure lie in the corpus, also the one that the oracle names
by its bridge. -/
theorem build_bridgeStore_lands :
    bridgeOracle.ReadOnly ∧ bridgeOracle.KeepsToRoots ∧ bridgeStore.WellFormed ∧
      ShortChildren bridgeStore bridgeRequest.testDir ∧
      ∃ root, ∀ p ∈ bridgeClosure.files.toList, Lands bridgeStore bridgeRequest
        Host.bare.scratchDir root (locationOf ["w", "jck"]) (locationOf ["w", "out"]) p := by
  have ho : bridgeOracle.ReadOnly := Oracle.offering_readOnly _
  have hkeeps : bridgeOracle.KeepsToRoots := Oracle.offering_keepsToRoots _
  have hrun : bridgeStore.WellFormed ∧
      Request.validate bridgeStore Settings.default.layout (.ofText "/w/jck".toList)
        (.ofText "/w/out".toList) "u/t".toList = .ok bridgeRequest ∧
      ShortChildren bridgeStore bridgeRequest.testDir ∧
      (build .bare .default bridgeOracle bridgeRequest (.ofStore bridgeStore)).1 =
        .ok bridgeClosure := by decide +kernel
  obtain ⟨hw, hvalid, hshort, hclosure⟩ := hrun
  have hout : ∀ root, ScratchAt bridgeStore Host.bare.scratchDir root →
      ¬ locationOf ["w", "jck"] <+: root := by
    intro root hroot
    rw [hroot.eq (t := bridgeStore.put (locationOf ["tmp", "scratch"]) .dir)
      (l := locationOf ["tmp", "scratch"]) (by decide +kernel) (by decide +kernel)]
    decide +kernel
  have hstore : (build .bare .default bridgeOracle bridgeRequest (.ofStore bridgeStore)).2.store =
      bridgeStore := build_store ho .bare hw
  obtain ⟨⟨root, -, -, hlands⟩, -⟩ := build_lands ho hkeeps (w := .ofStore bridgeStore) hw
    Layout.isPlain_default (by decide +kernel) hvalid (c := locationOf ["w", "jck"])
    (o := locationOf ["w", "out"]) (by decide +kernel) (by decide +kernel)
    (linkFree_of_entries (by decide)) hout hshort (Act.run_eq_of_fst hclosure)
  rw [hstore] at hlands
  exact ⟨ho, hkeeps, hw, hshort, root, hlands⟩

/-! ### A directory with a long path -/

/-- Every `.` segment of a name makes the path longer. -/
lemma resolveText_dots (depth : Nat) (t : Text) (hp : p.bytes ≠ [])
    (hlast : p.bytes.getLast? ≠ some Path.slash) :
    TestName.resolveText p ((List.replicate depth ['.', '/']).flatten ++ t) =
      TestName.resolveText
        ⟨p.bytes ++ (List.replicate depth [Path.slash, Path.dot]).flatten⟩ t := by
  induction depth generalizing p with
  | zero => simp
  | succ depth ih =>
    have hjoin : p.joinText ['.'] = ⟨p.bytes ++ [Path.slash, Path.dot]⟩ := by
      rcases Path.join_bytes (p := p) (q := .ofText ['.']) (by decide) with
        ⟨he, -⟩ | ⟨front, he, -⟩ | ⟨-, -, h⟩
      · exact absurd he hp
      · rw [he] at hlast
        simp at hlast
      · exact h
    have hstep : ∀ rest : Text, TestName.resolveText p (['.'] ++ '/' :: rest) =
        TestName.resolveText (p.joinText ['.']) rest := by
      intro rest
      unfold TestName.resolveText
      rw [Text.splitOn_append_cons (by rfl)]
      rfl
    have hne : (p.bytes ++ [Path.slash, Path.dot]).getLast? ≠ some Path.slash := by
      rw [List.getLast?_append_of_ne_nil _ (by simp)]
      decide
    rw [List.replicate_succ, List.flatten_cons, List.append_assoc]
    rw [show ['.', '/'] ++ ((List.replicate depth ['.', '/']).flatten ++ t) =
      ['.'] ++ '/' :: ((List.replicate depth ['.', '/']).flatten ++ t) from rfl, hstep, hjoin]
    rw [ih (by simp) hne, List.replicate_succ, List.flatten_cons, List.append_assoc]

/-- A name of a test that is long because of its `.` segments. -/
def deepName : Text := (List.replicate 2000 ['.', '/']).flatten ++ ['t']

/-- The name of a directory beneath the one of the test. -/
def deepChild : Bytes := List.replicate 100 97

/-- A corpus with a test that has nothing but a directory. -/
def deepStore : Store where
  entries :=
    [(locationOf ["w"], .dir), (locationOf ["w", "jck"], .dir),
      (locationOf ["w", "jck", "src"], .dir), (locationOf ["w", "jck", "tests"], .dir),
      (locationOf ["w", "jck", "tests", "t"], .dir),
      (locationOf ["w", "jck", "tests", "t"] ++ [deepChild], .dir),
      (locationOf ["w", "out"], .dir), (locationOf ["tmp"], .dir)]
  cwd := []
  clock := ⟨1, 0⟩

/-- Settings that leave everything out of the trees of bridges. -/
def deepSettings : Settings :=
  { Settings.default with layout := { Layout.default with ignore := ["*".toList] } }

/-- The request for the test in `deepStore` by its long name. -/
def deepRequest : Request where
  corpus := .ofText "/w/jck".toList
  output := .ofText "/w/out".toList
  testDir := ⟨Utf8.encode "/w/jck/tests".toList ++
    (List.replicate 2000 [Path.slash, Path.dot]).flatten ++ Utf8.encode "/t".toList⟩
  testArg := deepName
  missingDescriptor := none

set_option maxRecDepth 10000 in
lemma validate_deepStore :
    Request.validate deepStore deepSettings.layout (.ofText "/w/jck".toList)
      (.ofText "/w/out".toList) deepName = .ok deepRequest := by
  have hparse : TestName.parse deepName deepSettings.layout.testsDir
      deepSettings.layout.descriptorExt = ⟨deepName, none⟩ := by decide +kernel
  have hroot : (Path.ofText "/w/jck".toList).joinText deepSettings.layout.testsDir =
      .ofText "/w/jck/tests".toList := by decide
  have hdir : TestName.resolveText (.ofText "/w/jck/tests".toList) deepName =
      deepRequest.testDir := by
    rw [deepName, resolveText_dots 2000 ['t'] (by decide) (by decide)]
    decide +kernel
  have hcorpus : deepStore.canonical (.ofText "/w/jck".toList) = .ok (.ofText "/w/jck".toList) := by
    decide +kernel
  have houtput : deepStore.canonical (.ofText "/w/out".toList) = .ok (.ofText "/w/out".toList) := by
    decide +kernel
  have hisDir : deepStore.isDir deepRequest.testDir = true := by decide +kernel
  unfold Request.validate
  rw [if_neg (by decide +kernel), hcorpus]
  simp only
  rw [if_neg (by decide +kernel), houtput]
  simp only [hparse, hroot, TestName.resolve, hdir, hisDir]
  rfl

set_option maxRecDepth 10000 in
lemma build_deepStore :
    deepStore.WellFormed ∧ TestName.NoParent deepName ∧
      (build .bare deepSettings .silent deepRequest (.ofStore deepStore)).1 =
        .ok ⟨⟨[deepRequest.testDir.child deepChild]⟩, false⟩ ∧
      deepStore.get? (locationOf ["w", "jck", "tests", "t"] ++ [deepChild]) = some .dir ∧
      deepStore.find true (deepRequest.testDir.child deepChild) = .error .nameTooLong := by
  decide +kernel

/-- A directory beneath that of a test becomes a file of the closure if its path is too long. -/
theorem build_deepStore_keeps_directory :
    Request.validate deepStore deepSettings.layout (.ofText "/w/jck".toList)
        (.ofText "/w/out".toList) deepName = .ok deepRequest ∧
      deepStore.WellFormed ∧ TestName.NoParent deepName ∧ deepSettings.layout.IsPlain ∧
      Oracle.silent.ReadOnly ∧ Oracle.silent.KeepsToRoots ∧
      (∀ region, LinkFree deepStore region) ∧
      (∀ root, ScratchAt deepStore Host.bare.scratchDir root →
        ¬ locationOf ["w", "jck"] <+: root) ∧
      (build .bare deepSettings .silent deepRequest (.ofStore deepStore)).1 =
        .ok ⟨⟨[deepRequest.testDir.child deepChild]⟩, false⟩ ∧
      deepStore.get? (locationOf ["w", "jck", "tests", "t"] ++ [deepChild]) = some .dir ∧
      deepStore.find true (deepRequest.testDir.child deepChild) = .error .nameTooLong := by
  obtain ⟨hw, hname, hclosure, hdir, hlong⟩ := build_deepStore
  refine ⟨validate_deepStore, hw, hname, ⟨by decide, by decide, by decide, by decide⟩,
    Oracle.silent_readOnly, Oracle.silent_keepsToRoots,
    fun _ => linkFree_of_entries (by decide), fun root hroot => ?_, hclosure, hdir, hlong⟩
  rw [hroot.eq (t := deepStore.put (locationOf ["tmp", "scratch"]) .dir)
    (l := locationOf ["tmp", "scratch"]) (by decide +kernel) (by decide +kernel)]
  decide +kernel

end Closure

end Excerpt
