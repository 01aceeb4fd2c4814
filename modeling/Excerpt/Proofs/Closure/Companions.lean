import Excerpt.Proofs.Closure.Trees
import Excerpt.Proofs.Store.Outgrowth
import Excerpt.Proofs.Store.Reach

/-!
# One scratch directory in two stores

A store has grown beneath a place that cannot be reached from the corpus. When a scratch directory is
made in it, under the name that it had before the store grew, then the same trees of bridges come to
it: what the walks come to and what the names lead to is the same in both stores.
-/

namespace Excerpt

open Store

variable {s x y u v : Store} {c o root names dirs l : Location} {dir p file source dest : Path}
  {n top : Bytes} {node : Node} {layout : Layout} {r : Request} {w w' : World}
  {Q : Question → Question → Prop}

/-- Nothing beneath `o` can be reached from the directory at `c`. -/
def Store.OutOfReach (s : Store) (c o : Location) : Prop := ∀ l, Reachable s c l → ¬ o <+: l

/-- A store that has grown out of reach is as it was for all that can be reached. -/
lemma Store.Outgrowth.undisturbed (h : Outgrowth o s x) (hc : s.get? c = some .dir)
    (hout : s.OutOfReach c o) : Undisturbed s c x :=
  ⟨h.base, hc, h.wellFormed, h.ext, fun l hl => h.outside l (hout l hl)⟩

/-- The store `x` is `s` with a scratch directory, and the store `y` has all of it and more beneath
`o`. Neither the scratch directory nor what is beneath `o` can be reached from `c`. -/
structure Companions (s : Store) (c o : Location) (dir : Path) (root : Location) (x y : Store) :
    Prop where
  corpusDir : s.get? c = some .dir
  outputDir : s.get? o = some .dir
  outputOut : s.OutOfReach c o
  scratchOut : s.OutOfReach c root
  apart : ¬ o <+: root
  left : Scratch s dir root (fun _ => True) x
  grown : Outgrowth o x y

namespace Companions

lemma of_grown (h : Companions s c o dir root x y) (hleft : Scratch s dir root (fun _ => True) u)
    (hgrown : Outgrowth o u v) : Companions s c o dir root u v :=
  ⟨h.corpusDir, h.outputDir, h.outputOut, h.scratchOut, h.apart, hleft, hgrown⟩

/-! ### The corpus -/

lemma undisturbed_left (h : Companions s c o dir root x y) : Undisturbed s c x :=
  ⟨h.left.base, h.corpusDir, h.left.wellFormed, h.left.extends, fun l hl =>
    h.left.encloses.get?_of_not_prefix (h.scratchOut l hl)⟩

lemma undisturbed_right (h : Companions s c o dir root x y) : Undisturbed s c y :=
  ⟨h.left.base, h.corpusDir, h.grown.wellFormed, h.left.extends.trans h.grown.ext, fun l hl => by
    rw [h.grown.outside l (h.outputOut l hl), h.undisturbed_left.get?_eq l hl]⟩

lemma isDir_eq (h : Companions s c o dir root x y) (hp : KeepsTo s c p) : y.isDir p = x.isDir p := by
  rw [h.undisturbed_left.isDir_eq hp, h.undisturbed_right.isDir_eq hp]

lemma read_eq (h : Companions s c o dir root x y) (hp : KeepsTo s c p) : y.read p = x.read p := by
  rw [h.undisturbed_left.read_eq hp, h.undisturbed_right.read_eq hp]

/-- Walks come to the same files, and these keep to what can be reached. -/
lemma files (h : Companions s c o dir root x y) (hp : KeepsTo s c source) (limits : Walk.Limits) :
    Walk.files y limits source = Walk.files x limits source ∧
      ∀ ps, Walk.files x limits source = .ok ps → ∀ p ∈ ps, KeepsTo s c p := by
  refine ⟨?_, fun ps hps p hmem => ?_⟩
  · rw [Walk.files, Walk.files, h.undisturbed_left.entries_eq hp, h.undisturbed_right.entries_eq hp]
  · obtain ⟨-, loc, names, -, -, rfl, -, node, hnode, -⟩ :=
      ((Walk.mem_files_iff h.left.wellFormed hps).2 p).mp hmem
    refine hp.chain h.left.base h.corpusDir fun n hn => ?_
    refine (h.left.wellFormed.isEntryName ?_ (List.mem_append_right loc hn)).isName
    rw [hnode]
    simp

/-! ### Paths in the scratch directory -/

/-- What is in the scratch directory is not beneath `o`. -/
lemma not_prefix (h : Companions s c o dir root x y) (names : Location) : ¬ o <+: root ++ names := by
  intro hp
  rcases List.prefix_or_prefix_of_prefix hp (List.prefix_append root names) with hp | hp
  · exact h.apart hp
  · have hfree := h.left.base.get?_eq_none_of_prefix h.left.free hp
    rw [h.outputDir] at hfree
    cases hfree

/-- Names in the scratch directory run into nothing beneath `o`. -/
lemma keepsOut (h : Companions s c o dir root x y) {flag : Bool}
    (hnames : ∀ n ∈ names, Path.IsName n)
    (hlink : ∀ front, front <+: names → front ≠ [] → (front = names → flag = true) →
      ∀ target, x.get? (root ++ front) ≠ some (.link target)) :
    KeepsOut x o flag (chain dir names) := by
  intro q hq
  have hstart := (start_chain (s := x) h.left.encloses.dir_ne_nil hnames).2
  rw [hstart, steps_chain dir hnames] at hq
  have hroot : x.get? root ≠ none := by
    rw [h.left.isDir]
    simp
  obtain ⟨front, -, rfl⟩ := (hq.of_append h.left.wellFormed (h.left.wellFormed.get?_start dir)
    h.left.leads hroot).of_names hlink
  exact h.not_prefix front

lemma keepsOut_dirs (h : Companions s c o dir root x y) (hdirs : Scratch.IsTreeDir dirs) :
    KeepsOut x o true (chain dir dirs) :=
  h.keepsOut (Twins.isName_of_isTreeDir hdirs) fun front hp hne _ target =>
    h.left.linkFree _ ⟨front, hdirs.of_prefix hp hne, rfl⟩ target

/-- Something in a directory of a tree. -/
lemma keepsOut_entry (h : Companions s c o dir root x y) (hdirs : Scratch.IsTreeDir dirs)
    (hn : Path.IsName n) : KeepsOut x o false (chain dir (dirs ++ [n])) := by
  refine h.keepsOut (Twins.isName_of_mem_entry hdirs hn) fun front hp hne hlast target => ?_
  have hfront : front <+: dirs := (List.prefix_concat_iff.mp hp).resolve_left fun he =>
    Bool.false_ne_true (hlast he)
  exact h.left.linkFree _ ⟨front, hdirs.of_prefix hfront hne, rfl⟩ target

lemma follows_chain (hnames : ∀ n ∈ names, Path.IsName n) (hne : names ≠ []) :
    Follows (false || wantsDir (chain dir names)) (segments (chain dir names)) false := by
  rw [wantsDir_chain dir hnames hne, segments_chain dir hnames]
  refine ⟨id, Or.inr ?_⟩
  obtain ⟨front, n, rfl⟩ := (List.eq_nil_or_concat' names).resolve_left hne
  rw [← List.append_assoc, List.getLast?_concat, ne_eq, Option.some.injEq]
  rintro rfl
  exact absurd (hnames [Path.dot] (by simp)) (by decide)

/-! ### Directories -/

/-- Directories of the trees. -/
def TreeDir (dir : Path) (p p' : Path) : Prop :=
  p' = p ∧ ∃ dirs, Scratch.IsTreeDir dirs ∧ p = chain dir dirs

lemma makeDir (h : Companions s c o dir root x y) (hdirs : Scratch.IsTreeDir dirs) :
    Alike (Companions s c o dir root) (x.makeDir (chain dir dirs)) (y.makeDir (chain dir dirs)) := by
  have halike := h.grown.makeDir_alike (h.keepsOut_dirs hdirs)
  generalize hx : x.makeDir (chain dir dirs) = a at halike
  generalize y.makeDir (chain dir dirs) = b at halike
  cases halike with
  | error => exact .error
  | ok hgrown => exact .ok (h.of_grown (Twins.scratch_of_makeDir h.left hdirs hx) hgrown)

lemma spells_top (h : Companions s c o dir root x y)
    (htop : top = Scratch.testsName ∨ top = Scratch.srcTestsName) : Spells x dir root [top] := by
  refine ⟨h.left.wellFormed, find_true_of_dir h.left.encloses.found, ?_, fun front hp node hn => ?_⟩
  · rcases htop with rfl | rfl <;>
      exact List.forall_mem_singleton.mpr ⟨⟨by decide, by decide⟩, by decide⟩
  · rcases eq_or_ne front [] with rfl | hne
    · rw [List.append_nil, h.left.isDir] at hn
      exact (Option.some.inj hn).symm
    · have htree := Bridge.isTreeDir_top htop
      have hdirs := htree.of_prefix hp hne
      cases h.left.holds front node hne hn with
      | dir => rfl
      | bridge htree hdot =>
        exact absurd hdot (hdirs.dot_notMem htree.ne_nil)
      | stub => exact absurd hdirs Scratch.not_isTreeDir_stub

lemma makesAlike : MakesAlike (Companions s c o dir root) (TreeDir dir) where
  ne_nil := by
    rintro x y _ _ h ⟨rfl, dirs, hdirs, rfl⟩
    have hne := (start_chain (s := x) h.left.encloses.dir_ne_nil
      (Twins.isName_of_isTreeDir hdirs)).1
    exact ⟨hne, hne⟩
  makeDir := by
    rintro x y _ _ h ⟨rfl, dirs, hdirs, rfl⟩
    exact h.makeDir hdirs
  isDir := by
    rintro x y _ _ h ⟨rfl, dirs, hdirs, rfl⟩
    exact h.grown.isDir_eq (h.keepsOut_dirs hdirs)
  above := by
    rintro x y _ _ h ⟨rfl, dirs, hdirs, rfl⟩ hmissing
    obtain ⟨front, n, rfl⟩ := (List.eq_nil_or_concat' dirs).resolve_left hdirs.ne_nil
    have hnames := Twins.isName_of_isTreeDir hdirs
    rcases eq_or_ne front [] with rfl | hne
    · -- The scratch directory is there, so nothing is missing above the top of a tree.
      obtain ⟨top, rest, he, htop, -⟩ := hdirs
      obtain ⟨rfl, rfl⟩ := List.cons.inj he
      have hmade := (h.spells_top htop).makeDir (List.cons_ne_nil n [])
      rw [List.nil_append] at hmissing
      rw [hmissing] at hmade
      cases hmade with
      | missing hp hne hfree =>
        rw [(List.prefix_concat_iff.mp hp).resolve_left hne |> List.prefix_nil.mp, List.append_nil,
          h.left.isDir] at hfree
        cases hfree
    · have hparent := parent?_chain (p := dir)
        (fun m hm => hnames m (List.mem_append_left _ hm)) hne (hnames n (by simp))
      exact ⟨_, _, hparent, hparent, rfl, front, hdirs.of_prefix (List.prefix_append ..) hne, rfl⟩

/-- A bridge is made in both stores or refused in both. -/
lemma makeLink (h : Companions s c o dir root x y) (target : Path) (hdirs : Scratch.IsTreeDir dirs)
    (hn : Path.IsName n) (hdot : Path.dot ∈ n) :
    Alike (Companions s c o dir root) (x.makeLink target (chain dir (dirs ++ [n])))
      (y.makeLink target (chain dir (dirs ++ [n]))) := by
  have halike := h.grown.makeLink_alike target
    (follows_chain (Twins.isName_of_mem_entry hdirs hn) (by simp)) (h.keepsOut_entry hdirs hn)
  generalize hx : x.makeLink target (chain dir (dirs ++ [n])) = a at halike
  generalize y.makeLink target (chain dir (dirs ++ [n])) = b at halike
  cases halike with
  | error => exact .error
  | ok hgrown =>
    exact .ok (h.of_grown (Twins.scratch_of_makeLink h.left hdirs hn hdot trivial hx) hgrown)

/-! ### Trees -/

/-- The tree `top` is there. -/
structure Planted (s : Store) (c o : Location) (dir : Path) (root : Location) (top : Bytes)
    (x y : Store) : Prop where
  companions : Companions s c o dir root x y
  isTop : top = Scratch.testsName ∨ top = Scratch.srcTestsName
  there : x.isDir (chain dir [top]) = true

lemma child_relativeDir {package : Text}
    (hpackage : ∀ c ∈ package, Package.nameChars.contains c = true) (hn : Path.IsName n) :
    ((chain dir [top]).join (Package.relativeDir package)).child n =
      chain dir (top :: Package.dirs package ++ [n]) :=
  Bridge.child_relativeDir hpackage hn

lemma plants_planted : Bridge.Plants (Planted s c o dir root top) (chain dir [top])
    (chain dir [top]) (KeepsTo s c) where
  makeDirs x y package h hpackage := by
    have hext := (runs_makeDirs h.companions.left.wellFormed
      ((chain dir [top]).join (Package.relativeDir package))).extends h.companions.left.wellFormed
    suffices hmake : _ ∧ Companions s c o dir root _ _ from
      ⟨hmake.1, hmake.2, h.isTop, hext.isDir h.there⟩
    rw [Bridge.join_relativeDir hpackage]
    by_cases hne : Package.dirs package = []
    · rw [hne, chain_nil]
      have htop := Bridge.isTreeDir_top h.isTop
      have hthere := h.companions.grown.isDir_eq (h.companions.keepsOut_dirs htop)
      obtain ⟨l, hfind⟩ := exists_of_isDir h.there
      obtain ⟨l', hfind'⟩ := exists_of_isDir (hthere.trans h.there)
      rw [makeDirs_join_empty_eq hfind, makeDirs_join_empty_eq hfind']
      refine ⟨?_, h.companions⟩
      simp only
      split
      · exact .error
      · exact .ok rfl
    · rw [Bridge.chain_join_empty _ (Bridge.isName_of_mem_dirs hpackage) hne]
      exact makesAlike.makeDirs h.companions
        ⟨rfl, _, Bridge.isTreeDir_dirs h.isTop hpackage, rfl⟩ rfl
  taken x y package name h hpackage hname := by
    have hdirs := Bridge.isTreeDir_dirs h.isTop hpackage
    rw [child_relativeDir hpackage hname]
    exact h.companions.grown.isSome_ownNode?_eq
      (follows_chain (Twins.isName_of_mem_entry hdirs hname) (by simp))
      (h.companions.keepsOut_entry hdirs hname)
  makeLink x y package name file h hpackage hname hdot _ := by
    have hdirs := Bridge.isTreeDir_dirs h.isTop hpackage
    rw [child_relativeDir hpackage hname]
    have halike := h.companions.makeLink file hdirs hname hdot
    generalize hx : x.makeLink file (chain dir (top :: Package.dirs package ++ [name])) = a
      at halike
    generalize y.makeLink file (chain dir (top :: Package.dirs package ++ [name])) = b at halike
    cases halike with
    | error => exact .error
    | ok hmade =>
      have hext := (changes_of_makeLink h.companions.left.wellFormed hx).extends
        h.companions.left.wellFormed
      exact .ok ⟨hmade, h.isTop, hext.isDir h.there⟩
  read _ _ _ h hfile := h.companions.read_eq hfile

lemma normalize_lockstep {recursive : Bool} (hw : Planted s c o dir root top w.store w'.store)
    (hQ : List.Forall₂ Q w.questions w'.questions) (hsource : KeepsTo s c source) :
    Act.Lockstep (Planted s c o dir root top) Q (fun _ _ => True)
      (Bridge.normalize layout source (chain dir [top]) recursive)
      (Bridge.normalize layout source (chain dir [top]) recursive) w w' :=
  Bridge.normalize_lockstep plants_planted hw hQ fun _ _ => hw.companions.files hsource _

lemma bridgeTree_lockstep (hw : Companions s c o dir root w.store w'.store)
    (hQ : List.Forall₂ Q w.questions w'.questions)
    (htop : top = Scratch.testsName ∨ top = Scratch.srcTestsName) (hsource : KeepsTo s c source) :
    Act.Lockstep (Planted s c o dir root top) Q (fun _ _ => True)
      (Closure.bridgeTree layout source (chain dir [top]))
      (Closure.bridgeTree layout source (chain dir [top])) w w' := by
  have htree := Bridge.isTreeDir_top htop
  have hne := (start_chain (s := w.store) hw.left.encloses.dir_ne_nil
    (Twins.isName_of_isTreeDir htree)).1
  obtain ⟨halike, hmade⟩ := makesAlike.makeDirs hw ⟨rfl, _, htree, rfl⟩ rfl
  unfold Closure.bridgeTree
  refine .bind (.edit hQ halike fun _ _ => hmade) fun _ _ v v' hx _ _ hv hQ' => ?_
  obtain ⟨u, hu, rfl⟩ := Act.edit_eq_ok.mp hx
  have hplanted : Planted s c o dir root top u v'.store :=
    ⟨hv, htop, isDir_of_makeDirs hw.left.wellFormed hne hu⟩
  refine .bind (normalize_lockstep hplanted hQ' hsource) ?_
  exact fun _ _ _ _ _ _ _ hv' hQ'' => .pure hQ'' hv' trivial

lemma bridgeEach_lockstep {sources : List Path}
    (hw : Planted s c o dir root top w.store w'.store)
    (hQ : List.Forall₂ Q w.questions w'.questions)
    (hsources : ∀ source ∈ sources, KeepsTo s c source) :
    Act.Lockstep (Planted s c o dir root top) Q (fun _ _ => True)
      (Closure.bridgeEach layout (chain dir [top]) sources)
      (Closure.bridgeEach layout (chain dir [top]) sources) w w' := by
  induction sources generalizing w w' with
  | nil => exact .pure hQ hw trivial
  | cons source sources ih =>
    refine .bind (normalize_lockstep hw hQ (hsources source List.mem_cons_self)) ?_
    exact fun _ _ _ _ _ _ _ hv hQ' => ih hv hQ' fun p hp => hsources p (List.mem_cons_of_mem _ hp)

/-- The same trees of bridges come to both stores. -/
theorem addBridgeRoots_lockstep {roots : SourceRoots}
    (hw : Companions s c o dir root w.store w'.store)
    (hQ : List.Forall₂ Q w.questions w'.questions)
    (hsources : ∀ source, Closure.BridgeSource layout r source → KeepsTo s c source) :
    Act.Lockstep (Companions s c o dir root) Q Eq (Closure.addBridgeRoots layout r dir roots)
      (Closure.addBridgeRoots layout r dir roots) w w' := by
  have hsrcTests := hsources _ (Or.inr (Or.inr rfl))
  unfold Closure.addBridgeRoots
  simp only [Closure.joinText_tests, Closure.joinText_srcTests]
  refine .bind (bridgeTree_lockstep hw hQ (Or.inl rfl) (hsources _ (Or.inl rfl))) ?_
  intro _ _ v v' _ _ _ hv hQ'
  refine .bind (bridgeEach_lockstep hv hQ' fun p hp => hsources p (Or.inr (Or.inl hp))) ?_
  intro _ _ x x' _ _ _ hx hQ''
  refine .look_bind hQ'' (by rw [hx.companions.isDir_eq hsrcTests]) fun isDir _ => ?_
  split
  · refine .bind (bridgeTree_lockstep hx.companions hQ'' (Or.inr rfl) hsrcTests) ?_
    exact fun _ _ _ _ _ _ _ hy hQ''' => .pure hQ''' hy.companions rfl
  · exact .pure hQ'' hx.companions rfl

/-! ### Stubs -/

lemma isName_stub : ∀ n ∈ [Scratch.stubName], Path.IsName n :=
  List.forall_mem_singleton.mpr Twins.isName_stubName

lemma keepsOut_stub (h : Companions s c o dir root x y) {flag : Bool} :
    KeepsOut x o flag (Stub.file dir) := by
  refine h.keepsOut isName_stub fun front hp hne _ target => ?_
  obtain ⟨m, rest, rfl⟩ := List.exists_cons_of_ne_nil hne
  obtain ⟨rfl, hrest⟩ := List.cons_prefix_cons.mp hp
  rw [List.prefix_nil.mp hrest]
  exact h.left.not_link_stub target

/-- A stub is written in both stores or refused in both. -/
lemma writeStub (h : Companions s c o dir root x y) (content : Bytes) :
    Alike (Companions s c o dir root) (x.write (Stub.file dir) content)
      (y.write (Stub.file dir) content) := by
  have hplace : ∀ l node, x.find true (Stub.file dir) = .ok (l, node) → ¬ o <+: l := by
    intro l node hfind
    have hwf := h.left.wellFormed
    rw [h.left.encloses.eq_of_leads (leads_of_find hwf hfind (isLink_of_find hwf hfind)).1]
    exact h.not_prefix _
  have halike := h.grown.write_alike h.keepsOut_stub hplace content
  generalize hx : x.write (Stub.file dir) content = a at halike
  generalize y.write (Stub.file dir) content = b at halike
  cases halike with
  | error => exact .error
  | ok hgrown =>
    obtain ⟨-, -, -, -, hleft⟩ := h.left.write_stub hx
    exact .ok (h.of_grown hleft hgrown)

/-- A stub is removed from both stores or from neither. -/
lemma removeStub (h : Companions s c o dir root x y) :
    Alike (Companions s c o dir root) (x.removeFile (Stub.file dir))
      (y.removeFile (Stub.file dir)) := by
  have halike : Alike (Outgrowth o) (x.removeFile (Stub.file dir)) (y.removeFile (Stub.file dir)) :=
    h.grown.removeFile_alike (follows_chain isName_stub (List.cons_ne_nil _ _)) h.keepsOut_stub
  generalize hx : x.removeFile (Stub.file dir) = a at halike
  generalize y.removeFile (Stub.file dir) = b at halike
  cases halike with
  | error => exact .error
  | ok hgrown => exact .ok (h.of_grown (h.left.removeFile_stub hx).2 hgrown)

end Companions

end Excerpt
