import Excerpt.Proofs.Bridge.Precedence
import Excerpt.Proofs.Closure.Trees
import Excerpt.Proofs.Store.Parents

/-!
# The nearest ancestor wins

The tree of the test is made by several calls: one for the directory of the test with all that is
beneath it, and one for the files directly in each directory above, up to the directory of tests.
Since the first file that claims a place has it, the nearer directory wins.
-/

namespace Excerpt

open Store

namespace Closure

variable {s t u : Store} {layout : Layout} {r : Request} {tests p q dir scratch : Path}
  {segs names root d l : Location} {top : Bytes} {fuel k : Nat} {w v : World} {sc : Scanner}
  {roots roots' : SourceRoots} {files : List Path} {file : Path} {new : Location → Node → Prop}

/-! ### Ancestors -/

/-- The names of a directory some names deep in the directory of tests. -/
def IsDeep (tests : Path) (segs : Location) (k : Nat) (p : Path) : Prop :=
  p.same (chain tests (segs.take k)) = true

lemma isDeep_iff (hsegs : ∀ n ∈ segs, Path.IsName n) : IsDeep tests segs k p ↔
    p.components = tests.components ++ (segs.take k).map .name := by
  rw [IsDeep, Path.same_eq_true, components_chain _ fun n hn => hsegs n (List.mem_of_mem_take hn)]

/-- The parent of a directory that is deeper than the directory of tests. -/
lemma IsDeep.parent (hsegs : ∀ n ∈ segs, Path.IsName n) (hk : k < segs.length)
    (h : IsDeep tests segs (k + 1) p) :
    p.steps ≠ [] ∧ ∃ q, p.parent? = some q ∧ IsDeep tests segs k q := by
  have htake : segs.take (k + 1) = segs.take k ++ [segs[k]] := by simp
  have hsteps := (Path.same_iff.mp h).2
  rw [steps_chain _ fun n hn => hsegs n (List.mem_of_mem_take hn), htake, List.map_append,
    ← List.append_assoc] at hsteps
  have hne : p.steps ≠ [] := by simp [hsteps]
  obtain ⟨q, hq⟩ := Path.exists_parent hne
  refine ⟨hne, q, hq, (isDeep_iff hsegs).mpr ?_⟩
  rw [Path.components_of_parent? hq hne, (isDeep_iff hsegs).mp h, htake, List.map_append,
    ← List.append_assoc]
  exact List.dropLast_concat

/-- The directory of tests and what is above it are no ancestors. -/
lemma ancestors_eq_nil (h : q.components.length ≤ tests.components.length) :
    ancestors tests fuel (some q) = [] := by
  cases fuel with
  | zero => rfl
  | succ fuel =>
    rw [ancestors, if_pos]
    rw [Bool.or_eq_true, Bool.not_eq_true', Path.same_eq_true, Path.startsWith]
    by_cases htaken : tests.components <+: q.components
    · exact Or.inl (htaken.eq_of_length_le h).symm
    · refine Or.inr ?_
      rw [← Bool.not_eq_true, List.isPrefixOf_iff_prefix]
      exact htaken

/-- A directory beneath the directory of tests is an ancestor, and so are those above it. -/
lemma ancestors_of_isDeep (hsegs : ∀ n ∈ segs, Path.IsName n) (hk : k < segs.length)
    (h : IsDeep tests segs (k + 1) q) :
    ancestors tests (fuel + 1) (some q) = q :: ancestors tests fuel q.parent? := by
  have hq := (isDeep_iff hsegs).mp h
  rw [ancestors, if_neg]
  rw [Bool.or_eq_true, Bool.not_eq_true', not_or]
  constructor
  · rw [Path.same_eq_true, hq]
    intro he
    have hlength := congrArg List.length he
    simp only [List.length_append, List.length_map, List.length_take] at hlength
    omega
  · rw [Bool.not_eq_false, Path.startsWith, List.isPrefixOf_iff_prefix, hq]
    exact List.prefix_append _ _

/-- There are no ancestors above the directory of tests, and none above those directly in it. -/
lemma ancestors_parent_eq_nil (hsegs : ∀ n ∈ segs, Path.IsName n) (hk : k ≤ segs.length)
    (hsmall : k ≤ 1) (h : IsDeep tests segs k p) : ancestors tests fuel p.parent? = [] := by
  cases hparent : p.parent? with
  | none => cases fuel <;> rfl
  | some q =>
    have hlength := Path.length_components_of_parent? hparent
    rw [(isDeep_iff hsegs).mp h, List.length_append, List.length_map, List.length_take] at hlength
    exact ancestors_eq_nil (by omega)

/-- The ancestors of a directory are the directories above it, the nearest first, without the
directory of tests. -/
lemma isDeep_ancestors (hsegs : ∀ n ∈ segs, Path.IsName n) (hk : k ≤ segs.length)
    (hfuel : k ≤ fuel + 1) (h : IsDeep tests segs k p) :
    List.Forall₂ (fun dir k => IsDeep tests segs k dir) (ancestors tests fuel p.parent?)
      (List.range' 1 (k - 1)).reverse := by
  induction fuel generalizing p k with
  | zero =>
    rw [ancestors_parent_eq_nil hsegs hk hfuel h, Nat.sub_eq_zero_of_le hfuel]
    exact .nil
  | succ fuel ih =>
    by_cases hsmall : k ≤ 1
    · rw [ancestors_parent_eq_nil hsegs hk hsmall h, Nat.sub_eq_zero_of_le hsmall]
      exact .nil
    · obtain ⟨k, rfl⟩ : ∃ j, k = j + 1 + 1 := ⟨k - 2, by omega⟩
      obtain ⟨-, q, hq, hdeep⟩ := h.parent hsegs hk
      have hrange : (List.range' 1 (k + 1 + 1 - 1)).reverse =
          (k + 1) :: (List.range' 1 (k + 1 - 1)).reverse := by
        rw [Nat.add_sub_cancel, Nat.add_sub_cancel, List.range'_1_concat, List.reverse_append,
          Nat.add_comm]
        rfl
      rw [hq, ancestors_of_isDeep hsegs (by omega) hdeep, hrange]
      exact .cons hdeep (ih (by omega) (by omega) hdeep)

/-- What goes up from a directory holds of its ancestors, which are all less deep. -/
lemma ancestors_upwards {P : Path → Prop} (hsegs : ∀ n ∈ segs, Path.IsName n)
    (hk : k ≤ segs.length) (h : IsDeep tests segs k p) (hp : P p)
    (hup : ∀ p q, P p → p.parent? = some q → p.steps ≠ [] → q.steps ≠ [] → P q)
    (hdir : dir ∈ ancestors tests fuel p.parent?) :
    P dir ∧ ∃ j, 1 ≤ j ∧ j < k ∧ IsDeep tests segs j dir := by
  induction fuel generalizing p k with
  | zero => cases hdir
  | succ fuel ih =>
    by_cases hsmall : k ≤ 1
    · rw [ancestors_parent_eq_nil hsegs hk hsmall h] at hdir
      cases hdir
    · obtain ⟨k, rfl⟩ : ∃ j, k = j + 1 + 1 := ⟨k - 2, by omega⟩
      obtain ⟨hsteps, q, hq, hdeep⟩ := h.parent hsegs hk
      have hqsteps := (hdeep.parent hsegs (by omega)).1
      have hPq := hup p q hp hq hsteps hqsteps
      rw [hq, ancestors_of_isDeep hsegs (by omega) hdeep] at hdir
      rcases List.mem_cons.mp hdir with rfl | hdir
      · exact ⟨hPq, k + 1, Nat.le_add_left 1 k, Nat.lt_succ_self _, hdeep⟩
      · obtain ⟨hPdir, j, hj, hlt, hjdeep⟩ := ih (by omega) hdeep hPq hdir
        exact ⟨hPdir, j, hj, Nat.lt_succ_of_lt hlt, hjdeep⟩

/-- If a directory is found, its ancestors are. -/
lemma find_ancestors (hsegs : ∀ n ∈ segs, Path.IsName n) (hk : k ≤ segs.length)
    (h : IsDeep tests segs k p) (hfind : s.find true p = .ok (l, .dir))
    (hdir : dir ∈ ancestors tests fuel p.parent?) : ∃ m, s.find true dir = .ok (m, .dir) := by
  refine (ancestors_upwards (P := fun q => ∃ m, s.find true q = .ok (m, .dir)) hsegs hk h
    ⟨l, hfind⟩ ?_ hdir).1
  rintro p q ⟨m, hm⟩ hq hp hqsteps
  refine find_parent hm hq hp fun hnil => hqsteps ?_
  rw [Path.steps, hnil]
  rfl

/-! ### The calls -/

/-- The calls for the files directly in the ancestors of a test, the nearest first. -/
def ancestorPasses (layout : Layout) (r : Request) : List Bridge.Call :=
  (ancestors (r.testsRoot layout) (r.testDir.bytes.length + 1) r.testDir.parent?).map
    (⟨layout, ·, false⟩)

/-- The calls for the tree of a test: one for its directory with all that is beneath it, and those
for its ancestors. -/
def passes (layout : Layout) (r : Request) : List Bridge.Call :=
  ⟨layout, r.testDir, true⟩ :: ancestorPasses layout r

/-- Makes some calls one after the other. -/
def runCalls (dest : Path) : List Bridge.Call → Act Unit
  | [] => return ()
  | c :: rest => do
    let _ ← c.run dest
    runCalls dest rest

/-- Makes the tree for the tests among the library sources and registers it, if there are any. -/
def addSrcTests (layout : Layout) (r : Request) (scratch : Path) (roots : SourceRoots) :
    Act SourceRoots := do
  let srcTests := (r.srcRoot layout).joinText layout.testsDir
  if ← Act.look fun s => .ok (s.isDir srcTests) then
    let dest := scratch.joinText "src-tests".toList
    bridgeTree layout srcTests dest
    return roots.add dest
  else return roots

lemma runCalls_eq_bridgeEach (layout : Layout) (dest : Path) (dirs : List Path) :
    runCalls dest (dirs.map (⟨layout, ·, false⟩)) = bridgeEach layout dest dirs := by
  induction dirs with
  | nil => rfl
  | cons dir dirs ih =>
    rw [List.map_cons, runCalls, bridgeEach, ih]
    rfl

/-- The trees are made by these calls. -/
lemma addBridgeRoots_eq (layout : Layout) (r : Request) (scratch : Path) (roots : SourceRoots) :
    addBridgeRoots layout r scratch roots = (do
      Act.edit (.makeDir (scratch.joinText "tests".toList))
        (makeDirs (scratch.joinText "tests".toList))
      runCalls (scratch.joinText "tests".toList) (passes layout r)
      addSrcTests layout r scratch (roots.add (scratch.joinText "tests".toList))) := by
  unfold addBridgeRoots addSrcTests bridgeTree passes ancestorPasses runCalls
  rw [runCalls_eq_bridgeEach]
  simp only [bind_assoc, pure_bind]
  rfl

/-- What the calls of a list make bridges for, in order. -/
def sourcesOf (s : Store) : List Bridge.Call → Except Failure (List Path)
  | [] => .ok []
  | c :: rest => do
    let files ← c.sources s
    let more ← sourcesOf s rest
    return files ++ more

/-! ### What the calls did -/

lemma runCalls_served {calls : List Bridge.Call} {dest : Path}
    (h : Bridge.BridgeTree w.store dest d) (hsc : Package.scanner = .ok sc)
    (hsteady : ∀ c ∈ calls, ∀ t, Adds (Bridge.InTree d) w.store t → c.listed t = c.listed s)
    (hrun : runCalls dest calls w = (.ok (), v)) :
    ∃ files, sourcesOf s calls = .ok files ∧ Bridge.Served d sc files w.store v.store := by
  induction calls generalizing w with
  | nil =>
    cases hrun
    exact ⟨[], rfl, .nil h.wellFormed⟩
  | cons c calls ih =>
    obtain ⟨counts, u, hfirst, hrest⟩ := Act.bind_eq_ok.mp hrun
    obtain ⟨sc', first, hsc', hsources, houtcome⟩ := c.run_outcome h hfirst
    obtain rfl : sc = sc' := Except.ok.inj (hsc.symm.trans hsc')
    have hadds := h.adds_of_bridged houtcome.bridged
    obtain ⟨more, hmore, hserved⟩ := ih (h.of_adds hadds)
      (fun c' hc' t ht => hsteady c' (List.mem_cons_of_mem _ hc') t (hadds.trans ht)) hrest
    refine ⟨first ++ more, ?_, houtcome.toServed.append hserved⟩
    have hsame : c.sources s = c.sources w.store := by
      rw [Bridge.Call.sources, Bridge.Call.sources,
        hsteady c List.mem_cons_self _ (.refl h.wellFormed)]
    rw [sourcesOf, hsame, hsources, hmore]
    rfl

/-- A directory that was just made is the one thing that is new, so nothing is in it. -/
lemma fresh_of_makeDir (hs : s.WellFormed) (h : s.makeDir p = .ok t) :
    ∃ root, t.find true p = .ok (root, .dir) ∧ s.get? root = none ∧
      (∀ n, t.get? (root ++ [n]) = none) ∧ Adds (fun m node => m = root ∧ node = .dir) s t := by
  obtain ⟨d, n, rfl, hfree, hfound⟩ := Store.of_makeDir hs h
  have hnew : Adds (fun m node => m = d ++ [n] ∧ node = .dir) s (s.put (d ++ [n]) .dir) := by
    refine ⟨(changes_of_makeDir hs h).wellFormed hs, fun m node hm => ?_, fun m node hm => ?_, rfl, rfl⟩
    · rw [get?_put_of_ne (by simp), hm]
      rintro rfl
      rw [hfree] at hm
      cases hm
    · rw [get?_put (by simp)] at hm
      split at hm
      · rename_i he
        cases hm
        exact Or.inr ⟨he, rfl⟩
      · exact Or.inl hm
  refine ⟨d ++ [n], find_true_of_dir hfound, hfree, fun m => ?_, hnew⟩
  rw [get?_put_of_ne (by simp) (by simp)]
  exact hs.get?_eq_none_of_prefix hfree (List.prefix_append ..)

/-- A name that is free in a directory can be looked up there. -/
lemma spells_free (ht : t.WellFormed) (hfound : t.find true p = .ok (root, .dir))
    (htop : Path.IsName top ∧ (0 : UInt8) ∉ top) (hfree : t.get? (root ++ [top]) = none) :
    Spells t p root [top] := by
  refine ⟨ht, hfound, by simpa using htop, fun front hfront node hnode => ?_⟩
  rcases List.prefix_cons_iff.mp hfront with rfl | ⟨rest, rfl, hrest⟩
  · rw [List.append_nil, get?_of_find ht hfound] at hnode
    exact (Option.some.inj hnode).symm
  · rw [List.prefix_nil.mp hrest, hfree] at hnode
    cases hnode

/-- Behind a directory there is nothing else on the way to a name in it. -/
lemma adds_of_onWay_single (ht : t.WellFormed) (hfound : t.find true p = .ok (root, .dir))
    (hway : Adds (OnWay root [top]) t u) : Adds (fun m node => m = root ++ [top] ∧ node = .dir) t u := by
  refine ⟨hway.wellFormed, hway.kept, fun m node hnode => ?_, hway.cwd, hway.clock⟩
  rcases hway.added m node hnode with hold | ⟨rfl, front, hfront, rfl⟩
  · exact Or.inl hold
  · rcases List.prefix_cons_iff.mp hfront with rfl | ⟨rest, rfl, hrest⟩
    · rw [List.append_nil]
      exact Or.inl (get?_of_find ht hfound)
    · rw [List.prefix_nil.mp hrest]
      exact Or.inr ⟨rfl, rfl⟩

/-- What was found as a directory behind names is at the location they spell. -/
lemma find_chain_of_isDir (hspells : Spells u p root [top])
    (hdir : u.isDir (chain p [top]) = true) :
    u.find true (chain p [top]) = .ok (root ++ [top], .dir) := by
  obtain ⟨l, hl⟩ := exists_of_isDir hdir
  have hlocated := hspells.located (List.cons_ne_nil top [])
  have htrue := hspells.locate_true (List.cons_ne_nil top [])
  rw [find, htrue] at hl
  generalize u.locate false (chain p [top]) = place at hlocated htrue hl
  cases hlocated with
  | found _ => exact find_of_locate htrue
  | vacant => cases hl
  | missing => cases hl
  | long => cases hl

/-- A tree that was just made in a directory is empty, and nothing else has come there. -/
lemma isEmptyDir_of_makeDirs (ht : t.WellFormed) (hfound : t.find true p = .ok (root, .dir))
    (htop : Path.IsName top ∧ (0 : UInt8) ∉ top) (hfree : t.get? (root ++ [top]) = none)
    (hmake : makeDirs (chain p [top]) t = (.ok (), u)) :
    Bridge.IsEmptyDir u (chain p [top]) (root ++ [top]) ∧
      Adds (fun m node => m = root ++ [top] ∧ node = .dir) t u := by
  have hspells := spells_free ht hfound htop hfree
  have hway := (hspells.makeDirs (List.cons_ne_nil top [])).1
  rw [hmake] at hway
  have hne := (start_chain (s := t) (isLocatable_of_find hfound).ne_nil hspells.isName).1
  have hadds := adds_of_onWay_single ht hfound hway
  refine ⟨⟨hway.wellFormed,
    find_chain_of_isDir (hspells.of_adds hway) (isDir_of_makeDirs ht hne hmake), ?_⟩, hadds⟩
  refine List.eq_nil_iff_forall_not_mem.mpr fun n hn => ?_
  obtain ⟨node, hnode⟩ := (Store.mem_names hway.wellFormed).mp hn
  rcases hadds.added _ _ hnode with hold | ⟨he, -⟩
  · rw [ht.get?_eq_none_of_prefix hfree (List.prefix_append ..)] at hold
    cases hold
  · simp at he

/-- The calls for the tree of a test serve what they would have made bridges for at the start, when
nothing but directories has come since: the walk beneath the directory of the test comes first, and
those in its ancestors do not go as far as the tree. -/
lemma passes_served {dest : Path} (hs : s.WellFormed) (hsegs : ∀ n ∈ segs, Path.IsName n)
    (htest : IsDeep (r.testsRoot layout) segs segs.length r.testDir)
    (hfind : s.find true r.testDir = .ok (l, .dir)) (hnone : s.get? d = none)
    (hdirs : Adds (fun _ node => node = .dir) s w.store) (htree : Bridge.BridgeTree w.store dest d)
    (hrun : runCalls dest (passes layout r) w = (.ok (), v)) :
    ∃ sc files, Package.scanner = .ok sc ∧ sourcesOf s (passes layout r) = .ok files ∧
      Bridge.Served d sc files w.store v.store := by
  obtain ⟨counts, u, hfirst, hrest⟩ := Act.bind_eq_ok.mp hrun
  obtain ⟨sc, own, hsc, hown, houtcome⟩ := Bridge.Call.run_outcome htree hfirst
  have hadds := htree.adds_of_bridged houtcome.bridged
  have hsame : Bridge.Call.sources s ⟨layout, r.testDir, true⟩ = .ok own := by
    rw [← hown, Bridge.Call.sources, Bridge.Call.sources,
      Bridge.Call.listed_eq hs hdirs (Or.inr ⟨_, hfind⟩) fun _ _ _ _ _ _ hnew => hnew]
  have hsteady : ∀ c ∈ ancestorPasses layout r, ∀ t, Adds (Bridge.InTree d) u.store t →
      c.listed t = c.listed s := by
    intro c hc t ht
    obtain ⟨dir, hdir, rfl⟩ := List.mem_map.mp hc
    obtain ⟨m, hm⟩ := find_ancestors hsegs le_rfl htest hfind hdir
    have hall : Adds (fun m node => node = .dir ∨ Bridge.InTree d m node) s t :=
      (hdirs.mono fun _ _ => Or.inl).trans ((hadds.trans ht).mono fun _ _ => Or.inr)
    refine Bridge.Call.listed_eq hs hall (Or.inr ⟨_, hm⟩) ?_
    rintro l' names node hl - hflat (hnode | ⟨names', hne, he, -⟩)
    · exact hnode
    · -- What is directly in a directory that was there is not in a tree that was not.
      obtain ⟨n, rfl⟩ := List.length_eq_one_iff.mp (hflat rfl)
      obtain ⟨front, n', rfl⟩ := (List.eq_nil_or_concat' names').resolve_left hne
      rw [← List.append_assoc] at he
      obtain ⟨rfl, -⟩ := List.append_inj' he rfl
      have hthere := get?_of_find hs hl
      rw [hs.get?_eq_none_of_prefix hnone (List.prefix_append d front)] at hthere
      cases hthere
  obtain ⟨more, hmore, hserved⟩ := runCalls_served (htree.of_adds hadds) hsc hsteady hrest
  refine ⟨sc, own ++ more, hsc, ?_, houtcome.toServed.append hserved⟩
  rw [passes, sourcesOf, hsame, hmore]
  rfl

/-- What is made for the tests among the library sources stands in a tree of its own. -/
lemma addSrcTests_adds (hw : w.store.WellFormed)
    (hfound : w.store.find true scratch = .ok (root, .dir))
    (hfree : w.store.get? (root ++ [Scratch.srcTestsName]) = none)
    (hrun : addSrcTests layout r scratch roots w = (.ok roots', v)) :
    Adds (fun m _ => root ++ [Scratch.srcTestsName] <+: m) w.store v.store := by
  unfold addSrcTests at hrun
  obtain ⟨isDir, -, hrun⟩ := Act.look_bind_eq_ok.mp hrun
  split at hrun
  · unfold bridgeTree at hrun
    obtain ⟨_, x, htree, hpure⟩ := Act.bind_eq_ok.mp hrun
    cases hpure
    obtain ⟨_, u, hmake, hrest⟩ := Act.bind_eq_ok.mp htree
    obtain ⟨made, hmake', rfl⟩ := Act.edit_eq_ok.mp hmake
    obtain ⟨counts, y, hcall, hpure⟩ := Act.bind_eq_ok.mp hrest
    cases hpure
    rw [joinText_srcTests] at hmake' hcall
    obtain ⟨hempty, hadds⟩ := isEmptyDir_of_makeDirs hw hfound
      ⟨Scratch.isName_srcTestsName, by decide⟩ hfree hmake'
    have hcall' : Bridge.Call.run (chain scratch [Scratch.srcTestsName])
        ⟨layout, (r.srcRoot layout).joinText layout.testsDir, true⟩ { w with store := made } =
        (.ok counts, v) := hcall
    obtain ⟨_, _, -, -, houtcome⟩ := Bridge.Call.run_outcome hempty.bridgeTree hcall'
    refine (hadds.mono ?_).trans ((hempty.bridgeTree.adds_of_bridged houtcome.bridged).mono ?_)
    · rintro m node ⟨rfl, -⟩
      exact List.prefix_rfl
    · rintro m node ⟨names, -, rfl, -⟩
      exact List.prefix_append _ _
  · cases hrun
    exact .refl hw

/-! ### Where the targets of bridges are -/

lemma of_mem_sourcesOf {calls : List Bridge.Call} (h : sourcesOf s calls = .ok files)
    (hfile : file ∈ files) : ∃ c ∈ calls, ∃ own, c.sources s = .ok own ∧ file ∈ own := by
  induction calls generalizing files with
  | nil =>
    cases h
    cases hfile
  | cons c calls ih =>
    rw [sourcesOf] at h
    cases hown : c.sources s with
    | error failure => rw [hown] at h; cases h
    | ok own =>
      cases hmore : sourcesOf s calls with
      | error failure => rw [hown, hmore] at h; cases h
      | ok more =>
        rw [hown, hmore] at h
        obtain rfl : own ++ more = files := Except.ok.inj h
        rcases List.mem_append.mp hfile with hfile | hfile
        · exact ⟨c, List.mem_cons_self, own, hown, hfile⟩
        · obtain ⟨c', hc', hown'⟩ := ih hmore hfile
          exact ⟨c', List.mem_cons_of_mem _ hc', hown'⟩

/-- What lies behind names in a directory that is some names deep. -/
lemma IsDeep.same_chain {name : Bytes} (hsegs : ∀ n ∈ segs, Path.IsName n)
    (h : IsDeep tests segs k dir) (hnames : ∀ n ∈ names ++ [name], Path.IsName n) :
    (∀ n ∈ segs.take k ++ names ++ [name], Path.IsName n) ∧
      (chain dir (names ++ [name])).same (chain tests (segs.take k ++ names ++ [name])) = true := by
  have hall : ∀ n ∈ segs.take k ++ names ++ [name], Path.IsName n := by
    intro n hn
    rw [List.append_assoc] at hn
    exact (List.mem_append.mp hn).elim (fun hn => hsegs n (List.mem_of_mem_take hn)) (hnames n)
  refine ⟨hall, ?_⟩
  rw [Path.same_eq_true, components_chain _ hnames, components_chain _ hall, (isDeep_iff hsegs).mp h]
  simp

/-- The files of the calls lie beneath the directory of the test or directly in an ancestor. -/
lemma dir_of_mem_sourcesOf (hs : s.WellFormed) (hsegs : ∀ n ∈ segs, Path.IsName n)
    (htest : IsDeep (r.testsRoot layout) segs segs.length r.testDir)
    (h : sourcesOf s (passes layout r) = .ok files) (hfile : file ∈ files) :
    ∃ dirs name, (∀ n ∈ dirs ++ [name], Path.IsName n) ∧
      file.same (chain (r.testsRoot layout) (dirs ++ [name])) = true ∧
      (segs <+: dirs ∨ (dirs <+: segs ∧ dirs ≠ [])) := by
  obtain ⟨c, hc, own, hown, hfile⟩ := of_mem_sourcesOf h hfile
  obtain ⟨names, hne, hnames, rfl, hflat⟩ := c.of_mem_sources hs hown hfile
  obtain ⟨front, name, rfl⟩ := (List.eq_nil_or_concat' names).resolve_left hne
  rcases List.mem_cons.mp hc with rfl | hc
  · obtain ⟨hall, hsame⟩ := htest.same_chain hsegs hnames
    refine ⟨_, name, hall, hsame, Or.inl ?_⟩
    rw [List.take_length]
    exact List.prefix_append _ _
  · obtain ⟨dir, hdir, rfl⟩ := List.mem_map.mp hc
    obtain ⟨-, k, hk, hlt, hdeep⟩ := ancestors_upwards (P := fun _ => True) hsegs le_rfl htest
      trivial (fun _ _ _ _ _ _ => trivial) hdir
    obtain rfl : front = [] := by simpa using hflat rfl
    obtain ⟨hall, hsame⟩ := hdeep.same_chain hsegs hnames
    refine ⟨_, name, hall, hsame, Or.inr ⟨?_, ?_⟩⟩
    · rw [List.append_nil]
      exact List.take_prefix _ _
    · rw [List.append_nil, ← List.length_pos_iff, List.length_take]
      omega

/-- How the registration of the trees goes when it succeeds: the tree of the test is made empty, with
nothing but directories before, then the calls for it serve their files, and what comes after that
stands elsewhere. -/
lemma addBridgeRoots_served (hs : s.WellFormed) (hsegs : ∀ n ∈ segs, Path.IsName n)
    (htest : IsDeep (r.testsRoot layout) segs segs.length r.testDir)
    (hdir : s.isDir r.testDir = true) (hmake : s.makeDir scratch = .ok w.store)
    (hrun : addBridgeRoots layout r scratch roots w = (.ok roots', v)) :
    ∃ d t u sc files, Adds (fun _ node => node = .dir) s t ∧
      Bridge.IsEmptyDir t (scratch.joinText "tests".toList) d ∧ Package.scanner = .ok sc ∧
      sourcesOf s (passes layout r) = .ok files ∧ Bridge.Served d sc files t u ∧
      Adds (fun m _ => ¬ d <+: m) u v.store := by
  obtain ⟨root, hroot, hnone, hfree, hscratch⟩ := fresh_of_makeDir hs hmake
  have hw := hscratch.wellFormed
  rw [addBridgeRoots_eq] at hrun
  obtain ⟨_, u, hedit, hrun⟩ := Act.bind_eq_ok.mp hrun
  obtain ⟨made, hdest, rfl⟩ := Act.edit_eq_ok.mp hedit
  obtain ⟨_, x, hcalls, hrest⟩ := Act.bind_eq_ok.mp hrun
  obtain ⟨hempty, hmade⟩ := isEmptyDir_of_makeDirs hw hroot
    ⟨Scratch.isName_testsName, by decide⟩ (hfree _) hdest
  have hdirs : Adds (fun _ node => node = .dir) s made :=
    (hscratch.mono fun _ _ h => h.2).trans (hmade.mono fun _ _ h => h.2)
  have hnone' : s.get? (root ++ [Scratch.testsName]) = none :=
    hs.get?_eq_none_of_prefix hnone (List.prefix_append ..)
  obtain ⟨l, hfind⟩ := exists_of_isDir hdir
  obtain ⟨sc, files, hsc, hsources, hserved⟩ := passes_served hs hsegs htest hfind hnone' hdirs
    hempty.bridgeTree hcalls
  have hadds := hempty.bridgeTree.adds_of_bridged hserved.bridged
  have hroot' : x.store.find true scratch = .ok (root, .dir) :=
    hadds.find hempty.wellFormed (hmade.find hw hroot)
  have hother : Scratch.testsName ≠ Scratch.srcTestsName := by decide
  have hfree' : x.store.get? (root ++ [Scratch.srcTestsName]) = none := by
    rw [hadds.get?_eq, hmade.get?_eq, hfree]
    · rintro node ⟨he, -⟩
      exact hother (List.cons.inj (List.append_cancel_left he)).1.symm
    · rintro node ⟨names, -, he, -⟩
      rw [List.append_assoc] at he
      exact hother (List.cons.inj (List.append_cancel_left he)).1.symm
  have hlast := addSrcTests_adds hadds.wellFormed hroot' hfree' hrest
  refine ⟨_, made, x.store, sc, files, hdirs, hempty, hsc, hsources, hserved, hlast.mono ?_⟩
  rintro m node hsrcTests htests
  obtain ⟨names, rfl⟩ := hsrcTests
  rw [List.append_assoc, List.prefix_append_right_inj] at htests
  exact hother (List.cons_prefix_cons.mp htests).1

/-- The calls for the tree of a test are one for its directory, with everything beneath it, and one
for the files directly in each directory above it, upwards, but for the directory of tests and those
above that. So each place in the tree goes to the first file that claims it, in this order; and with
names behind the directory of tests, a file directly in it or beside the way has no bridge. -/
theorem addBridgeRoots_nearest_first (hsegs : ∀ n ∈ segs, Path.IsName n)
    (htest : r.testDir.same (chain (r.testsRoot layout) segs) = true) :
    (∀ fuel, r.testDir.bytes.length < fuel →
      List.Forall₂ (fun dir k => dir.same (chain (r.testsRoot layout) (segs.take k)) = true)
        (ancestors (r.testsRoot layout) fuel r.testDir.parent?)
        (List.range' 1 (segs.length - 1)).reverse) ∧
    (addBridgeRoots layout r scratch roots = do
      Act.edit (.makeDir (scratch.joinText "tests".toList))
        (makeDirs (scratch.joinText "tests".toList))
      runCalls (scratch.joinText "tests".toList) (passes layout r)
      addSrcTests layout r scratch (roots.add (scratch.joinText "tests".toList))) ∧
    ∀ (s : Store) (w v : World) (roots' : SourceRoots), s.WellFormed → s.isDir r.testDir = true →
      s.makeDir scratch = .ok w.store →
      addBridgeRoots layout r scratch roots w = (.ok roots', v) →
      ∃ d sc files, v.store.find true (scratch.joinText "tests".toList) = .ok (d, .dir) ∧
        Package.scanner = .ok sc ∧ sourcesOf s (passes layout r) = .ok files ∧
        Bridge.AllRead v.store sc files ∧
        (∀ file ∈ files, ∀ found, Package.ofFile s sc file = .ok found →
          Package.ofFile v.store sc file = .ok found) ∧
        (∀ names file, v.store.get? (d ++ names) = some (.link file) ↔
          (Bridge.claims v.store sc files).lookup names = some file) ∧
        ∀ names file, v.store.get? (d ++ names) = some (.link file) →
          ∃ dirs name, (∀ n ∈ dirs ++ [name], Path.IsName n) ∧
            file.same (chain (r.testsRoot layout) (dirs ++ [name])) = true ∧
            (segs <+: dirs ∨ (dirs <+: segs ∧ dirs ≠ [])) := by
  have hdeep : IsDeep (r.testsRoot layout) segs segs.length r.testDir := by
    rwa [IsDeep, List.take_length]
  refine ⟨fun fuel hfuel => ?_, addBridgeRoots_eq layout r scratch roots, ?_⟩
  · have hlength := congrArg List.length (Path.same_iff.mp htest).2
    rw [steps_chain _ hsegs, List.length_append, List.length_map] at hlength
    have hbound := Path.length_steps_le r.testDir
    exact isDeep_ancestors hsegs le_rfl (by omega) hdeep
  · intro s w v roots' hs hdir hmake hrun
    obtain ⟨d, t, u, sc, files, hdirs, hempty, hsc, hsources, hserved, hlast⟩ :=
      addBridgeRoots_served hs hsegs hdeep hdir hmake hrun
    have hadds := hserved.bridged.adds
    have hbridge : ∀ names file, v.store.get? (d ++ names) = some (.link file) ↔
        (Bridge.claims v.store sc files).lookup names = some file := by
      intro names file
      rw [hserved.allRead.claims_eq hadds.wellFormed hlast,
        hlast.get?_eq fun _ hout => hout (List.prefix_append d names)]
      exact hserved.bridged.get?_eq_link_iff hempty
    refine ⟨d, sc, files, ?_, hsc, hsources, hserved.allRead.of_adds hadds.wellFormed hlast,
      fun file _ found hfound => ?_, hbridge, fun names file hlink => ?_⟩
    · exact hlast.find hadds.wellFormed (hadds.find hempty.wellFormed hempty.found)
    · exact Bridge.ofFile_of_adds hadds.wellFormed hlast
        (Bridge.ofFile_of_adds hempty.wellFormed hadds (Bridge.ofFile_of_adds hs hdirs hfound))
    · have hmem := mem_of_lookup ((hbridge names file).mp hlink)
      obtain ⟨file', hfile', hclaim⟩ := List.mem_filterMap.mp hmem
      obtain ⟨rfl, -⟩ := Bridge.claim?_eq_some.mp hclaim
      exact dir_of_mem_sourcesOf hs hsegs hdeep hsources hfile'

/-- A test two names deep with files of one package: in its own directory, in the one above, beside
the way, and directly in the directory of tests. -/
def nestedStore : Store where
  entries :=
    [(locationOf ["c"], .dir), (locationOf ["c", "tests"], .dir),
      (locationOf ["c", "tests", "D.java"], packaged), (locationOf ["c", "tests", "a"], .dir),
      (locationOf ["c", "tests", "a", "A.java"], packaged),
      (locationOf ["c", "tests", "a", "B.java"], packaged),
      (locationOf ["c", "tests", "a", "b"], .dir),
      (locationOf ["c", "tests", "a", "b", "A.java"], packaged),
      (locationOf ["c", "tests", "a", "side"], .dir),
      (locationOf ["c", "tests", "a", "side", "C.java"], packaged), (locationOf ["tmp"], .dir)]
  cwd := []
  clock := ⟨1, 0⟩
where
  packaged : Node := .file (Utf8.encode "package p;".toList) plainMode ⟨0, 0⟩

/-- The request for the test in `nestedStore`. -/
def nestedRequest : Request where
  corpus := .ofText "/c".toList
  output := .ofText "/out".toList
  testDir := .ofText "/c/tests/a/b".toList
  testArg := "a/b".toList
  missingDescriptor := none

/-- `nestedStore` with a scratch directory. -/
def nestedScratch : Store := nestedStore.put (locationOf ["tmp", "x"]) .dir

/-- The registration of the trees for the test in `nestedStore`. -/
def nestedRun : Except Failure SourceRoots × World :=
  addBridgeRoots .default nestedRequest (.ofText "/tmp/x".toList) .empty (.ofStore nestedScratch)

/-- What stands in the tree of this test at `p`. -/
def nestedPlace (name : String) : Option Node :=
  nestedRun.2.store.get? (locationOf ["tmp", "x", "tests", "p", name])

/-- The file beside the test wins over the one above it, which has no bridge, and neither have those
that are beside the way or directly in the directory of tests. -/
theorem addBridgeRoots_nestedStore :
    nestedStore.WellFormed ∧ nestedStore.isDir nestedRequest.testDir = true ∧
      nestedStore.makeDir (.ofText "/tmp/x".toList) = .ok nestedScratch ∧
      (∃ sc files, sourcesOf nestedStore (passes .default nestedRequest) = .ok files ∧
        (Bridge.claims nestedRun.2.store sc files).lookup (locationOf ["p", "A.java"]) =
          some (.ofText "/c/tests/a/b/A.java".toList) ∧
        (Bridge.claims nestedRun.2.store sc files).lookup (locationOf ["p", "B.java"]) =
          some (.ofText "/c/tests/a/B.java".toList)) ∧
      nestedPlace "C.java" = none ∧ nestedPlace "D.java" = none := by
  have hsegs : ∀ n ∈ locationOf ["a", "b"], Path.IsName n := by
    intro n hn
    rcases List.mem_pair.mp hn with rfl | rfl <;> exact ⟨by decide, by decide⟩
  have htest : nestedRequest.testDir.same
      (chain (nestedRequest.testsRoot .default) (locationOf ["a", "b"])) = true := by decide +kernel
  have hs : nestedStore.WellFormed := by decide +kernel
  have hdir : nestedStore.isDir nestedRequest.testDir = true := by decide +kernel
  have hmake : nestedStore.makeDir (.ofText "/tmp/x".toList) = .ok nestedScratch := by
    decide +kernel
  have hok : nestedRun.1.toOption.isSome = true := by decide +kernel
  have hfind : nestedRun.2.store.find true ((Path.ofText "/tmp/x".toList).joinText "tests".toList) =
      .ok (locationOf ["tmp", "x", "tests"], .dir) := by decide +kernel
  obtain ⟨roots', hrun⟩ : ∃ roots', nestedRun.1 = .ok roots' := by
    cases hrun : nestedRun.1 with
    | ok roots' => exact ⟨roots', rfl⟩
    | error => rw [hrun] at hok; cases hok
  obtain ⟨-, -, hruns⟩ := @addBridgeRoots_nearest_first .default nestedRequest
    (.ofText "/tmp/x".toList) (locationOf ["a", "b"]) .empty hsegs htest
  obtain ⟨d, sc, files, hfind', -, hsources, -, -, hbridge, -⟩ :=
    hruns nestedStore (.ofStore nestedScratch) nestedRun.2 roots' hs hdir hmake
      (Act.run_eq_of_fst hrun)
  rw [hfind'] at hfind
  cases hfind
  refine ⟨hs, hdir, hmake, ⟨sc, files, hsources, (hbridge _ _).mp ?_, (hbridge _ _).mp ?_⟩, ?_, ?_⟩ <;>
    decide +kernel

end Closure

end Excerpt
