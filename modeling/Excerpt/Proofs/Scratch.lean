import Excerpt.Proofs.Enclosure
import Excerpt.Proofs.Package

/-!
# The scratch directory

While a closure is computed, the store is the one before with a scratch directory added. In it
there are trees of directories whose names have no dots, bridges whose names have one, and at most
the file of a stub. A bridge is never on the way to a directory, so nothing that is made in the
scratch directory ends up outside of it, and taking it away gives the store back as it was.
-/

namespace Excerpt

open Store

variable {α : Type}

namespace Scratch

/-! ### What is in it -/

/-- The name of the tree for the test. -/
def testsName : Bytes := Utf8.encode "tests".toList

/-- The name of the tree for the tests among the library sources. -/
def srcTestsName : Bytes := Utf8.encode "src-tests".toList

/-- The names on the way to a directory of a tree. -/
def IsTreeDir (names : Location) : Prop :=
  ∃ top rest, names = top :: rest ∧ (top = testsName ∨ top = srcTestsName) ∧
    ∀ n ∈ rest, Package.IsPlainName n

/-- What can stand in a scratch directory, by the names on the way to it. -/
inductive Holds (good : Path → Prop) : Location → Node → Prop where
  | dir {names : Location} : IsTreeDir names → Holds good names .dir
  | bridge {dirs : Location} {n : Bytes} {target : Path} : IsTreeDir dirs → Path.dot ∈ n →
      good target → Holds good (dirs ++ [n]) (.link target)
  | stub {node : Node} : node.isFile = true → Holds good [stubName] node

end Scratch

/-- The store `t` is `s` with a scratch directory that the path `dir` leads to. The targets of
bridges are `good`. -/
structure Scratch (s : Store) (dir : Path) (root : Location) (good : Path → Prop) (t : Store) :
    Prop where
  base : s.WellFormed
  wellFormed : t.WellFormed
  free : s.get? root = none
  made : (s.put root .dir).find false dir = .ok (root, .dir)
  isDir : t.get? root = some .dir
  entries : ∃ extra, t.entries = s.entries ++ extra ∧ ∀ e ∈ extra, root <+: e.1
  cwd : t.cwd = s.cwd
  clock : t.clock = s.clock
  holds : ∀ names node, names ≠ [] → t.get? (root ++ names) = some node →
    Scratch.Holds good names node

namespace Scratch

variable {s t u : Store} {dir p q target : Path} {root m names dirs front : Location} {n : Bytes}
  {node : Node} {good : Path → Prop} {may : Store → Path → Prop} {b : List Component}

/-! ### Names -/

lemma isName_testsName : Path.IsName testsName := ⟨by decide, by decide⟩

lemma isName_srcTestsName : Path.IsName srcTestsName := ⟨by decide, by decide⟩

lemma IsTreeDir.ne_nil (h : IsTreeDir names) : names ≠ [] := by
  obtain ⟨top, rest, rfl, -⟩ := h
  simp

lemma IsTreeDir.of_prefix (h : IsTreeDir names) (hp : front <+: names) (hne : front ≠ []) :
    IsTreeDir front := by
  obtain ⟨top, rest, rfl, htop, hrest⟩ := h
  obtain ⟨x, more, rfl⟩ := List.exists_cons_of_ne_nil hne
  obtain ⟨rfl, hmore⟩ := List.cons_prefix_cons.mp hp
  exact ⟨x, more, rfl, htop, fun n hn => hrest n (hmore.subset hn)⟩

/-- Behind a directory of a tree no name with a dot leads to another one. -/
lemma IsTreeDir.dot_notMem (h : IsTreeDir (dirs ++ [n])) (hdirs : dirs ≠ []) : Path.dot ∉ n := by
  obtain ⟨top, rest, he, -, hrest⟩ := h
  obtain ⟨x, more, rfl⟩ := List.exists_cons_of_ne_nil hdirs
  rw [List.cons_append, List.cons.injEq] at he
  exact (hrest n (by rw [← he.2]; simp)).2

lemma not_isTreeDir_stub : ¬ IsTreeDir [stubName] := by
  rintro ⟨top, rest, he, htop, -⟩
  obtain ⟨rfl, -⟩ := List.cons_eq_cons.mp he
  revert htop
  decide

lemma Holds.mono {good' : Path → Prop} (h : Holds good names node)
    (hgood : ∀ target, good target → good' target) : Holds good' names node := by
  cases h with
  | dir hdirs => exact .dir hdirs
  | bridge hdirs hdot htarget => exact .bridge hdirs hdot (hgood _ htarget)
  | stub hfile => exact .stub hfile

/-! ### Outside -/

/-- A link in a scratch directory is a bridge, so it does not stand in the place of the stub. -/
lemma not_link_stub (h : Scratch s dir root good t) (target : Path) :
    t.get? (root ++ [stubName]) ≠ some (.link target) := by
  intro hn
  generalize hnames : [stubName] = names at hn
  cases h.holds names _ (by simp [← hnames]) hn with
  | @bridge dirs n _ hdirs =>
    have hnil : dirs = [] := by
      cases dirs with
      | nil => rfl
      | cons x dirs => simp at hnames
    exact hdirs.ne_nil hnil
  | stub hfile => cases hfile

lemma encloses (h : Scratch s dir root good t) : Encloses s dir root t := by
  obtain ⟨extra, hentries, hextra⟩ := h.entries
  exact ⟨h.base, h.free, h.made, h.wellFormed, h.isDir,
    h.base.eraseTree_append h.free hentries h.cwd h.clock hextra, h.not_link_stub⟩

lemma mono {good' : Path → Prop} (h : Scratch s dir root good t)
    (hgood : ∀ target, good target → good' target) : Scratch s dir root good' t :=
  ⟨h.base, h.wellFormed, h.free, h.made, h.isDir, h.entries, h.cwd, h.clock,
    fun names node hne hn => (h.holds names node hne hn).mono hgood⟩

/-- What was there before is there still. -/
lemma «extends» (h : Scratch s dir root good t) : Extends s t := by
  refine ⟨fun m node hn => ⟨node, ?_, rfl⟩, h.cwd, h.clock⟩
  rw [h.encloses.get?_of_not_prefix, hn]
  intro hp
  rw [h.base.get?_eq_none_of_prefix h.free hp] at hn
  cases hn

/-- A scratch directory that was just made is empty. -/
lemma of_makeDir (hs : s.WellFormed) (h : s.makeDir dir = .ok t) :
    ∃ root, (∀ good, Scratch s dir root good t) ∧ ∀ n, t.get? (root ++ [n]) = none := by
  have ht : t.WellFormed := (changes_of_makeDir hs h).wellFormed hs
  obtain ⟨d, n, rfl, hfree, hfound⟩ := Store.of_makeDir hs h
  have hempty : ∀ names, names ≠ [] → (s.put (d ++ [n]) .dir).get? (d ++ [n] ++ names) = none := by
    intro names hne
    rw [get?_put_of_ne (by simp) (by simpa using hne)]
    exact hs.get?_eq_none_of_prefix hfree (List.prefix_append ..)
  refine ⟨d ++ [n], fun good => ⟨hs, ht, hfree, hfound, get?_put_self (by simp),
    ⟨_, entries_put_of_none hfree, by simp⟩, rfl, rfl, ?_⟩, fun m => hempty [m] (by simp)⟩
  intro names node hne hn
  rw [hempty names hne] at hn
  cases hn

/-! ### Paths in the scratch directory -/

lemma leads (h : Scratch s dir root good t) : Leads t (t.start dir) dir.steps root :=
  h.encloses.leads

/-- Steps behind those of the scratch directory are taken from it. -/
lemma leads_of_append (h : Scratch s dir root good t)
    (hl : Leads t (t.start dir) (dir.steps ++ b) m) : Leads t root b m := by
  have hstart : t.get? (t.start dir) ≠ none := by
    rw [h.wellFormed.get?_start]
    simp
  obtain ⟨k, hk, hb, -⟩ := hl.split h.wellFormed hstart
  rwa [h.leads.unique hk]

/-- The directories of the trees are no links. -/
lemma linkFree (h : Scratch s dir root good t) :
    LinkFree t fun m => ∃ names, IsTreeDir names ∧ m = root ++ names := by
  rintro m ⟨names, hnames, rfl⟩ target hn
  cases h.holds names _ hnames.ne_nil hn with
  | bridge hdirs hdot => exact hnames.dot_notMem hdirs.ne_nil hdot
  | stub hfile => cases hfile

lemma eq_of_leads_dirs (h : Scratch s dir root good t) (hdirs : IsTreeDir dirs)
    (hl : Leads t root (dirs.map .name) m) : m = root ++ dirs := by
  have := h.linkFree.eq_along hl
    (stays_names.mpr fun front hf hne => ⟨front, hdirs.of_prefix hf hne, rfl⟩)
  rwa [along_names] at this

/-- Nothing above the scratch directory is free. -/
lemma ne_none_of_prefix (h : Scratch s dir root good t) (hb : b <+: dir.steps)
    (hl : Leads t (t.start dir) b m) : t.get? m ≠ none := by
  obtain ⟨rest, hrest⟩ := hb
  have hleads := h.leads
  rw [← hrest] at hleads
  obtain ⟨k, hk, hk', hne⟩ := hleads.split h.wellFormed (by rw [h.wellFormed.get?_start]; simp)
  rw [hl.unique hk]
  rcases eq_or_ne rest [] with rfl | hrest
  · cases hk'
    rw [h.isDir]
    simp
  · exact hne hrest

/-- What was there before is not spelled as a path into the scratch directory. -/
lemma not_prefix_of_found (h : Scratch s dir root good t) (hq : s.find true q = .ok (m, node))
    (habs : q.isAbsolute = dir.isAbsolute) : ¬ dir.steps <+: q.steps := by
  rintro ⟨rest, hrest⟩
  have hstart : s.start q = s.start dir := by rw [start, start, habs]
  obtain ⟨hl, hm⟩ := leads_of_find h.base hq (isLink_of_find h.base hq)
  rw [hstart, ← hrest] at hl
  obtain ⟨k, hk, hk', hne⟩ := hl.split h.base (by rw [h.base.get?_start]; simp)
  have hsome : s.get? k ≠ none := by
    rcases eq_or_ne rest [] with rfl | hrest
    · cases hk'
      rw [hm]
      simp
    · exact hne hrest
  have hkt := h.extends.leads hk hsome
  rw [← h.extends.start] at hkt
  obtain rfl := h.leads.unique hkt
  exact hsome h.free

/-! ### Permitted changes -/

/-- What may be done in a scratch directory. Where a bridge is made, its target has to satisfy
`good`. -/
def Permits (dir : Path) (good : Store → Path → Prop) (t : Store) : Change → Prop
  | .dir q => q.isAbsolute = dir.isAbsolute ∧
      ∃ names, IsTreeDir names ∧ q.steps <+: dir.steps ++ names.map .name
  | .link target p => good t target ∧ p.isAbsolute = dir.isAbsolute ∧ wantsDir p = false ∧
      ∃ dirs n, IsTreeDir dirs ∧ Path.dot ∈ n ∧ p.steps = dir.steps ++ (dirs ++ [n]).map .name
  | .file _ => False

lemma putInto_append {l extra : List (Location × Node)} (h : ∀ e ∈ l, e.1 ≠ m) :
    putInto m node (l ++ extra) = l ++ putInto m node extra := by
  induction l with
  | nil => rfl
  | cons e l ih =>
    rw [List.cons_append, putInto, if_neg (h e List.mem_cons_self),
      ih fun e he => h e (List.mem_cons_of_mem _ he)]
    rfl

/-- A change in the scratch directory. -/
lemma put (h : Scratch s dir root good t) (hne : names ≠ []) (hnode : Holds good names node)
    (hwf : (t.put (root ++ names) node).WellFormed) :
    Scratch s dir root good (t.put (root ++ names) node) := by
  refine ⟨h.base, hwf, h.free, h.made, ?_, ?_, h.cwd, h.clock, ?_⟩
  · rw [get?_put_of_ne (by simp [hne]) (by simpa using hne), h.isDir]
  · obtain ⟨extra, hentries, hextra⟩ := h.entries
    have hout : ∀ e ∈ s.entries, e.1 ≠ root ++ names := by
      have hnone := h.base.get?_eq_none_of_prefix h.free (List.prefix_append root names)
      exact (get?_eq_none_iff.mp hnone).2
    refine ⟨putInto (root ++ names) node extra, ?_, fun e he => ?_⟩
    · unfold Store.put
      simp only
      rw [hentries, putInto_append hout]
    · rcases mem_putInto he with rfl | he
      · exact List.prefix_append ..
      · exact hextra e he
  · intro names' node' hne' hn
    rw [get?_put (by simp [hne])] at hn
    split at hn
    · rename_i he
      rw [List.append_cancel_left_eq] at he
      cases hn
      rwa [he]
    · exact h.holds names' node' hne' hn

/-- A new directory belongs to one of the trees. -/
lemma exists_dir (h : Scratch s dir root good t) (habs : q.isAbsolute = dir.isAbsolute)
    (hnames : IsTreeDir names) (hq : q.steps <+: dir.steps ++ names.map .name)
    (hl : Leads t (t.start q) q.steps m) (hfree : t.get? m = none) :
    ∃ front, IsTreeDir front ∧ m = root ++ front := by
  have hstart : t.start q = t.start dir := by rw [start, start, habs]
  rw [hstart] at hl
  obtain ⟨rest, hrest⟩ := hq
  rcases List.append_eq_append_iff.mp hrest with ⟨more, hdir, -⟩ | ⟨more, hq, hmap⟩
  · exact absurd hfree (h.ne_none_of_prefix ⟨more, hdir.symm⟩ hl)
  · obtain ⟨front, back, rfl, rfl, -⟩ := List.map_eq_append_iff.mp hmap
    rcases eq_or_ne front [] with rfl | hne
    · rw [List.map_nil, List.append_nil] at hq
      exact absurd hfree (h.ne_none_of_prefix (hq ▸ List.prefix_rfl) hl)
    · have hfront := hnames.of_prefix (List.prefix_append front back) hne
      rw [hq] at hl
      exact ⟨front, hfront, h.eq_of_leads_dirs hfront (h.leads_of_append hl)⟩

/-- A permitted change comes to one of the trees. -/
lemma lands {c : Change} (h : Scratch s dir root good t)
    (hgood : ∀ target, may t target → good target) (hmay : Permits dir may t c)
    (hc : Changes c t u) : ∃ names node, u = t.put (root ++ names) node ∧ names ≠ [] ∧
      names ≠ [stubName] ∧ Holds good names node := by
  cases hc with
  | new hlands _ _ hfree hmakes =>
    cases c with
    | dir q =>
      obtain ⟨habs, names, hnames, hq⟩ := hmay
      obtain ⟨front, hfront, he⟩ := h.exists_dir habs hnames hq hlands.1 hfree
      rw [show _ = Node.dir from hmakes, he]
      refine ⟨front, .dir, rfl, hfront.ne_nil, ?_, .dir hfront⟩
      rintro rfl
      exact not_isTreeDir_stub hfront
    | file q => cases hmay
    | link target p =>
      obtain ⟨htarget, habs, hwants, dirs, n, hdirs, hdot, hp⟩ := hmay
      obtain ⟨front, hfront, hl⟩ := hlands.2 target p rfl hwants
      rw [hp, List.map_append, ← List.append_assoc] at hfront
      obtain ⟨rfl, hlast⟩ := List.append_inj' hfront rfl
      rw [List.map_singleton, List.singleton_inj, Component.name.injEq] at hlast
      rw [start, habs, ← start] at hl
      obtain rfl := h.eq_of_leads_dirs hdirs (h.leads_of_append hl)
      rw [hmakes.1, ← hlast, List.append_assoc]
      refine ⟨dirs ++ [n], .link target, rfl, by simp, fun he => ?_,
        .bridge hdirs hdot (hgood target htarget)⟩
      rw [← List.nil_append [stubName]] at he
      exact hdirs.ne_nil (List.append_inj' he rfl).1
  | rewritten he => exact absurd hmay (by rw [he]; exact id)

/-- A permitted change keeps the shape of the scratch directory. -/
theorem step {c : Change} (h : Scratch s dir root good t)
    (hgood : ∀ target, may t target → good target) (hmay : Permits dir may t c)
    (hc : Changes c t u) : Scratch s dir root good u := by
  have hwf := hc.wellFormed h.wellFormed
  obtain ⟨names, node, rfl, hne, -, hholds⟩ := h.lands hgood hmay hc
  exact h.put hne hholds hwf

/-- A run of permitted changes keeps the shape of the scratch directory. -/
theorem run (h : Scratch s dir root good t)
    (hgood : ∀ t target, Scratch s dir root good t → may t target → good target)
    (hrun : Runs (Permits dir may) t u) : Scratch s dir root good u :=
  hrun.invariant (fun _ _ _ _ hinv hmay hc => hinv.step (fun target => hgood _ target hinv) hmay hc)
    h.wellFormed h

/-- A run of permitted changes makes no stub. -/
lemma stub_free_run (h : Scratch s dir root good t)
    (hgood : ∀ t target, Scratch s dir root good t → may t target → good target)
    (hrun : Runs (Permits dir may) t u) (hfree : t.get? (root ++ [stubName]) = none) :
    u.get? (root ++ [stubName]) = none := by
  have hstep : ∀ (t u : Store) (c : Change), t.WellFormed →
      Scratch s dir root good t ∧ t.get? (root ++ [stubName]) = none → Permits dir may t c →
      Changes c t u → Scratch s dir root good u ∧ u.get? (root ++ [stubName]) = none := by
    rintro t u c - ⟨ht, hnone⟩ hmay hc
    have hgood' := fun target => hgood t target ht
    refine ⟨ht.step hgood' hmay hc, ?_⟩
    obtain ⟨names, node, rfl, hne, hnotstub, -⟩ := ht.lands hgood' hmay hc
    rw [get?_put_of_ne (by simp [hne]) (by simpa using hnotstub.symm), hnone]
  exact (hrun.invariant hstep h.wellFormed ⟨h, hfree⟩).2

/-! ### Stubs -/

/-- Writing a stub makes or replaces its file. -/
lemma write_stub {content : Bytes} (h : Scratch s dir root good t)
    (hwrite : t.write (Stub.file dir) content = .ok u) :
    ∃ mode, u = t.put (root ++ [stubName]) (.file content mode t.clock) ∧
      u.find true (Stub.file dir) = .ok (root ++ [stubName], .file content mode t.clock) ∧
      (t.get? (root ++ [stubName]) = none → mode = plainMode) ∧ Scratch s dir root good u := by
  have hu := (changes_of_write h.wellFormed hwrite).wellFormed h.wellFormed
  obtain ⟨l, mode, rfl, hfind, hleads, hmode⟩ := find_of_write h.wellFormed hwrite
  obtain rfl := h.encloses.eq_of_leads hleads
  exact ⟨mode, rfl, hfind, hmode, h.put (by simp) (.stub rfl) hu⟩

/-- Removing the file of a stub. -/
lemma removeFile_stub (h : Scratch s dir root good t)
    (hremove : t.removeFile (Stub.file dir) = .ok u) :
    u = t.erase (root ++ [stubName]) ∧ Scratch s dir root good u := by
  have hwf := h.wellFormed
  obtain ⟨l, node, hfind, hnotdir, rfl⟩ := of_removeFile hremove
  obtain rfl := eq_of_find_stub hwf h.leads h.encloses.dir_ne_nil hfind hnotdir
  have hnode := get?_of_find hwf hfind
  have hget : ∀ m, (t.erase (root ++ [stubName])).get? m =
      if m = root ++ [stubName] then none else t.get? m := fun m => get?_erase (by simp)
  have hwf' := hwf.erase hnode hnotdir
  refine ⟨rfl, h.base, hwf', h.free, h.made, ?_, ?_, h.cwd, h.clock, ?_⟩
  · rw [hget, if_neg (by simp), h.isDir]
  · obtain ⟨extra, hentries, hextra⟩ := h.entries
    have hout : ∀ e ∈ s.entries, e.1 ≠ root ++ [stubName] :=
      (get?_eq_none_iff.mp (h.base.get?_eq_none_of_prefix h.free (List.prefix_append ..))).2
    refine ⟨extra.filter (·.1 ≠ root ++ [stubName]), ?_, fun e he =>
      hextra e (List.mem_filter.mp he).1⟩
    unfold Store.erase
    simp only
    rw [hentries, List.filter_append, List.filter_eq_self.mpr fun e he => by simpa using hout e he]
  · intro names node' hne hn
    rw [hget] at hn
    split at hn
    · cases hn
    · exact h.holds names node' hne hn

end Scratch

/-! ### Working in a scratch directory -/

/-- An action that does not go beyond its scratch directory leaves the store as it was, however it
ends. -/
theorem Act.within_restores {why : Fault → Failure} {dir : Path} {a : Act α} {w : World}
    (hw : w.store.WellFormed)
    (ha : ∀ (root : Location) (v : World), Scratch w.store dir root (fun _ => True) v.store →
      Scratch.Encloses w.store dir root (a v).2.store) :
    (Act.within why dir a w).2.store = w.store := by
  unfold Act.within
  split
  · rfl
  · rename_i t hmake
    obtain ⟨root, hscratch, -⟩ := Scratch.of_makeDir hw hmake
    exact (ha root { w with store := t } (hscratch _)).discard

/-- An action that keeps the shape of a scratch directory leaves the store as it was. -/
theorem Act.within_store {why : Fault → Failure} {dir : Path} {a : Act α} {w : World}
    (hw : w.store.WellFormed)
    (ha : dir.bytes ≠ [] → ∀ root, Act.Keeps (Scratch w.store dir root fun _ => True) a) :
    (Act.within why dir a w).2.store = w.store :=
  within_restores hw fun root v hv => (ha hv.encloses.dir_ne_nil root v hv).encloses

end Excerpt
