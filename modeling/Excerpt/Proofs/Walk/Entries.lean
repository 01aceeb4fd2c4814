import Excerpt.Proofs.Store.Spelling
import Excerpt.Proofs.Walk.Files
import Excerpt.Proofs.Walk.Groups

/-!
# Pruning is filtering

A walk that does not enter ignored directories lists what a filter over the whole tree would let
through: the nodes beneath the root that are not too deep, with nothing ignored on the way to them.
It lists them in path order, so the files among them need no more sorting, and a walk with a limit
is the front part of the walk without one, taken by depth. All this is said of trees whose
directories have paths that are short enough to be opened.
-/

namespace Excerpt

namespace Walk

variable {s : Store} {limits : Limits} {ignored : Path → Bool} {maxDepth : Option Nat}
  {root rel : Path} {loc names front : Location} {n : Bytes} {node : Node} {depth : Nat}
  {es : List WalkEntry}

/-! ### Relative paths -/

/-- The path that names spell, with a slash between neighbours. -/
def relativePath (names : Location) : Path := ⟨List.intercalate [Path.slash] names⟩

lemma intercalate_concat {α : Type} (sep : List α) {as : List (List α)} (h : as ≠ [])
    (a : List α) : List.intercalate sep (as ++ [a]) = List.intercalate sep as ++ sep ++ a := by
  induction as with
  | nil => exact absurd rfl h
  | cons b as ih =>
    cases as with
    | nil => simp [List.intercalate]
    | cons c as =>
      have hrest := ih (by simp)
      simp only [List.intercalate, List.cons_append, List.intersperse_cons_cons, List.flatten_cons]
        at hrest ⊢
      rw [hrest]
      simp

lemma bytes_relativePath_concat (front : Location) (n : Bytes) :
    ∃ rest, (relativePath (front ++ [n])).bytes = rest ++ n := by
  cases front with
  | nil => exact ⟨[], by simp [relativePath, List.intercalate]⟩
  | cons m front =>
    exact ⟨_, intercalate_concat _ (by simp) n⟩

/-- The walk makes relative paths name by name. -/
lemma relativeChild_relativePath (hnames : ∀ m ∈ names, Path.IsName m) (hn : Path.IsName n) :
    relativeChild (relativePath names) n = relativePath (names ++ [n]) := by
  rcases List.eq_nil_or_concat' names with rfl | ⟨front, m, rfl⟩
  · simp [relativeChild, relativePath, Path.empty, List.intercalate]
  · have hm : Path.IsName m := hnames m (by simp)
    obtain ⟨rest, hrest⟩ := bytes_relativePath_concat front m
    have hne : (relativePath (front ++ [m])).bytes ≠ [] := by
      simp [hrest, hm.ne_nil]
    have hlast : (relativePath (front ++ [m])).bytes.getLast? ≠ some Path.slash := by
      rw [hrest, List.getLast?_append_of_ne_nil _ hm.ne_nil]
      intro hslash
      exact hm.noSlash (List.mem_of_getLast? hslash)
    have hempty : relativePath (front ++ [m]) ≠ Path.empty := by
      intro he
      exact hne (congrArg Path.bytes he)
    rw [relativeChild, if_neg hempty, Path.child]
    rcases Path.join_bytes hn.isAbsolute with ⟨hnil, -⟩ | ⟨_, hslash, -⟩ | ⟨-, -, hjoin⟩
    · exact absurd hnil hne
    · simp [hslash] at hlast
    · rw [hjoin]
      simp only [relativePath]
      rw [intercalate_concat _ (by simp) n, List.append_assoc, List.singleton_append]

lemma foldl_relativeChild (hnames : ∀ m ∈ names, Path.IsName m) :
    names.foldl relativeChild Path.empty = relativePath names := by
  induction names using List.reverseRecOn with
  | nil => rfl
  | append_singleton names n ih =>
    have hfront : ∀ m ∈ names, Path.IsName m := fun m hm => hnames m (by simp [hm])
    rw [List.foldl_append, ih hfront]
    exact relativeChild_relativePath hfront (hnames n (by simp))

/-! ### What the filter lets through -/

/-- What a filter over all that stands beneath `loc` lets through, by the names on the way: they do
not lead too deep, no directory on the way is ignored, and what they lead to is not. -/
structure Admits (s : Store) (limits : Limits) (loc names : Location) : Prop where
  depth : limits.reaches names.length = true
  directories : ∀ front, front <+: names → front ≠ [] → front ≠ names →
    s.get? (loc ++ front) = some .dir → limits.ignored (relativePath front) = false
  own : limits.ignored (relativePath names) = false

/-- Every directory that the filter lets through, however deep, has a path that can be opened. -/
def CanEnter (s : Store) (ignored : Path → Bool) (loc : Location) (root : Path) : Prop :=
  ∀ names, s.get? (loc ++ names) = some .dir → Admits s ⟨ignored, none⟩ loc names →
    (Store.chain root names).bytes.length < Store.maxPath

/-- How long the paths of directories are is seen from the entries beneath the root. -/
lemma canEnter_of_entries (hloc : loc ≠ []) (hall : ∀ e ∈ s.entries, loc <+: e.1 →
    (Store.chain root (e.1.drop loc.length)).bytes.length < Store.maxPath) :
    CanEnter s ignored loc root := by
  intro names hdir _
  have hmem := Store.mem_of_get? (List.append_ne_nil_of_left_ne_nil hloc names) hdir
  simpa using hall _ hmem (List.prefix_append loc names)

lemma passes_append {more : Location} : Passes limits rel depth (names ++ more) ↔
    Passes limits rel depth names ∧
      Passes limits (names.foldl relativeChild rel) (depth + names.length) more := by
  induction names generalizing rel depth with
  | nil => simp [Passes]
  | cons n names ih =>
    simp only [List.cons_append, Passes, ih, List.foldl_cons, List.length_cons, and_assoc,
      Nat.add_assoc, Nat.add_comm 1]

lemma reaches_of_le {k : Nat} (h : limits.reaches depth = true) (hk : k ≤ depth) :
    limits.reaches k = true := by
  unfold Limits.reaches at *
  cases hmax : limits.maxDepth with
  | none => rfl
  | some d =>
    simp only [hmax, Option.all_some, decide_eq_true_eq] at *
    omega

/-- Nothing on the way is pruned exactly if nothing on the way is ignored. -/
lemma passes_iff (hne : names ≠ []) (hnames : ∀ m ∈ names, Path.IsName m) :
    Passes limits Path.empty 0 names ↔ limits.reaches names.length = true ∧
      ∀ front, front <+: names → front ≠ [] → limits.ignored (relativePath front) = false := by
  induction names using List.reverseRecOn with
  | nil => exact absurd rfl hne
  | append_singleton names n ih =>
    have hfront : ∀ m ∈ names, Path.IsName m := fun m hm => hnames m (by simp [hm])
    have hlast : Passes limits Path.empty 0 (names ++ [n]) ↔ Passes limits Path.empty 0 names ∧
        limits.reaches (names.length + 1) = true ∧
        limits.ignored (relativePath (names ++ [n])) = false := by
      rw [passes_append, foldl_relativeChild hfront]
      simp [Passes, relativeChild_relativePath hfront (hnames n (by simp))]
    rw [hlast, List.length_append, List.length_singleton]
    constructor
    · rintro ⟨hpasses, hreach, hignored⟩
      refine ⟨hreach, fun front hp hf => ?_⟩
      rcases List.prefix_concat_iff.mp hp with rfl | hp
      · exact hignored
      · have hnil : names ≠ [] := fun h => hf (List.prefix_nil.mp (h ▸ hp))
        exact ((ih hnil hfront).mp hpasses).2 front hp hf
    · rintro ⟨hreach, hignored⟩
      refine ⟨?_, hreach, hignored _ List.prefix_rfl (by simp)⟩
      rcases eq_or_ne names [] with rfl | hnil
      · trivial
      · apply (ih hnil hfront).mpr
        constructor
        · exact reaches_of_le hreach (by omega)
        · intro front hp hf
          exact hignored front (hp.trans (List.prefix_append ..)) hf

/-- On the way to a node there are only directories. -/
lemma admits_iff (hs : s.WellFormed) (hne : names ≠ [])
    (hnode : s.get? (loc ++ names) = some node) :
    Admits s limits loc names ↔ Passes limits Path.empty 0 names := by
  have hsome : s.get? (loc ++ names) ≠ none := by simp [hnode]
  have hnames : ∀ m ∈ names, Path.IsName m := fun m hm =>
    (hs.isEntryName hsome (List.mem_append_right _ hm)).isName
  rw [passes_iff hne hnames]
  constructor
  · intro h
    refine ⟨h.depth, fun front hp hf => ?_⟩
    rcases eq_or_ne front names with rfl | hproper
    · exact h.own
    · have hway : loc ++ front <+: loc ++ names := (List.prefix_append_right_inj loc).mpr hp
      refine h.directories front hp hf hproper ?_
      exact (hs.get?_of_prefix hsome hway).resolve_left (by simpa using hproper)
  · rintro ⟨hreach, hignored⟩
    exact ⟨hreach, fun front hp hf _ _ => hignored front hp hf, hignored names List.prefix_rfl hne⟩

/-! ### The list of entries -/

/-- What a node beneath the root is listed as: only a directory counts as one, a link to a directory
does not. -/
def entryAt (root : Path) (names : Location) (node : Node) : WalkEntry :=
  ⟨Store.chain root names, node.isDir, names.length⟩

/-- A list of what the filter lets through: each node once, in path order, and nothing in front of a
directory that it lies beneath. -/
structure Listing (s : Store) (limits : Limits) (loc : Location) (root : Path)
    (es : List WalkEntry) : Prop where
  mem_iff : ∀ e, e ∈ es ↔ ∃ names node, names ≠ [] ∧ s.get? (loc ++ names) = some node ∧
    Admits s limits loc names ∧ e = entryAt root names node
  once : es.Nodup
  ordered : es.Pairwise fun e e' => e.path.before e'.path = true
  parentsFirst : es.Pairwise fun e e' => e.path.startsWith e'.path = false

/-- A path does not come before what it lies beneath. -/
lemma not_startsWith_of_before {p q : Path} (h : p.before q = true) : p.startsWith q = false := by
  rw [Bool.eq_false_iff]
  intro hstarts
  obtain ⟨more, hmore⟩ := List.isPrefixOf_iff_prefix.mp hstarts
  have hback := Component.listBefore_append_left q.components more []
  rw [List.append_nil, hmore] at hback
  rw [Path.before, hback] at h
  cases more <;> cases h

lemma entries_eq_below (hroot : root.same standardInput = false)
    (hfind : s.find true root = .ok (loc, .dir)) : entries s limits root =
      .ok (below s limits (s.entries.length + 1) loc root Path.empty 0) := by
  simp [entries, hroot, hfind]

lemma listing_below (hs : s.WellFormed) : Listing s limits loc root
    (below s limits (s.entries.length + 1) loc root Path.empty 0) := by
  have hordered : (below s limits (s.entries.length + 1) loc root Path.empty 0).Pairwise
      fun e e' => e.path.before e'.path = true := pairwise_below hs
  refine ⟨fun e => ?_, ?_, hordered, hordered.imp not_startsWith_of_before⟩
  · rw [mem_below_iff hs]
    constructor
    · rintro ⟨names, node, hne, -, hnode, hpasses, rfl⟩
      refine ⟨names, node, hne, hnode, (admits_iff hs hne hnode).mpr hpasses, ?_⟩
      simp [entryAt]
    · rintro ⟨names, node, hne, hnode, hadmits, rfl⟩
      have hlength := hs.length_le_entries (l := loc ++ names) (by simp [hnode])
      rw [List.length_append] at hlength
      refine ⟨names, node, hne, by omega, hnode, (admits_iff hs hne hnode).mp hadmits, ?_⟩
      simp [entryAt]
  · refine hordered.imp ?_
    rintro e e' hbefore rfl
    rw [Path.before_irrefl] at hbefore
    cases hbefore

/-- The directories of a listing are found under the paths that they are listed with. -/
lemma Listing.isDir (hs : s.WellFormed) (hfind : s.find true root = .ok (loc, .dir))
    (hopen : CanEnter s ignored loc root) (h : Listing s ⟨ignored, none⟩ loc root es) :
    ∀ e ∈ es, e.isDir = true → s.isDir e.path = true := by
  intro e he hisDir
  obtain ⟨names, node, hne, hnode, hadmits, rfl⟩ := (h.mem_iff e).mp he
  cases node with
  | dir =>
    apply Store.isDir_of_find
    exact (Store.Spells.of_dir hs hfind hnode).find_dir hne hnode (hopen names hnode hadmits)
  | _ => cases hisDir

/-- The files of a listing are in order already. -/
lemma Listing.sort_files (h : Listing s limits loc root es) :
    Path.sort ((es.filter (!·.isDir)).map (·.path)) = (es.filter (!·.isDir)).map (·.path) := by
  have hordered : ((es.filter (!·.isDir)).map (·.path)).Pairwise fun p q => p.before q = true :=
    List.pairwise_map.mpr (h.ordered.sublist List.filter_sublist)
  apply Path.eq_of_sorted
  · exact Path.sort_pairwise (hordered.imp Path.not_same_of_before)
  · exact hordered
  · simp

/-- A limit cuts the listing by depth. -/
lemma Listing.eq_filter {k : Nat} {es' : List WalkEntry}
    (h : Listing s ⟨ignored, some k⟩ loc root es) (h' : Listing s ⟨ignored, none⟩ loc root es') :
    es = es'.filter (·.depth ≤ k) := by
  apply @eq_of_sorted WalkEntry fun e e' => e.path.before e'.path
  · exact fun e => Path.before_irrefl e.path
  · exact fun _ _ _ => Path.before_trans
  · exact h.ordered
  · exact h'.ordered.sublist List.filter_sublist
  · intro e
    rw [List.mem_filter, h.mem_iff, h'.mem_iff]
    constructor
    · rintro ⟨names, node, hne, hnode, hadmits, rfl⟩
      refine ⟨⟨names, node, hne, hnode, ⟨rfl, hadmits.directories, hadmits.own⟩, rfl⟩, ?_⟩
      exact hadmits.depth
    · rintro ⟨⟨names, node, hne, hnode, hadmits, rfl⟩, hdepth⟩
      exact ⟨names, node, hne, hnode, ⟨hdepth, hadmits.directories, hadmits.own⟩, rfl⟩

/-- Different names make different paths. -/
lemma eq_of_chain_eq {names' : Location} (hnames : ∀ m ∈ names, Path.IsName m)
    (hnames' : ∀ m ∈ names', Path.IsName m)
    (h : Store.chain root names = Store.chain root names') : names = names' := by
  have hsteps := congrArg Path.steps h
  rw [Store.steps_chain root hnames, Store.steps_chain root hnames'] at hsteps
  have hname : Function.Injective Component.name := fun _ _ heq => Component.name.inj heq
  exact List.map_injective_iff.mpr hname (List.append_cancel_left hsteps)

/-- What lies beneath names has a path beneath theirs. -/
lemma startsWith_chain {more : Location} (hnames : ∀ m ∈ names ++ more, Path.IsName m) :
    (Store.chain root (names ++ more)).startsWith (Store.chain root names) = true := by
  have hfront : ∀ m ∈ names, Path.IsName m := fun m hm => hnames m (List.mem_append_left _ hm)
  rw [Path.startsWith, List.isPrefixOf_iff_prefix, Store.components_chain root hnames,
    Store.components_chain root hfront, List.map_append, ← List.append_assoc]
  exact List.prefix_append _ _

/-- A list of entries is a list of names, with what stands at each of them. -/
lemma exists_names_of_entries (h : ∀ e ∈ es, ∃ names node, names ≠ [] ∧
      s.get? (loc ++ names) = some node ∧ Admits s limits loc names ∧ e = entryAt root names node) :
    ∃ tree : List Location,
      es = tree.map (fun names => entryAt root names ((s.get? (loc ++ names)).getD .dir)) ∧
      ∀ names ∈ tree, names ≠ [] ∧ s.get? (loc ++ names) ≠ none ∧ Admits s limits loc names := by
  induction es with
  | nil => exact ⟨[], rfl, by simp⟩
  | cons e es ih =>
    obtain ⟨names, node, hne, hnode, hadmits, rfl⟩ := h e List.mem_cons_self
    obtain ⟨tree, rfl, hlisted⟩ := ih fun e he => h e (List.mem_cons_of_mem _ he)
    refine ⟨names :: tree, by simp [hnode], ?_⟩
    intro names' hnames'
    rcases List.mem_cons.mp hnames' with rfl | hrest
    · exact ⟨hne, by simp [hnode], hadmits⟩
    · exact hlisted names' hrest

/-- The names of what is listed, in the order of the list. -/
lemma Listing.exists_names (hs : s.WellFormed) (h : Listing s limits loc root es) :
    ∃ tree : List Location,
      es = tree.map (fun names => entryAt root names ((s.get? (loc ++ names)).getD .dir)) ∧
      tree.Nodup ∧
      (∀ names, names ∈ tree ↔
        names ≠ [] ∧ s.get? (loc ++ names) ≠ none ∧ Admits s limits loc names) ∧
      tree.Pairwise fun names later => ¬ later <+: names := by
  have hisName : ∀ names, s.get? (loc ++ names) ≠ none → ∀ m ∈ names, Path.IsName m :=
    fun names hsome m hm => (hs.isEntryName hsome (List.mem_append_right _ hm)).isName
  obtain ⟨tree, rfl, hlisted⟩ := exists_names_of_entries fun e he => (h.mem_iff e).mp he
  refine ⟨tree, rfl, h.once.of_map, ?_, ?_⟩
  · intro names
    constructor
    · exact hlisted names
    · rintro ⟨hne, hsome, hadmits⟩
      obtain ⟨node, hnode⟩ := Option.ne_none_iff_exists'.mp hsome
      have hmem := (h.mem_iff _).mpr ⟨names, node, hne, hnode, hadmits, rfl⟩
      obtain ⟨names', hmem', heq⟩ := List.mem_map.mp hmem
      have hchain := congrArg WalkEntry.path heq
      have hsome' := (hlisted names' hmem').2.1
      exact eq_of_chain_eq (hisName names' hsome') (hisName names hsome) hchain ▸ hmem'
  · have hparents := List.pairwise_map.mp h.parentsFirst
    apply hparents.imp_of_mem
    rintro names later hnames - hfirst ⟨rest, rfl⟩
    have hstarts := @startsWith_chain root later rest (hisName _ (hlisted _ hnames).2.1)
    exact absurd hstarts (by simpa [entryAt] using hfirst)

/-- A walk that can open every directory lists what a filter over the whole tree lets through, in
path order. Its files are the entries that are no directories, in the same order; the groups share
them out by directory; and a limit only cuts the list by depth. -/
theorem entries_filtered (hs : s.WellFormed) (hroot : root.same standardInput = false)
    (hfind : s.find true root = .ok (loc, .dir)) (ignored : Path → Bool)
    (hopen : CanEnter s ignored loc root) (maxDepth : Option Nat) :
    ∃ es, entries s ⟨ignored, maxDepth⟩ root = .ok es ∧ Listing s ⟨ignored, maxDepth⟩ loc root es ∧
      files s ⟨ignored, maxDepth⟩ root = .ok ((es.filter (!·.isDir)).map (·.path)) ∧
      (∃ groups, filesByDir s ⟨ignored, maxDepth⟩ root = .ok groups ∧
        Grouped ((es.filter (!·.isDir)).map (·.path)) groups ∧
        (groups.flatMap (·.2)).Perm ((es.filter (!·.isDir)).map (·.path)) ∧
        ∀ g ∈ groups, g.2 ≠ []) ∧
      ∃ all, entries s ⟨ignored, none⟩ root = .ok all ∧ Listing s ⟨ignored, none⟩ loc root all ∧
        (∀ e ∈ all, e.isDir = true → s.isDir e.path = true) ∧
        ∀ k, entries s ⟨ignored, some k⟩ root = .ok (all.filter (·.depth ≤ k)) := by
  have hentries : ∀ limits, ∃ es, entries s limits root = .ok es ∧
      Listing s limits loc root es :=
    fun _ => ⟨_, entries_eq_below hroot hfind, listing_below hs⟩
  obtain ⟨es, hes, hlisting⟩ := hentries ⟨ignored, maxDepth⟩
  obtain ⟨all, hall, hunlimited⟩ := hentries ⟨ignored, none⟩
  have hfiles : files s ⟨ignored, maxDepth⟩ root =
      .ok ((es.filter (!·.isDir)).map (·.path)) := by
    rw [files, hes]
    exact congrArg Except.ok hlisting.sort_files
  refine ⟨es, hes, hlisting, hfiles, ⟨_, by rw [filesByDir, hfiles]; rfl,
    grouped_groupByDir _, perm_groupByDir _⟩, all, hall, hunlimited,
    hunlimited.isDir hs hfind hopen, fun k => ?_⟩
  obtain ⟨cut, hcut, hlimited⟩ := hentries ⟨ignored, some k⟩
  rw [hcut, hlimited.eq_filter hunlimited]

/-! ### Two walks -/

/-- A directory with a file, a directory to prune, another one that is kept, and a link to it. -/
def prunedStore : Store where
  entries :=
    [(Store.locationOf ["r"], .dir), (Store.locationOf ["r", "skip"], .dir),
      (Store.locationOf ["r", "skip", "x"], .file [] 0o644 ⟨0, 0⟩),
      (Store.locationOf ["r", "link"], .link (.ofText "b".toList)),
      (Store.locationOf ["r", "b"], .dir),
      (Store.locationOf ["r", "b", "c"], .file [] 0o644 ⟨0, 0⟩),
      (Store.locationOf ["r", "b-c"], .file [] 0o644 ⟨0, 0⟩)]
  cwd := []
  clock := ⟨1, 0⟩

/-- Nothing called `skip` directly beneath the root is listed, nor anything in it. -/
def isSkip (p : Path) : Bool := p == .ofText "skip".toList

/-- What a walk lists in `prunedStore`. -/
def prunedEntries : List WalkEntry :=
  [⟨.ofText "r/b".toList, true, 1⟩, ⟨.ofText "r/b/c".toList, false, 2⟩,
    ⟨.ofText "r/b-c".toList, false, 1⟩, ⟨.ofText "r/link".toList, false, 1⟩]

/-- The link is listed as no directory, and `r/b/c` stands before `r/b-c`. -/
theorem entries_prunedStore :
    prunedStore.WellFormed ∧ (Path.ofText "r".toList).same standardInput = false ∧
      prunedStore.find true (.ofText "r".toList) = .ok (Store.locationOf ["r"], .dir) ∧
      CanEnter prunedStore isSkip (Store.locationOf ["r"]) (.ofText "r".toList) ∧
      Listing prunedStore ⟨isSkip, none⟩ (Store.locationOf ["r"]) (.ofText "r".toList)
        prunedEntries ∧
      files prunedStore ⟨isSkip, none⟩ (.ofText "r".toList) =
        .ok (["r/b/c", "r/b-c", "r/link"].map (Path.ofText ·.toList)) ∧
      entries prunedStore ⟨isSkip, some 1⟩ (.ofText "r".toList) =
        .ok (prunedEntries.filter (·.depth ≤ 1)) := by
  have hw : prunedStore.WellFormed := by decide +kernel
  have hroot : (Path.ofText "r".toList).same standardInput = false := by decide +kernel
  have hfind : prunedStore.find true (.ofText "r".toList) =
      .ok (Store.locationOf ["r"], .dir) := by decide +kernel
  have hopen : CanEnter prunedStore isSkip (Store.locationOf ["r"]) (.ofText "r".toList) :=
    canEnter_of_entries (List.cons_ne_nil _ _) (by decide +kernel)
  have hall : entries prunedStore ⟨isSkip, none⟩ (.ofText "r".toList) = .ok prunedEntries := by
    decide +kernel
  obtain ⟨es, hes, hlisting, hfiles, -, all, hall', -, -, hcut⟩ :=
    entries_filtered hw hroot hfind isSkip hopen none
  obtain rfl : prunedEntries = es := Except.ok.inj (hall.symm.trans hes)
  obtain rfl : prunedEntries = all := Except.ok.inj (hall.symm.trans hall')
  refine ⟨hw, hroot, hfind, hopen, hlisting, ?_, hcut 1⟩
  rw [hfiles]
  decide +kernel

/-- A directory with a name that is read as the standard input. -/
def hyphenStore : Store where
  entries :=
    [(Store.locationOf ["-"], .dir),
      (Store.locationOf ["-", "a"], .file [] 0o644 ⟨0, 0⟩)]
  cwd := []
  clock := ⟨1, 0⟩

/-- The filter lets a file through, and the walk lists nothing. -/
theorem entries_miss_hyphen :
    hyphenStore.WellFormed ∧
      hyphenStore.find true (.ofText "-".toList) = .ok (Store.locationOf ["-"], .dir) ∧
      hyphenStore.get? (Store.locationOf ["-"] ++ Store.locationOf ["a"]) =
        some (.file [] 0o644 ⟨0, 0⟩) ∧
      Admits hyphenStore ⟨fun _ => false, none⟩ (Store.locationOf ["-"])
        (Store.locationOf ["a"]) ∧
      entries hyphenStore ⟨fun _ => false, none⟩ (.ofText "-".toList) = .ok [] ∧
      ¬ ∃ es, entries hyphenStore ⟨fun _ => false, none⟩ (.ofText "-".toList) = .ok es ∧
        Listing hyphenStore ⟨fun _ => false, none⟩ (Store.locationOf ["-"])
          (.ofText "-".toList) es := by
  have hnode : hyphenStore.get? (Store.locationOf ["-"] ++ Store.locationOf ["a"]) =
      some (.file [] 0o644 ⟨0, 0⟩) := by decide +kernel
  have hadmits : Admits hyphenStore ⟨fun _ => false, none⟩ (Store.locationOf ["-"])
      (Store.locationOf ["a"]) := ⟨rfl, fun _ _ _ _ _ => rfl, rfl⟩
  have hempty : entries hyphenStore ⟨fun _ => false, none⟩ (.ofText "-".toList) = .ok [] := by
    decide +kernel
  refine ⟨by decide +kernel, by decide +kernel, hnode, hadmits, hempty, ?_⟩
  rintro ⟨es, hes, hlisting⟩
  obtain rfl : [] = es := Except.ok.inj (hempty.symm.trans hes)
  have hmem := (hlisting.mem_iff _).mpr ⟨_, _, by decide +kernel, hnode, hadmits, rfl⟩
  cases hmem

end Walk

end Excerpt
