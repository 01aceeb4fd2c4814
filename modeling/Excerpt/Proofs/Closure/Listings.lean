import Excerpt.Closure
import Excerpt.Proofs.Path.Operations
import Excerpt.Proofs.Path.Order
import Excerpt.Proofs.Store.Growth

/-!
# Listings

The files of a test and the modules of the library are the children of a directory that satisfy a
condition, in path order. Children have different names, so they are different paths, and each of
them is listed once.
-/

namespace Excerpt

open Store

/-- The list of those children of a directory that are to be kept, in path order. -/
structure ListsChildren (s : Store) (dir : Path) (keep : Bytes → Path → Prop) (ps : List Path) :
    Prop where
  sorted : ps.Pairwise fun p q => p.before q = true
  mem : ∀ p, p ∈ ps ↔ ∃ l n, s.find true dir = .ok (l, .dir) ∧ s.get? (l ++ [n]) ≠ none ∧
    p = dir.child n ∧ keep n p

namespace ListsChildren

variable {s : Store} {dir p : Path} {keep : Bytes → Path → Prop} {ps : List Path} {l : Location}

lemma of_list {names : List Bytes} (h : s.list dir = .ok names) :
    ∃ l, s.find true dir = .ok (l, .dir) ∧ names = s.names l := by
  unfold list at h
  split at h
  · cases h
  · rename_i l hfind
    cases h
    exact ⟨l, hfind, rfl⟩
  · cases h

/-- Children with different names are different paths. -/
lemma not_same_child {n m : Bytes} (hn : Path.IsName n) (hm : Path.IsName m) (hne : n ≠ m) :
    (dir.child n).same (dir.child m) = false := by
  rw [Bool.eq_false_iff]
  intro h
  have hsteps := (Path.same_iff.mp h).2
  rw [Path.steps_child hn, Path.steps_child hm, List.append_cancel_left_eq, List.singleton_inj,
    Component.name.injEq] at hsteps
  exact hne hsteps

/-- A child is not the directory itself. -/
lemma not_same_self {n : Bytes} (hn : Path.IsName n) : dir.same (dir.child n) = false := by
  rw [Bool.eq_false_iff]
  intro h
  have hsteps := congrArg List.length (Path.same_iff.mp h).2
  rw [Path.steps_child hn, List.length_append] at hsteps
  simp at hsteps

lemma isName_of_mem_list (hs : s.WellFormed) {names : List Bytes} (h : s.list dir = .ok names) :
    ∀ n ∈ names, Path.IsName n := by
  obtain ⟨l, -, rfl⟩ := of_list h
  intro n hn
  obtain ⟨node, hnode⟩ := (mem_names hs).mp hn
  exact (hs.isEntryName (by rw [hnode]; simp) (List.mem_append_right l List.mem_cons_self)).isName

lemma pairwise_child (hs : s.WellFormed) {names : List Bytes} (h : s.list dir = .ok names) :
    (names.map dir.child).Pairwise fun p q => p.same q = false := by
  have hnames := isName_of_mem_list hs h
  obtain ⟨l, -, rfl⟩ := of_list h
  refine List.pairwise_map.mpr ((nodup_names hs).imp_of_mem fun hn hm hne => ?_)
  exact not_same_child (hnames _ hn) (hnames _ hm) hne

/-- A sorted list of children is a listing. -/
lemma of_sorted (hs : s.WellFormed) {names : List Bytes} (h : s.list dir = .ok names)
    (hsorted : ps.Pairwise fun p q => p.before q = true)
    (hmem : ∀ p, p ∈ ps ↔ ∃ n ∈ names, p = dir.child n ∧ keep n p) :
    ListsChildren s dir keep ps := by
  obtain ⟨l, hdir, rfl⟩ := of_list h
  refine ⟨hsorted, fun p => (hmem p).trans ⟨?_, ?_⟩⟩
  · rintro ⟨n, hn, hp⟩
    obtain ⟨node, hnode⟩ := (mem_names hs).mp hn
    exact ⟨l, n, hdir, by rw [hnode]; simp, hp⟩
  · rintro ⟨l', n, hdir', hn, hp⟩
    rw [hdir, Except.ok.injEq, Prod.mk.injEq] at hdir'
    obtain ⟨rfl, -⟩ := hdir'
    exact ⟨n, (mem_names hs).mpr (Option.ne_none_iff_exists'.mp hn), hp⟩

end ListsChildren

/-! ### The files of a test -/

lemma TestContents.ofDir_ok {s : Store} {dir : Path} {contents : TestContents}
    (hs : s.WellFormed) (h : ofDir s dir = .ok contents) :
    ListsChildren s dir (fun _ p => s.isDir p = false) contents.files := by
  unfold ofDir listPaths at h
  cases hlist : s.list dir with
  | error => rw [hlist] at h; cases h
  | ok names =>
    rw [hlist] at h
    cases h
    have hpairwise := ListsChildren.pairwise_child hs hlist
    refine .of_sorted hs hlist ((Path.sort_pairwise hpairwise).filter _) fun p => ?_
    rw [List.mem_filter, Path.mem_sort, List.mem_map]
    simp only [Bool.not_eq_true']
    constructor
    · rintro ⟨⟨n, hn, rfl⟩, hdir⟩
      exact ⟨n, hn, rfl, hdir⟩
    · rintro ⟨n, hn, rfl, hdir⟩
      exact ⟨⟨n, hn, rfl⟩, hdir⟩

/-! ### Source roots -/

/-- The name of a module of the library. -/
def IsModuleName (layout : Layout) (n : Bytes) : Prop :=
  ∃ t, Utf8.decode? n = some t ∧ layout.moduleStart <+: t ∧ ¬ layout.moduleEnd <:+ t

lemma isModuleName_iff {layout : Layout} {n : Bytes} :
    isModuleName layout n = true ↔ IsModuleName layout n := by
  unfold isModuleName IsModuleName
  cases Utf8.decode? n with
  | none => simp
  | some t =>
    rw [Bool.and_eq_true, List.isPrefixOf_iff_prefix, Bool.not_eq_true', ← Bool.not_eq_true,
      List.isSuffixOf_iff_suffix]
    simp

namespace SourceRoots

/-- Roots that are all different are registered one behind the other. -/
lemma toList_add {roots : SourceRoots} {p : Path} (h : ∀ q ∈ roots.toList, q.same p = false) :
    (roots.add p).toList = roots.toList ++ [p] := by
  have hany : roots.toList.any (·.same p) = false := by
    rw [List.any_eq_false]
    exact fun q hq => by simp [h q hq]
  rw [add, hany]
  rfl

lemma toList_addAll {roots : SourceRoots} {ps : List Path}
    (h : (roots.toList ++ ps).Pairwise fun p q => p.same q = false) :
    (roots.addAll ps).toList = roots.toList ++ ps := by
  induction ps generalizing roots with
  | nil => exact (List.append_nil _).symm
  | cons p ps ih =>
    have hadd : (roots.add p).toList = roots.toList ++ [p] :=
      toList_add fun q hq => (List.pairwise_append.mp h).2.2 q hq p List.mem_cons_self
    rw [addAll, List.foldl_cons, ← addAll, ih, hadd, List.append_assoc, List.singleton_append]
    rw [hadd, List.append_assoc]
    exact h

end SourceRoots

/-- The library sources come first, and then their modules. -/
lemma libraryRoots_ok {s : Store} {layout : Layout} {src : Path} {library : SourceRoots}
    (hs : s.WellFormed) (h : libraryRoots s layout src = .ok library) :
    ∃ modules, s.isDir src = true ∧
      ListsChildren s src (fun n p => IsModuleName layout n ∧ s.isDir p = true) modules ∧
      library.toList = src :: modules ∧
      (src :: modules).Pairwise fun p q => p.same q = false := by
  unfold libraryRoots at h
  cases hlist : s.list src with
  | error => rw [hlist] at h; cases h
  | ok names =>
    rw [hlist] at h
    cases h
    have hchildren : (((names.filter (isModuleName layout)).map src.child).filter
        s.isDir).Pairwise fun p q => p.same q = false :=
      (ListsChildren.pairwise_child hs hlist).sublist
        (List.filter_sublist.trans (List.filter_sublist.map src.child))
    have hsorted := Path.sort_pairwise hchildren
    have hmem : ∀ p, p ∈ Path.sort (((names.filter (isModuleName layout)).map src.child).filter
        s.isDir) ↔ ∃ n ∈ names, p = src.child n ∧ IsModuleName layout n ∧ s.isDir p = true := by
      intro p
      rw [Path.mem_sort, List.mem_filter, List.mem_map]
      constructor
      · rintro ⟨⟨n, hn, rfl⟩, hdir⟩
        obtain ⟨hn, hmodule⟩ := List.mem_filter.mp hn
        exact ⟨n, hn, rfl, isModuleName_iff.mp hmodule, hdir⟩
      · rintro ⟨n, hn, rfl, hmodule, hdir⟩
        exact ⟨⟨n, List.mem_filter.mpr ⟨hn, isModuleName_iff.mpr hmodule⟩, rfl⟩, hdir⟩
    have hdistinct : (src :: Path.sort (((names.filter (isModuleName layout)).map
        src.child).filter s.isDir)).Pairwise fun p q => p.same q = false := by
      refine List.pairwise_cons.mpr ⟨fun p hp => ?_, hsorted.imp Path.not_same_of_before⟩
      obtain ⟨n, hn, rfl, -⟩ := (hmem p).mp hp
      exact ListsChildren.not_same_self (ListsChildren.isName_of_mem_list hs hlist n hn)
    have hsrc : (SourceRoots.empty.add src).toList = [src] := rfl
    obtain ⟨l, hfind, -⟩ := ListsChildren.of_list hlist
    refine ⟨_, isDir_of_find hfind, .of_sorted hs hlist hsorted hmem, ?_, hdistinct⟩
    rw [SourceRoots.toList_addAll, hsrc, List.singleton_append]
    rwa [hsrc, List.singleton_append]

end Excerpt
