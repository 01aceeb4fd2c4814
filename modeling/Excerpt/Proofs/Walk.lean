import Excerpt.Proofs.Path.Order
import Excerpt.Proofs.Store.Children
import Excerpt.Walk

/-!
# What a walk meets

Everything met on a walk is a chain of names beneath the root, and it stands where this chain leads
from the directory that the root leads to. Sorting and grouping only arrange what was met.
-/

namespace Excerpt

namespace Walk

variable {s : Store} {limits : Limits} {root : Path} {e : WalkEntry}

/-- An entry of a walk, by the names on the way from a location. -/
def Met (s : Store) (loc : Location) (root : Path) (e : WalkEntry) : Prop :=
  ∃ names, names ≠ [] ∧ e.path = Store.chain root names ∧
    ∃ node, s.get? (loc ++ names) = some node ∧ node.isDir = e.isDir

lemma Met.cons {loc : Location} {n : Bytes} (h : Met s (loc ++ [n]) (root.child n) e) :
    Met s loc root e := by
  obtain ⟨names, -, hpath, node, hnode, hdir⟩ := h
  refine ⟨n :: names, by simp, hpath, node, ?_, hdir⟩
  rw [← hnode, List.append_assoc]
  rfl

lemma met_of_mem_below (hs : s.WellFormed) {fuel : Nat} {loc : Location} {path rel : Path}
    {depth : Nat} (h : e ∈ below s limits fuel loc path rel depth) : Met s loc path e := by
  induction fuel generalizing loc path rel depth with
  | zero => cases h
  | succ fuel ih =>
    rw [below] at h
    split at h
    · obtain ⟨n, hn, he⟩ := List.mem_flatMap.mp h
      obtain ⟨node, hnode⟩ := (Store.mem_names hs).mp (mem_sortBy.mp hn)
      have hown : ∀ e : WalkEntry, e.path = path.child n → e.isDir = node.isDir →
          Met s loc path e :=
        fun e hp hd => ⟨[n], by simp, hp, node, hnode, hd.symm⟩
      simp only [hnode] at he
      generalize (if rel = Path.empty then (⟨n⟩ : Path) else rel.child n) = rel' at he
      split at he
      · cases he
      · split at he
        · rename_i hdir
          rcases List.mem_cons.mp he with rfl | he
          · exact hown _ rfl (by simpa using hdir.symm)
          · exact (ih he).cons
        · rename_i hdir
          rw [List.mem_singleton] at he
          subst he
          exact hown _ rfl (by simpa using hdir)
    · cases h

/-- What a walk lists lies beneath the directory that its root leads to. -/
theorem met_of_mem_entries (hs : s.WellFormed) {es : List WalkEntry}
    (h : entries s limits root = .ok es) (he : e ∈ es) :
    ∃ loc, s.find true root = .ok (loc, .dir) ∧ Met s loc root e := by
  unfold entries at h
  split at h
  · cases h
    cases he
  · split at h
    · cases h
    · rename_i loc hfind
      cases h
      exact ⟨loc, hfind, met_of_mem_below hs he⟩
    · cases h
      cases he

/-! ### Files -/

lemma of_mem_files {ps : List Path} {p : Path} (h : files s limits root = .ok ps) (hp : p ∈ ps) :
    ∃ es, entries s limits root = .ok es ∧ ∃ e ∈ es, e.path = p ∧ e.isDir = false := by
  unfold files at h
  cases hes : entries s limits root with
  | error => rw [hes] at h; cases h
  | ok es =>
    rw [hes] at h
    cases h
    obtain ⟨e, he, rfl⟩ := List.mem_map.mp (Path.mem_sort.mp hp)
    obtain ⟨hmem, hdir⟩ := List.mem_filter.mp he
    exact ⟨es, rfl, e, hmem, rfl, by simpa using hdir⟩

lemma mem_addToGroup {dir file : Path} {groups : List (Path × List Path)} {g : Path × List Path}
    {p : Path} (hg : g ∈ addToGroup dir file groups) (hp : p ∈ g.2) :
    p = file ∨ ∃ g ∈ groups, p ∈ g.2 := by
  induction groups with
  | nil =>
    rw [addToGroup, List.mem_singleton] at hg
    rw [hg] at hp
    exact Or.inl (List.mem_singleton.mp hp)
  | cons first groups ih =>
    rw [addToGroup] at hg
    split at hg
    · rcases List.mem_cons.mp hg with rfl | hg
      · rcases List.mem_append.mp hp with hp | hp
        · exact Or.inr ⟨first, List.mem_cons_self, hp⟩
        · exact Or.inl (List.mem_singleton.mp hp)
      · exact Or.inr ⟨g, List.mem_cons_of_mem _ hg, hp⟩
    · split at hg
      · rcases List.mem_cons.mp hg with rfl | hg
        · exact Or.inr ⟨g, List.mem_cons_self, hp⟩
        · rcases ih hg with h | ⟨g', hg', hp⟩
          · exact Or.inl h
          · exact Or.inr ⟨g', List.mem_cons_of_mem _ hg', hp⟩
      · rcases List.mem_cons.mp hg with rfl | hg
        · exact Or.inl (List.mem_singleton.mp hp)
        · exact Or.inr ⟨g, hg, hp⟩

/-- Grouping makes up no files. -/
lemma mem_of_mem_groupByDir {ps : List Path} {g : Path × List Path} {p : Path}
    (hg : g ∈ groupByDir ps) (hp : p ∈ g.2) : p ∈ ps := by
  have hfold : ∀ (ps : List Path) (groups : List (Path × List Path)),
      g ∈ ps.foldl (fun groups p => addToGroup (p.parent?.getD Path.empty) p groups) groups →
      p ∈ ps ∨ ∃ g ∈ groups, p ∈ g.2 := by
    intro ps
    induction ps with
    | nil => exact fun groups h => Or.inr ⟨g, h, hp⟩
    | cons q ps ih =>
      intro groups h
      rcases ih _ h with h | ⟨g', hg', hp'⟩
      · exact Or.inl (List.mem_cons_of_mem _ h)
      · rcases mem_addToGroup hg' hp' with rfl | h
        · exact Or.inl List.mem_cons_self
        · exact Or.inr h
  rcases hfold ps [] hg with h | ⟨_, h, _⟩
  · exact h
  · cases h

/-- A file in a group is no directory and lies beneath the root. -/
theorem met_of_mem_filesByDir (hs : s.WellFormed) {groups : List (Path × List Path)}
    {g : Path × List Path} {p : Path} (h : filesByDir s limits root = .ok groups)
    (hg : g ∈ groups) (hp : p ∈ g.2) :
    ∃ loc, s.find true root = .ok (loc, .dir) ∧ ∃ names, names ≠ [] ∧ p = Store.chain root names ∧
      ∃ node, s.get? (loc ++ names) = some node ∧ node.isDir = false := by
  unfold filesByDir at h
  cases hfiles : files s limits root with
  | error => rw [hfiles] at h; cases h
  | ok ps =>
    rw [hfiles] at h
    cases h
    obtain ⟨es, hes, e, he, rfl, hdir⟩ := of_mem_files hfiles (mem_of_mem_groupByDir hg hp)
    obtain ⟨loc, hfind, names, hne, hpath, node, hnode, hisDir⟩ := met_of_mem_entries hs hes he
    exact ⟨loc, hfind, names, hne, hpath, node, hnode, hisDir.trans hdir⟩

/-! ### Failures -/

/-- Globs are refused for one of them that cannot be read. -/
lemma of_globs_eq_error {ts : List Text} {failure : Failure} (h : globs ts = .error failure) :
    ∃ t ∈ ts, Glob.ofText? t = none ∧ failure = .badGlob t := by
  induction ts with
  | nil => cases h
  | cons t ts ih =>
    rw [globs] at h
    split at h
    · rename_i hnone
      cases h
      exact ⟨t, List.mem_cons_self, hnone, rfl⟩
    · cases hrest : globs ts with
      | ok gs => rw [hrest] at h; cases h
      | error e =>
        rw [hrest] at h
        cases h
        obtain ⟨t', ht', hnone, rfl⟩ := ih hrest
        exact ⟨t', List.mem_cons_of_mem _ ht', hnone, rfl⟩

/-- A walk fails at its root. -/
lemma of_filesByDir_eq_error {failure : Failure} (h : filesByDir s limits root = .error failure) :
    ∃ fault, failure = .walk root fault := by
  unfold filesByDir files entries at h
  split at h
  · cases h
  · split at h
    · cases h
      exact ⟨_, rfl⟩
    · cases h
    · cases h

end Walk

end Excerpt
