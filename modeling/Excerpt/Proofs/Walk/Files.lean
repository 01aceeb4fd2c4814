import Excerpt.Proofs.Store.Parents
import Excerpt.Proofs.Walk
import Mathlib.Data.List.Perm.Subperm

/-!
# The files that a walk lists

A walk lists exactly what stands beneath its root, is no directory, and has nothing ignored on the
way to it. Each is listed once and in path order, so that this determines the list: neither the
order in which directories are read nor anything that the walk does not come to has an influence.
-/

namespace Excerpt

/-! ### Sorted lists -/

section

variable {α : Type} {less : α → α → Bool}

/-- Lists in increasing order are determined by their members. -/
lemma eq_of_sorted (hirrefl : ∀ a, less a a = false)
    (htrans : ∀ a b c, less a b = true → less b c = true → less a c = true) {as bs : List α}
    (has : as.Pairwise fun a b => less a b = true) (hbs : bs.Pairwise fun a b => less a b = true)
    (h : ∀ a, a ∈ as ↔ a ∈ bs) : as = bs := by
  have hne : ∀ a b, less a b = true → a ≠ b := by
    rintro a b hab rfl
    rw [hirrefl] at hab
    cases hab
  have hperm : as.Perm bs :=
    (List.perm_ext_iff_of_nodup (has.imp (hne _ _)) (hbs.imp (hne _ _))).mpr h
  refine hperm.eq_of_pairwise (fun a b _ _ hab hba => ?_) has hbs
  have := htrans _ _ _ hab hba
  rw [hirrefl] at this
  cases this

/-- Different elements are sorted in increasing order. -/
lemma pairwise_sortBy_of_nodup (h : IsStrictTotal less) {as : List α} (has : as.Nodup) :
    (sortBy less as).Pairwise fun a b => less a b = true :=
  pairwise_sortBy h.trans (has.imp fun {a b} hne => by
    by_contra hno
    rw [not_or, Bool.not_eq_true, Bool.not_eq_true] at hno
    exact hne (h.total a b hno.2 hno.1))

/-- Sorting by a strict and total order takes no notice of the order before. -/
lemma sortBy_eq_of_mem_iff (h : IsStrictTotal less) {as bs : List α} (has : as.Nodup)
    (hbs : bs.Nodup) (hmem : ∀ a, a ∈ as ↔ a ∈ bs) : sortBy less as = sortBy less bs :=
  eq_of_sorted h.irrefl h.trans (pairwise_sortBy_of_nodup h has) (pairwise_sortBy_of_nodup h hbs)
    (by simpa using hmem)

end

/-- Paths in increasing order are determined by which they are. -/
lemma Path.eq_of_sorted {ps qs : List Path} (hps : ps.Pairwise fun p q => p.before q = true)
    (hqs : qs.Pairwise fun p q => p.before q = true) (h : ∀ p, p ∈ ps ↔ p ∈ qs) : ps = qs :=
  Excerpt.eq_of_sorted before_irrefl (fun _ _ _ => before_trans) hps hqs h

namespace Store

variable {s : Store} {l : Location}

/-- As many names as lead to something there are entries at least: one for each of them. -/
lemma WellFormed.length_le_entries (hs : s.WellFormed) (hl : s.get? l ≠ none) :
    l.length ≤ s.entries.length := by
  let fronts := (List.range l.length).map fun i => l.take (i + 1)
  have hnodup : fronts.Nodup := by
    refine (List.nodup_range).map_on fun i hi j hj he => ?_
    have hlength := congrArg List.length he
    rw [List.mem_range] at hi hj
    rw [List.length_take, List.length_take] at hlength
    omega
  have hsub : fronts ⊆ s.entries.map Prod.fst := by
    intro front hfront
    obtain ⟨i, hi, rfl⟩ := List.mem_map.mp hfront
    rw [List.mem_range] at hi
    have hne : l.take (i + 1) ≠ [] := by
      rw [← List.length_pos_iff, List.length_take]
      omega
    have hsome : s.get? (l.take (i + 1)) ≠ none := by
      intro hnone
      exact hl (hs.get?_eq_none_of_prefix hnone (List.take_prefix ..))
    obtain ⟨node, hnode⟩ := Option.ne_none_iff_exists'.mp hsome
    exact List.mem_map.mpr ⟨_, mem_of_get? hne hnode, rfl⟩
  have hle := (hnodup.subperm hsub).length_le
  simpa [fronts] using hle

end Store

namespace Walk

variable {s t : Store} {limits : Limits} {root path rel p : Path} {loc names : Location}
  {n : Bytes} {depth fuel : Nat} {ps : List Path} {e : WalkEntry}

/-! ### What a walk comes to -/

/-- The path relative to the root, one name further. -/
def relativeChild (rel : Path) (n : Bytes) : Path :=
  if rel = Path.empty then ⟨n⟩ else rel.child n

/-- Names of which none is ignored, and that do not lead too deep. -/
def Passes (limits : Limits) : (rel : Path) → (depth : Nat) → Location → Prop
  | _, _, [] => True
  | rel, depth, n :: names => limits.reaches (depth + 1) = true ∧
      limits.ignored (relativeChild rel n) = false ∧
      Passes limits (relativeChild rel n) (depth + 1) names

/-- What a walk lists for one name in a directory. -/
def belowName (s : Store) (limits : Limits) (fuel : Nat) (loc : Location) (path rel : Path)
    (depth : Nat) (n : Bytes) : List WalkEntry :=
  if limits.ignored (relativeChild rel n) then []
  else if (s.get? (loc ++ [n])).any Node.isDir then
    ⟨path.child n, true, depth + 1⟩ ::
      below s limits fuel (loc ++ [n]) (path.child n) (relativeChild rel n) (depth + 1)
  else [⟨path.child n, false, depth + 1⟩]

lemma below_succ : below s limits (fuel + 1) loc path rel depth =
    if limits.reaches (depth + 1) then
      (sortBy Bytes.before (s.names loc)).flatMap (belowName s limits fuel loc path rel depth)
    else [] := rfl

lemma mem_belowName_iff : e ∈ belowName s limits fuel loc path rel depth n ↔
    limits.ignored (relativeChild rel n) = false ∧
      (e = ⟨path.child n, (s.get? (loc ++ [n])).any Node.isDir, depth + 1⟩ ∨
        (s.get? (loc ++ [n])).any Node.isDir = true ∧
          e ∈ below s limits fuel (loc ++ [n]) (path.child n) (relativeChild rel n) (depth + 1)) := by
  unfold belowName
  cases limits.ignored (relativeChild rel n) with
  | true => simp
  | false => cases (s.get? (loc ++ [n])).any Node.isDir <;> simp

lemma mem_below_succ_iff (hs : s.WellFormed) :
    e ∈ below s limits (fuel + 1) loc path rel depth ↔ limits.reaches (depth + 1) = true ∧
      ∃ n, s.get? (loc ++ [n]) ≠ none ∧ e ∈ belowName s limits fuel loc path rel depth n := by
  rw [below_succ]
  split <;> rename_i hreach
  · simp only [List.mem_flatMap, mem_sortBy, Store.mem_names hs, Option.ne_none_iff_exists', hreach,
      true_and]
  · simp [hreach]

/-- A walk comes to what stands beneath its location, not too far down, with nothing ignored on the
way. -/
lemma mem_below_iff (hs : s.WellFormed) :
    e ∈ below s limits fuel loc path rel depth ↔
      ∃ names node, names ≠ [] ∧ names.length ≤ fuel ∧ s.get? (loc ++ names) = some node ∧
        Passes limits rel depth names ∧
        e = ⟨Store.chain path names, node.isDir, depth + names.length⟩ := by
  induction fuel generalizing loc path rel depth with
  | zero =>
    constructor
    · intro he
      cases he
    · rintro ⟨names, node, hne, hlength, -⟩
      exact absurd (List.length_eq_zero_iff.mp (Nat.le_zero.mp hlength)) hne
  | succ fuel ih =>
    constructor
    · intro he
      obtain ⟨hreach, n, hn, he⟩ := (mem_below_succ_iff hs).mp he
      obtain ⟨node, hnode⟩ := Option.ne_none_iff_exists'.mp hn
      obtain ⟨hignored, rfl | ⟨-, he⟩⟩ := mem_belowName_iff.mp he
      · refine ⟨[n], node, by simp, by simp, hnode, ⟨hreach, hignored, trivial⟩, ?_⟩
        simp [hnode, Store.chain]
      · obtain ⟨names, node', hne, hlength, hnode', hpasses, rfl⟩ := ih.mp he
        rw [List.append_assoc] at hnode'
        refine ⟨n :: names, node', by simp, by simpa using hlength, hnode',
          ⟨hreach, hignored, hpasses⟩, ?_⟩
        rw [List.length_cons, Nat.add_right_comm]
        rfl
    · rintro ⟨names, node, hne, hlength, hnode, hpasses, rfl⟩
      obtain ⟨n, names, rfl⟩ := List.exists_cons_of_ne_nil hne
      obtain ⟨hreach, hignored, hpasses⟩ := hpasses
      have hsome : s.get? (loc ++ n :: names) ≠ none := by rw [hnode]; simp
      have hfirst : loc ++ [n] <+: loc ++ n :: names :=
        (List.prefix_append_right_inj loc).mpr (List.cons_prefix_cons.mpr ⟨rfl, List.nil_prefix⟩)
      have hn : s.get? (loc ++ [n]) ≠ none := fun hnone =>
        hsome (hs.get?_eq_none_of_prefix hnone hfirst)
      refine (mem_below_succ_iff hs).mpr ⟨hreach, n, hn, mem_belowName_iff.mpr ⟨hignored, ?_⟩⟩
      cases names with
      | nil =>
        refine Or.inl ?_
        rw [hnode]
        rfl
      | cons m names =>
        have hdir : s.get? (loc ++ [n]) = some .dir :=
          (hs.get?_of_prefix hsome hfirst).resolve_left (by simp)
        have hdepth : depth + (n :: m :: names).length = depth + 1 + (m :: names).length := by
          simp only [List.length_cons]
          omega
        refine Or.inr ⟨by rw [hdir]; rfl, ih.mpr ⟨m :: names, node, by simp, by simpa using hlength,
          by simpa using hnode, hpasses, ?_⟩⟩
        rw [hdepth]
        rfl

/-- Something that is no directory stands at the location. -/
def HoldsFile (s : Store) (l : Location) : Prop := ∃ node, s.get? l = some node ∧ node.isDir = false

lemma exists_file_below_iff (hs : s.WellFormed) :
    (∃ e ∈ below s limits fuel loc path rel depth, e.path = p ∧ e.isDir = false) ↔
      ∃ names, names ≠ [] ∧ names.length ≤ fuel ∧ p = Store.chain path names ∧
        Passes limits rel depth names ∧ HoldsFile s (loc ++ names) := by
  simp only [mem_below_iff hs]
  constructor
  · rintro ⟨_, ⟨names, node, hne, hlength, hnode, hpasses, rfl⟩, rfl, hfile⟩
    exact ⟨names, hne, hlength, rfl, hpasses, node, hnode, hfile⟩
  · rintro ⟨names, hne, hlength, rfl, hpasses, node, hnode, hfile⟩
    exact ⟨_, ⟨names, node, hne, hlength, hnode, hpasses, rfl⟩, rfl, hfile⟩

/-- What is listed for a name is the name itself, or at least one name further. -/
lemma components_of_mem_belowName (hs : s.WellFormed) (hn : Path.IsName n)
    (he : e ∈ belowName s limits fuel loc path rel depth n) :
    ∃ names : Location, e.path.components = path.components ++ .name n :: names.map .name := by
  obtain ⟨-, rfl | ⟨-, he⟩⟩ := mem_belowName_iff.mp he
  · exact ⟨[], Path.components_child path hn⟩
  · obtain ⟨names, node, -, -, hnode, -, rfl⟩ := (mem_below_iff hs).mp he
    have hnames : ∀ k ∈ names, Path.IsName k := fun k hk =>
      (hs.isEntryName (by rw [hnode]; simp) (List.mem_append_right _ hk)).isName
    refine ⟨names, ?_⟩
    rw [Store.components_chain _ hnames, Path.components_child path hn]
    simp

/-- A walk goes in path order, so that it meets a directory before what the directory holds. -/
lemma pairwise_below (hs : s.WellFormed) :
    (below s limits fuel loc path rel depth).Pairwise fun e e' => e.path.before e'.path = true := by
  induction fuel generalizing loc path rel depth with
  | zero => exact .nil
  | succ fuel ih =>
    have hname : ∀ n ∈ sortBy Bytes.before (s.names loc), Path.IsName n := by
      intro n hn
      obtain ⟨node, hnode⟩ := (Store.mem_names hs).mp (mem_sortBy.mp hn)
      exact (hs.isEntryName (by rw [hnode]; simp) (List.mem_append_right loc (by simp))).isName
    rw [below_succ]
    split
    · refine List.pairwise_flatMap.mpr ⟨fun n hn => ?_, ?_⟩
      · -- What stands beneath a name has a longer path.
        unfold belowName
        split
        · exact .nil
        · split
          · refine List.pairwise_cons.mpr ⟨fun e he => ?_, ih⟩
            obtain ⟨names, node, hne, -, hnode, -, rfl⟩ := (mem_below_iff hs).mp he
            have hnames : ∀ k ∈ names, Path.IsName k := fun k hk =>
              (hs.isEntryName (by rw [hnode]; simp) (List.mem_append_right _ hk)).isName
            obtain ⟨m, names, rfl⟩ := List.exists_cons_of_ne_nil hne
            have hlonger := Component.listBefore_append_left (path.child n).components []
              ((m :: names).map .name)
            rw [List.append_nil] at hlonger
            rw [Path.before, Store.components_chain _ hnames, hlonger]
            rfl
          · exact List.pairwise_singleton _ _
      · -- Paths beneath two names are in the order of these.
        refine (pairwise_sortBy_of_nodup Bytes.isStrictTotal_before
          (Store.nodup_names hs)).imp_of_mem ?_
        intro n m hn hm hbefore e he e' he'
        obtain ⟨more, hmore⟩ := components_of_mem_belowName hs (hname n hn) he
        obtain ⟨more', hmore'⟩ := components_of_mem_belowName hs (hname m hm) he'
        rw [Path.before, hmore, hmore', Component.listBefore_append_left, Component.listBefore,
          Component.before, hbefore, Bool.true_or]
    · exact .nil

/-! ### The list of files -/

/-- The files of a walk, in path order and each once. -/
theorem mem_files_iff (hs : s.WellFormed) (h : files s limits root = .ok ps) :
    (ps.Pairwise fun p q => p.before q = true) ∧
      ∀ p, p ∈ ps ↔ root.same standardInput = false ∧ ∃ loc names, s.find true root = .ok (loc, .dir) ∧
        names ≠ [] ∧ p = Store.chain root names ∧ Passes limits Path.empty 0 names ∧
        HoldsFile s (loc ++ names) := by
  unfold files entries at h
  split at h
  · rename_i hroot
    cases h
    exact ⟨.nil, fun p => by simp [hroot, Path.sort, sortBy]⟩
  · rename_i hroot
    split at h
    · cases h
    · rename_i loc hfind
      cases h
      have hpairwise : (((below s limits (s.entries.length + 1) loc root Path.empty 0).filter
          (!·.isDir)).map (·.path)).Pairwise fun p q => p.same q = false :=
        List.pairwise_map.mpr (((pairwise_below hs).imp Path.not_same_of_before).sublist
          List.filter_sublist)
      refine ⟨Path.sort_pairwise hpairwise, fun p => ?_⟩
      rw [Path.mem_sort, List.mem_map]
      have hmem : (∃ e, e ∈ (below s limits (s.entries.length + 1) loc root Path.empty 0).filter
          (!·.isDir) ∧ e.path = p) ↔ ∃ e ∈ below s limits (s.entries.length + 1) loc root
          Path.empty 0, e.path = p ∧ e.isDir = false := by
        simp only [List.mem_filter, Bool.not_eq_true', and_assoc]
        exact exists_congr fun e => and_congr_right fun _ => and_comm
      rw [hmem, exists_file_below_iff hs]
      constructor
      · rintro ⟨names, hne, -, hp, hpasses, hfile⟩
        exact ⟨Bool.eq_false_iff.mpr hroot, loc, names, hfind, hne, hp, hpasses, hfile⟩
      · rintro ⟨-, loc', names, hfind', hne, hp, hpasses, node, hnode, hfile⟩
        rw [hfind, Except.ok.injEq, Prod.mk.injEq] at hfind'
        obtain ⟨rfl, -⟩ := hfind'
        have hlength := hs.length_le_entries (l := loc ++ names) (by rw [hnode]; simp)
        rw [List.length_append] at hlength
        exact ⟨names, hne, by omega, hp, hpasses, node, hnode, hfile⟩
    · rename_i hnotdir hfind
      cases h
      refine ⟨.nil, fun p => ?_⟩
      constructor
      · intro hp
        cases hp
      · rintro ⟨-, loc, names, hfind', -⟩
        rw [hfind, Except.ok.injEq] at hfind'
        exact absurd hfind' (hnotdir loc)

/-- Two stores in which the root leads to one place, and that hold the same files where a walk from
there can come, give the same list. -/
theorem files_eq (hs : s.WellFormed) (ht : t.WellFormed)
    (hfind : t.find true root = s.find true root)
    (hfiles : ∀ loc names, s.find true root = .ok (loc, .dir) → names ≠ [] →
      Passes limits Path.empty 0 names → (HoldsFile t (loc ++ names) ↔ HoldsFile s (loc ++ names))) :
    files t limits root = files s limits root := by
  cases hps : files s limits root with
  | error failure =>
    unfold files entries at hps ⊢
    rw [hfind]
    split at hps
    · cases hps
    · rename_i hroot
      rw [if_neg hroot]
      split at hps
      · cases hps
        rfl
      · cases hps
      · cases hps
  | ok ps =>
    obtain ⟨qs, hqs⟩ : ∃ qs, files t limits root = .ok qs := by
      unfold files entries at hps ⊢
      rw [hfind]
      split at hps
      · rename_i hroot
        rw [if_pos hroot]
        exact ⟨_, rfl⟩
      · rename_i hroot
        rw [if_neg hroot]
        split at hps
        · cases hps
        · exact ⟨_, rfl⟩
        · exact ⟨_, rfl⟩
    obtain ⟨hsorted, hmem⟩ := mem_files_iff hs hps
    obtain ⟨hsorted', hmem'⟩ := mem_files_iff ht hqs
    rw [hqs, Path.eq_of_sorted hsorted' hsorted fun p => ?_]
    rw [hmem, hmem', hfind]
    refine and_congr_right fun _ => exists_congr fun loc => exists_congr fun names =>
      and_congr_right fun hloc => and_congr_right fun hne => and_congr_right fun _ =>
        and_congr_right fun hpasses => hfiles loc names hloc hne hpasses

/-! ### All entries -/

/-- Beneath a location where two stores hold the same, walks come to the same, as long as neither of
them is cut short. -/
lemma below_eq (hs : s.WellFormed) (ht : t.WellFormed) {fuel' : Nat}
    (hget : ∀ names, t.get? (loc ++ names) = s.get? (loc ++ names))
    (hfuel : ∀ names, s.get? (loc ++ names) ≠ none → names.length < fuel ∧ names.length < fuel') :
    below t limits fuel' loc path rel depth = below s limits fuel loc path rel depth := by
  by_cases hloc : s.get? loc = none
  · have hnames : ∀ {u : Store}, u.WellFormed → u.get? loc = none → u.names loc = [] := by
      intro u hu hfree
      refine List.eq_nil_iff_forall_not_mem.mpr fun n hn => ?_
      obtain ⟨node, hnode⟩ := (Store.mem_names hu).mp hn
      rw [hu.get?_eq_none_of_prefix hfree (List.prefix_append ..)] at hnode
      cases hnode
    have hempty : ∀ {u : Store} {k : Nat}, u.WellFormed → u.get? loc = none →
        below u limits k loc path rel depth = [] := by
      intro u k hu hfree
      cases k with
      | zero => rfl
      | succ k =>
        rw [below_succ, hnames hu hfree]
        split <;> rfl
    rw [hempty hs hloc, hempty ht (by simpa [hloc] using hget [])]
  · induction fuel generalizing fuel' loc path rel depth with
    | zero => exact absurd (hfuel [] (by simpa using hloc)).1 (by simp)
    | succ fuel ih =>
      obtain ⟨fuel', rfl⟩ : ∃ k, fuel' = k + 1 :=
        Nat.exists_eq_add_one.mpr (hfuel [] (by simpa using hloc)).2
      have hnames : sortBy Bytes.before (t.names loc) = sortBy Bytes.before (s.names loc) := by
        refine sortBy_eq_of_mem_iff Bytes.isStrictTotal_before (Store.nodup_names ht) (Store.nodup_names hs)
          fun n => ?_
        rw [Store.mem_names ht, Store.mem_names hs, hget]
      rw [below_succ, below_succ, hnames]
      split
      · refine List.flatMap_congr fun n hn => ?_
        obtain ⟨node, hnode⟩ := (Store.mem_names hs).mp (mem_sortBy.mp hn)
        unfold belowName
        have hchild : ∀ names, t.get? (loc ++ [n] ++ names) = s.get? (loc ++ [n] ++ names) := by
          intro names
          simpa using hget (n :: names)
        rw [hget, ih hchild]
        · intro names hne
          have := hfuel (n :: names) (by simpa using hne)
          simpa using this
        · rw [hnode]
          simp
      · rfl

/-- Two stores in which the root leads to one place, and that hold the same there and beneath, are
walked in the same way. -/
theorem entries_eq (hs : s.WellFormed) (ht : t.WellFormed)
    (hfind : t.find true root = s.find true root)
    (hget : ∀ loc names, s.find true root = .ok (loc, .dir) →
      t.get? (loc ++ names) = s.get? (loc ++ names)) :
    entries t limits root = entries s limits root := by
  unfold entries
  rw [hfind]
  split
  · rfl
  · cases hroot : s.find true root with
    | error fault => rfl
    | ok found =>
      obtain ⟨loc, node⟩ := found
      cases node with
      | dir =>
        refine congrArg Except.ok (below_eq hs ht (fun names => hget loc names hroot) ?_)
        intro names hne
        have hlength := hs.length_le_entries hne
        have hlength' := ht.length_le_entries (by rwa [hget loc names hroot])
        rw [List.length_append] at hlength hlength'
        omega
      | file | link => rfl

end Walk

end Excerpt
