import Excerpt.Proofs.Path.Listing
import Excerpt.Proofs.Walk

/-!
# Files in groups

A list of files is grouped by adding each file to the group of its directory. In the end there is a
group for each directory that a file is in, in path order, and each group has the files of its
directory in their order. So the groups of a list in path order, one behind the other, list the
files by directory and name.
-/

namespace Excerpt

namespace Walk

variable {ps : List Path} {groups kept : List (Path × List Path)} {dir file p : Path}

/-- Groups by directory: one for each directory that a file is in, with its files in order. -/
structure Grouped (ps : List Path) (groups : List (Path × List Path)) : Prop where
  sorted : (groups.map (·.1)).Pairwise fun d e => d.before e = true
  files : ∀ g ∈ groups, g.2 = ps.filter (g.1.same ·.dir)
  covers : ∀ p ∈ ps, ∃ d ∈ groups.map (·.1), d.same p.dir = true

/-! ### One more file -/

/-- How a file is added: it goes to the end of the group of its directory, or to a new group at the
place of its directory. -/
inductive Joins (dir file : Path) (groups : List (Path × List Path)) :
    List (Path × List Path) → Prop where
  | old {front back : List (Path × List Path)} {g : Path × List Path} :
      groups = front ++ g :: back → g.1.same dir = true →
      Joins dir file groups (front ++ (g.1, g.2 ++ [file]) :: back)
  | new {front back : List (Path × List Path)} : groups = front ++ back →
      (∀ g ∈ front, g.1.before dir = true) → (∀ g ∈ back, dir.before g.1 = true) →
      Joins dir file groups (front ++ (dir, [file]) :: back)

lemma joins_addToGroup (dir file : Path)
    (h : (groups.map (·.1)).Pairwise fun d e => d.before e = true) :
    Joins dir file groups (addToGroup dir file groups) := by
  induction groups with
  | nil => exact @Joins.new dir file [] [] [] rfl (by simp) (by simp)
  | cons g groups ih =>
    rw [List.map_cons, List.pairwise_cons] at h
    rw [addToGroup]
    by_cases hsame : g.1.same dir = true
    · rw [if_pos hsame]
      exact @Joins.old dir file _ [] groups g rfl hsame
    · rw [if_neg hsame]
      by_cases hbefore : g.1.before dir = true
      · rw [if_pos hbefore]
        generalize addToGroup dir file groups = joined at ih
        cases ih h.2 with
        | @old front back g' he hsame' =>
          exact @Joins.old dir file _ (g :: front) back g' (by rw [he]; rfl) hsame'
        | @new front back he hfront hback =>
          refine @Joins.new dir file _ (g :: front) back (by rw [he]; rfl) (fun g' hg' => ?_) hback
          rcases List.mem_cons.mp hg' with rfl | hg'
          · exact hbefore
          · exact hfront g' hg'
      · rw [if_neg hbefore]
        have hafter : dir.before g.1 = true := by
          by_contra hno
          rw [Bool.not_eq_true] at hbefore hno
          exact hsame (Path.same_of_not_before hbefore hno)
        refine @Joins.new dir file _ [] (g :: groups) rfl (by simp) fun g' hg' => ?_
        rcases List.mem_cons.mp hg' with rfl | hg'
        · exact hafter
        · exact Path.before_trans hafter (h.1 _ (List.mem_map_of_mem hg'))

/-- A group of another directory is as before. -/
lemma filter_concat_of_not_same (h : dir.same p.dir = false) :
    (ps ++ [p]).filter (dir.same ·.dir) = ps.filter (dir.same ·.dir) := by
  rw [List.filter_append]
  simp [h]

lemma filter_concat_of_same (h : dir.same p.dir = true) :
    (ps ++ [p]).filter (dir.same ·.dir) = ps.filter (dir.same ·.dir) ++ [p] := by
  rw [List.filter_append]
  simp [h]

section

variable {front back : List (Path × List Path)} {g : Path × List Path}

lemma Grouped.files_of_not_same (h : Grouped ps groups) (hg : g ∈ groups)
    (hsame : g.1.same p.dir = false) : g.2 = (ps ++ [p]).filter (g.1.same ·.dir) := by
  rw [filter_concat_of_not_same hsame, h.files g hg]

/-- One more file in a group that is there. -/
lemma Grouped.addOld (h : Grouped ps (front ++ g :: back)) (hsame : g.1.same p.dir = true) :
    Grouped (ps ++ [p]) (front ++ (g.1, g.2 ++ [p]) :: back) := by
  have hsorted := h.sorted
  rw [List.map_append, List.map_cons, List.pairwise_append, List.pairwise_cons] at hsorted
  obtain ⟨-, ⟨hback, -⟩, hfront⟩ := hsorted
  refine ⟨by simpa using h.sorted, fun g' hg' => ?_, fun q hq => ?_⟩
  · rcases List.mem_append.mp hg' with hg' | hg'
    · refine h.files_of_not_same (by simp [hg'])
        (Path.not_same_of_before (Path.before_same ?_ hsame))
      exact hfront _ (List.mem_map_of_mem hg') _ List.mem_cons_self
    · rcases List.mem_cons.mp hg' with rfl | hg'
      · rw [filter_concat_of_same hsame, ← h.files g (by simp)]
      · refine h.files_of_not_same (by simp [hg']) ?_
        rw [Path.same_comm] at hsame ⊢
        exact Path.not_same_of_before
          (Path.before_of_same hsame (hback _ (List.mem_map_of_mem hg')))
  · rcases List.mem_append.mp hq with hq | hq
    · simpa using h.covers q hq
    · rw [List.mem_singleton.mp hq]
      exact ⟨g.1, by simp, hsame⟩

/-- A file whose directory is that of no group is the first one in its directory. -/
lemma Grouped.filter_eq_nil (h : Grouped ps groups) (hnew : ∀ g ∈ groups, g.1.same p.dir = false) :
    ps.filter (p.dir.same ·.dir) = [] := by
  refine List.filter_eq_nil_iff.mpr fun q hq hsame => ?_
  obtain ⟨d, hd, hsame'⟩ := h.covers q hq
  obtain ⟨g, hg, rfl⟩ := List.mem_map.mp hd
  rw [Path.same_comm] at hsame
  exact Bool.noConfusion ((hnew g hg).symm.trans (Path.same_trans hsame' hsame))

/-- The first file in its directory, in a new group. -/
lemma Grouped.addNew (h : Grouped ps (front ++ back))
    (hfront : ∀ g ∈ front, g.1.before p.dir = true) (hback : ∀ g ∈ back, p.dir.before g.1 = true) :
    Grouped (ps ++ [p]) (front ++ (p.dir, [p]) :: back) := by
  have hnew : ∀ g ∈ front ++ back, g.1.same p.dir = false := by
    intro g hg
    rcases List.mem_append.mp hg with hg | hg
    · exact Path.not_same_of_before (hfront g hg)
    · rw [Path.same_comm]
      exact Path.not_same_of_before (hback g hg)
  have hold : ∀ g ∈ front ++ back, g.2 = (ps ++ [p]).filter (g.1.same ·.dir) :=
    fun g hg => h.files_of_not_same hg (hnew g hg)
  refine ⟨?_, fun g hg => ?_, fun q hq => ?_⟩
  · have hsorted := h.sorted
    rw [List.map_append, List.pairwise_append] at hsorted
    rw [List.map_append, List.map_cons, List.pairwise_append, List.pairwise_cons]
    refine ⟨hsorted.1, ⟨by simpa using hback, hsorted.2.1⟩, fun d hd e he => ?_⟩
    rcases List.mem_cons.mp he with rfl | he
    · obtain ⟨g, hg, rfl⟩ := List.mem_map.mp hd
      exact hfront g hg
    · exact hsorted.2.2 d hd e he
  · rcases List.mem_append.mp hg with hg | hg
    · exact hold g (List.mem_append_left _ hg)
    · rcases List.mem_cons.mp hg with rfl | hg
      · rw [filter_concat_of_same (Path.same_refl p.dir), h.filter_eq_nil hnew]
        rfl
      · exact hold g (List.mem_append_right _ hg)
  · rcases List.mem_append.mp hq with hq | hq
    · obtain ⟨d, hd, hsame⟩ := h.covers q hq
      refine ⟨d, ?_, hsame⟩
      rw [List.map_append, List.map_cons]
      rw [List.map_append] at hd
      exact List.mem_append.mpr ((List.mem_append.mp hd).imp_right (List.mem_cons_of_mem _))
    · rw [List.mem_singleton.mp hq]
      exact ⟨p.dir, by simp, Path.same_refl p.dir⟩

end

lemma Grouped.add (h : Grouped ps groups) (p : Path) :
    Grouped (ps ++ [p]) (addToGroup p.dir p groups) := by
  have hjoins := joins_addToGroup p.dir p h.sorted
  generalize addToGroup p.dir p groups = joined at hjoins
  cases hjoins with
  | old he hsame =>
    subst he
    exact h.addOld hsame
  | new he hfront hback =>
    subst he
    exact h.addNew hfront hback

/-- Grouping gives groups. -/
theorem grouped_groupByDir (ps : List Path) : Grouped ps (groupByDir ps) := by
  induction ps using List.reverseRecOn with
  | nil => exact ⟨.nil, by simp [groupByDir], by simp⟩
  | append_singleton ps p ih =>
    rw [groupByDir, List.foldl_append]
    exact ih.add p

/-! ### The files of the groups -/

lemma Joins.perm {file : Path} {joined : List (Path × List Path)}
    (h : Joins dir file groups joined) :
    (joined.flatMap (·.2)).Perm (groups.flatMap (·.2) ++ [file]) := by
  cases h with
  | @old front back g he _ =>
    subst he
    simp only [List.flatMap_append, List.flatMap_cons, List.append_assoc]
    apply List.Perm.append_left
    apply List.Perm.append_left
    exact List.perm_append_comm
  | @new front back he _ _ =>
    subst he
    simp only [List.flatMap_append, List.flatMap_cons, List.append_assoc]
    apply List.Perm.append_left
    exact List.perm_append_comm

lemma Joins.ne_nil {file : Path} {joined : List (Path × List Path)}
    (h : Joins dir file groups joined) (hgroups : ∀ g ∈ groups, g.2 ≠ []) :
    ∀ g ∈ joined, g.2 ≠ [] := by
  intro g hg
  cases h with
  | old he _ =>
    subst he
    rcases List.mem_append.mp hg with hg | hg
    · exact hgroups g (by simp [hg])
    · rcases List.mem_cons.mp hg with rfl | hg
      · simp
      · exact hgroups g (by simp [hg])
  | new he _ _ =>
    subst he
    rcases List.mem_append.mp hg with hg | hg
    · exact hgroups g (by simp [hg])
    · rcases List.mem_cons.mp hg with rfl | hg
      · simp
      · exact hgroups g (by simp [hg])

/-- Grouping loses no file and takes none twice, and it makes no group without files. -/
theorem perm_groupByDir (ps : List Path) :
    ((groupByDir ps).flatMap (·.2)).Perm ps ∧ ∀ g ∈ groupByDir ps, g.2 ≠ [] := by
  induction ps using List.reverseRecOn with
  | nil => simp [groupByDir]
  | append_singleton ps p ih =>
    have hjoins := joins_addToGroup p.dir p (grouped_groupByDir ps).sorted
    rw [groupByDir, List.foldl_append]
    constructor
    · exact hjoins.perm.trans (ih.1.append_right [p])
    · exact hjoins.ne_nil ih.2

lemma Grouped.mem_iff (h : Grouped ps groups) {g : Path × List Path} (hg : g ∈ groups) :
    p ∈ g.2 ↔ p ∈ ps ∧ g.1.same p.dir = true := by
  rw [h.files g hg, List.mem_filter]

/-- The files of some groups, one group behind the other, are listed by directory and name. -/
theorem Grouped.pairwise_flatMap (h : Grouped ps groups)
    (hps : ps.Pairwise fun p q => p.before q = true)
    (hnamed : ∀ p ∈ ps, ∃ n, p.fileName? = some n) (hkept : kept.Sublist groups) :
    (kept.flatMap (·.2)).Pairwise fun p q => p.listedBefore q = true := by
  have hmem : ∀ g ∈ kept, g ∈ groups := fun g hg => hkept.subset hg
  have hsorted : kept.Pairwise fun g h => g.1.before h.1 = true :=
    (List.pairwise_map.mp h.sorted).sublist hkept
  refine List.pairwise_flatMap.mpr ⟨fun g hg => ?_, ?_⟩
  · rw [h.files g (hmem g hg)]
    refine (hps.filter _).imp_of_mem fun {p q} hp hq hbefore => ?_
    obtain ⟨hp, hpdir⟩ := List.mem_filter.mp hp
    obtain ⟨hq, hqdir⟩ := List.mem_filter.mp hq
    obtain ⟨n, hn⟩ := hnamed p hp
    obtain ⟨m, hm⟩ := hnamed q hq
    rw [Path.same_comm] at hpdir
    exact Path.listedBefore_of_before hn hm (Path.same_trans hpdir hqdir) hbefore
  · refine hsorted.imp_of_mem fun {g g'} hg hg' hbefore p hp q hq => ?_
    have hpdir := ((h.mem_iff (hmem g hg)).mp hp).2
    have hqdir := ((h.mem_iff (hmem g' hg')).mp hq).2
    rw [Path.same_comm] at hpdir
    exact Path.listedBefore_iff.mpr
      (Or.inl (Path.before_of_same hpdir (Path.before_same hbefore hqdir)))

end Walk

end Excerpt
