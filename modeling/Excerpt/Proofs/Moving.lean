import Excerpt.Proofs.Path.Order
import Excerpt.Proofs.Twins
import Excerpt.Roots

/-!
# Another name for the scratch directory

If the scratch directory were called `b` instead of `a`, then the paths into it would be written
with the other name, and all other paths would stay as they are. This module says what that means
for paths, source roots, sets and questions, and that such a change respects which spellings are of
one path.
-/

namespace Excerpt

open Store

variable {tmp p p' q q' : Path} {a b c : Bytes} {names names' : Location}

/-! ### Paths -/

/-- How a path is written with `b` for the scratch directory `a` in `tmp`. -/
inductive Path.Moved (tmp : Path) (a b : Bytes) : Path → Path → Prop where
  | outside {p : Path} : Avoids a b (segments p) → Moved tmp a b p p
  | inside {names : Location} : (∀ n ∈ names, IsName n) →
      Moved tmp a b (chain (tmp.child a) names) (chain (tmp.child b) names)

lemma steps_chain_child (hc : Path.IsName c) (hnames : ∀ n ∈ names, Path.IsName n) :
    (chain (tmp.child c) names).steps = tmp.steps ++ .name c :: names.map .name := by
  rw [steps_chain _ hnames, Path.steps_child hc, List.append_assoc, List.singleton_append]

/-- A path into a scratch directory mentions its name. -/
lemma not_same_chain (hc : Path.IsName c) (hnames : ∀ n ∈ names, Path.IsName n)
    (hp : c ∉ segments p) : p.same (chain (tmp.child c) names) = false := by
  rw [Bool.eq_false_iff]
  intro hsame
  refine hp (mem_segments_of_mem_steps ?_)
  rw [(Path.same_iff.mp hsame).2, steps_chain_child hc hnames]
  simp

lemma same_chain_iff (hc : Path.IsName c) (hnames : ∀ n ∈ names, Path.IsName n)
    (hnames' : ∀ n ∈ names', Path.IsName n) :
    (chain (tmp.child c) names).same (chain (tmp.child c) names') = true ↔ names = names' := by
  constructor
  · intro hsame
    have hsteps := (Path.same_iff.mp hsame).2
    rw [steps_chain_child hc hnames, steps_chain_child hc hnames', List.append_cancel_left_eq,
      List.cons.injEq] at hsteps
    exact List.map_injective_iff.mpr (fun _ _ => Component.name.inj) hsteps.2
  · rintro rfl
    exact Path.same_refl _

namespace Path.Moved

/-- Spellings of one path are spellings of one path afterwards, and no others. -/
theorem same_eq (hab : Exchangeable a b) (h : Path.Moved tmp a b p p')
    (h' : Path.Moved tmp a b q q') : p'.same q' = p.same q := by
  have ha := hab.left.isName
  have hb := hab.right.isName
  cases h with
  | outside hp =>
    cases h' with
    | outside => rfl
    | inside hnames => rw [not_same_chain ha hnames hp.left, not_same_chain hb hnames hp.right]
  | inside hnames =>
    cases h' with
    | outside hq =>
      rw [Path.same_comm, Path.same_comm _ q, not_same_chain ha hnames hq.left,
        not_same_chain hb hnames hq.right]
    | inside hnames' =>
      rw [Bool.eq_iff_iff, same_chain_iff ha hnames hnames', same_chain_iff hb hnames hnames']

end Path.Moved

/-! ### Source roots and sets -/

lemma any_same_eq (hab : Exchangeable a b) {ps ps' : List Path}
    (h : List.Forall₂ (Path.Moved tmp a b) ps ps') (hp : Path.Moved tmp a b p p') :
    ps'.any (·.same p') = ps.any (·.same p) := by
  induction h with
  | nil => rfl
  | cons hq _ ih => rw [List.any_cons, List.any_cons, ih, hq.same_eq hab hp]

/-- Registering a root goes with the other name. -/
lemma SourceRoots.moved_add (hab : Exchangeable a b) {roots roots' : SourceRoots}
    (h : List.Forall₂ (Path.Moved tmp a b) roots.toList roots'.toList)
    (hp : Path.Moved tmp a b p p') :
    List.Forall₂ (Path.Moved tmp a b) (roots.add p).toList (roots'.add p').toList := by
  unfold SourceRoots.add
  rw [any_same_eq hab h hp]
  split
  · exact h
  · exact List.rel_append h (.cons hp .nil)

/-- The sets have the same elements, written with the one name and with the other. -/
structure PathSet.Moved (tmp : Path) (a b : Bytes) (files files' : PathSet) : Prop where
  ordered : files.Ordered ∧ files'.Ordered
  forth : ∀ p ∈ files.toList, ∃ p' ∈ files'.toList, Path.Moved tmp a b p p'
  back : ∀ p' ∈ files'.toList, ∃ p ∈ files.toList, Path.Moved tmp a b p p'

namespace PathSet.Moved

variable {files files' more more' : PathSet}

lemma contains_eq (hab : Exchangeable a b) (h : PathSet.Moved tmp a b files files')
    (hp : Path.Moved tmp a b p p') : files'.contains p' = files.contains p := by
  rw [Bool.eq_iff_iff, PathSet.contains_iff, PathSet.contains_iff]
  constructor
  · rintro ⟨q', hq', hsame⟩
    obtain ⟨q, hq, hmoved⟩ := h.back q' hq'
    exact ⟨q, hq, by rwa [← hmoved.same_eq hab hp]⟩
  · rintro ⟨q, hq, hsame⟩
    obtain ⟨q', hq', hmoved⟩ := h.forth q hq
    exact ⟨q', hq', by rwa [hmoved.same_eq hab hp]⟩

/-- Sets are put together in the same way with the other name. -/
theorem union (hab : Exchangeable a b) (h : PathSet.Moved tmp a b files files')
    (hmore : PathSet.Moved tmp a b more more') :
    PathSet.Moved tmp a b (files.union more) (files'.union more') := by
  have hmem := fun p => PathSet.mem_union_iff (q := p) h.ordered.1 hmore.ordered.1
  have hmem' := fun p => PathSet.mem_union_iff (q := p) h.ordered.2 hmore.ordered.2
  refine ⟨⟨h.ordered.1.insertAll _, h.ordered.2.insertAll _⟩, fun p hp => ?_, fun p' hp' => ?_⟩
  · rcases (hmem p).mp hp with hp | ⟨hp, hfree⟩
    · obtain ⟨p', hp', hmoved⟩ := h.forth p hp
      exact ⟨p', (hmem' p').mpr (Or.inl hp'), hmoved⟩
    · obtain ⟨p', hp', hmoved⟩ := hmore.forth p hp
      exact ⟨p', (hmem' p').mpr (Or.inr ⟨hp', by rwa [h.contains_eq hab hmoved]⟩), hmoved⟩
  · rcases (hmem' p').mp hp' with hp' | ⟨hp', hfree⟩
    · obtain ⟨p, hp, hmoved⟩ := h.back p' hp'
      exact ⟨p, (hmem p).mpr (Or.inl hp), hmoved⟩
    · obtain ⟨p, hp, hmoved⟩ := hmore.back p' hp'
      exact ⟨p, (hmem p).mpr (Or.inr ⟨hp, by rwa [← h.contains_eq hab hmoved]⟩), hmoved⟩

/-- A set without paths into the scratch directory. -/
lemma of_avoids (hfiles : files.Ordered) (h : ∀ p ∈ files.toList, Avoids a b (segments p)) :
    PathSet.Moved tmp a b files files :=
  ⟨⟨hfiles, hfiles⟩, fun p hp => ⟨p, hp, .outside (h p hp)⟩, fun p hp => ⟨p, hp, .outside (h p hp)⟩⟩

end PathSet.Moved

/-! ### Questions -/

/-- A question with the one name for the scratch directory, and the same question with the other.
They are put in the stores `s` and `s'` with a scratch directory each, and with the same in it. -/
structure Question.Moved (s s' : Store) (tmp : Path) (a b : Bytes) (q q' : Question) : Prop where
  entries : List.Forall₂ (Path.Moved tmp a b) q.entries q'.entries
  roots : List.Forall₂ (Path.Moved tmp a b) q.roots q'.roots
  store : ∃ d, Twins s s' tmp a b d q.store q'.store

end Excerpt
