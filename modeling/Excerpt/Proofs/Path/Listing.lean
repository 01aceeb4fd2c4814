import Excerpt.Proofs.Path.Beneath
import Excerpt.Proofs.Path.Order

/-!
# Files by directory and name

The order of a listing: files are taken directory by directory, and by name in each of them. It
differs from the order of paths, in which the files of a directory may come between those of a
directory beneath it.
-/

namespace Excerpt

lemma Component.listBefore_append_left (front s t : List Component) :
    listBefore (front ++ s) (front ++ t) = listBefore s t := by
  induction front with
  | nil => rfl
  | cons c front ih => simp [listBefore, isStrictTotal_before.irrefl, ih]

namespace Path

variable {p q r : Path} {n m : Bytes}

/-! ### The directory of a file -/

/-- The path that a file's name stands behind. -/
def dir (p : Path) : Path := p.parent?.getD empty

lemma trimFront_ne_dot (b : Bytes) : trimFront b ≠ [dot] := by
  fun_induction trimFront b with
  | case1 => simp
  | case2 => simp
  | case3 b hb => simpa using fun h => hb (Or.inr h)
  | case4 c rest ih => exact ih
  | case5 b c rest _ _ ih => exact ih
  | case6 => simp

lemma trimBack_ne_dot (b : Bytes) : trimBack b ≠ [dot] := by
  intro h
  refine trimFront_ne_dot b.reverse ?_
  rw [trimBack] at h
  simpa using congrArg List.reverse h

/-- What is left of a spelling at its end starts as the spelling does. -/
lemma splitLead_trimBack {b x front : Bytes} (hx : trimBack front = x)
    (htaken : x <+: (splitLead b).2) :
    (splitLead ((splitLead b).1 ++ x)).1 = (splitLead b).1 := by
  rcases splitLead_cases b with ⟨rest, -, hs⟩ | ⟨rest, -, hr, hs⟩ | ⟨hslash, hdot, hs⟩
  · rw [hs]
    cases x <;> rfl
  · rw [hs] at htaken ⊢
    have hhead : x = [] ∨ x.head? = some slash := by
      rcases hr with rfl | hr
      · exact Or.inl (List.prefix_nil.mp htaken)
      · exact ( head?_of_prefix htaken).imp_right fun he => he.trans hr
    rcases hhead with rfl | hhead
    · rfl
    · obtain ⟨more, rfl⟩ := List.head?_eq_some_iff.mp hhead
      rfl
  · rw [hs] at htaken ⊢
    rcases splitLead_cases ([] ++ x) with ⟨rest, hb, -⟩ | ⟨rest, hb, hr, -⟩ | ⟨-, -, hs'⟩
    · obtain rfl : x = slash :: rest := hb
      obtain ⟨more, rfl⟩ := htaken
      exact absurd rfl hslash
    · obtain rfl : x = dot :: rest := hb
      obtain ⟨more, rfl⟩ := htaken
      rcases hr with rfl | hr
      · exact absurd hx (trimBack_ne_dot front)
      · obtain ⟨rest', rfl⟩ := List.head?_eq_some_iff.mp hr
        exact absurd rfl (hdot _ rfl).2
    · rw [hs']

/-- The parent of a path lacks the last component. -/
lemma components_of_parent? (h : p.parent? = some q) (hp : p.steps ≠ []) :
    q.components = p.components.dropLast := by
  have hbody : trimBack (splitLead p.bytes).2 ≠ [] := by
    intro hbody
    have hcomp := components_eq p
    unfold components at hcomp
    rw [lead, List.append_cancel_left_eq, ← bodyComponents_trimBack, hbody] at hcomp
    exact hp hcomp.symm
  have hsteps := (of_parent?_eq_some h).1
  simp only [parent?] at h
  rw [if_neg hbody, Option.some.injEq] at h
  have hlead : q.lead = p.lead := by
    rw [lead, lead, ← h]
    refine congrArg leadComponents (splitLead_trimBack rfl ?_)
    exact (trimBack_isPrefix _).trans ((dropLastSegment_isPrefix _).trans (trimBack_isPrefix _))
  rw [components_eq, components_eq, hlead, hsteps, List.dropLast_append_of_ne_nil hp]

lemma components_dir (hn : p.fileName? = some n) :
    p.components = p.dir.components ++ [.name n] := by
  obtain ⟨-, front, hsteps⟩ := of_fileName?_eq_some hn
  have hne : p.steps ≠ [] := by simp [hsteps]
  obtain ⟨q, hq⟩ := exists_parent hne
  rw [dir, hq, Option.getD_some, components_of_parent? hq hne, components_eq, hsteps,
    ← List.append_assoc, List.dropLast_concat]

/-! ### The order of a listing -/

/-- The last component, or nothing if it is no name. -/
def nameOf (p : Path) : Bytes := p.fileName?.getD []

/-- Whether a file is listed before another: its directory comes first, or they are in one directory
and its name comes first. -/
def listedBefore (p q : Path) : Bool :=
  p.dir.before q.dir || (p.dir.same q.dir && Bytes.before p.nameOf q.nameOf)

lemma listedBefore_iff : p.listedBefore q = true ↔
    p.dir.before q.dir = true ∨ (p.dir.same q.dir = true ∧ Bytes.before p.nameOf q.nameOf = true) := by
  rw [listedBefore, Bool.or_eq_true, Bool.and_eq_true]

/-- Spellings of one path come before the same paths. -/
lemma before_of_same (hpq : p.same q = true) (h : q.before r = true) : p.before r = true := by
  rw [before, same_eq_true.mp hpq]
  exact h

lemma before_same (h : p.before q = true) (hqr : q.same r = true) : p.before r = true := by
  rw [before, ← same_eq_true.mp hqr]
  exact h

lemma listedBefore_irrefl (p : Path) : p.listedBefore p = false := by
  rw [listedBefore, before_irrefl, Bytes.isStrictTotal_before.irrefl, Bool.and_false]
  rfl

lemma listedBefore_trans (hpq : p.listedBefore q = true) (hqr : q.listedBefore r = true) :
    p.listedBefore r = true := by
  rw [listedBefore_iff] at hpq hqr ⊢
  rcases hpq with hpq | ⟨hpq, hname⟩ <;> rcases hqr with hqr | ⟨hqr, hname'⟩
  · exact Or.inl (before_trans hpq hqr)
  · exact Or.inl (before_same hpq hqr)
  · exact Or.inl (before_of_same hpq hqr)
  · exact Or.inr ⟨same_trans hpq hqr, Bytes.isStrictTotal_before.trans _ _ _ hname hname'⟩

/-- Of two files in one directory, the one whose path comes first is listed first. -/
lemma listedBefore_of_before (hp : p.fileName? = some n) (hq : q.fileName? = some m)
    (hdir : p.dir.same q.dir = true) (h : p.before q = true) : p.listedBefore q = true := by
  refine listedBefore_iff.mpr (Or.inr ⟨hdir, ?_⟩)
  rw [before, components_dir hp, components_dir hq, same_eq_true.mp hdir,
    Component.listBefore_append_left] at h
  rw [nameOf, nameOf, hp, hq]
  simpa [Component.listBefore, Component.before] using h

/-- Of two different files one is listed before the other. -/
lemma listedBefore_total (hp : p.fileName? = some n) (hq : q.fileName? = some m)
    (hpq : p.listedBefore q = false) (hqp : q.listedBefore p = false) : p.same q = true := by
  rw [← Bool.not_eq_true, listedBefore_iff, not_or, Bool.not_eq_true, not_and, Bool.not_eq_true]
    at hpq hqp
  have hdir : p.dir.same q.dir = true := same_of_not_before hpq.1 hqp.1
  have hname := Bytes.isStrictTotal_before.total _ _ (hpq.2 hdir) (hqp.2 (by rwa [same_comm]))
  rw [nameOf, nameOf, hp, hq] at hname
  rw [same_eq_true, components_dir hp, components_dir hq, same_eq_true.mp hdir]
  simpa using hname

end Path

end Excerpt
