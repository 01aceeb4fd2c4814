import Excerpt.Path.Set
import Excerpt.Proofs.Path.Operations

/-!
# The order of paths

Paths are ordered by their components, and components by kind and bytes. Both orders compare lists
by their first difference, so that they are strict and total is shown once, for such orders. From
this follow what sorting does and that a set keeps its elements in increasing order, with one
spelling of each path.
-/

namespace Excerpt

variable {α : Type} {less : α → α → Bool}

/-! ### Strict total orders -/

/-- A decidable order that is strict and total. -/
structure IsStrictTotal (less : α → α → Bool) : Prop where
  irrefl : ∀ a, less a a = false
  trans : ∀ a b c, less a b = true → less b c = true → less a c = true
  total : ∀ a b, less a b = false → less b a = false → a = b

/-- Order of lists by their first difference. -/
def listBefore (less : α → α → Bool) [DecidableEq α] : List α → List α → Bool
  | [], [] => false
  | [], _ :: _ => true
  | _ :: _, [] => false
  | a :: s, b :: t => less a b || (a == b && listBefore less s t)

lemma listBefore_cons [DecidableEq α] (less : α → α → Bool) (a b : α) (s t : List α) :
    listBefore less (a :: s) (b :: t) = true ↔
      less a b = true ∨ (a = b ∧ listBefore less s t = true) := by
  simp [listBefore]

lemma IsStrictTotal.list [DecidableEq α] (h : IsStrictTotal less) :
    IsStrictTotal (listBefore less) := by
  refine ⟨?_, ?_, ?_⟩
  · intro s
    induction s with
    | nil => rfl
    | cons a s ih => simp [listBefore, h.irrefl a, ih]
  · intro s
    induction s with
    | nil =>
      rintro (_ | ⟨b, t⟩) (_ | ⟨c, u⟩) hst htu
      · exact hst
      · rfl
      · exact htu
      · rfl
    | cons a s ih =>
      rintro (_ | ⟨b, t⟩) (_ | ⟨c, u⟩) hst htu
      · cases hst
      · cases hst
      · cases htu
      · rw [listBefore_cons] at hst htu ⊢
        rcases hst with hab | ⟨rfl, hst⟩
        · rcases htu with hbc | ⟨rfl, -⟩
          · exact Or.inl (h.trans a b c hab hbc)
          · exact Or.inl hab
        · rcases htu with hac | ⟨rfl, htu⟩
          · exact Or.inl hac
          · exact Or.inr ⟨rfl, ih t u hst htu⟩
  · intro s
    induction s with
    | nil =>
      rintro (_ | ⟨b, t⟩) hst hts
      · rfl
      · cases hst
    | cons a s ih =>
      rintro (_ | ⟨b, t⟩) hst hts
      · cases hts
      · rw [← Bool.not_eq_true, listBefore_cons, not_or, Bool.not_eq_true] at hst hts
        obtain rfl := h.total a b hst.1 hts.1
        rw [not_and, Bool.not_eq_true] at hst hts
        rw [ih t (hst.2 rfl) (hts.2 rfl)]

lemma Bytes.before_eq (s t : Bytes) : Bytes.before s t = listBefore (fun a b => a < b) s t := by
  induction s generalizing t with
  | nil => cases t <;> rfl
  | cons a s ih =>
    cases t with
    | nil => rfl
    | cons b t => rw [Bytes.before, listBefore, ih]

lemma Bytes.isStrictTotal_before : IsStrictTotal Bytes.before := by
  have hbyte : IsStrictTotal (fun a b : UInt8 => decide (a < b)) := by
    refine ⟨fun a => by simp, fun a b c hab hbc => ?_, fun a b hab hba => ?_⟩
    · rw [decide_eq_true_eq] at hab hbc ⊢
      exact UInt8.lt_trans hab hbc
    · rw [decide_eq_false_iff_not] at hab hba
      exact UInt8.le_antisymm (UInt8.not_lt.mp hba) (UInt8.not_lt.mp hab)
  have heq : Bytes.before = listBefore (fun a b : UInt8 => decide (a < b)) := by
    funext s t
    exact Bytes.before_eq s t
  rw [heq]
  exact hbyte.list

namespace Component

lemma isStrictTotal_before : IsStrictTotal before := by
  have hbytes := Bytes.isStrictTotal_before
  refine ⟨?_, ?_, ?_⟩
  · rintro (_ | _ | _ | n) <;> simp [before, rank, hbytes.irrefl]
  · rintro (_ | _ | _ | a) (_ | _ | _ | b) (_ | _ | _ | c) <;> simp [before, rank]
    exact hbytes.trans a b c
  · rintro (_ | _ | _ | a) (_ | _ | _ | b) <;> simp [before, rank]
    exact hbytes.total a b

lemma listBefore_eq (s t : List Component) :
    listBefore s t = Excerpt.listBefore before s t := by
  induction s generalizing t with
  | nil => cases t <;> rfl
  | cons a s ih =>
    cases t with
    | nil => rfl
    | cons b t => rw [listBefore, Excerpt.listBefore, ih]

lemma isStrictTotal_listBefore : IsStrictTotal listBefore := by
  have heq : listBefore = Excerpt.listBefore before := by
    funext s t
    exact listBefore_eq s t
  rw [heq]
  exact isStrictTotal_before.list

end Component

namespace Path

lemma same_eq_true {p q : Path} : p.same q = true ↔ p.components = q.components := beq_iff_eq

lemma same_refl (p : Path) : p.same p = true := same_eq_true.mpr rfl

lemma same_comm (p q : Path) : p.same q = q.same p := by
  rw [Bool.eq_iff_iff, same_eq_true, same_eq_true, eq_comm]

lemma same_trans {p q r : Path} (hpq : p.same q = true) (hqr : q.same r = true) :
    p.same r = true :=
  same_eq_true.mpr ((same_eq_true.mp hpq).trans (same_eq_true.mp hqr))

lemma before_irrefl (p : Path) : p.before p = false :=
  Component.isStrictTotal_listBefore.irrefl _

lemma before_trans {p q r : Path} (hpq : p.before q = true) (hqr : q.before r = true) :
    p.before r = true :=
  Component.isStrictTotal_listBefore.trans _ _ _ hpq hqr

/-- Of two paths neither of which comes first, both are one path. -/
lemma same_of_not_before {p q : Path} (hpq : p.before q = false) (hqp : q.before p = false) :
    p.same q = true :=
  same_eq_true.mpr (Component.isStrictTotal_listBefore.total _ _ hpq hqp)

lemma not_same_of_before {p q : Path} (h : p.before q = true) : p.same q = false := by
  rw [← Bool.not_eq_true, same_eq_true]
  intro he
  unfold before at h
  rw [he, Component.isStrictTotal_listBefore.irrefl] at h
  cases h

end Path

/-! ### Sorting -/

lemma mem_insertSorted {a b : α} {as : List α} :
    b ∈ insertSorted less a as ↔ b = a ∨ b ∈ as := by
  induction as with
  | nil => simp [insertSorted]
  | cons c as ih =>
    rw [insertSorted]
    split
    · simp only [List.mem_cons, ih]
      exact or_left_comm
    · simp

@[simp] lemma mem_sortBy {b : α} {as : List α} : b ∈ sortBy less as ↔ b ∈ as := by
  simp only [sortBy]
  induction as with
  | nil => rfl
  | cons a as ih => rw [List.foldr_cons, mem_insertSorted, ih, List.mem_cons]

/-- Something that can be compared with everything in a sorted list is inserted in its place. -/
lemma pairwise_insertSorted (htrans : ∀ a b c, less a b = true → less b c = true → less a c = true)
    {a : α} {as : List α} (h : as.Pairwise fun a b => less a b = true)
    (ha : ∀ b ∈ as, less b a = true ∨ less a b = true) :
    (insertSorted less a as).Pairwise fun a b => less a b = true := by
  induction as with
  | nil => simp [insertSorted]
  | cons b as ih =>
    rw [List.pairwise_cons] at h
    rw [insertSorted]
    split
    · rename_i hba
      rw [List.pairwise_cons]
      refine ⟨fun c hc => ?_, ih h.2 fun c hc => ha c (List.mem_cons_of_mem _ hc)⟩
      rcases mem_insertSorted.mp hc with rfl | hc
      · exact hba
      · exact h.1 c hc
    · rename_i hba
      have hab := (ha b List.mem_cons_self).resolve_left hba
      rw [List.pairwise_cons, List.pairwise_cons]
      refine ⟨fun c hc => ?_, h⟩
      rcases List.mem_cons.mp hc with rfl | hc
      · exact hab
      · exact htrans _ _ _ hab (h.1 c hc)

/-- Sorting puts what can be compared in increasing order. -/
lemma pairwise_sortBy (htrans : ∀ a b c, less a b = true → less b c = true → less a c = true)
    {as : List α} (h : as.Pairwise fun a b => less b a = true ∨ less a b = true) :
    (sortBy less as).Pairwise fun a b => less a b = true := by
  unfold sortBy
  induction as with
  | nil => exact List.Pairwise.nil
  | cons a as ih =>
    rw [List.pairwise_cons] at h
    exact pairwise_insertSorted htrans (ih h.2) fun b hb => h.1 b (mem_sortBy.mp hb)

namespace Path

@[simp] lemma mem_sort {p : Path} {ps : List Path} : p ∈ sort ps ↔ p ∈ ps := mem_sortBy

/-- Sorting puts different paths in increasing order. -/
lemma sort_pairwise {ps : List Path} (h : ps.Pairwise fun p q => p.same q = false) :
    (sort ps).Pairwise fun p q => p.before q = true := by
  have htrans : ∀ p q r : Path, p.before q = true → q.before r = true → p.before r = true :=
    fun _ _ _ => before_trans
  refine pairwise_sortBy htrans (h.imp fun {p q} hne => ?_)
  by_contra hno
  rw [not_or, Bool.not_eq_true, Bool.not_eq_true] at hno
  rw [same_of_not_before hno.2 hno.1] at hne
  cases hne

end Path

/-! ### Sets -/

namespace PathSet

variable {p q : Path} {s t : PathSet}

/-- The elements are in increasing order, so each path has one spelling. -/
def Ordered (s : PathSet) : Prop := s.toList.Pairwise fun p q => p.before q = true

lemma contains_iff : s.contains p = true ↔ ∃ q ∈ s.toList, q.same p = true := by
  simp only [contains]
  rw [List.any_eq_true]

lemma mem_insertInto {ps : List Path} (h : q ∈ insertInto p ps) : q = p ∨ q ∈ ps := by
  induction ps with
  | nil => exact Or.inl (List.mem_singleton.mp h)
  | cons r ps ih =>
    rw [insertInto] at h
    split at h
    · exact Or.inr h
    · split at h
      · rcases List.mem_cons.mp h with rfl | h
        · exact Or.inr List.mem_cons_self
        · exact (ih h).imp id (List.mem_cons_of_mem _)
      · exact List.mem_cons.mp h

lemma mem_insert (h : q ∈ (s.insert p).toList) : q = p ∨ q ∈ s.toList := mem_insertInto h

lemma contains_insert : (s.insert p).contains q = true ↔ s.contains q = true ∨ p.same q = true := by
  rw [contains_iff, contains_iff]
  unfold insert
  simp only
  generalize s.toList = ps
  induction ps with
  | nil => simp [insertInto]
  | cons r ps ih =>
    rw [insertInto]
    split
    · rename_i hrp
      refine ⟨Or.inl, ?_⟩
      rintro (h | h)
      · exact h
      · exact ⟨r, List.mem_cons_self, Path.same_trans hrp h⟩
    · split
      · simp only [List.mem_cons, exists_eq_or_imp, ih]
        rw [or_assoc]
      · simp only [List.mem_cons, exists_eq_or_imp]
        rw [or_comm]

lemma Ordered.insert (h : s.Ordered) : (s.insert p).Ordered := by
  unfold Ordered at h ⊢
  unfold PathSet.insert
  simp only
  generalize s.toList = ps at h
  induction ps with
  | nil => exact List.pairwise_singleton _ _
  | cons r ps ih =>
    have hr := h
    rw [List.pairwise_cons] at h
    rw [insertInto]
    split
    · exact hr
    · rename_i hrp
      rw [Bool.not_eq_true] at hrp
      split
      · rename_i hbefore
        rw [List.pairwise_cons]
        refine ⟨fun q hq => ?_, ih h.2⟩
        rcases mem_insertInto hq with rfl | hq
        · exact hbefore
        · exact h.1 q hq
      · rename_i hbefore
        rw [Bool.not_eq_true] at hbefore
        have hpr : p.before r = true := by
          rw [← Bool.not_eq_false]
          intro hpr
          rw [Path.same_of_not_before hbefore hpr] at hrp
          cases hrp
        rw [List.pairwise_cons]
        refine ⟨fun q hq => ?_, hr⟩
        rcases List.mem_cons.mp hq with rfl | hq
        · exact hpr
        · exact Path.before_trans hpr (h.1 q hq)

lemma ordered_empty : Ordered empty := List.Pairwise.nil

lemma Ordered.insertAll (h : s.Ordered) (ps : List Path) : (s.insertAll ps).Ordered := by
  simp only [PathSet.insertAll]
  induction ps generalizing s with
  | nil => exact h
  | cons p ps ih => exact ih h.insert

lemma mem_insertAll {ps : List Path} (h : q ∈ (s.insertAll ps).toList) :
    q ∈ s.toList ∨ q ∈ ps := by
  unfold insertAll at h
  induction ps generalizing s with
  | nil => exact Or.inl h
  | cons p ps ih =>
    rcases ih h with h | h
    · rcases mem_insert h with rfl | h
      · exact Or.inr List.mem_cons_self
      · exact Or.inl h
    · exact Or.inr (List.mem_cons_of_mem _ h)

lemma contains_insertAll {ps : List Path} :
    (s.insertAll ps).contains q = true ↔ s.contains q = true ∨ ∃ p ∈ ps, p.same q = true := by
  simp only [insertAll]
  induction ps generalizing s with
  | nil => simp
  | cons p ps ih =>
    rw [List.foldl_cons, ih, contains_insert, or_assoc]
    simp only [List.mem_cons, exists_eq_or_imp]

@[simp] lemma contains_empty : empty.contains q = false := rfl

lemma contains_union :
    (s.union t).contains q = true ↔ s.contains q = true ∨ t.contains q = true := by
  rw [union, contains_insertAll, contains_iff (s := t)]

lemma mem_union (h : q ∈ (s.union t).toList) : q ∈ s.toList ∨ q ∈ t.toList := mem_insertAll h

/-- What is added comes in as it is spelled, unless it is there. -/
lemma mem_insert_iff (h : s.Ordered) :
    q ∈ (s.insert p).toList ↔ q ∈ s.toList ∨ (q = p ∧ s.contains p = false) := by
  unfold Ordered at h
  unfold insert contains
  simp only
  generalize s.toList = ps at h
  induction ps with
  | nil => simp [insertInto]
  | cons r ps ih =>
    rw [List.pairwise_cons] at h
    rw [insertInto]
    by_cases hrp : r.same p = true
    · simp [hrp]
    · rw [if_neg hrp]
      rw [Bool.not_eq_true] at hrp
      by_cases hbefore : r.before p = true
      · rw [if_pos hbefore, List.mem_cons, ih h.2, List.mem_cons, List.any_cons, hrp,
          Bool.false_or, or_assoc]
      · -- Whatever comes behind `r` comes behind `p` as well.
        rw [if_neg hbefore]
        rw [Bool.not_eq_true] at hbefore
        have hpr : p.before r = true := by
          rw [← Bool.not_eq_false]
          intro hpr
          rw [Path.same_of_not_before hbefore hpr] at hrp
          cases hrp
        have hfree : (r :: ps).any (·.same p) = false := by
          rw [List.any_eq_false]
          intro r' hr'
          rw [Bool.not_eq_true, Path.same_comm]
          rcases List.mem_cons.mp hr' with rfl | hr'
          · exact Path.not_same_of_before hpr
          · exact Path.not_same_of_before (Path.before_trans hpr (h.1 r' hr'))
        rw [List.mem_cons, hfree, or_comm]
        simp

lemma mem_insertAll_iff {ps : List Path} (h : s.Ordered)
    (hps : ps.Pairwise fun p q => p.same q = false) :
    q ∈ (s.insertAll ps).toList ↔ q ∈ s.toList ∨ (q ∈ ps ∧ s.contains q = false) := by
  simp only [insertAll]
  induction ps generalizing s with
  | nil => simp
  | cons p ps ih =>
    rw [List.pairwise_cons] at hps
    have hcontains : q ∈ ps → ((s.insert p).contains q = false ↔ s.contains q = false) := by
      intro hq
      rw [← Bool.not_eq_true, ← Bool.not_eq_true, contains_insert, not_or]
      exact and_iff_left (by simp [hps.1 q hq])
    rw [List.foldl_cons, ih h.insert hps.2, mem_insert_iff h, List.mem_cons, or_and_right, or_assoc,
      and_congr_right hcontains]
    refine or_congr_right (or_congr_left (and_congr_right fun he => ?_))
    rw [he]

/-- The elements of both sets together, each with its spelling. -/
lemma mem_union_iff (hs : s.Ordered) (ht : t.Ordered) :
    q ∈ (s.union t).toList ↔ q ∈ s.toList ∨ (q ∈ t.toList ∧ s.contains q = false) :=
  mem_insertAll_iff hs (ht.imp Path.not_same_of_before)

lemma mem_ofList {ps : List Path} (h : q ∈ (ofList ps).toList) : q ∈ ps := by
  rcases mem_insertAll h with h | h
  · cases h
  · exact List.mem_reverse.mp h

lemma contains_ofList {ps : List Path} :
    (ofList ps).contains q = true ↔ ∃ p ∈ ps, p.same q = true := by
  rw [ofList, contains_insertAll]
  simp

end PathSet

end Excerpt
