import Excerpt.Path.Basic
import Excerpt.Proofs.Text.Splitting

/-!
# The steps of a path

Apart from what it starts with, a path is a list of steps: a name goes down and `..` goes up.
This module says what the operations on spellings do to the steps. The spelling itself, with its
repeated slashes and its `.` segments, does not come up again after it.
-/

namespace Excerpt

namespace Path

/-- The steps of a path, from whatever it starts with. -/
def steps (p : Path) : List Component := bodyComponents p.bytes

/-- A byte string that can be the name of something in a directory. -/
structure IsName (n : Bytes) : Prop where
  component : segmentComponent? n = some (.name n)
  noSlash : slash ∉ n

instance (n : Bytes) : Decidable (IsName n) :=
  decidable_of_iff (segmentComponent? n = some (.name n) ∧ slash ∉ n)
    ⟨fun h => ⟨h.1, h.2⟩, fun h => ⟨h.component, h.noSlash⟩⟩

/-! ### Components of spellings -/

@[simp] lemma bodyComponents_nil : bodyComponents [] = [] := rfl

@[simp] lemma bodyComponents_dot : bodyComponents [dot] = [] := rfl

lemma bodyComponents_append_slash (a b : Bytes) :
    bodyComponents (a ++ slash :: b) = bodyComponents a ++ bodyComponents b := by
  simp only [bodyComponents]
  rw [Text.splitOn_append_cons (by simp), List.filterMap_append]

@[simp] lemma bodyComponents_slash_cons (b : Bytes) :
    bodyComponents (slash :: b) = bodyComponents b :=
  bodyComponents_append_slash [] b

@[simp] lemma bodyComponents_dot_slash_cons (b : Bytes) :
    bodyComponents (dot :: slash :: b) = bodyComponents b :=
  bodyComponents_append_slash [dot] b

/-- A piece without slashes is one segment. -/
lemma bodyComponents_of_noSlash {n : Bytes} (h : slash ∉ n) :
    bodyComponents n = (segmentComponent? n).toList := by
  rw [bodyComponents, Text.splitOn_of_notMem h]
  cases h : segmentComponent? n <;> simp [h]

lemma IsName.bodyComponents {n : Bytes} (h : IsName n) : bodyComponents n = [.name n] := by
  rw [bodyComponents_of_noSlash h.noSlash, h.component]
  rfl

lemma IsName.ne_nil {n : Bytes} (h : IsName n) : n ≠ [] := by
  rintro rfl
  exact absurd h.component (by decide)

lemma IsName.ne_dots {n : Bytes} (h : IsName n) : n ≠ [dot] ∧ n ≠ [dot, dot] := by
  have hc := h.component
  constructor <;> rintro rfl <;> exact absurd hc (by decide)

lemma segmentComponent?_eq_none {n : Bytes} (h : segmentComponent? n = none) :
    n = [] ∨ n = [dot] := by
  unfold segmentComponent? at h
  split at h
  · assumption
  · split at h <;> cases h

lemma segmentComponent?_eq_some {n : Bytes} {c : Component} (h : segmentComponent? n = some c) :
    (n = [dot, dot] ∧ c = .parent) ∨ (n ≠ [] ∧ n ≠ [dot] ∧ n ≠ [dot, dot] ∧ c = .name n) := by
  unfold segmentComponent? at h
  split at h
  · cases h
  · rename_i hn
    split at h
    · exact Or.inl ⟨‹_›, by simpa using h.symm⟩
    · exact Or.inr ⟨fun he => hn (Or.inl he), fun he => hn (Or.inr he), ‹_›, by simpa using h.symm⟩

/-- A step is `..` or a name. -/
lemma of_mem_bodyComponents {b : Bytes} {c : Component} (h : c ∈ bodyComponents b) :
    c = .parent ∨ ∃ n, c = .name n ∧ IsName n := by
  obtain ⟨seg, hseg, hc⟩ := List.mem_filterMap.mp h
  have hslash : slash ∉ seg := fun hs => by
    simpa using (Text.of_mem_splitOn hseg slash hs).2
  rcases segmentComponent?_eq_some hc with ⟨-, rfl⟩ | ⟨-, -, -, rfl⟩
  · exact Or.inl rfl
  · exact Or.inr ⟨seg, rfl, hc, hslash⟩

lemma of_mem_steps {p : Path} {c : Component} (h : c ∈ p.steps) :
    c = .parent ∨ ∃ n, c = .name n ∧ IsName n :=
  of_mem_bodyComponents h

/-- The bytes of a name in a path are bytes of the path. -/
lemma noNul_of_mem_steps {p : Path} {n : Bytes} (hp : (0 : UInt8) ∉ p.bytes)
    (hn : .name n ∈ p.steps) : (0 : UInt8) ∉ n := by
  obtain ⟨seg, hseg, hc⟩ := List.mem_filterMap.mp hn
  rcases segmentComponent?_eq_some hc with ⟨-, hparent⟩ | ⟨-, -, -, hname⟩
  · cases hparent
  · cases hname
    exact fun hzero => hp (Text.of_mem_splitOn hseg _ hzero).1

/-! ### Trimming -/

/-- Steps without `..` are names. -/
lemma exists_names {a : List Component} (h : ∀ c ∈ a, c = .parent ∨ ∃ n, c = .name n ∧ IsName n)
    (hparent : .parent ∉ a) :
    ∃ names : List Bytes, a = names.map .name ∧ ∀ n ∈ names, IsName n := by
  induction a with
  | nil => exact ⟨[], rfl, by simp⟩
  | cons c a ih =>
    rw [List.mem_cons, not_or] at hparent
    obtain ⟨names, rfl, hnames⟩ := ih (fun c hc => h c (List.mem_cons_of_mem _ hc)) hparent.2
    rcases h c List.mem_cons_self with rfl | ⟨n, rfl, hn⟩
    · exact absurd rfl hparent.1
    · exact ⟨n :: names, rfl, List.forall_mem_cons.mpr ⟨hn, hnames⟩⟩

@[simp] lemma bodyComponents_trimFront (b : Bytes) :
    bodyComponents (trimFront b) = bodyComponents b := by
  fun_induction trimFront b with
  | case1 => rfl
  | case2 b h =>
    rcases h with rfl | rfl <;> rfl
  | case3 => rfl
  | case4 c rest ih => rw [ih, bodyComponents_slash_cons]
  | case5 b c rest _ h ih =>
    obtain ⟨rfl, rfl⟩ := h
    rw [ih, bodyComponents_dot_slash_cons]
  | case6 => rfl

/-- Trimming at the end is trimming the turned spelling at its front. -/
lemma bodyComponents_reverse_trimFront (b : Bytes) :
    bodyComponents (trimFront b).reverse = bodyComponents b.reverse := by
  fun_induction trimFront b with
  | case1 => rfl
  | case2 b h =>
    rcases h with rfl | rfl <;> rfl
  | case3 => rfl
  | case4 c rest ih =>
    have hrev : (slash :: c :: rest).reverse = (c :: rest).reverse ++ [slash] :=
      List.reverse_cons
    rw [ih, hrev, bodyComponents_append_slash]
    simp
  | case5 b c rest _ h ih =>
    obtain ⟨rfl, rfl⟩ := h
    rw [ih, List.reverse_cons, List.reverse_cons, List.append_assoc, List.singleton_append,
      bodyComponents_append_slash]
    simp
  | case6 => rfl

@[simp] lemma bodyComponents_trimBack (b : Bytes) :
    bodyComponents (trimBack b) = bodyComponents b := by
  rw [trimBack, bodyComponents_reverse_trimFront, List.reverse_reverse]

/-- What is left after trimming does not start with a slash, nor with a `.` segment. -/
lemma trimFront_eq_cons {b : Bytes} {c : UInt8} {rest : Bytes} (h : trimFront b = c :: rest) :
    c ≠ slash ∧ (c = dot → rest ≠ [] ∧ rest.head? ≠ some slash) := by
  fun_induction trimFront b with
  | case1 => cases h
  | case2 => cases h
  | case3 b hb =>
    cases h
    exact ⟨fun he => hb (Or.inl he), fun he => absurd (Or.inr he) hb⟩
  | case4 d more ih => exact ih h
  | case5 b d more hb hbd ih => exact ih h
  | case6 b d more hb hbd =>
    cases h
    exact ⟨hb, fun he => ⟨by simp, fun hd => hbd ⟨he, by simpa using hd⟩⟩⟩

/-- The first segment of a trimmed spelling is a step. -/
lemma exists_step_of_trimFront {b : Bytes} (h : trimFront b ≠ []) :
    ∃ c, segmentComponent? ((trimFront b).takeWhile (· != slash)) = some c := by
  obtain ⟨a, rest, hb⟩ := List.exists_cons_of_ne_nil h
  obtain ⟨ha, hdot⟩ := trimFront_eq_cons hb
  have htake : (a :: rest).takeWhile (· != slash) = a :: rest.takeWhile (· != slash) := by
    rw [List.takeWhile_cons_of_pos (by simpa using ha)]
  rw [hb, htake]
  refine Option.isSome_iff_exists.mp (Option.isSome_iff_ne_none.mpr fun hn => ?_)
  rcases segmentComponent?_eq_none hn with he | he
  · cases he
  · rw [List.cons.injEq] at he
    obtain ⟨hne, hhead⟩ := hdot he.1
    obtain ⟨d, more, rfl⟩ := List.exists_cons_of_ne_nil hne
    have hd : d ≠ slash := fun hd => hhead (by rw [hd]; rfl)
    rw [List.takeWhile_cons_of_pos (by simpa using hd)] at he
    cases he.2

lemma noSlash_takeWhile (b : Bytes) : slash ∉ b.takeWhile (· != slash) := by
  intro h
  simpa using List.all_eq_true.mp (List.all_takeWhile (p := (· != slash)) (l := b)) slash h

/-- Past its first segment, a spelling has the other steps. -/
lemma bodyComponents_eq_takeWhile_append (b : Bytes) :
    bodyComponents b = (segmentComponent? (b.takeWhile (· != slash))).toList ++
      bodyComponents (b.dropWhile (· != slash)) := by
  have hsplit := List.takeWhile_append_dropWhile (p := (· != slash)) (l := b)
  cases hd : b.dropWhile (· != slash) with
  | nil =>
    rw [hd, List.append_nil] at hsplit
    rw [bodyComponents_nil, List.append_nil, ← bodyComponents_of_noSlash (noSlash_takeWhile b),
      hsplit]
  | cons a rest =>
    have ha : a = slash := by
      have := List.head_dropWhile_not (· != slash) (l := b) (by rw [hd]; simp)
      simpa [hd] using this
    subst ha
    calc bodyComponents b = bodyComponents (b.takeWhile (· != slash) ++ slash :: rest) := by
          rw [← hd, hsplit]
      _ = _ := by
          rw [bodyComponents_append_slash, bodyComponents_of_noSlash (noSlash_takeWhile b),
            bodyComponents_slash_cons]

end Path

end Excerpt
