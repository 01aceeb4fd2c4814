import Excerpt.Proofs.Path.Steps
import Excerpt.Store.Lookup

/-!
# One segment of a walk

A walk takes its segments one after the other. A dot stays, two dots go up, a name that is too long
is refused, and every other segment is looked up. `descend_induction` is the induction along a walk
by these kinds of segments, and each of them has its equation, a segment that is looked up one for
each kind of node. `locate_eq_ok_iff` says which paths are walked at all.
-/

namespace Excerpt

namespace Store

variable {s t : Store} {d l : Location} {seg : Bytes} {rest : List Bytes} {node : Node} {p : Path}
  {follow : Bool} {found : Place × Bool}

/-! ### Segments -/

/-- A segment that a walk looks up. -/
def IsLookedUp (seg : Bytes) : Prop :=
  seg ≠ [Path.dot] ∧ seg ≠ [Path.dot, Path.dot] ∧ ¬ maxName < seg.length

lemma descend_dot : s.descend follow ([Path.dot] :: rest) d = s.descend follow rest d := by
  rw [descend, if_pos rfl]

lemma descend_up :
    s.descend follow ([Path.dot, Path.dot] :: rest) d = s.descend follow rest d.dropLast := by
  rw [descend, if_neg (by decide), if_pos rfl]

lemma ne_dots_of_long (h : maxName < seg.length) :
    seg ≠ [Path.dot] ∧ seg ≠ [Path.dot, Path.dot] := by
  constructor
  all_goals
    rintro rfl
    exact absurd h (by decide)

lemma descend_long (h : maxName < seg.length) :
    s.descend follow (seg :: rest) d = .refused .nameTooLong := by
  rw [descend, if_neg (ne_dots_of_long h).1, if_neg (ne_dots_of_long h).2, if_pos h]

lemma descend_dir (h : IsLookedUp seg) (follow : Bool) (rest : List Bytes)
    (hn : s.get? (d ++ [seg]) = some .dir) :
    s.descend follow (seg :: rest) d = s.descend follow rest (d ++ [seg]) := by
  rw [descend, if_neg h.1, if_neg h.2.1, if_neg h.2.2]
  simp only [hn]

lemma descend_link (h : IsLookedUp seg) (follow : Bool) (rest : List Bytes) {target : Path}
    (hn : s.get? (d ++ [seg]) = some (.link target)) :
    s.descend follow (seg :: rest) d =
      if rest = [] ∧ ¬ follow then .arrived (.found (d ++ [seg]) (.link target))
      else .jump d target rest := by
  rw [descend, if_neg h.1, if_neg h.2.1, if_neg h.2.2]
  simp only [hn]

lemma descend_file (h : IsLookedUp seg) (follow : Bool) (rest : List Bytes)
    (hn : s.get? (d ++ [seg]) = some node) (hf : node.isFile = true) :
    s.descend follow (seg :: rest) d =
      if rest = [] then .arrived (.found (d ++ [seg]) node) else .refused .notADirectory := by
  rw [descend, if_neg h.1, if_neg h.2.1, if_neg h.2.2]
  cases node with
  | file => simp only [hn]
  | _ => cases hf

lemma descend_none (h : IsLookedUp seg) (follow : Bool) (rest : List Bytes)
    (hn : s.get? (d ++ [seg]) = none) :
    s.descend follow (seg :: rest) d =
      if rest = [] then .arrived (.vacant d seg) else .refused .notFound := by
  rw [descend, if_neg h.1, if_neg h.2.1, if_neg h.2.2]
  simp only [hn]

/-- Induction along a walk: what a segment is decides where the rest of the walk starts. -/
@[elab_as_elim]
theorem descend_induction {motive : List Bytes → Location → Prop}
    (nil : ∀ dir, motive [] dir)
    (dot : ∀ rest dir, motive rest dir → motive ([Path.dot] :: rest) dir)
    (up : ∀ rest dir, motive rest dir.dropLast → motive ([Path.dot, Path.dot] :: rest) dir)
    (long : ∀ seg rest dir, maxName < seg.length → motive (seg :: rest) dir)
    (name : ∀ seg rest dir, IsLookedUp seg → motive rest (dir ++ [seg]) → motive (seg :: rest) dir)
    (todo : List Bytes) (dir : Location) : motive todo dir := by
  induction todo generalizing dir with
  | nil => exact nil dir
  | cons seg rest ih =>
    by_cases h₁ : seg = [Path.dot]
    · subst h₁
      exact dot rest dir (ih dir)
    · by_cases h₂ : seg = [Path.dot, Path.dot]
      · subst h₂
        exact up rest dir (ih dir.dropLast)
      · by_cases h₃ : maxName < seg.length
        · exact long seg rest dir h₃
        · exact name seg rest dir ⟨h₁, h₂, h₃⟩ (ih (dir ++ [seg]))

/-! ### Paths -/

/-- Where a path starts. -/
def start (s : Store) (p : Path) : Location := if p.isAbsolute then [] else s.cwd

lemma start_of_isAbsolute (h : p.isAbsolute = true) : s.start p = [] := by
  rw [start, if_pos h]

lemma start_congr {q : Path} (h : p.isAbsolute = q.isAbsolute) : s.start p = s.start q := by
  rw [start, start, h]

lemma start_of_cwd (h : t.cwd = s.cwd) : t.start p = s.start p := by
  rw [start, start, h]

/-- A path that can be looked up: it is neither empty nor too long, and has no NUL. -/
structure IsLocatable (p : Path) : Prop where
  noNul : (0 : UInt8) ∉ p.bytes
  ne_nil : p.bytes ≠ []
  short : p.bytes.length < maxPath

lemma locate_of_noNul (hnul : (0 : UInt8) ∉ p.bytes) (hne : p.bytes ≠ []) :
    s.locate follow p = if maxPath ≤ p.bytes.length then .error .nameTooLong
      else s.walk follow (maxLinks + 1) (s.start p) (segments p) (wantsDir p) := by
  have hcontains : ¬ p.bytes.contains 0 = true := by simpa using hnul
  rw [locate, if_neg hcontains, if_neg hne]
  rfl

/-- A path that can be looked up is walked from where it starts. -/
lemma IsLocatable.locate_eq (h : IsLocatable p) (s : Store) (follow : Bool) :
    s.locate follow p =
      s.walk follow (maxLinks + 1) (s.start p) (segments p) (wantsDir p) := by
  rw [locate_of_noNul h.noNul h.ne_nil, if_neg (Nat.not_le.mpr h.short)]

/-- What cannot be looked up is refused alike in every store. -/
lemma locate_of_not_isLocatable (h : ¬ IsLocatable p) (s t : Store) (follow follow' : Bool) :
    ∃ fault, s.locate follow p = .error fault ∧ t.locate follow' p = .error fault := by
  simp only [locate]
  split
  · exact ⟨_, rfl, rfl⟩
  · rename_i hnul
    split
    · exact ⟨_, rfl, rfl⟩
    · rename_i hne
      split
      · exact ⟨_, rfl, rfl⟩
      · rename_i hlong
        exact absurd ⟨by simpa using hnul, hne, Nat.not_le.mp hlong⟩ h

/-- What a path leads to is where the walk over its segments ends, if the path can be looked up. -/
lemma locate_eq_ok_iff : s.locate follow p = .ok found ↔ IsLocatable p ∧
    s.walk follow (maxLinks + 1) (s.start p) (segments p) (wantsDir p) = .ok found := by
  by_cases hp : IsLocatable p
  · rw [hp.locate_eq, and_iff_right hp]
  · obtain ⟨fault, hfault, -⟩ := locate_of_not_isLocatable hp s s follow follow
    simp [hfault, hp]

/-- A path is looked up alike where the walk over its segments is the same. -/
lemma locate_congr {follow' : Bool}
    (h : IsLocatable p →
      t.walk follow' (maxLinks + 1) (t.start p) (segments p) (wantsDir p) =
        s.walk follow (maxLinks + 1) (s.start p) (segments p) (wantsDir p)) :
    t.locate follow' p = s.locate follow p := by
  by_cases hp : IsLocatable p
  · rw [hp.locate_eq, hp.locate_eq, h hp]
  · obtain ⟨fault, hs, ht⟩ := locate_of_not_isLocatable hp s t follow follow'
    rw [hs, ht]

lemma locate_of_find (h : s.find follow p = .ok (l, node)) :
    ∃ asDir, s.locate follow p = .ok (.found l node, asDir) := by
  unfold find at h
  split at h
  · cases h
  · cases h
  · rename_i loc node' asDir hl
    cases h
    exact ⟨asDir, hl⟩

lemma find_of_locate {asDir : Bool} (h : s.locate follow p = .ok (.found l node, asDir)) :
    s.find follow p = .ok (l, node) := by
  rw [find, h]

/-- A path that leads somewhere can be looked up. -/
lemma isLocatable_of_find (h : s.find follow p = .ok (l, node)) : IsLocatable p := by
  obtain ⟨asDir, hl⟩ := locate_of_find h
  exact (locate_eq_ok_iff.mp hl).1

lemma walk_of_find (h : s.find follow p = .ok (l, node)) :
    ∃ asDir, s.walk follow (maxLinks + 1) (s.start p) (segments p) (wantsDir p) =
      .ok (.found l node, asDir) := by
  obtain ⟨asDir, hl⟩ := locate_of_find h
  exact ⟨asDir, (locate_eq_ok_iff.mp hl).2⟩

end Store

end Excerpt
