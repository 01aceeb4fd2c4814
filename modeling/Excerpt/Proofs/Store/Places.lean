import Excerpt.Proofs.Path.Order
import Excerpt.Proofs.Request
import Excerpt.Proofs.Store.Children
import Excerpt.Resolve

/-!
# The path of a location

The path that spells the names of a location leads to what stands there, also where links lead
elsewhere, since there is no link on the way. Only if it is too long for the file system, it leads
nowhere. So what a path leads to is found again under its canonical path, unless that path is too
long.
-/

namespace Excerpt

namespace Store

variable {s : Store} {l : Location} {n : Bytes} {node : Node} {p file : Path}

/-- The path of a location ends in a slash only at the root. -/
lemma getLast?_pathOf (hl : ∀ m ∈ l ++ [n], Path.IsName m) :
    (pathOf (l ++ [n])).bytes.getLast? ≠ some Path.slash := by
  have hn := hl n (by simp)
  have hspell : (pathOf (l ++ [n])).bytes = l.flatMap (Path.slash :: ·) ++ [Path.slash] ++ n := by
    cases l <;> simp [pathOf]
  intro hlast
  rw [hspell, List.getLast?_append_of_ne_nil _ hn.ne_nil] at hlast
  exact hn.noSlash (List.mem_of_getLast? hlast)

lemma pathOf_concat (hl : ∀ m ∈ l, Path.IsName m) (hn : Path.IsName n) :
    pathOf (l ++ [n]) = (pathOf l).child n := by
  have hspell : pathOf (l ++ [n]) = ⟨l.flatMap (Path.slash :: ·) ++ Path.slash :: n⟩ := by
    cases l <;> simp [pathOf]
  rcases List.eq_nil_or_concat' l with rfl | ⟨front, m, rfl⟩
  · simp [pathOf, Path.child, Path.join, hn.isAbsolute]
  · have hlast := getLast?_pathOf hl
    have hbytes : (pathOf (front ++ [m])).bytes = (front ++ [m]).flatMap (Path.slash :: ·) := by
      cases front <;> rfl
    rw [hspell, Path.child]
    rcases Path.join_bytes (p := pathOf (front ++ [m])) hn.isAbsolute with
      ⟨h, -⟩ | ⟨before, h, -⟩ | ⟨-, -, h⟩
    · exact absurd h (Path.bytes_ne_nil_of_isAbsolute (isAbsolute_pathOf _))
    · exact absurd (by rw [h]; simp) hlast
    · rw [h, hbytes]

/-! ### What stands there -/

lemma noNul_pathOf (hs : s.WellFormed) (hl : s.get? l ≠ none) : (0 : UInt8) ∉ (pathOf l).bytes := by
  have hflat : (0 : UInt8) ∉ l.flatMap (Path.slash :: ·) := by
    intro h
    obtain ⟨n, hn, h⟩ := List.mem_flatMap.mp h
    rcases List.mem_cons.mp h with h | h
    · exact absurd h (by decide)
    · exact (hs.isEntryName hl hn).noNul h
  cases l with
  | nil => decide
  | cons n l => exact hflat

/-- What stands at a location is found under the path of the location. -/
theorem find_pathOf (hs : s.WellFormed) (hl : s.get? l = some node) (hlink : node.isLink = false)
    (hshort : (pathOf l).bytes.length < maxPath) (follow : Bool) :
    s.find follow (pathOf l) = .ok (l, node) := by
  have hnames : ∀ n ∈ l, Path.IsName n :=
    fun n hn => (hs.isEntryName (by rw [hl]; simp) hn).isName
  induction l using List.reverseRecOn generalizing node follow with
  | nil =>
    cases hl
    cases follow <;> rfl
  | append_singleton l n ih =>
    have hfront : ∀ m ∈ l, Path.IsName m := fun m hm => hnames m (List.mem_append_left _ hm)
    have hn := hnames n (by simp)
    rw [pathOf_concat hfront hn] at hshort ⊢
    have hdir := hs.get?_of_concat (n := n) (by rw [hl]; simp)
    have hfind := ih hdir rfl (Nat.lt_trans (length_child_lt _ hn) hshort) true hfront
    exact find_child hs hfind hl hlink hshort follow

/-- A path of a location that is too long for the file system leads nowhere. -/
lemma find_pathOf_of_long (hs : s.WellFormed) (hl : s.get? l ≠ none)
    (hlong : maxPath ≤ (pathOf l).bytes.length) (follow : Bool) :
    s.find follow (pathOf l) = .error .nameTooLong := by
  have hnul : ¬ (pathOf l).bytes.contains 0 = true := by
    simpa using noNul_pathOf hs hl
  have hne : (pathOf l).bytes ≠ [] := Path.bytes_ne_nil_of_isAbsolute (isAbsolute_pathOf l)
  rw [find, locate, if_neg hnul, if_neg hne, if_pos hlong]

/-- What is canonical for a path is where the path leads. -/
lemma canonical_eq_ok_iff :
    s.canonical p = .ok file ↔ ∃ l node, s.find true p = .ok (l, node) ∧ file = pathOf l := by
  rw [canonical]
  cases s.find true p with
  | error => simp [Except.map]
  | ok place =>
    obtain ⟨l, node⟩ := place
    simp [Except.map, eq_comm]

/-- Under the canonical path of a file there is a file, unless that path is too long. -/
theorem isFile_pathOf_iff (hs : s.WellFormed) (hl : s.get? l = some node)
    (hlink : node.isLink = false) :
    s.isFile (pathOf l) = true ↔ node.isFile = true ∧ (pathOf l).bytes.length < maxPath := by
  rw [isFile, node?]
  by_cases hlong : maxPath ≤ (pathOf l).bytes.length
  · rw [find_pathOf_of_long hs (by rw [hl]; simp) hlong]
    simp [hlong]
  · have hshort := Nat.lt_of_not_le hlong
    rw [find_pathOf hs hl hlink hshort]
    simp [hshort]

/-! ### Resolving links -/

/-- Resolving a set gives the targets of its elements. -/
lemma contains_resolveLinks {files : PathSet} : (s.resolveLinks files).contains p = true ↔
    ∃ q ∈ files.toList, (s.resolveLink q).same p = true := by
  rw [resolveLinks, PathSet.contains_insertAll, PathSet.contains_empty]
  simp

/-- Without following a link at the end, spellings of one path lead to one place. -/
lemma eq_of_find_same {q : Path} {m : Location} {node' : Node}
    (hs : s.WellFormed) (hp : s.find false p = .ok (l, node)) (hq : s.find false q = .ok (m, node'))
    (hsame : q.same p = true) (hdir : node ≠ .dir) (hdir' : node' ≠ .dir) :
    m = l ∧ node' = node := by
  obtain ⟨hlead, hsteps⟩ := Path.same_iff.mp hsame
  obtain ⟨front, n, d, hpsteps, hd, rfl⟩ := last_of_find hs hp hdir
  obtain ⟨front', n', d', hqsteps, hd', rfl⟩ := last_of_find hs hq hdir'
  rw [hpsteps, hqsteps] at hsteps
  obtain ⟨rfl, hlast⟩ := List.append_inj' hsteps rfl
  rw [List.singleton_inj, Component.name.injEq] at hlast
  rw [start_congr (Path.isAbsolute_eq_of_lead hlead)] at hd'
  obtain rfl := hd.unique hd'
  have hn := get?_of_find hs hp
  rw [← hlast, get?_of_find hs hq, Option.some.injEq] at hn
  exact ⟨by rw [hlast], hn⟩

/-- A path that is a spelling of the path of a regular file stays as it is. -/
lemma resolveLink_of_file {q : Path} (hs : s.WellFormed)
    (hp : s.find false p = .ok (l, node)) (hfile : node.isFile = true)
    (hsame : q.same p = true) : s.resolveLink q = q := by
  have hdir : node ≠ .dir := by
    rintro rfl
    cases hfile
  unfold resolveLink ownNode?
  cases hq : s.find false q with
  | error => rfl
  | ok found =>
    obtain ⟨m, node'⟩ := found
    cases node' with
    | link target =>
      obtain ⟨-, hlink⟩ := eq_of_find_same hs hp hq hsame hdir (by simp)
      rw [← hlink] at hfile
      cases hfile
    | _ => rfl

end Store

end Excerpt
