import Excerpt.Proofs.Store.Regions

/-!
# What stands in a directory

A path with a name behind it leads to what has that name in the directory that the path leads to,
as long as the spelling is short enough for the file system. The converse of `leads_of_find` fails
in general, since walks count links and bytes; one more name needs neither a link nor luck.
-/

namespace Excerpt

namespace Store

variable {s : Store} {d l : Location} {n : Bytes} {node : Node} {p : Path} {follow : Bool}

/-! ### Spellings -/

lemma segments_child (p : Path) (hn : Path.IsName n) :
    segments (p.child n) = segments p ++ [n] := by
  have hsplit : Text.splitOn (· == Path.slash) n = [n] := Text.splitOn_of_notMem hn.noSlash
  have hone : [n].filter (· ≠ []) = [n] := by simp [hn.ne_nil]
  have happend : ∀ front : Bytes, (Text.splitOn (· == Path.slash) (front ++ Path.slash :: n)).filter
      (· ≠ []) = (Text.splitOn (· == Path.slash) front).filter (· ≠ []) ++ [n] := by
    intro front
    rw [Text.splitOn_append_cons (by simp), List.filter_append, hsplit, hone]
  simp only [segments, Path.child]
  rcases Path.join_bytes (p := p) hn.isAbsolute with ⟨hp, h⟩ | ⟨front, hp, h⟩ | ⟨-, -, h⟩
  · rw [h, hp]
    simp only [hsplit, hone]
    simp
  · rw [h, hp]
    simp only
    rw [happend, Text.splitOn_append_cons (by simp)]
    simp
  · rw [h]
    exact happend p.bytes

lemma bytes_child (p : Path) (hn : Path.IsName n) : ∃ front, (p.child n).bytes = front ++ n ∧
    ∀ b ∈ front, b ∈ p.bytes ∨ b = Path.slash := by
  simp only [Path.child]
  rcases Path.join_bytes (p := p) hn.isAbsolute with ⟨-, h⟩ | ⟨front, hp, h⟩ | ⟨-, -, h⟩
  · exact ⟨[], by rw [h]; rfl, by simp⟩
  · refine ⟨front ++ [Path.slash], by rw [h]; simp, fun b hb => ?_⟩
    rw [hp]
    exact Or.inl hb
  · refine ⟨p.bytes ++ [Path.slash], by rw [h]; simp, fun b hb => ?_⟩
    simpa using hb

lemma wantsDir_child (p : Path) (hn : Path.IsName n) : wantsDir (p.child n) = false := by
  obtain ⟨front, hfront, -⟩ := bytes_child p hn
  simp only [wantsDir]
  rw [hfront, beq_eq_false_iff_ne]
  intro hlast
  rw [List.getLast?_append_of_ne_nil _ hn.ne_nil] at hlast
  exact hn.noSlash (List.mem_of_getLast? hlast)

lemma noNul_child (hp : (0 : UInt8) ∉ p.bytes) (hn : Path.IsName n) (hnul : (0 : UInt8) ∉ n) :
    (0 : UInt8) ∉ (p.child n).bytes := by
  obtain ⟨front, hfront, hmem⟩ := bytes_child p hn
  rw [hfront, List.mem_append]
  rintro (h | h)
  · rcases hmem _ h with h | h
    · exact hp h
    · exact absurd h (by decide)
  · exact hnul h

/-- A child of a path is spelled with more bytes. -/
lemma length_child_lt (p : Path) (hn : Path.IsName n) :
    p.bytes.length < (p.child n).bytes.length := by
  have hpos : 0 < n.length := List.length_pos_of_ne_nil hn.ne_nil
  simp only [Path.child]
  rcases Path.join_bytes (p := p) hn.isAbsolute with ⟨hp, h⟩ | ⟨front, hp, h⟩ | ⟨-, -, h⟩
  · rw [h, hp]
    exact hpos
  · rw [h, hp]
    simp only [List.length_append, List.length_cons, List.length_nil]
    omega
  · rw [h]
    simp only [List.length_append, List.length_cons]
    omega

/-! ### Walking further -/

lemma isLookedUp_of_isName (hn : Path.IsName n) (hshort : n.length ≤ maxName) : IsLookedUp n :=
  ⟨hn.ne_dots.1, hn.ne_dots.2, Nat.not_lt.mpr hshort⟩

lemma isLookedUp_of_isEntryName (hn : IsEntryName n) : IsLookedUp n :=
  isLookedUp_of_isName hn.isName hn.short

/-- A single name leads to what has it. A link is met only where links at the end are not
followed. -/
lemma walk_name {links : Nat} (hseg : IsLookedUp n) (hn : s.get? (d ++ [n]) = some node)
    (hlink : node.isLink = true → follow = false) :
    s.walk follow (links + 1) d [n] false = .ok (.found (d ++ [n]) node, false) := by
  rw [walk, Bool.or_false]
  cases node with
  | dir =>
    rw [descend_dir hseg follow [] hn]
    rfl
  | link target =>
    rw [hlink rfl, descend_link hseg false [] hn, if_pos ⟨rfl, Bool.false_ne_true⟩]
    rfl
  | file =>
    rw [descend_file hseg follow [] hn rfl, if_pos rfl]
    rfl

lemma walk_name_none {links : Nat} (hseg : IsLookedUp n) (hn : s.get? (d ++ [n]) = none) :
    s.walk follow (links + 1) d [n] false = .ok (.vacant d n, false) := by
  rw [walk, Bool.or_false, descend_none hseg follow [] hn, if_pos rfl]

/-- A walk to a directory, some segments longer. -/
lemma descend_append {more : List Bytes} (hmore : more ≠ []) (follow : Bool) (todo : List Bytes)
    (dir : Location) :
    (∀ l, s.descend true todo dir = .arrived (.found l .dir) →
      s.descend follow (todo ++ more) dir = s.descend follow more l) ∧
    (∀ d target rest, s.descend true todo dir = .jump d target rest →
      s.descend follow (todo ++ more) dir = .jump d target (rest ++ more)) := by
  induction todo, dir using descend_induction with
  | nil dir =>
    refine ⟨fun l h => ?_, fun d target rest h => by cases h⟩
    rw [descend] at h
    cases h
    rfl
  | dot todo dir ih =>
    rw [List.cons_append, descend_dot, descend_dot]
    exact ih
  | up todo dir ih =>
    rw [List.cons_append, descend_up, descend_up]
    exact ih
  | long seg todo dir hlong =>
    rw [descend_long hlong]
    refine ⟨fun l h => ?_, fun d target rest h => ?_⟩ <;> cases h
  | name seg todo dir hseg ih =>
    rw [List.cons_append]
    cases hn : s.get? (dir ++ [seg]) with
    | none =>
      rw [descend_none hseg true todo hn]
      refine ⟨fun l h => ?_, fun d target rest h => ?_⟩ <;> split at h <;> cases h
    | some found =>
      cases found with
      | dir =>
        rw [descend_dir hseg true todo hn, descend_dir hseg follow (todo ++ more) hn]
        exact ih
      | link target =>
        rw [descend_link hseg true todo hn, descend_link hseg follow (todo ++ more) hn]
        rw [if_neg (by simp), if_neg (by simp [hmore])]
        refine ⟨fun l h => ?_, fun d target rest h => ?_⟩ <;> cases h
        rfl
      | file =>
        rw [descend_file hseg true todo hn rfl]
        refine ⟨fun l h => ?_, fun d target rest h => ?_⟩ <;> split at h <;> cases h

lemma walk_append {more : List Bytes} (hmore : more ≠ []) {asDir asDir' : Bool} {links : Nat}
    {dir : Location} {todo : List Bytes}
    (h : s.walk true links dir todo asDir = .ok (.found d .dir, asDir')) :
    ∃ k, ∀ follow, s.walk follow links dir (todo ++ more) false =
      s.walk follow (k + 1) d more false := by
  induction links generalizing dir todo asDir with
  | zero => cases h
  | succ links ih =>
    rw [walk] at h
    have hleg := fun follow : Bool => descend_append (s := s) hmore (follow || false) todo dir
    rw [Bool.true_or] at h
    split at h
    · cases h
    · rename_i d' target rest hjump
      obtain ⟨k, hk⟩ := ih h
      refine ⟨k, fun follow => ?_⟩
      rw [walk, (hleg follow).2 _ _ _ hjump]
      simp only
      rw [← hk, List.append_assoc]
      congr 1
      simp [hmore]
    · rename_i l node harrived
      split at h
      · cases h
      · cases h
        refine ⟨links, fun follow => ?_⟩
        rw [walk, walk, (hleg follow).1 _ harrived]
    · rename_i hplace _
      cases h
      exact absurd rfl (hplace d .dir)

/-! ### Chains of names -/

/-- The path of a chain of names beneath a path. -/
def chain (p : Path) (names : Location) : Path := names.foldl Path.child p

@[simp] lemma chain_nil (p : Path) : chain p [] = p := rfl

lemma chain_concat (p : Path) (names : Location) (n : Bytes) :
    chain p (names ++ [n]) = (chain p names).child n := List.foldl_append

lemma steps_chain {names : Location} (p : Path) (h : ∀ n ∈ names, Path.IsName n) :
    (chain p names).steps = p.steps ++ names.map .name := by
  induction names generalizing p with
  | nil => simp
  | cons n names ih =>
    have := ih (p.child n) fun m hm => h m (List.mem_cons_of_mem _ hm)
    unfold chain at this ⊢
    rw [List.foldl_cons, this, Path.steps_child (h n List.mem_cons_self)]
    simp

lemma isAbsolute_chain {names : Location} {p : Path} (hp : p.isAbsolute = true)
    (h : ∀ n ∈ names, Path.IsName n) : (chain p names).isAbsolute = true := by
  induction names generalizing p with
  | nil => exact hp
  | cons n names ih =>
    exact ih (Path.isAbsolute_child hp (h n List.mem_cons_self))
      fun m hm => h m (List.mem_cons_of_mem _ hm)

lemma segments_chain {names : Location} (p : Path) (h : ∀ n ∈ names, Path.IsName n) :
    segments (chain p names) = segments p ++ names := by
  induction names using List.reverseRecOn with
  | nil => simp
  | append_singleton names n ih =>
    have hfront : ∀ m ∈ names, Path.IsName m := fun m hm => h m (List.mem_append_left _ hm)
    rw [chain_concat, segments_child _ (h n (by simp)), ih hfront, List.append_assoc]

lemma wantsDir_chain {names : Location} (p : Path) (h : ∀ n ∈ names, Path.IsName n)
    (hne : names ≠ []) : wantsDir (chain p names) = false := by
  obtain ⟨front, n, rfl⟩ := (List.eq_nil_or_concat' names).resolve_left hne
  rw [chain_concat, wantsDir_child _ (h n (by simp))]

lemma start_chain {names : Location} (hp : p.bytes ≠ []) (h : ∀ n ∈ names, Path.IsName n) :
    (chain p names).bytes ≠ [] ∧ s.start (chain p names) = s.start p := by
  induction names using List.reverseRecOn with
  | nil => exact ⟨hp, rfl⟩
  | append_singleton names n ih =>
    obtain ⟨hne, hstart⟩ := ih fun m hm => h m (List.mem_append_left _ hm)
    have hn := (h n (by simp)).isAbsolute
    rw [chain_concat]
    refine ⟨Path.join_bytes_ne_nil hne hn, ?_⟩
    exact (start_congr (Path.isAbsolute_join hne hn)).trans hstart

lemma noNul_chain {names : Location} (hp : (0 : UInt8) ∉ p.bytes)
    (h : ∀ n ∈ names, Path.IsName n ∧ (0 : UInt8) ∉ n) : (0 : UInt8) ∉ (chain p names).bytes := by
  induction names using List.reverseRecOn with
  | nil => exact hp
  | append_singleton names n ih =>
    obtain ⟨hn, hnul⟩ := h n (by simp)
    rw [chain_concat]
    exact noNul_child (ih fun m hm => h m (List.mem_append_left _ hm)) hn hnul

/-- Names behind a path are looked up in the directory that the path leads to, as long as the
spelling is not too long. -/
theorem locate_chain {names : Location} (hp : s.find true p = .ok (d, .dir)) (hne : names ≠ [])
    (hnames : ∀ n ∈ names, Path.IsName n ∧ (0 : UInt8) ∉ n) :
    ∃ k, ∀ follow, s.locate follow (chain p names) =
      if maxPath ≤ (chain p names).bytes.length then .error .nameTooLong
      else s.walk follow (k + 1) d names false := by
  have hlocatable := isLocatable_of_find hp
  obtain ⟨asDir, hwalk⟩ := walk_of_find hp
  have hisName : ∀ n ∈ names, Path.IsName n := fun n hn => (hnames n hn).1
  obtain ⟨hne', hstart⟩ := start_chain (s := s) hlocatable.ne_nil hisName
  have hnul' := noNul_chain hlocatable.noNul hnames
  obtain ⟨k, hk⟩ := walk_append hne hwalk
  refine ⟨k, fun follow => ?_⟩
  rw [locate_of_noNul hnul' hne', hstart, segments_chain p hisName, wantsDir_chain p hisName hne,
    hk]

/-- What stands in a directory is found by its name. -/
theorem find_child (hs : s.WellFormed) (hp : s.find true p = .ok (d, .dir))
    (hn : s.get? (d ++ [n]) = some node) (hlink : node.isLink = false)
    (hlen : (p.child n).bytes.length < maxPath) (follow : Bool) :
    s.find follow (p.child n) = .ok (d ++ [n], node) := by
  have hentry : IsEntryName n := hs.isEntryName (by rw [hn]; simp) (List.mem_append_right _
    List.mem_cons_self)
  have hseg := isLookedUp_of_isEntryName hentry
  have hone : ∀ m ∈ [n], Path.IsName m ∧ (0 : UInt8) ∉ m :=
    List.forall_mem_singleton.mpr ⟨hentry.isName, hentry.noNul⟩
  have hshort : (chain p [n]).bytes.length < maxPath := hlen
  obtain ⟨k, hk⟩ := locate_chain hp (List.cons_ne_nil n []) hone
  refine find_of_locate (?_ : s.locate follow (chain p [n]) = .ok (_, false))
  rw [hk, if_neg (Nat.not_le.mpr hshort), walk_name hseg hn (by simp [hlink])]

lemma Enters.chain {c names : Location} (h : Enters c p) (hnames : ∀ n ∈ names, Path.IsName n) :
    Enters c (chain p names) := by
  obtain ⟨hp, a, ha, hinside⟩ := h
  refine ⟨isAbsolute_chain hp hnames, a ++ names.map .name, ?_, hinside.append_names names⟩
  rw [steps_chain p hnames, ha, List.append_assoc]

end Store

end Excerpt
