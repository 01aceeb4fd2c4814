import Excerpt.Proofs.Path.Trimming
import Excerpt.Proofs.Store.Parents
import Excerpt.Proofs.Store.Rewriting

/-!
# Spellings of one path

A walk passes over a `.` without looking at the tree, unless it stands at the end. So two spellings
that end in a step lead to the same place if their steps agree, in every store. `Respells` is about
the spellings of names behind a path: with them, what is known about chains of names carries over to
whatever spelling an operation builds.
-/

namespace Excerpt

/-- The segments that a walk does not pass over. -/
def Store.undotted (segs : List Bytes) : List Bytes := segs.filter (· ≠ [Path.dot])

/-- How far a walk comes, with what it still does not pass over. -/
def Leg.undotted : Leg → Leg
  | .jump d target rest => .jump d target (Store.undotted rest)
  | leg => leg

namespace Store

variable {s t : Store} {p q r above : Path} {d dir names front : Location} {n : Bytes} {node : Node}
  {segs rest : List Bytes} {follow : Bool}

/-! ### Segments without dots -/

@[simp] lemma undotted_dot : undotted ([Path.dot] :: segs) = undotted segs := by
  simp [undotted]

lemma undotted_cons (h : n ≠ [Path.dot]) : undotted (n :: segs) = n :: undotted segs := by
  simp [undotted, h]

/-- The steps say which segments there are. -/
lemma undotted_eq (h : ∀ seg ∈ segs, IsSegment seg) :
    undotted segs = (stepsOf segs).map fun c => (Path.ofComponent c).bytes := by
  induction segs with
  | nil => rfl
  | cons seg segs ih =>
    have hrest := ih fun m hm => h m (List.mem_cons_of_mem seg hm)
    by_cases hdot : seg = [Path.dot]
    · subst hdot
      rw [undotted_dot, stepsOf_dot, hrest]
    · rw [undotted_cons hdot, hrest]
      by_cases hup : seg = [Path.dot, Path.dot]
      · subst hup
        rfl
      · rw [stepsOf_name ((h seg List.mem_cons_self).isName hdot hup)]
        rfl

lemma undotted_eq_nil (h : segs.getLast? ≠ some [Path.dot]) : undotted segs = [] ↔ segs = [] := by
  constructor
  · intro hnil
    rcases List.eq_nil_or_concat' segs with rfl | ⟨front, n, rfl⟩
    · rfl
    · have hn : n ∈ undotted (front ++ [n]) := by
        refine List.mem_filter.mpr ⟨by simp, ?_⟩
        simpa using h
      rw [hnil] at hn
      cases hn
  · rintro rfl
    rfl

lemma getLast?_undotted : (undotted segs).getLast? ≠ some [Path.dot] := by
  intro hlast
  have hmem := (List.mem_filter.mp (List.mem_of_getLast? hlast)).2
  simp at hmem

lemma undotted_append_undotted : undotted (segs ++ undotted rest) = undotted (segs ++ rest) := by
  simp [undotted]

/-! ### Walks -/

/-- What is still to be visited behind a link ends as before. -/
lemma getLast?_of_jump {target : Path} (h : segs.getLast? ≠ some [Path.dot])
    (hleg : s.descend follow segs dir = .jump d target rest) : rest.getLast? ≠ some [Path.dot] := by
  induction segs, dir using descend_induction with
  | nil dir => cases hleg
  | dot segs dir ih =>
    rw [descend_dot] at hleg
    exact ih (getLast?_tail h) hleg
  | up segs dir ih =>
    rw [descend_up] at hleg
    exact ih (getLast?_tail h) hleg
  | long seg segs dir hlong =>
    rw [descend_long hlong] at hleg
    cases hleg
  | name seg segs dir hseg ih =>
    cases hn : s.get? (dir ++ [seg]) with
    | none =>
      rw [descend_none hseg follow segs hn] at hleg
      split at hleg <;> cases hleg
    | some node =>
      cases node with
      | dir =>
        rw [descend_dir hseg follow segs hn] at hleg
        exact ih (getLast?_tail h) hleg
      | link target =>
        rw [descend_link hseg follow segs hn] at hleg
        split at hleg
        · cases hleg
        · cases hleg
          exact getLast?_tail h
      | file =>
        rw [descend_file hseg follow segs hn rfl] at hleg
        split at hleg <;> cases hleg

lemma descend_undotted (h : segs.getLast? ≠ some [Path.dot]) :
    s.descend follow (undotted segs) dir = (s.descend follow segs dir).undotted := by
  induction segs, dir using descend_induction with
  | nil dir => rfl
  | dot segs dir ih =>
    rw [undotted_dot, ih (getLast?_tail h), descend_dot]
  | up segs dir ih =>
    rw [undotted_cons (by simp), descend_up, descend_up, ih (getLast?_tail h)]
  | long seg segs dir hlong =>
    rw [undotted_cons (ne_dots_of_long hlong).1, descend_long hlong, descend_long hlong]
    rfl
  | name seg segs dir hseg ih =>
    have hnil := undotted_eq_nil (getLast?_tail h)
    rw [undotted_cons hseg.1]
    cases hn : s.get? (dir ++ [seg]) with
    | none =>
      rw [descend_none hseg follow _ hn, descend_none hseg follow segs hn]
      simp only [hnil]
      split <;> rfl
    | some node =>
      cases node with
      | dir =>
        rw [descend_dir hseg follow _ hn, descend_dir hseg follow segs hn]
        exact ih (getLast?_tail h)
      | link target =>
        rw [descend_link hseg follow _ hn, descend_link hseg follow segs hn]
        simp only [hnil]
        split <;> rfl
      | file =>
        rw [descend_file hseg follow _ hn rfl, descend_file hseg follow segs hn rfl]
        simp only [hnil]
        split <;> rfl

lemma walk_undotted {links : Nat} {asDir : Bool} (h : segs.getLast? ≠ some [Path.dot]) :
    s.walk follow links dir (undotted segs) asDir = s.walk follow links dir segs asDir := by
  induction links generalizing dir segs asDir with
  | zero => rfl
  | succ links ih =>
    rw [walk, walk, descend_undotted h]
    cases hleg : s.descend (follow || asDir) segs dir with
    | arrived place => cases place <;> rfl
    | refused fault => rfl
    | jump d target rest =>
      have hrest := getLast?_of_jump h hleg
      simp only [Leg.undotted]
      rcases eq_or_ne rest [] with rfl | hne
      · rfl
      · have hlast : (segments target ++ rest).getLast? ≠ some [Path.dot] := by
          rwa [List.getLast?_append_of_ne_nil _ hne]
        have hne' : undotted rest ≠ [] := (undotted_eq_nil hrest).not.mpr hne
        have hlast' : (segments target ++ undotted rest).getLast? ≠ some [Path.dot] := by
          rw [List.getLast?_append_of_ne_nil _ hne']
          exact getLast?_undotted
        have hempty : (undotted rest).isEmpty = rest.isEmpty := by
          rw [List.isEmpty_eq_false_iff.mpr hne, List.isEmpty_eq_false_iff.mpr hne']
        rw [hempty, ← ih hlast, ← ih hlast', undotted_append_undotted]

/-! ### Paths -/

/-- A path that can be looked up and ends in a step. -/
structure Speakable (p : Path) : Prop where
  noNul : (0 : UInt8) ∉ p.bytes
  short : p.bytes.length < maxPath
  ne_nil : p.bytes ≠ []
  trimmed : p.IsTrimmed

lemma segments_single (hn : Path.slash ∉ n) (hne : n ≠ []) : segments ⟨n⟩ = [n] := by
  simp [segments, Text.splitOn_of_notMem hn, hne]

/-- A trimmed path ends in a segment that is no dot. -/
lemma getLast?_segments (h : p.IsTrimmed) (hne : p.bytes ≠ []) :
    (segments p).getLast? ≠ some [Path.dot] := by
  obtain ⟨bytes, c, hbytes, hc, hdot⟩ := h.exists_last hne
  have hsplit : ∃ front n, p.bytes = front ++ n ∧ Path.slash ∉ n ∧
      (front = [] ∨ front.getLast? = some Path.slash) := by
    rcases Path.exists_segment p.bytes.reverse with hnone | ⟨seg, rest, hseg, hrest⟩
    · exact ⟨[], p.bytes, rfl, by simpa using hnone, Or.inl rfl⟩
    · refine ⟨rest.reverse ++ [Path.slash], seg.reverse, ?_, by simpa using hseg, Or.inr (by simp)⟩
      rw [← List.reverse_reverse p.bytes, hrest]
      simp
  obtain ⟨front, n, hp, hslash, hfront⟩ := hsplit
  have hn : n ≠ [] := by
    rintro rfl
    rw [List.append_nil] at hp
    rcases hfront with hnil | hlast
    · exact hne (hp.trans hnil)
    · rw [← hp, hbytes] at hlast
      simp at hlast
      exact hc hlast
  have hsegments : segments p = segments ⟨front⟩ ++ [n] := by
    have happend := segments_append (b := n) (hfront.imp_right Or.inl)
    rwa [← hp, segments_single hslash hn] at happend
  rw [hsegments, List.getLast?_append_of_ne_nil _ (by simp)]
  intro hlast
  obtain rfl : n = [Path.dot] := by simpa using hlast
  rw [hbytes] at hp
  obtain ⟨rfl, hcdot⟩ := List.append_inj' hp rfl
  obtain rfl : c = Path.dot := by simpa using hcdot
  obtain ⟨hbytesNe, hbytesLast⟩ := hdot rfl
  rcases hfront with hnil | hlast
  · exact hbytesNe hnil
  · exact hbytesLast hlast

lemma wantsDir_of_trimmed (h : p.IsTrimmed) (hne : p.bytes ≠ []) : wantsDir p = false := by
  obtain ⟨bytes, c, hbytes, hc, -⟩ := h.exists_last hne
  rw [wantsDir, hbytes]
  simpa using hc

lemma Speakable.isLocatable (h : Speakable p) : IsLocatable p := ⟨h.noNul, h.ne_nil, h.short⟩

/-- The steps of a path say where it leads. -/
theorem locate_eq_of_steps (hp : Speakable p) (hq : Speakable q) (hsteps : p.steps = q.steps)
    (habs : p.isAbsolute = q.isAbsolute) : s.locate follow p = s.locate follow q := by
  have hundotted : undotted (segments p) = undotted (segments q) := by
    rw [undotted_eq fun _ => isSegment_of_mem hp.noNul,
      undotted_eq fun _ => isSegment_of_mem hq.noNul, stepsOf_segments, stepsOf_segments, hsteps]
  rw [hp.isLocatable.locate_eq, hq.isLocatable.locate_eq, start_congr habs,
    wantsDir_of_trimmed hp.trimmed hp.ne_nil, wantsDir_of_trimmed hq.trimmed hq.ne_nil,
    ← walk_undotted (getLast?_segments hp.trimmed hp.ne_nil), hundotted,
    walk_undotted (getLast?_segments hq.trimmed hq.ne_nil)]

/-! ### Names behind a path -/

/-- A spelling of the names `names` behind the path `p`. -/
structure Respells (p : Path) (names : Location) (q : Path) : Prop where
  speakable : Speakable q
  short : (chain p names).bytes.length < maxPath
  steps : q.steps = p.steps ++ names.map .name
  isAbsolute : q.isAbsolute = p.isAbsolute

/-- What leads to something are names that a directory can hold. -/
lemma isEntryName_of_leads {a : List Component} {l m : Location} (hs : s.WellFormed)
    (h : Leads s l a m) (hm : s.get? m ≠ none) (hn : .name n ∈ a) : IsEntryName n := by
  have hhere : ∀ {l : Location} {k : Bytes} {node : Node}, s.get? (l ++ [k]) = some node →
      IsEntryName k := by
    intro l k node hnode
    have hsome : s.get? (l ++ [k]) ≠ none := by simp [hnode]
    exact hs.isEntryName hsome (List.mem_append_right l List.mem_cons_self)
  induction h with
  | here => cases hn
  | free _ hfree => exact absurd hfree hm
  | down hnode _ _ ih =>
    rcases List.mem_cons.mp hn with heq | hrest
    · cases heq
      exact hhere hnode
    · exact ih hm hrest
  | up _ _ ih =>
    rcases List.mem_cons.mp hn with heq | hrest
    · cases heq
    · exact ih hm hrest
  | jump hnode _ ih =>
    rcases List.mem_cons.mp hn with heq | hrest
    · cases heq
      exact hhere hnode
    · exact ih hm (List.mem_append_right _ hrest)

/-- Behind a path that was found, only the names behind it can be too long. -/
lemma not_isLong_chain (hs : s.WellFormed) (hp : s.find true p = .ok (d, .dir))
    (hentry : ∀ m ∈ names, IsEntryName m) (hshort : (chain p names).bytes.length < maxPath) :
    ¬ IsLong (chain p names) := by
  rintro (hlong | ⟨m, hm, hlong⟩)
  · exact Nat.not_le.mpr hshort hlong
  · apply Nat.not_lt.mpr _ hlong
    rw [steps_chain p fun k hk => (hentry k hk).isName] at hm
    rcases List.mem_append.mp hm with hm | hm
    · obtain ⟨hleads, hd⟩ := leads_of_find hs hp rfl
      exact (isEntryName_of_leads hs hleads (by simp [hd]) hm).short
    · exact (hentry m (by simpa using hm)).short

lemma isAbsolute_chain_of_ne_nil (hp : p.bytes ≠ []) (hnames : ∀ m ∈ names, Path.IsName m) :
    (chain p names).isAbsolute = p.isAbsolute := by
  induction names using List.reverseRecOn with
  | nil => rfl
  | append_singleton names n ih =>
    have hfront : ∀ m ∈ names, Path.IsName m := fun m hm => hnames m (List.mem_append_left _ hm)
    rw [chain_concat, Path.child, Path.isAbsolute_join (start_chain (s := default) hp hfront).1
      (hnames n (by simp)).isAbsolute, ih hfront]

namespace Respells

/-- All spellings of names behind a path lead to the same place. -/
lemma locate_eq (hq : Respells p names q) (hp : s.find true p = .ok (d, .dir)) (hne : names ≠ [])
    (hnames : ∀ m ∈ names, Path.IsName m ∧ (0 : UInt8) ∉ m) (u : Store) (follow : Bool) :
    u.locate follow q = u.locate follow (chain p names) := by
  have hlocatable := isLocatable_of_find hp
  have hempty := hlocatable.ne_nil
  have hisName : ∀ m ∈ names, Path.IsName m := fun m hm => (hnames m hm).1
  have hchain : Speakable (chain p names) := by
    have hne' := (start_chain (s := s) hempty hisName).1
    refine ⟨noNul_chain hlocatable.noNul hnames, hq.short, hne', ?_⟩
    obtain ⟨front, n, rfl⟩ := (List.eq_nil_or_concat' names).resolve_left hne
    have hn : Path.IsName n := hisName n (by simp)
    obtain ⟨bytes, hbytes, -⟩ := bytes_child (chain p front) hn
    rw [chain_concat, Path.IsTrimmed, hbytes]
    exact Path.trimBack_append bytes hn
  apply locate_eq_of_steps hq.speakable hchain
  · rw [hq.steps, steps_chain p hisName]
  · rw [hq.isAbsolute, isAbsolute_chain_of_ne_nil hempty hisName]

/-- The parent of a spelling is a spelling of the names before the last. -/
lemma parent (hq : Respells p (front ++ [n]) q) (hn : Path.IsName n) (hfront : front ≠ []) :
    ∃ above, q.parent? = some above ∧ Respells p front above := by
  have hne : q.steps ≠ [] := by simp [hq.steps]
  obtain ⟨above, habove⟩ := Path.exists_parent hne
  obtain ⟨hsteps, habs⟩ := Path.of_parent?_eq_some habove
  have hsteps' : above.steps = p.steps ++ front.map .name := by
    rw [hsteps, hq.steps, List.map_append, ← List.append_assoc]
    exact List.dropLast_concat
  have hne' : above.steps ≠ [] := by simp [hsteps', hfront]
  obtain ⟨rest, hrest, -⟩ := Path.bytes_of_parent? habove
  refine ⟨above, habove, ⟨?_, ?_, ?_, ?_⟩, ?_, hsteps', habs.trans hq.isAbsolute⟩
  · intro hzero
    exact hq.speakable.noNul (hrest ▸ List.mem_append_left rest hzero)
  · have hlength := hq.speakable.short
    rw [hrest, List.length_append] at hlength
    omega
  · intro hnil
    rw [Path.steps, hnil] at hne'
    exact hne' rfl
  · exact Path.isTrimmed_parent habove hne'
  · have hlength := hq.short
    rw [chain_concat] at hlength
    exact Nat.lt_trans (length_child_lt _ hn) hlength

lemma isDir_eq (hq : Respells p names q) (h : Spells s p d names) (hne : names ≠ []) (u : Store) :
    u.isDir q = u.isDir (chain p names) := by
  rw [isDir, isDir, node?, node?, find, find, hq.locate_eq h.found hne h.spelled]

lemma makeDir_eq (hq : Respells p names q) (h : Spells s p d names) (hne : names ≠ []) (u : Store) :
    u.makeDir q = u.makeDir (chain p names) := by
  rw [makeDir, makeDir, hq.locate_eq h.found hne h.spelled]

/-- Making directories for a spelling is making them for the names. -/
lemma makeDirsWithin_eq (hq : Respells p names q) (h : Spells s p d names) (hne : names ≠ [])
    {depth : Nat} (hdepth : names.length ≤ depth) :
    makeDirsWithin depth q s = makeDirsWithin depth (chain p names) s := by
  induction names using List.reverseRecOn generalizing q depth with
  | nil => exact absurd rfl hne
  | append_singleton front n ih =>
    rw [List.length_append, List.length_singleton] at hdepth
    obtain ⟨depth, rfl⟩ := Nat.exists_eq_add_of_lt (Nat.lt_of_lt_of_le (Nat.zero_lt_succ _) hdepth)
    rw [Nat.zero_add]
    have hensure : ∀ u, ensureDir q u = ensureDir (chain p (front ++ [n])) u := by
      intro u
      rw [ensureDir, ensureDir, hq.makeDir_eq h hne, hq.isDir_eq h hne]
    have hnil : (chain p (front ++ [n])).bytes ≠ [] :=
      (start_chain (s := s) (isLocatable_of_find h.found).ne_nil h.isName).1
    have hmake := hq.makeDir_eq h hne s
    rcases h.ensureDir with ⟨hfound, -⟩ | ⟨hmissing, hfront, -⟩
    · rw [makeDirsWithin_of_ne hq.speakable.ne_nil (hmake ▸ hfound),
        makeDirsWithin_of_ne hnil hfound, hensure]
    · have hn : Path.IsName n := h.isName n (by simp)
      have hspells := h.of_prefix (List.prefix_append front [n])
      obtain ⟨above, habove, hspelled⟩ := hq.parent hn hfront
      rw [makeDirsWithin_of_missing hq.speakable.ne_nil (hmake.trans hmissing) habove,
        makeDirsWithin_of_missing hnil hmissing (parent?_chain hspells.isName hfront hn),
        ih hspelled hspells hfront (by omega)]
      split
      · rfl
      · exact hensure _

/-- The directories of names that are not too long can be made where there are only directories. -/
theorem makeDirs (hq : Respells p names q) (h : Spells s p d names) (hne : names ≠ [])
    (hentry : ∀ m ∈ names, IsEntryName m) :
    ∃ t, makeDirs q s = (.ok (), t) ∧ Adds (OnWay d names) s t ∧
      t.get? (d ++ names) = some .dir := by
  have hlong := not_isLong_chain h.wellFormed h.found hentry hq.short
  have hdepth : names.length ≤ q.bytes.length + 1 := by
    have hsteps := Path.length_steps_le q
    rw [hq.steps, List.length_append, List.length_map] at hsteps
    omega
  have hmade := h.makeDirsWithin hne hdepth
  rw [← hq.makeDirsWithin_eq h hne hdepth] at hmade
  obtain ⟨hadds, ⟨hok, hdir⟩ | ⟨-, habsurd⟩⟩ := hmade
  · exact ⟨_, Prod.ext hok rfl, hadds, hdir⟩
  · exact absurd habsurd hlong

end Respells

/-! ### Where a name is free -/

lemma node?_eq_some (h : s.node? p = some node) : ∃ l, s.find true p = .ok (l, node) := by
  unfold node? at h
  split at h
  · rename_i l found hfind
    cases h
    exact ⟨l, hfind⟩
  · cases h

/-- What leads to a directory are names of directories. -/
lemma Spells.of_dir (hs : s.WellFormed) (hp : s.find true p = .ok (d, .dir))
    (hd : s.get? (d ++ names) = some .dir) : Spells s p d names := by
  have hsome : s.get? (d ++ names) ≠ none := by simp [hd]
  refine ⟨hs, hp, ?_, ?_⟩
  · intro m hm
    have hentry := hs.isEntryName hsome (List.mem_append_right d hm)
    exact ⟨hentry.isName, hentry.noNul⟩
  · intro front hfront node hnode
    rcases hs.get?_of_prefix hsome ((List.prefix_append_right_inj d).mpr hfront) with he | hdir
    · rw [he, hd] at hnode
      exact (Option.some.inj hnode).symm
    · rw [hdir] at hnode
      exact (Option.some.inj hnode).symm

lemma Spells.find_dir (h : Spells s p d names) (hne : names ≠ [])
    (hd : s.get? (d ++ names) = some .dir) (hshort : (chain p names).bytes.length < maxPath) :
    s.find true (chain p names) = .ok (d ++ names, .dir) := by
  obtain ⟨k, hk⟩ := locate_chain h.found hne h.spelled
  refine find_of_locate (?_ : s.locate true _ = .ok (_, false))
  rw [hk, if_neg (Nat.not_le.mpr hshort), walk, Bool.or_false, h.descend_eq hd]
  rfl

/-- A free name in a directory is found free, whether links are followed or not. -/
lemma Spells.locate_free (h : Spells s p d names) (hd : s.get? (d ++ names) = some .dir)
    (hn : IsEntryName n) (hnone : s.get? (d ++ names ++ [n]) = none)
    (hshort : (chain p (names ++ [n])).bytes.length < maxPath) (follow : Bool) :
    s.locate follow (chain p (names ++ [n])) = .ok (.vacant (d ++ names) n, false) := by
  obtain ⟨k, hk⟩ := h.locate_last hd hn
  rw [hk, if_neg (Nat.not_le.mpr hshort), walk_name_none (isLookedUp_of_isEntryName hn) hnone]

namespace Respells

variable (hq : Respells p (front ++ [n]) q) (hs : s.WellFormed) (hp : s.find true p = .ok (d, .dir))
  (hd : s.get? (d ++ front) = some .dir)

include hq hs hp hd

/-- A spelling of a free name in a directory is found free. -/
lemma locate_free (hn : IsEntryName n) (hnone : s.get? (d ++ front ++ [n]) = none)
    (follow : Bool) : s.locate follow q = .ok (.vacant (d ++ front) n, false) := by
  have hspells := Spells.of_dir hs hp hd
  rw [hq.locate_eq hp (List.concat_ne_nil n front) (hspells.spelled_concat hn) s follow]
  exact hspells.locate_free hd hn hnone hq.short follow

/-- The directory above a spelling is there already. -/
lemma makeDirs_parent (hn : Path.IsName n) (hfront : front ≠ []) :
    ∃ above, q.parent? = some above ∧ Store.makeDirs above s = (.ok (), s) := by
  have hspells := Spells.of_dir hs hp hd
  obtain ⟨above, habove, hspelled⟩ := hq.parent hn hfront
  refine ⟨above, habove, makeDirs_of_isDir hspelled.speakable.ne_nil ?_⟩
  rw [hspelled.isDir_eq hspells hfront]
  exact isDir_of_find (hspells.find_dir hfront hd hspelled.short)

end Respells

lemma makeDirs_of_vacant (hp : p.bytes ≠ [])
    (hlocate : s.locate false p = .ok (.vacant d n, false)) :
    makeDirs p s = (.ok (), s.put (d ++ [n]) .dir) := by
  have hmake : s.makeDir p = .ok (s.put (d ++ [n]) .dir) :=
    makeDir_eq_ok_iff.mpr ⟨d, n, false, hlocate, rfl⟩
  rw [makeDirs, makeDirsWithin_of_ne hp (by simp [hmake]), ensureDir, hmake]

lemma makeLink_of_vacant {target : Path} (hnul : (0 : UInt8) ∉ target.bytes)
    (hne : target.bytes ≠ []) (hshort : target.bytes.length < maxPath)
    (hlocate : s.locate false p = .ok (.vacant d n, false)) :
    s.makeLink target p = .ok (s.put (d ++ [n]) (.link target)) :=
  makeLink_eq_ok_iff.mpr ⟨⟨hnul, hne, hshort⟩, d, n, hlocate, rfl⟩

lemma writeTarget_of_vacant {mode : Nat} (hlocate : s.locate true p = .ok (.vacant d n, false)) :
    s.writeTarget p mode = .ok (d ++ [n], mode) :=
  writeTarget_eq_ok_iff.mpr (Or.inr ⟨d, n, hlocate, rfl, rfl⟩)

/-! ### Joined paths -/

lemma bytes_join_eq (hq : q.isAbsolute = false) : (p.join q).bytes = frontOf p ++ q.bytes := by
  unfold frontOf Path.join
  rw [hq]
  cases p.bytes.getLast? with
  | none => rfl
  | some c =>
    simp only [Bool.false_eq_true, if_false]
    split
    · rfl
    · simp

/-- A relative path that leads along names, joined to a path. -/
lemma respells_join (hp : s.find true p = .ok (d, .dir)) (hrelative : q.isAbsolute = false)
    (htrimmed : q.IsTrimmed) (hsteps : q.steps = names.map .name) (hne : names ≠ [])
    (hnames : ∀ m ∈ names, Path.IsName m ∧ (0 : UInt8) ∉ m)
    (hshort : (p.join q).bytes.length < maxPath) : Respells p names (p.join q) := by
  have hnul := (isLocatable_of_find hp).noNul
  have hempty := (isLocatable_of_find hp).ne_nil
  have hqne : q.bytes ≠ [] := by
    intro hnil
    rw [Path.steps, hnil] at hsteps
    exact hne (by simpa using hsteps.symm)
  have hqnul : (0 : UInt8) ∉ q.bytes := by
    apply Path.noNul_of_names
    intro m hm
    have hmem : Component.name m ∈ names.map Component.name := hsteps ▸ hm
    exact (hnames m (by simpa using hmem)).2
  refine ⟨⟨?_, hshort, Path.join_bytes_ne_nil hempty hrelative, htrimmed.join hqne hrelative⟩, ?_,
    ?_, Path.isAbsolute_join hempty hrelative⟩
  · rcases Path.join_bytes (p := p) hrelative with ⟨-, hjoin⟩ | ⟨front, hfront, hjoin⟩ |
      ⟨-, -, hjoin⟩
    · rwa [hjoin]
    · rw [hfront] at hnul
      rw [hjoin]
      simp only [List.mem_append, List.mem_cons, List.not_mem_nil, or_false, not_or] at hnul ⊢
      exact ⟨hnul.1, hnul.2, hqnul⟩
    · rw [hjoin, List.mem_append, List.mem_cons, not_or, not_or]
      exact ⟨hnul, by decide, hqnul⟩
  · obtain ⟨m, more, rfl⟩ := List.exists_cons_of_ne_nil hne
    have hroom := Path.length_names_le hsteps
    have hbytes := bytes_chain_child p (hnames m List.mem_cons_self).1
      fun k hk => (hnames k (List.mem_cons_of_mem m hk)).1
    rw [bytes_join_eq hrelative, List.length_append] at hshort
    have hlength := congrArg List.length hbytes
    rw [List.flatMap_cons, List.length_append, List.length_cons] at hroom
    rw [List.length_append, List.length_append] at hlength
    change (chain (p.child m) more).bytes.length < maxPath
    omega
  · rw [Path.steps_join hrelative, hsteps]

end Store

end Excerpt
