import Excerpt.Proofs.Path.Settling
import Excerpt.Proofs.Resolve
import Excerpt.Proofs.Store.Spelling

/-!
# The meaning of a resolved link

The target of a link is meant from the directory of the link. Resolving folds the directory and the
target into one path, and where all directories on the way are real, this path leads to what the
target means, as long as no climb that it needs was folded away.
-/

namespace Excerpt

/-- The steps of a path that have to lead to directories: all but the last, and the last one too if a
slash or a dot stands behind it. -/
def Path.dirSteps (t : Path) : List Component :=
  if t.IsTrimmed then t.steps.dropLast else t.steps

namespace Store

variable {s : Store} {p target t : Path} {l : Location} {a front : List Component} {n : Bytes}
  {segs : List Bytes} {follow : Bool}

/-! ### Reading from a directory -/

/-- Where a path starts when it is read from a directory. -/
def origin (dir : Location) (t : Path) : Location := if t.isAbsolute then [] else dir

/-- What a path leads to when it is read from a directory. -/
def findFrom (s : Store) (follow : Bool) (dir : Location) (t : Path) :
    Except Fault (Location × Node) :=
  match s.walk follow (maxLinks + 1) (origin dir t) (segments t) (wantsDir t) with
  | .error fault => .error fault
  | .ok (.vacant .., _) => .error .notFound
  | .ok (.found loc node, _) => .ok (loc, node)

/-- A path that can be looked up is read from the working directory. -/
lemma find_eq_findFrom (hnul : (0 : UInt8) ∉ p.bytes) (hne : p.bytes ≠ [])
    (hshort : p.bytes.length < maxPath) : s.find follow p = s.findFrom follow s.cwd p := by
  rw [find, locate, if_neg (by simpa using hnul), if_neg hne, if_neg (Nat.not_le.mpr hshort)]
  rfl

/-- Steps through directories only. -/
def Through (s : Store) (l : Location) (a : List Component) : Prop :=
  Stays (s.get? · = some .dir) l a

instance decidableStays {region : Location → Prop} [DecidablePred region] :
    (l : Location) → (a : List Component) → Decidable (Stays region l a)
  | _, [] => inferInstanceAs (Decidable True)
  | l, c :: a =>
    have : Decidable (Stays region (move l c) a) := decidableStays (move l c) a
    inferInstanceAs (Decidable (region (move l c) ∧ Stays region (move l c) a))

instance (s : Store) (l : Location) (a : List Component) : Decidable (s.Through l a) :=
  inferInstanceAs (Decidable (Stays _ l a))

/-- A walk goes through directories without a stop. -/
lemma descend_through (hs : s.WellFormed) (hsegs : ∀ seg ∈ segs, IsSegment seg)
    (h : s.Through l (stepsOf segs)) (rest : List Bytes) :
    s.descend follow (segs ++ rest) l = s.descend follow rest (along l (stepsOf segs)) := by
  induction segs, l using descend_induction with
  | nil l => rfl
  | dot segs l ih =>
    rw [List.cons_append, descend_dot]
    exact ih (List.forall_mem_cons.mp hsegs).2 h
  | up segs l ih =>
    rw [List.cons_append, descend_up]
    exact ih (List.forall_mem_cons.mp hsegs).2 h.2
  | long seg segs l hlong =>
    obtain ⟨hdot, hdots⟩ := ne_dots_of_long hlong
    rw [stepsOf_name ((hsegs seg List.mem_cons_self).isName hdot hdots)] at h
    have hdir : s.get? (l ++ [seg]) = some .dir := h.1
    have hshort := (hs.isEntryName (n := seg) (by rw [hdir]; simp) (by simp)).short
    exact absurd hlong (Nat.not_lt.mpr hshort)
  | name seg segs l hseg ih =>
    rw [stepsOf_name ((hsegs seg List.mem_cons_self).isName hseg.1 hseg.2.1)] at h ⊢
    rw [List.cons_append, descend_dir hseg follow _ h.1]
    exact ih (List.forall_mem_cons.mp hsegs).2 h.2

/-- A path whose steps all go through directories leads to the last of them. -/
lemma findFrom_through (hs : s.WellFormed) (hnul : (0 : UInt8) ∉ t.bytes)
    (h : s.Through (origin l t) t.steps) :
    s.findFrom follow l t = .ok (along (origin l t) t.steps, .dir) := by
  have hsegs : ∀ seg ∈ segments t, IsSegment seg := fun _ => isSegment_of_mem hnul
  rw [← stepsOf_segments] at h ⊢
  have hdescend : s.descend (follow || wantsDir t) (segments t) (origin l t) =
      .arrived (.found (along (origin l t) (stepsOf (segments t))) .dir) := by
    simpa [descend] using descend_through hs hsegs h []
  simp [findFrom, walk, hdescend, Node.isDir]

/-- The last segment of a trimmed path is its last step. -/
lemma segments_of_name (htrim : t.IsTrimmed) (hnul : (0 : UInt8) ∉ t.bytes)
    (hsteps : t.steps = front ++ [.name n]) :
    ∃ before, segments t = before ++ [n] ∧ stepsOf before = front := by
  have hne : t.bytes ≠ [] := Path.bytes_ne_nil_of_steps (by simp [hsteps])
  rcases List.eq_nil_or_concat' (segments t) with hnil | ⟨before, seg, hsegments⟩
  · rw [← stepsOf_segments, hnil] at hsteps
    simp [stepsOf] at hsteps
  · have hdot : seg ≠ [Path.dot] := by
      rintro rfl
      exact getLast?_segments htrim hne (by simp [hsegments])
    have hseg : IsSegment seg := isSegment_of_mem hnul (by simp [hsegments])
    rw [← stepsOf_segments, hsegments, stepsOf_append] at hsteps
    by_cases hup : seg = [Path.dot, Path.dot]
    · rw [hup, stepsOf_up] at hsteps
      have hlast := (List.append_inj' hsteps rfl).2
      simp at hlast
    · rw [stepsOf_name (hseg.isName hdot hup)] at hsteps
      obtain ⟨hfront, hlast⟩ := List.append_inj' hsteps rfl
      obtain rfl : seg = n := by simpa [stepsOf] using hlast
      exact ⟨before, hsegments, hfront⟩

/-- Behind directories, only the name at the end is left to be looked up. -/
lemma findFrom_name (hs : s.WellFormed) (htrim : t.IsTrimmed) (hnul : (0 : UInt8) ∉ t.bytes)
    (hsteps : t.steps = front ++ [.name n]) (h : s.Through (origin l t) front) :
    s.findFrom follow l t = s.findFrom follow (along (origin l t) front) ⟨n⟩ := by
  have hname : Path.IsName n := Path.isName_of_mem_steps (p := t) (by simp [hsteps])
  have hne : t.bytes ≠ [] := Path.bytes_ne_nil_of_steps (by simp [hsteps])
  obtain ⟨before, hsegments, rfl⟩ := segments_of_name htrim hnul hsteps
  have hbefore : ∀ seg ∈ before, IsSegment seg := by
    intro seg hseg
    exact isSegment_of_mem hnul (by simp [hsegments, hseg])
  have hwants : wantsDir ⟨n⟩ = false :=
    wantsDir_of_trimmed (Path.trimBack_append [] hname) hname.ne_nil
  have horigin : origin (along (origin l t) (stepsOf before)) ⟨n⟩ =
      along (origin l t) (stepsOf before) := by
    rw [origin, hname.isAbsolute]
    rfl
  rw [findFrom, findFrom, wantsDir_of_trimmed htrim hne, hwants, hsegments, horigin,
    segments_single hname.noSlash hname.ne_nil, walk, walk, descend_through hs hbefore h]

/-- Either the whole path goes through directories, or all of it but a name at its very end. -/
lemma through_of_dirSteps (hs : s.WellFormed) (hl : s.get? l = some .dir)
    (h : s.Through l t.dirSteps) : s.Through l t.steps ∨
      ∃ front n, t.IsTrimmed ∧ t.steps = front ++ [.name n] ∧ s.Through l front := by
  rw [Path.dirSteps] at h
  split at h
  · rename_i htrim
    rcases List.eq_nil_or_concat' t.steps with hnil | ⟨front, c, hsteps⟩
    · rw [hnil]
      exact Or.inl trivial
    · rw [hsteps, List.dropLast_concat] at h
      rcases Path.of_mem_steps (p := t) (c := c) (by simp [hsteps]) with rfl | ⟨n, rfl, -⟩
      · -- The parent of a directory is a directory.
        have hend : s.get? (along l front) = some .dir := Stays.along h hl
        have hup := hs.get?_dropLast (by rw [hend]; simp)
        rw [hsteps]
        exact Or.inl (stays_append.mpr ⟨h, hup, trivial⟩)
      · exact Or.inr ⟨front, n, htrim, hsteps, h⟩
  · exact Or.inl h

/-! ### Folded paths -/

/-- Climbing from a directory and going down to another, all directories on the way exist. -/
lemma through_steps (hs : s.WellFormed) {x : Path.Settled} (hl : s.get? l = some .dir)
    (hend : s.get? (along l x.steps) = some .dir) : s.Through l x.steps := by
  have hclimb : s.Through l (List.replicate (x.climbs % 2) .parent) := by
    rcases Nat.mod_two_eq_zero_or_one x.climbs with hparity | hparity
    · rw [hparity]
      trivial
    · rw [hparity]
      exact ⟨hs.get?_dropLast (by rw [hl]; simp), trivial⟩
  rw [Path.Settled.steps, along_append, along_names] at hend
  refine stays_append.mpr ⟨hclimb, stays_names.mpr ?_⟩
  intro front hfront _
  obtain ⟨rest, hrest⟩ := hfront
  have hbefore : along l (List.replicate (x.climbs % 2) .parent) ++ front <+:
      along l (List.replicate (x.climbs % 2) .parent) ++ x.names := ⟨rest, by simp [← hrest]⟩
  rcases hs.get?_of_prefix (by rw [hend]; simp) hbefore with heq | hdir
  · rw [heq]
    exact hend
  · exact hdir

/-- Where steps go through directories and no climb is lost, what folding leaves of them goes through
directories to the same place. -/
lemma Through.settle (hs : s.WellFormed) (hl : s.get? l = some .dir) (h : s.Through l a)
    (hclimbs : (Path.settle a).KeepsClimbs l) :
    s.Through l (Path.settle a).steps ∧ along l (Path.settle a).steps = along l a := by
  have hplace : along l (Path.settle a).steps = along l a := by
    rw [hclimbs.along_steps, Path.along_eq_place]
  have hend : s.get? (along l a) = some .dir := Stays.along h hl
  exact ⟨through_steps hs hl (by rwa [hplace]), hplace⟩

/-- All directories on the way along the directory of a path and then along a target exist, and none
of them is a link. -/
structure Passable (s : Store) (p target : Path) : Prop where
  dir : s.Through (s.start p) p.dir.steps
  target : s.Through (origin (along (s.start p) p.dir.steps) target) target.dirSteps

instance (s : Store) (p target : Path) : Decidable (s.Passable p target) :=
  decidable_of_iff (s.Through (s.start p) p.dir.steps ∧
    s.Through (origin (along (s.start p) p.dir.steps) target) target.dirSteps)
    ⟨fun h => ⟨h.1, h.2⟩, fun h => ⟨h.dir, h.target⟩⟩

/-- Folding the path takes no climb away that it needs. -/
def KeepsClimbs (s : Store) (q : Path) : Prop := (Path.settle q.steps).KeepsClimbs (s.start q)

instance (s : Store) (q : Path) : Decidable (s.KeepsClimbs q) :=
  inferInstanceAs (Decidable (Path.Settled.KeepsClimbs _ _))

/-- What is known of the path that a link with a relative target is resolved to. -/
structure ResolvesTo (p target r : Path) : Prop where
  spells : Path.Spells p.isAbsolute (Path.settle (p.dir.steps ++ target.steps)) r
  noNul : (0 : UInt8) ∉ r.bytes

lemma ResolvesTo.origin_eq {r : Path} (h : ResolvesTo p target r) :
    origin s.cwd r = s.start p := by
  rw [origin, h.spells.isAbsolute, start]

/-- The directory of a link, as its path spells it. -/
lemma dir_of_link (hs : s.WellFormed) (hlink : s.find false p = .ok (l, .link target)) :
    p.parent? = some p.dir ∧ p.dir.isAbsolute = p.isAbsolute ∧ (∃ n, p.steps = p.dir.steps ++ [n]) ∧
      Leads s (s.start p) p.dir.steps l.dropLast := by
  obtain ⟨front, n, d, hsteps, hleads, rfl⟩ := of_find_link hs hlink
  have hparent := Path.parent?_eq_dir (p := p) (by simp [hsteps])
  obtain ⟨hdirSteps, hdirAbs⟩ := Path.of_parent?_eq_some hparent
  rw [hsteps, List.dropLast_concat] at hdirSteps
  rw [hdirSteps, List.dropLast_concat]
  exact ⟨hparent, hdirAbs, ⟨_, hsteps⟩, hleads⟩

/-- The directory of a link lies where its steps spell it, if the way there is real. -/
lemma dropLast_eq_along (hs : s.WellFormed) (hlink : s.find false p = .ok (l, .link target))
    (h : s.Through (s.start p) p.dir.steps) : l.dropLast = along (s.start p) p.dir.steps := by
  have hfree : LinkFree s (s.get? · = some .dir) := by
    intro m hm target' hlink'
    rw [hm] at hlink'
    cases hlink'
  obtain ⟨-, -, -, hleads⟩ := dir_of_link hs hlink
  exact hfree.eq_along hleads h

lemma isAbsolute_dir_join (hs : s.WellFormed) (hlink : s.find false p = .ok (l, .link target))
    (hrel : target.isAbsolute = false) : (p.dir.join target).isAbsolute = p.isAbsolute := by
  obtain ⟨-, hdirAbs, -, -⟩ := dir_of_link hs hlink
  rw [← hdirAbs]
  by_cases hnil : p.dir.bytes = []
  · have hjoin : p.dir.join target = target := by simp [Path.join, hrel, hnil]
    rw [hjoin, hrel, Path.isAbsolute, hnil]
    rfl
  · exact Path.isAbsolute_join hnil hrel

lemma resolvesTo_of_link (hs : s.WellFormed) (hlink : s.find false p = .ok (l, .link target))
    (hrel : target.isAbsolute = false) : ResolvesTo p target (s.resolveLink p) := by
  obtain ⟨hparent, -, ⟨c, hsteps⟩, -⟩ := dir_of_link hs hlink
  have hresolved : s.resolveLink p = (p.dir.join target).fold := by
    rw [resolveLink_of_link (ownNode?_eq_some_iff.mpr ⟨l, hlink⟩), if_neg (by simp [hrel]), hparent]
    rfl
  have hspells := Path.spells_fold (p.dir.join target)
  rw [isAbsolute_dir_join hs hlink hrel, Path.steps_join hrel, ← hresolved] at hspells
  refine ⟨hspells, ?_⟩
  -- All names that are left are names of the link or of its target.
  apply Path.noNul_of_names
  intro m hm
  have hleft : .name m ∈ (s.resolveLink p).steps := hm
  rw [hspells.steps, Path.Settled.steps, List.mem_append] at hleft
  rcases hleft with hclimb | hname
  · simp at hclimb
  · have hmem := Path.mem_of_mem_settle (by simpa using hname)
    rcases List.mem_append.mp hmem with hmem | hmem
    · exact Path.noNul_of_mem_steps (isLocatable_of_find hlink).noNul (by simp [hsteps, hmem])
    · exact Path.noNul_of_mem_steps (hs.isSound (get?_of_find hs hlink)) hmem

/-- Read from the directory of the link, the target means what the resolved path leads to. -/
lemma ResolvesTo.findFrom_eq {r : Path} (hs : s.WellFormed) (h : ResolvesTo p target r)
    (hpass : s.Passable p target) (hrel : target.isAbsolute = false)
    (hnul : (0 : UInt8) ∉ target.bytes)
    (hclimbs : (Path.settle (p.dir.steps ++ target.steps)).KeepsClimbs (s.start p)) :
    s.findFrom follow s.cwd r = s.findFrom follow (along (s.start p) p.dir.steps) target := by
  have hstart := hs.get?_start p
  have hdir : s.get? (along (s.start p) p.dir.steps) = some .dir := Stays.along hpass.dir hstart
  have horigin : origin (along (s.start p) p.dir.steps) target =
      along (s.start p) p.dir.steps := by simp [origin, hrel]
  have htarget := hpass.target
  rw [horigin] at htarget
  rcases through_of_dirSteps hs hdir htarget with hwhole | ⟨front, n, htrim, hsteps, hfront⟩
  · -- Both lead to the last directory.
    obtain ⟨hthrough, hplace⟩ := Through.settle hs hstart (stays_append.mpr ⟨hpass.dir, hwhole⟩)
      hclimbs
    rw [← h.spells.steps] at hthrough hplace
    rw [findFrom_through hs hnul (by rwa [horigin]), findFrom_through hs h.noNul, horigin,
      h.origin_eq, hplace, along_append]
    rwa [h.origin_eq]
  · -- Both look the name at the end up in the last directory.
    have hspells := h.spells
    rw [hsteps, ← List.append_assoc, Path.settle_concat] at hspells hclimbs
    obtain ⟨hthrough, hplace⟩ := Through.settle hs hstart (stays_append.mpr ⟨hpass.dir, hfront⟩)
      (Path.Settled.keepsClimbs_step_name.mp hclimbs)
    have hrsteps := hspells.steps
    rw [Path.Settled.steps_step_name] at hrsteps
    rw [findFrom_name hs htrim hnul hsteps (by rwa [horigin]), horigin,
      findFrom_name hs (hspells.trimmed (by simp [hrsteps])) h.noNul hrsteps, h.origin_eq,
      hplace, along_append]
    rwa [h.origin_eq]

/-- A link with a relative target is resolved to a path without dots, with climbs only at its front.
Where all directories on the way are real and no climb is lost, that path leads to what the target
means from the directory of the link, unless it is empty or too long for the file system. -/
theorem resolveLink_keeps_meaning (hs : s.WellFormed)
    (hlink : s.find false p = .ok (l, .link target)) :
    (target.isAbsolute = false → ∃ (climbs : Nat) (names : List Bytes),
      (s.resolveLink p).components = (if p.isAbsolute then [.root] else []) ++
        (List.replicate climbs .parent ++ names.map .name)) ∧
    (s.Passable p target → s.KeepsClimbs (p.dir.join target) → (s.resolveLink p).bytes ≠ [] →
      (s.resolveLink p).bytes.length < maxPath →
      ∀ follow, s.find follow (s.resolveLink p) = s.findFrom follow l.dropLast target) := by
  have hnul : (0 : UInt8) ∉ target.bytes := hs.isSound (get?_of_find hs hlink)
  constructor
  · intro hrel
    have hspells := (resolvesTo_of_link hs hlink hrel).spells
    exact ⟨_, _, by rw [Path.components_eq, hspells.lead, hspells.steps, Path.Settled.steps]⟩
  · intro hpass hclimbs hne hshort follow
    cases habs : target.isAbsolute with
    | true =>
      have hresolved : s.resolveLink p = target := by
        rw [resolveLink_of_link (ownNode?_eq_some_iff.mpr ⟨l, hlink⟩), if_pos habs]
      rw [hresolved] at hne hshort ⊢
      rw [find_eq_findFrom hnul hne hshort, findFrom, findFrom, origin, origin, if_pos habs,
        if_pos habs]
    | false =>
      have hresolves := resolvesTo_of_link hs hlink habs
      rw [KeepsClimbs, start, isAbsolute_dir_join hs hlink habs, ← start,
        Path.steps_join habs] at hclimbs
      rw [find_eq_findFrom hresolves.noNul hne hshort, dropLast_eq_along hs hlink hpass.dir]
      exact hresolves.findFrom_eq hs hpass habs hnul hclimbs

/-! ### Links that climb -/

/-- A link that climbs two directories up, one to its own directory, and the directory of both as the
working directory. -/
def climbingStore : Store where
  entries :=
    [(locationOf ["w"], .dir),
      (locationOf ["w", "x"], .file [] 0o644 ⟨0, 0⟩),
      (locationOf ["w", "a"], .dir),
      (locationOf ["w", "a", "b"], .dir),
      (locationOf ["w", "a", "b", "l"], .link (.ofText "../../x".toList)),
      (locationOf ["w", "a", "b", "m"], .link (.ofText ".".toList))]
  cwd := locationOf ["w", "a", "b"]
  clock := ⟨1, 0⟩

/-- Under its absolute path, the link is resolved to what its target means. -/
theorem resolveLink_climbingStore :
    climbingStore.resolveLink (.ofText "/w/a/b/l".toList) = .ofText "/w/x".toList ∧
      ∀ follow, climbingStore.find follow (.ofText "/w/x".toList) =
        climbingStore.findFrom follow (locationOf ["w", "a", "b"]) (.ofText "../../x".toList) := by
  have hs : climbingStore.WellFormed := by decide +kernel
  have hlink : climbingStore.find false (.ofText "/w/a/b/l".toList) =
      .ok (locationOf ["w", "a", "b", "l"], .link (.ofText "../../x".toList)) := by decide +kernel
  have hresolved : climbingStore.resolveLink (.ofText "/w/a/b/l".toList) =
      .ofText "/w/x".toList := by decide +kernel
  have hkeeps := (resolveLink_keeps_meaning hs hlink).2 (by decide +kernel)
  rw [hresolved] at hkeeps
  exact ⟨hresolved, hkeeps (by decide +kernel) (by decide) (by decide +kernel)⟩

/-- Under its relative path, the link is resolved to a file beside it that does not exist, since the
second climb takes the first one away. Of a link to its own directory nothing is left. -/
theorem resolveLink_loses_climbs :
    climbingStore.WellFormed ∧
      climbingStore.Passable (.ofText "l".toList) (.ofText "../../x".toList) ∧
      climbingStore.resolveLink (.ofText "l".toList) = .ofText "x".toList ∧
      climbingStore.find true (.ofText "x".toList) = .error .notFound ∧
      climbingStore.findFrom true climbingStore.cwd (.ofText "../../x".toList) =
        .ok (locationOf ["w", "x"], .file [] 0o644 ⟨0, 0⟩) ∧
      climbingStore.Passable (.ofText "m".toList) (.ofText ".".toList) ∧
      climbingStore.resolveLink (.ofText "m".toList) = .empty ∧
      climbingStore.find true .empty = .error .notFound ∧
      climbingStore.findFrom true climbingStore.cwd (.ofText ".".toList) =
        .ok (climbingStore.cwd, .dir) := by
  decide +kernel

end Store

end Excerpt
