import Excerpt.Proofs.Store.Spelling

/-!
# Room for something new

There is room at a path if a directory stands there or could be made: what is missing of the path
are names, and what is there of it is a directory. `HasRoom.exists_made` makes that directory, and
`exists_vacant` says that behind it a new name is found free.
-/

namespace Excerpt

namespace Path

variable {p above : Path} {n : Bytes}

/-- A path ends in its file name, which stands behind its parent. -/
lemma steps_of_fileName? (hn : p.fileName? = some n) (habove : p.parent? = some above) :
    p.steps = above.steps ++ [.name n] := by
  obtain ⟨-, front, hfront⟩ := of_fileName?_eq_some hn
  rw [(of_parent?_eq_some habove).1, hfront, List.dropLast_concat]

lemma bytes_ne_nil_of_fileName? (hn : p.fileName? = some n) : p.bytes ≠ [] := by
  obtain ⟨-, front, hfront⟩ := of_fileName?_eq_some hn
  intro hnil
  rw [steps, hnil] at hfront
  exact absurd hfront.symm (by simp)

end Path

namespace Store

variable {s t : Store} {p base above dst : Path} {d names : Location} {n : Bytes} {node : Node}

/-! ### The length of what stands in front -/

/-- The file name and what stands in front of it fit into the path. -/
lemma length_frontOf_parent_le (hn : p.fileName? = some n) (habove : p.parent? = some above) :
    (frontOf above).length + n.length ≤ p.bytes.length := by
  obtain ⟨rest, hbytes, hcut⟩ := Path.bytes_of_parent? habove
  have hrest : Path.bodyComponents rest = [n].map .name := by
    have hsteps := Path.steps_of_fileName? hn habove
    have hsegments : segments p = segments above ++ segments ⟨rest⟩ := by
      rw [← segments_append hcut, ← hbytes]
    rw [← stepsOf_segments p, hsegments, stepsOf_append, stepsOf_segments, stepsOf_segments,
      List.append_cancel_left_eq] at hsteps
    exact hsteps
  have hroom := Path.length_names_le hrest
  rw [List.flatMap_singleton, List.length_cons] at hroom
  rw [hbytes, List.length_append]
  unfold frontOf
  cases hlast : above.bytes.getLast? with
  | none =>
    simp only [List.length_nil]
    omega
  | some c =>
    simp only
    split
    · omega
    · -- A parent without a slash at its end is cut off in front of one.
      rename_i hc
      have hslash : rest.head? = some Path.slash := by
        rcases hcut with hnil | hend | hnil | hhead
        · rw [hnil] at hlast
          cases hlast
        · rw [hlast, Option.some.injEq] at hend
          exact absurd hend hc
        · rw [hnil] at hrest
          cases hrest
        · exact hhead
      obtain ⟨more, rfl⟩ := List.head?_eq_some_iff.mp hslash
      rw [Path.bodyComponents_slash_cons] at hrest
      have hmore := Path.length_names_le hrest
      rw [List.flatMap_singleton, List.length_cons] at hmore
      rw [List.length_append, List.length_singleton, List.length_cons]
      omega

lemma length_frontOf (hp : p.bytes ≠ []) (hwants : wantsDir p = false) :
    (frontOf p).length = p.bytes.length + 1 := by
  rw [wantsDir, beq_eq_false_iff_ne] at hwants
  unfold frontOf
  cases hlast : p.bytes.getLast? with
  | none => exact absurd (List.getLast?_eq_none_iff.mp hlast) hp
  | some c =>
    rw [hlast] at hwants
    simp only
    rw [if_neg fun he => hwants (congrArg some he), List.length_append, List.length_singleton]

/-! ### Names behind what is there -/

/-- What may be put in front of a path: `./` in front of a relative one. -/
def slack (p : Path) : Nat := if p.isAbsolute then 0 else 2

/-- The path spells names behind `base`, which leads to the directory `d`, and none of them is
there. -/
structure Behind (s : Store) (base : Path) (d names : Location) (p : Path) : Prop where
  found : s.find true base = .ok (d, .dir)
  steps : p.steps = base.steps ++ names.map .name
  isAbsolute : p.isAbsolute = base.isAbsolute
  entries : ∀ m ∈ names, IsEntryName m
  front : (frontOf (chain base names)).length ≤ (frontOf p).length + slack p
  free : ∀ front, front <+: names → front ≠ [] → s.get? (d ++ front) = none

/-- What can be looked up of a path, also with `./` in front of it. -/
structure Fits (p : Path) : Prop where
  noNul : (0 : UInt8) ∉ p.bytes
  short : p.bytes.length + slack p < maxPath

lemma Fits.parent (h : Fits p) (habove : p.parent? = some above) : Fits above := by
  obtain ⟨rest, hbytes, -⟩ := Path.bytes_of_parent? habove
  have hslack : slack above = slack p := by
    rw [slack, slack, (Path.of_parent?_eq_some habove).2]
  have hshort := h.short
  refine ⟨fun hmem => h.noNul (hbytes ▸ List.mem_append_left rest hmem), ?_⟩
  rw [hbytes, List.length_append] at hshort
  omega

namespace Behind

lemma spells (hs : s.WellFormed) (h : Behind s base d names p) : Spells s base d names := by
  refine ⟨hs, h.found, fun m hm => ⟨(h.entries m hm).isName, (h.entries m hm).noNul⟩, ?_⟩
  intro front hfront node hnode
  rcases eq_or_ne front [] with rfl | hne
  · rw [List.append_nil, get?_of_find hs h.found] at hnode
    exact (Option.some.inj hnode).symm
  · rw [h.free front hfront hne] at hnode
    cases hnode

/-- A name behind such a path. -/
lemma respells (h : Behind s base d names above) (hp : Fits p) (htrim : p.IsTrimmed)
    (hn : p.fileName? = some n) (habove : p.parent? = some above) :
    Respells base (names ++ [n]) p := by
  have hname := (Path.of_fileName?_eq_some hn).1
  have habs := (Path.of_parent?_eq_some habove).2
  have hslack : slack above = slack p := by rw [slack, slack, habs]
  have hlength := length_frontOf_parent_le hn habove
  have hfront := h.front
  have hshort := hp.short
  refine ⟨⟨hp.noNul, by omega, Path.bytes_ne_nil_of_fileName? hn, htrim⟩, ?_, ?_,
    habs.symm.trans h.isAbsolute⟩
  · rw [chain_concat, bytes_child_eq _ hname, List.length_append]
    omega
  · rw [Path.steps_of_fileName? hn habove, h.steps]
    simp

/-- Nothing stands at a name behind such a path if nothing is found there. -/
lemma free_concat (hs : s.WellFormed) (h : Behind s base d names above)
    (hq : Respells base (names ++ [n]) p) (hn : IsEntryName n) (hfree : s.ownNode? p = none) :
    s.get? (d ++ (names ++ [n])) = none := by
  rcases eq_or_ne names [] with rfl | hne
  · have hspells := h.spells hs
    have hentry : ∀ m ∈ [n], IsEntryName m := List.forall_mem_singleton.mpr hn
    have hspelled : ∀ m ∈ [n], Path.IsName m ∧ (0 : UInt8) ∉ m :=
      fun m hm => ⟨(hentry m hm).isName, (hentry m hm).noNul⟩
    have hlocate := hq.locate_eq h.found (List.cons_ne_nil n []) hspelled s false
    have hd : s.get? (d ++ []) = some .dir := by
      rw [List.append_nil]
      exact get?_of_find hs h.found
    rcases hspells.locate_concat hd hn with ⟨hlong, -⟩ | ⟨hnone, -⟩ | ⟨node, hfound⟩
    · exact absurd hlong (not_isLong_chain hs h.found hentry hq.short)
    · rwa [List.append_assoc] at hnone
    · rw [List.nil_append] at hlocate hfound
      rw [ownNode?, find_of_locate (hlocate.trans hfound)] at hfree
      cases hfree
  · -- Where the names before it are missing, there is nothing behind them.
    exact hs.get?_eq_none_of_prefix (h.free names List.prefix_rfl hne)
      ((List.prefix_append_right_inj d).mpr (List.prefix_append names [n]))

lemma concat (hs : s.WellFormed) (h : Behind s base d names above) (hp : Fits p)
    (htrim : p.IsTrimmed) (hn : p.fileName? = some n) (habove : p.parent? = some above)
    (hlength : n.length ≤ maxName) (hfree : s.ownNode? p = none) :
    Behind s base d (names ++ [n]) p := by
  have hq := h.respells hp htrim hn habove
  have hne := Path.bytes_ne_nil_of_fileName? hn
  have hname := (Path.of_fileName?_eq_some hn).1
  have hnul : (0 : UInt8) ∉ n := Path.noNul_of_mem_steps hp.noNul (by simp [hq.steps])
  have hentry : IsEntryName n := ⟨hname, hnul, hlength⟩
  have hentries : ∀ m ∈ names ++ [n], IsEntryName m := by
    intro m hm
    rcases List.mem_append.mp hm with hm | hm
    · exact h.entries m hm
    · rw [List.mem_singleton.mp hm]
      exact hentry
  refine ⟨h.found, hq.steps, hq.isAbsolute, hentries, ?_, ?_⟩
  · have hwants := wantsDir_chain base (fun m hm => (hentries m hm).isName)
      (List.concat_ne_nil n names)
    have hchain := (start_chain (s := s) (isLocatable_of_find h.found).ne_nil
      fun m hm => (hentries m hm).isName).1
    have hslack : slack above = slack p := by
      rw [slack, slack, (Path.of_parent?_eq_some habove).2]
    have hfits := length_frontOf_parent_le hn habove
    have hfront := h.front
    rw [length_frontOf hchain hwants, length_frontOf hne (wantsDir_of_trimmed htrim hne),
      chain_concat, bytes_child_eq _ hname, List.length_append]
    omega
  · intro front hfront hfrontNe
    rcases List.prefix_concat_iff.mp hfront with rfl | hbefore
    · exact h.free_concat hs hq hentry hfree
    · exact h.free front hbefore hfrontNe

end Behind

/-! ### Room -/

/-- A directory stands at the path, or nothing does and there is room above it for a directory with
its name. The empty path stands for the current directory. -/
inductive HasRoom (s : Store) : Path → Prop where
  | here : HasRoom s Path.empty
  | dir {p : Path} : s.isDir p = true → HasRoom s p
  | missing {p above : Path} {n : Bytes} : s.ownNode? p = none → p.fileName? = some n →
      n.length ≤ maxName → p.parent? = some above → HasRoom s above → HasRoom s p

lemma find_dot (s : Store) : s.find true ⟨[Path.dot]⟩ = .ok (s.cwd, .dir) := by
  rfl

/-- Where there is room, the directory can be made. -/
theorem HasRoom.exists_made (hs : s.WellFormed) (h : s.HasRoom p) (hp : Fits p)
    (htrim : p.steps ≠ [] → p.IsTrimmed) : ∃ base d names t, Behind s base d names p ∧
      makeDirs p s = (.ok (), t) ∧ Adds (OnWay d names) s t ∧ t.get? (d ++ names) = some .dir := by
  induction h with
  | here =>
    refine ⟨⟨[Path.dot]⟩, s.cwd, [], s, ⟨find_dot s, rfl, rfl, nofun, by decide, ?_⟩, rfl,
      .refl hs, ?_⟩
    · exact fun front hfront hne => absurd (List.prefix_nil.mp hfront) hne
    · rw [List.append_nil]
      exact hs.cwd
  | @dir p hdir =>
    obtain ⟨d, hfind⟩ := exists_of_isDir hdir
    have hne := (isLocatable_of_find hfind).ne_nil
    refine ⟨p, d, [], s, ⟨hfind, by simp, rfl, nofun, Nat.le_add_right _ _, ?_⟩,
      makeDirs_of_isDir hne hdir, .refl hs, ?_⟩
    · exact fun front hfront hne => absurd (List.prefix_nil.mp hfront) hne
    · rw [List.append_nil]
      exact get?_of_find hs hfind
  | @missing p above n hfree hn hlength habove _ ih =>
    obtain ⟨base, d, names, -, hbehind, -⟩ := ih (hp.parent habove) (Path.isTrimmed_parent habove)
    have hsteps : p.steps ≠ [] := by simp [Path.steps_of_fileName? hn habove]
    have hconcat := hbehind.concat hs hp (htrim hsteps) hn habove hlength hfree
    obtain ⟨t, hmake, hadds, hdir⟩ := (hbehind.respells hp (htrim hsteps) hn habove).makeDirs
      (hconcat.spells hs) (List.concat_ne_nil n names) hconcat.entries
    exact ⟨base, d, names ++ [n], t, hconcat, hmake, hadds, hdir⟩

/-- If nothing stands at a path and there is room for it, the directory above it can be made, and
then the path is found free. -/
theorem HasRoom.exists_vacant (hs : s.WellFormed) (h : s.HasRoom dst) (hdst : Fits dst)
    (htrim : dst.IsTrimmed) (hne : dst.bytes ≠ []) (hfree : s.ownNode? dst = none) :
    ∃ above t d n, dst.parent? = some above ∧ makeDirs above s = (.ok (), t) ∧
      Adds (fun _ node => node = .dir) s t ∧ s.get? (d ++ [n]) = none ∧
      ∀ follow, t.locate follow dst = .ok (.vacant d n, false) := by
  cases h with
  | here => exact absurd rfl hne
  | dir hdir =>
    obtain ⟨d, hfind⟩ := exists_of_isDir hdir
    obtain ⟨l, node, hown⟩ := find_follow hfind
    rw [ownNode?, hown] at hfree
    cases hfree
  | @missing _ above n _ hn hlength habove hroom =>
    obtain ⟨base, d, names, t, hbehind, hmake, hadds, hdir⟩ :=
      hroom.exists_made hs (hdst.parent habove) (Path.isTrimmed_parent habove)
    have hq := hbehind.respells hdst htrim hn habove
    have hconcat := hbehind.concat hs hdst htrim hn habove hlength hfree
    have hnone := hconcat.free _ List.prefix_rfl (List.concat_ne_nil n names)
    rw [← List.append_assoc] at hnone
    refine ⟨above, t, d ++ names, n, habove, hmake, hadds.mono fun _ _ h => h.1, hnone, ?_⟩
    have hnone' : t.get? (d ++ names ++ [n]) = none := by
      rw [hadds.get?_eq, hnone]
      rintro node ⟨-, front, hfront, heq⟩
      rw [List.append_assoc, List.append_cancel_left_eq] at heq
      have hle := hfront.length_le
      rw [← heq, List.length_append, List.length_singleton] at hle
      omega
    exact hq.locate_free hadds.wellFormed (hadds.find hs hbehind.found) hdir
      (hconcat.entries n (by simp)) hnone'

end Store

end Excerpt
