import Excerpt.Proofs.Assembly.Copying
import Excerpt.Proofs.Store.Room

/-!
# Copies to new places

Where nothing stands and there is room, the directories above a copy can be made and its content
can be written, so only setting the time is left to fail. That needs a file that can be written, and
the copy has the permissions of the source: `copyFile_of_free` says that the copy of a file that can
be read succeeds exactly if its owner may write the file.
-/

namespace Excerpt

/-- Nothing stands at the path, not even a link, it ends in a name, and there is room for it. -/
structure Store.IsFree (s : Store) (p : Path) : Prop where
  fits : Store.Fits p
  trimmed : p.IsTrimmed
  ne_nil : p.bytes ≠ []
  free : s.ownNode? p = none
  room : s.HasRoom p

open Store

/-- A change that is refused leaves the world as it is. -/
lemma Act.change_of_error {why : Fault → Failure} {f : Store → Except Fault Store} {w : World}
    {fault : Fault} (h : f w.store = .error fault) :
    Act.change why f w = (.error (why fault), w) := by
  simp [Act.change, Act.edit, Store.step, h]

namespace Assembly

variable {w : World} {src dst : Path} {l origin : Location} {content : Bytes} {mode mode' : Nat}
  {stamp : Stamp}

/-- The time of a copy: that of the file if it can be set, else the time of writing it. -/
def copyStamp (mode : Nat) (stamp now : Stamp) : Stamp := if writable mode then stamp else now

/-- How a copy ends that was written: its time can be set if its owner may write. -/
def copyEnd (dst : Path) (mode : Nat) : Except Failure Unit :=
  if writable mode then .ok () else .error (.setTimes dst .permissionDenied)

/-- A file that can be read is copied with its content and permissions to wherever a file may be
written, and with its time if it can be written. -/
lemma copyContent_eq (hw : w.store.WellFormed)
    (hsrc : w.store.find true src = .ok (origin, .file content mode stamp))
    (hread : readable mode = true) (htarget : w.store.writeTarget dst mode = .ok (l, mode'))
    (hne : l ≠ origin) :
    copyContent src dst w = (copyEnd dst mode, { w with
      store := w.store.put l
        (.file content (copiedMode content mode) (copyStamp mode stamp w.store.clock)) }) := by
  by_cases hmode : writable mode = true
  · rw [copyEnd, copyStamp, if_pos hmode, if_pos hmode]
    exact copyContent_of_target hw hsrc hread hmode htarget hne
  · rw [copyEnd, copyStamp, if_neg hmode, if_neg hmode]
    have hl : l ≠ [] := ne_nil_of_writeTarget hw htarget
    have hcopied := copy_of_target hw hsrc hread htarget hne
    have hsrc' := ((changes_of_copy hw hcopied).extends hw).find_same
      ((changes_of_copy hw hcopied).wellFormed hw) hsrc
      (by rw [get?_put_of_ne hl hne.symm, get?_of_find hw hsrc])
    have hset : (w.store.put l (.file content (copiedMode content mode) w.store.clock)).setModified
        dst stamp = .error .permissionDenied := by
      rw [setModified, (find_of_writeTarget hw htarget).1]
      exact if_neg (by rwa [writable_copiedMode])
    have hchange : Act.change (.copy src dst) (·.copy src dst) w = (.ok (), { w with
        store := w.store.put l (.file content (copiedMode content mode) w.store.clock) }) :=
      Act.change_eq_ok.mpr ⟨_, hcopied, rfl⟩
    rw [copyContent, Act.run_bind, hchange]
    simp only [Act.run_bind, Act.run_look, modified, hsrc']
    exact Act.change_of_error hset

/-- A file that can be read is copied to a free place: the copy has its content and permissions, all
that was there before is kept, and apart from the copy only directories are new. The copy gets the
time of the file, and making it succeeds, exactly if the owner may write the file. -/
theorem copyFile_of_free (hw : w.store.WellFormed)
    (hsrc : w.store.find true src = .ok (origin, .file content mode stamp))
    (hread : readable mode = true) (hdst : w.store.IsFree dst) :
    ∃ l t, copyFile src dst w = (copyEnd dst mode, { w with store := t }) ∧
      t.find true dst = .ok (l, .file content (copiedMode content mode)
        (copyStamp mode stamp w.store.clock)) ∧
      permissions (copiedMode content mode) = permissions mode ∧
      Adds (fun m node => m = l ∨ node = .dir) w.store t := by
  obtain ⟨above, t, d, n, habove, hmake, hadds, -, hlocate⟩ :=
    hdst.room.exists_vacant hw hdst.fits hdst.trimmed hdst.ne_nil hdst.free
  obtain ⟨-, hd, hn, hnone⟩ := of_locate_vacant hadds.wellFormed (hlocate true)
  have hsrc' := hadds.find hw hsrc
  have htarget : t.writeTarget dst mode = .ok (d ++ [n], mode) :=
    writeTarget_of_vacant (hlocate true)
  have hne : d ++ [n] ≠ origin := by
    rintro rfl
    rw [get?_of_find hadds.wellFormed hsrc'] at hnone
    cases hnone
  have hedit : Act.edit (.makeDir above) (Store.makeDirs above) w =
      (.ok (), { w with store := t }) := Act.edit_eq_ok.mpr ⟨t, hmake, rfl⟩
  refine ⟨d ++ [n], t.put (d ++ [n])
    (.file content (copiedMode content mode) (copyStamp mode stamp t.clock)), ?_, ?_,
    permissions_copiedMode content mode, ?_⟩
  · rw [copyFile_of_parent habove, Act.run_bind, hedit]
    exact copyContent_eq (w := { w with store := t }) hadds.wellFormed hsrc' hread htarget hne
  · rw [← hadds.clock]
    exact (find_of_writeTarget hadds.wellFormed htarget).1
  · exact (hadds.mono fun _ _ h => Or.inr h).trans
      (.put hadds.wellFormed hd hn hnone trivial (Or.inl rfl))

/-- Two files that can be read, of which one can be written, and an empty directory. -/
def permitStore : Store where
  entries := [(locationOf ["c"], .dir), (locationOf ["c", "a"], .file [97] 0o640 ⟨5, 7⟩),
    (locationOf ["c", "r"], .file [114] 0o444 ⟨6, 0⟩), (locationOf ["o"], .dir)]
  cwd := []
  clock := ⟨9, 0⟩

/-- A place in a directory that is missing. -/
def permitPlace : Path := .ofText "/o/d/f".toList

lemma isFree_permitPlace : permitStore.IsFree permitPlace where
  fits := ⟨by decide +kernel, by decide +kernel⟩
  trimmed := rfl
  ne_nil := by decide +kernel
  free := by decide +kernel
  room := by
    have hplace : permitPlace.parent? = some (.ofText "/o/d".toList) := by decide +kernel
    have habove : (Path.ofText "/o/d".toList).parent? = some (.ofText "/o".toList) := by
      decide +kernel
    refine .missing (n := [102]) (by decide +kernel) (by decide +kernel) (by decide) hplace ?_
    refine .missing (n := [100]) (by decide +kernel) (by decide +kernel) (by decide) habove ?_
    exact .dir (by decide +kernel)

theorem copyFile_permitStore :
    ∃ l t, copyFile (.ofText "/c/a".toList) permitPlace (.ofStore permitStore) =
        (.ok (), { World.ofStore permitStore with store := t }) ∧
      t.find true permitPlace = .ok (l, .file [97] 0o640 ⟨5, 7⟩) ∧
      permissions (copiedMode [97] 0o640) = permissions 0o640 ∧
      Adds (fun m node => m = l ∨ node = .dir) permitStore t :=
  have hsrc : permitStore.find true (.ofText "/c/a".toList) =
      .ok (locationOf ["c", "a"], .file [97] 0o640 ⟨5, 7⟩) := by decide +kernel
  copyFile_of_free (w := .ofStore permitStore) (by decide +kernel) hsrc (by decide +kernel)
    isFree_permitPlace

/-- A file that can be read but not written is not copied without a failure. -/
theorem copyFile_readOnly_fails :
    permitStore.WellFormed ∧ permitStore.find true (.ofText "/c/r".toList) =
        .ok (locationOf ["c", "r"], .file [114] 0o444 ⟨6, 0⟩) ∧ readable 0o444 = true ∧
      permitStore.IsFree permitPlace ∧
      (copyFile (.ofText "/c/r".toList) permitPlace (.ofStore permitStore)).1 =
        .error (.setTimes permitPlace .permissionDenied) :=
  ⟨by decide +kernel, by decide +kernel, by decide +kernel, isFree_permitPlace, by decide +kernel⟩

end Assembly

end Excerpt
