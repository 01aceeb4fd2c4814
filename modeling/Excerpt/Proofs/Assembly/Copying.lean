import Excerpt.Assembly
import Excerpt.Proofs.Actions
import Excerpt.Proofs.Store.Rewriting

/-!
# Copying one file

A copy has two parts: the directories above the destination are made, and then the content goes
there, with mode and time. `Transfers` says what the second part does where it succeeds, and
`copyContent_of_target` when it does.
-/

namespace Excerpt

open Store

namespace Assembly

variable {may : Store → Change → Prop} {w v : World} {src dst : Path} {l origin : Location}
  {content : Bytes} {mode mode' : Nat} {stamp : Stamp}

/-- A copy with mode and time, once the directory is there. -/
def copyContent (src dst : Path) : Act Unit := do
  Act.change (.copy src dst) (·.copy src dst)
  let stamp ← Act.look fun s =>
    match s.modified src with
    | .ok stamp => .ok stamp
    | .error fault => .error (.readTimes src fault)
  Act.change (.setTimes dst) (·.setModified dst stamp)

lemma copyFile_of_parent {above : Path} (h : dst.parent? = some above) :
    copyFile src dst =
      Act.edit (.makeDir above) (Store.makeDirs above) >>= fun _ => copyContent src dst := by
  unfold copyFile
  simp only [h]
  rfl

lemma copyFile_of_top (h : dst.parent? = none) : copyFile src dst = copyContent src dst := by
  unfold copyFile
  simp only [h]
  rfl

/-! ### What a copy may change -/

lemma copyContent_obeys (hfile : ∀ s, may s (.file dst)) : Act.Obeys may (copyContent src dst) := by
  refine .bind (.change fun s t hs h => ?_) fun _ => .bind Act.Reads.look.obeys fun stamp =>
    .change fun s t hs h => ?_
  · exact .single (hfile s) (changes_of_copy hs h)
  · exact .single (hfile s) (changes_of_setModified h)

/-- A copy writes to its destination and makes directories above it. -/
lemma copyFile_obeys_above
    (hdir : ∀ above, dst.parent? = some above → ∀ s q, Over above q → may s (.dir q))
    (hfile : ∀ s, may s (.file dst)) : Act.Obeys may (copyFile src dst) := by
  cases habove : dst.parent? with
  | some above =>
    rw [copyFile_of_parent habove]
    exact .bind (.makeDirs (hdir above habove)) fun _ => copyContent_obeys hfile
  | none =>
    rw [copyFile_of_top habove]
    exact copyContent_obeys hfile

lemma copyFile_obeys (hdir : ∀ s q, Over dst q → may s (.dir q))
    (hfile : ∀ s, may s (.file dst)) : Act.Obeys may (copyFile src dst) := by
  apply copyFile_obeys_above _ hfile
  intro above habove s q hq
  exact hdir s q (hq.of_parent? habove)

/-! ### Copies that succeed -/

/-- What a copy of the file `src` does to the place `l` that `dst` leads to. -/
structure Transfers (src dst : Path) (origin l : Location) (content : Bytes) (mode : Nat)
    (stamp : Stamp) (s t : Store) : Prop where
  source : s.find true src = .ok (origin, .file content mode stamp)
  readable : readable mode = true
  target : ∃ mode', s.writeTarget dst mode = .ok (l, mode')
  result : l ≠ origin → writable mode = true ∧
    t = s.put l (.file content (copiedMode content mode) stamp)

lemma copyContent_ok (hw : w.store.WellFormed) (hcopy : copyContent src dst w = (.ok (), v)) :
    ∃ origin l content mode stamp,
      Transfers src dst origin l content mode stamp w.store v.store := by
  obtain ⟨_, w₁, hchange, hcopy⟩ := Act.bind_eq_ok.mp hcopy
  obtain ⟨t, hcopied, rfl⟩ := Act.change_eq_ok.mp hchange
  obtain ⟨stamp', w₂, hlook, hcopy⟩ := Act.bind_eq_ok.mp hcopy
  obtain ⟨hstamp, rfl⟩ := Prod.mk.inj hlook
  obtain ⟨u, hset, rfl⟩ := Act.change_eq_ok.mp hcopy
  have hext := (changes_of_copy hw hcopied).extends hw
  have hwf := (changes_of_copy hw hcopied).wellFormed hw
  obtain ⟨origin, content, mode, stamp, l, mode', copied, hsrc, htarget, hwhole, rfl⟩ :=
    of_copy hw hcopied
  refine ⟨origin, l, content, mode, stamp, hsrc, readable_of_copy hsrc hcopied, ⟨mode', htarget⟩,
    fun hne => ?_⟩
  obtain rfl : copied = content := hwhole.trans (if_neg hne)
  have hl : l ≠ [] := ne_nil_of_writeTarget hw htarget
  -- The time of the source is read after its content was copied.
  have hsrc' := hext.find_same hwf hsrc (by rw [get?_put_of_ne hl hne.symm, get?_of_find hw hsrc])
  have hmodified : (w.store.put l (.file copied (copiedMode copied mode) w.store.clock)).modified
      src = .ok stamp := by
    rw [modified, hsrc']
  simp only [hmodified] at hstamp
  cases hstamp
  obtain ⟨hmode, rfl⟩ := (setModified_eq_ok_iff (find_of_writeTarget hw htarget).1).mp hset
  exact ⟨(writable_copiedMode copied mode).symm.trans hmode, put_put⟩

/-- A file that can be read and written is copied, with permissions and time, to wherever a file
may be written. -/
lemma copyContent_of_target (hw : w.store.WellFormed)
    (hsrc : w.store.find true src = .ok (origin, .file content mode stamp))
    (hread : readable mode = true) (hmode : writable mode = true)
    (htarget : w.store.writeTarget dst mode = .ok (l, mode')) (hne : l ≠ origin) :
    copyContent src dst w = (.ok (), { w with
      store := w.store.put l (.file content (copiedMode content mode) stamp) }) := by
  have hl : l ≠ [] := ne_nil_of_writeTarget hw htarget
  have hcopied := copy_of_target hw hsrc hread htarget hne
  have hsrc' := ((changes_of_copy hw hcopied).extends hw).find_same
    ((changes_of_copy hw hcopied).wellFormed hw) hsrc
    (by rw [get?_put_of_ne hl hne.symm, get?_of_find hw hsrc])
  have hset : (w.store.put l (.file content (copiedMode content mode) w.store.clock)).setModified
      dst stamp = .ok (w.store.put l (.file content (copiedMode content mode) stamp)) :=
    (setModified_eq_ok_iff (find_of_writeTarget hw htarget).1).mpr
      ⟨(writable_copiedMode content mode).trans hmode, put_put.symm⟩
  refine Act.bind_eq_ok.mpr ⟨(), _, Act.change_eq_ok.mpr ⟨_, hcopied, rfl⟩, ?_⟩
  refine Act.bind_eq_ok.mpr ⟨stamp,
    { w with store := w.store.put l (.file content (copiedMode content mode) w.store.clock) }, ?_,
    Act.change_eq_ok.mpr ⟨_, hset, rfl⟩⟩
  simp only [Act.run_look, modified, hsrc']

/-- Where a file was copied, the directories above its destination were made before. -/
lemma of_copyFile_ok (hw : w.store.WellFormed) (hcopy : copyFile src dst w = (.ok (), v)) :
    ∃ t, copyContent src dst { w with store := t } = (.ok (), v) ∧
      Runs (fun _ c => ∃ above q, dst.parent? = some above ∧ c = .dir q ∧ Over above q)
        w.store t := by
  cases habove : dst.parent? with
  | some above =>
    rw [copyFile_of_parent habove] at hcopy
    obtain ⟨_, w₁, hdirs, hcopy⟩ := Act.bind_eq_ok.mp hcopy
    obtain ⟨t, hmake, rfl⟩ := Act.edit_eq_ok.mp hdirs
    have hruns := runs_makeDirs hw above
    rw [hmake] at hruns
    refine ⟨t, hcopy, hruns.mono ?_⟩
    rintro s change ⟨q, rfl, hq⟩
    exact ⟨above, q, rfl, rfl, hq⟩
  | none =>
    rw [copyFile_of_top habove] at hcopy
    exact ⟨w.store, hcopy, .refl _⟩

/-! ### Lists of files -/

/-- Copying two lists of files is copying the one and then the other. -/
lemma copyFiles_append (corpus output : Path) (front back : List Path) :
    copyFiles corpus output (front ++ back) =
      copyFiles corpus output front >>= fun _ => copyFiles corpus output back := by
  induction front with
  | nil => rfl
  | cons file front ih =>
    simp only [List.cons_append, copyFiles, ih, bind_assoc]

/-- Where copying files fails, it fails at one of them, and those before it were copied. -/
lemma exists_of_copyFiles_error {corpus output : Path} {files : List Path} {e : Failure}
    (hcopy : copyFiles corpus output files w = (.error e, v)) :
    ∃ front file back u, files = front ++ file :: back ∧
      copyFiles corpus output front w = (.ok (), u) ∧
      copyFiles corpus output [file] u = (.error e, v) := by
  induction files generalizing w with
  | nil => cases hcopy
  | cons file files ih =>
    rw [← List.singleton_append, copyFiles_append, Act.run_bind] at hcopy
    rcases hfirst : copyFiles corpus output [file] w with ⟨e' | _, w₁⟩
    · rw [hfirst] at hcopy
      cases hcopy
      exact ⟨[], file, files, w, rfl, rfl, hfirst⟩
    · rw [hfirst] at hcopy
      obtain ⟨front, other, back, u, rfl, hfront, hother⟩ := ih hcopy
      refine ⟨file :: front, other, back, u, rfl, ?_, hother⟩
      rw [← List.singleton_append, copyFiles_append]
      exact Act.bind_eq_ok.mpr ⟨(), w₁, hfirst, hfront⟩

end Assembly

end Excerpt
