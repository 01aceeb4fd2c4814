import Excerpt.Proofs.Store.Making
import Excerpt.Proofs.Store.Outgrowth

/-!
# Doing again what was done

Making a directory that is there does nothing, and what is written to a file that can be written
replaces its content. `Lasting` says that what could be written once can be written later, and
`Retraces` follows a second run through the stores of a first one: it starts where the first one
ended, and each place holds in it what it held at the same point of the first run, or in the end.
-/

namespace Excerpt

namespace Store

variable {s t u x x' y : Store} {o l m origin : Location} {p src dst : Path} {node : Node}
  {content old : Bytes} {mode mode' newMode : Nat} {stamp stamp' : Stamp}

/-! ### Modes -/

/-- The bits of a mode that permit reading, writing and executing. -/
def permissions (mode : Nat) : Nat := mode % 0o1000

/-- Writing clears no bits but those of the set-IDs. -/
lemma writtenMode_mod (mode : Nat) : writtenMode mode % 0o2000 = mode % 0o2000 := by
  unfold writtenMode clearBit
  split <;> omega

lemma writtenMode_writtenMode (mode : Nat) : writtenMode (writtenMode mode) = writtenMode mode := by
  unfold writtenMode clearBit
  split <;> split <;> omega

lemma copiedMode_mod (content : Bytes) (mode : Nat) :
    copiedMode content mode % 0o2000 = mode % 0o2000 := by
  unfold copiedMode
  split
  · rfl
  · exact writtenMode_mod mode

/-- A copy has the permissions of the file. -/
lemma permissions_copiedMode (content : Bytes) (mode : Nat) :
    permissions (copiedMode content mode) = permissions mode := by
  have hmod := copiedMode_mod content mode
  unfold permissions
  omega

lemma writable_congr (h : mode % 0o2000 = mode' % 0o2000) : writable mode = writable mode' := by
  unfold writable
  rw [decide_eq_decide]
  omega

lemma writable_writtenMode (mode : Nat) : writable (writtenMode mode) = writable mode :=
  writable_congr (writtenMode_mod mode)

lemma writable_copiedMode (content : Bytes) (mode : Nat) :
    writable (copiedMode content mode) = writable mode :=
  writable_congr (copiedMode_mod content mode)

/-! ### What is there -/

/-- A path that leads to a file has no slash at its end. -/
lemma locate_of_find_file (hs : s.WellFormed) {follow : Bool}
    (h : s.find follow p = .ok (l, .file content mode stamp)) :
    s.locate follow p = .ok (.found l (.file content mode stamp), false) := by
  obtain ⟨asDir, h⟩ := locate_of_find h
  cases asDir with
  | false => exact h
  | true =>
    obtain ⟨hp, hwalk⟩ := locate_eq_ok_iff.mp h
    obtain ⟨-, -, hdir⟩ :=
      walk_spec hs (hs.get?_start p) (fun _ => isSegment_of_mem hp.noNul) hwalk
    cases hdir rfl _ _ rfl

/-- A file that can be written is written in its place, with its mode. -/
lemma writeTarget_of_find (hs : s.WellFormed)
    (h : s.find true p = .ok (l, .file content mode stamp)) (hmode : writable mode = true) :
    s.writeTarget p newMode = .ok (l, mode) :=
  writeTarget_eq_ok_iff.mpr (Or.inl ⟨_, _, locate_of_find_file hs h, hmode⟩)

lemma write_of_find (hs : s.WellFormed) (h : s.find true p = .ok (l, .file old mode stamp))
    (hmode : writable mode = true) (content : Bytes) :
    s.write p content = .ok (s.put l (.file content (writtenMode mode) s.clock)) :=
  write_eq_ok_iff.mpr ⟨_, _, writeTarget_of_find hs h hmode, rfl⟩

/-- The time of a file can be set if the file can be written. -/
lemma setModified_eq_ok_iff (h : s.find true p = .ok (l, .file content mode stamp')) :
    s.setModified p stamp = .ok t ↔
      writable mode = true ∧ t = s.put l (.file content mode stamp) := by
  rw [setModified, h]
  simp only
  split
  · rename_i hmode
    rw [Except.ok.injEq, eq_comm]
    exact (and_iff_right hmode).symm
  · rename_i hmode
    exact ⟨nofun, fun h => absurd h.1 hmode⟩

lemma setMode_of_find (h : s.find true p = .ok (l, .file content mode stamp)) (mode' : Nat) :
    s.setMode p mode' = .ok (s.put l (.file content mode' stamp)) := by
  rw [setMode, h]

/-- The mode of a file that was just written. -/
lemma setMode_put (hs : s.WellFormed) (h : s.find true p = .ok (l, .file old mode stamp))
    (content : Bytes) (mode' newMode : Nat) :
    (s.put l (.file content mode' s.clock)).setMode p newMode =
      .ok (s.put l (.file content newMode s.clock)) := by
  rw [setMode_of_find (find_put_old hs h), put_put]

/-- A file is copied over another one. -/
lemma readable_of_copy (hsrc : s.find true src = .ok (origin, .file content mode stamp))
    (h : s.copy src dst = .ok t) : readable mode = true := by
  unfold copy at h
  simp only [hsrc] at h
  split at h
  · assumption
  · cases h

/-- What a path leads to is found in a larger store if it is the same that stands there. -/
lemma Extends.find_same {follow : Bool} (h : Extends s t) (ht : t.WellFormed)
    (hf : s.find follow p = .ok (l, node)) (hl : t.get? l = some node) :
    t.find follow p = .ok (l, node) := by
  obtain ⟨node', hf', -⟩ := h.find hf
  obtain rfl := Option.some.inj ((get?_of_find ht hf').symm.trans hl)
  exact hf'

/-- Making directories that are there does nothing. -/
lemma makeDirs_of_isDir (hp : p.bytes ≠ []) (h : s.isDir p = true) :
    makeDirs p s = (.ok (), s) := by
  obtain ⟨l, hfind⟩ := exists_of_isDir h
  obtain ⟨l', node, hown⟩ := find_follow hfind
  obtain ⟨asDir, hlocate⟩ := locate_of_find hown
  have hmake : s.makeDir p = .error .alreadyExists := by rw [makeDir, hlocate]
  have hne : s.makeDir p ≠ .error .notFound := by
    rw [hmake]
    simp
  rw [makeDirs, makeDirsWithin_of_ne hp hne, ensureDir, hmake]
  simp only [h, if_true]

/-! ### What was written -/

lemma writable_of_writeTarget (hnew : writable newMode = true)
    (h : s.writeTarget p newMode = .ok (l, mode)) : writable mode = true := by
  rcases writeTarget_eq_ok_iff.mp h with ⟨_, _, -, hmode⟩ | ⟨_, _, -, -, rfl⟩
  · exact hmode
  · exact hnew

lemma leads_of_writeTarget (hs : s.WellFormed) (h : s.writeTarget p newMode = .ok (l, mode)) :
    Leads s (s.start p) p.steps l := by
  rcases of_writeTarget hs h with ⟨old, stamp, hfind⟩ | ⟨d, n, rfl, hleads, -⟩
  · exact (leads_of_find hs hfind rfl).1
  · exact hleads

/-- Where a file is written there was none, or it could be written. -/
lemma old_of_writeTarget (hs : s.WellFormed) (h : s.writeTarget p newMode = .ok (l, mode)) :
    s.get? l = none ∨ ∃ old stamp, s.get? l = some (.file old mode stamp) := by
  rcases of_writeTarget hs h with ⟨old, stamp, hfind⟩ | ⟨d, n, rfl, -, -, -, hfree⟩
  · exact Or.inr ⟨old, stamp, get?_of_find hs hfind⟩
  · exact Or.inl hfree

lemma ne_nil_of_writeTarget (hs : s.WellFormed) (h : s.writeTarget p newMode = .ok (l, mode)) :
    l ≠ [] := by
  rintro rfl
  rcases old_of_writeTarget hs h with hfree | ⟨_, _, hold⟩
  · cases hfree
  · cases hold

/-- A file that can be read is copied to wherever another file may be written. -/
lemma copy_of_target (hs : s.WellFormed)
    (hsrc : s.find true src = .ok (origin, .file content mode stamp))
    (hread : readable mode = true) (hdst : s.writeTarget dst mode = .ok (l, mode'))
    (hne : l ≠ origin) :
    s.copy src dst = .ok (s.put l (.file content (copiedMode content mode) s.clock)) := by
  unfold copy
  simp only [hsrc, hread, if_true, hdst]
  simp only [get?_put_of_ne (ne_nil_of_writeTarget hs hdst) hne.symm, get?_of_find hs hsrc, put_put]

/-- Each place holds what it held, or a directory. -/
def DirsAdded (s t : Store) : Prop := ∀ l, t.get? l = s.get? l ∨ t.get? l = some .dir

lemma dirsAdded_of_makeDirs (hs : s.WellFormed) (h : makeDirs p s = (.ok (), t)) :
    DirsAdded s t := by
  have hruns := runs_makeDirs hs p
  rw [h] at hruns
  have hstep : ∀ u v c, u.WellFormed → DirsAdded s u → (∃ q, c = .dir q ∧ Over p q) →
      Changes c u v → DirsAdded s v := by
    rintro u v _ - hu ⟨q, rfl, -⟩ hchange l
    cases hchange with
    | new _ _ _ _ hnode =>
      rw [get?_put (by simp)]
      split
      · exact Or.inr (congrArg some hnode)
      · exact hu l
    | rewritten he => cases he
  exact hruns.invariant hstep hs fun _ => Or.inl rfl

/-! ### Lasting -/

/-- Everything in `s` is in `t`, and files that can be written can be written there still. -/
structure Lasting (s t : Store) : Prop where
  ext : Extends s t
  kept : ∀ l content mode stamp, s.get? l = some (.file content mode stamp) → writable mode = true →
    ∃ content' mode' stamp', t.get? l = some (.file content' mode' stamp') ∧ writable mode' = true

namespace Lasting

lemma refl (s : Store) : Lasting s s :=
  ⟨.refl s, fun _ content mode stamp h hmode => ⟨content, mode, stamp, h, hmode⟩⟩

lemma trans (h : Lasting s t) (h' : Lasting t u) : Lasting s u := by
  refine ⟨h.ext.trans h'.ext, fun l content mode stamp hl hmode => ?_⟩
  obtain ⟨content', mode', stamp', hl', hmode'⟩ := h.kept l content mode stamp hl hmode
  exact h'.kept l content' mode' stamp' hl' hmode'

/-- A file comes to a place, and can be written. -/
lemma put (hl : l ≠ []) (hext : Extends s (s.put l (.file content mode stamp)))
    (hmode : writable mode = true) : Lasting s (s.put l (.file content mode stamp)) := by
  refine ⟨hext, fun m old mode' stamp' hm hmode' => ?_⟩
  rw [get?_put hl]
  split
  · exact ⟨content, mode, stamp, rfl, hmode⟩
  · exact ⟨old, mode', stamp', hm, hmode'⟩

lemma makeDirs (hs : s.WellFormed) (h : makeDirs p s = (.ok (), t)) : Lasting s t := by
  have hext := (runs_makeDirs hs p).extends hs
  rw [h] at hext
  refine ⟨hext, fun l content mode stamp hl hmode => ?_⟩
  rcases dirsAdded_of_makeDirs hs h l with hsame | hdir
  · exact ⟨content, mode, stamp, hsame.trans hl, hmode⟩
  · obtain ⟨node, hnode, hshape⟩ := hext.kept l _ hl
    rw [hdir, Option.some.injEq] at hnode
    rw [← hnode] at hshape
    cases hshape

/-- A file that was found and could be written is found and can be written. -/
lemma find (h : Lasting s t) (hs : s.WellFormed) (ht : t.WellFormed)
    (hf : s.find true p = .ok (l, .file content mode stamp)) (hmode : writable mode = true) :
    ∃ content' mode' stamp', t.find true p = .ok (l, .file content' mode' stamp') ∧
      writable mode' = true := by
  obtain ⟨node, hf', -⟩ := h.ext.find hf
  obtain ⟨content', mode', stamp', hl, hmode'⟩ := h.kept l _ _ _ (get?_of_find hs hf) hmode
  obtain rfl := Option.some.inj ((get?_of_find ht hf').symm.trans hl)
  exact ⟨content', mode', stamp', hf', hmode'⟩

end Lasting

/-! ### Retracing -/

/-- Something comes to a place beneath `o`. -/
lemma Outgrowth.put_beneath (h : Outgrowth o s x) (hl : o <+: l) (hne : l ≠ [])
    (hwf : (x.put l node).WellFormed) (hext : Extends x (x.put l node)) :
    Outgrowth o s (x.put l node) := by
  refine ⟨h.base, hwf, h.ext.trans hext, fun m hm => ?_⟩
  rw [get?_put_of_ne hne, h.outside m hm]
  rintro rfl
  exact hm hl

/-- The store `y` is one of a second run, and `x` that at the same point of a first run, which ended
in `t`. -/
structure Retraces (o : Location) (s t x y : Store) : Prop where
  grown : Outgrowth o s y
  lasting : Lasting t y
  among : ∀ l, y.get? l = t.get? l ∨ y.get? l = x.get? l

namespace Retraces

/-- The second run starts where the first one ended. -/
lemma start (h : Outgrowth o s t) (x : Store) : Retraces o s t x t :=
  ⟨h, .refl t, fun _ => Or.inl rfl⟩

/-- Directories that the first run made are there in the second one. -/
lemma dirs (h : Retraces o s t x y) (hext : Extends x' t) (hdirs : DirsAdded x x') :
    Retraces o s t x' y := by
  refine ⟨h.grown, h.lasting, fun l => ?_⟩
  rcases h.among l with ht | hx
  · exact Or.inl ht
  · rcases hdirs l with hsame | hdir
    · exact Or.inr (hx.trans hsame.symm)
    · have ht := hext.dir hdir
      exact Or.inl ((h.lasting.ext.dir ht).trans ht.symm)

/-- The second run writes what the first one wrote. -/
lemma put (h : Retraces o s t x y) (hl : o <+: l) (hold : y.get? l = some (.file old mode' stamp'))
    (hmode : writable mode = true) :
    Retraces o s t (x.put l (.file content mode stamp)) (y.put l (.file content mode stamp)) := by
  have hne : l ≠ [] := by
    rintro rfl
    cases hold
  have hext : Extends y (y.put l (.file content mode stamp)) := extends_put_file hold
  refine ⟨h.grown.put_beneath hl hne (h.grown.wellFormed.put_old hold (by simp) trivial) hext,
    h.lasting.trans (.put hne hext hmode), fun m => ?_⟩
  rw [get?_put hne, get?_put hne]
  split
  · exact Or.inr rfl
  · exact h.among m

/-- In the end it holds what the first one held. -/
lemma get?_eq (h : Retraces o s t t y) (l : Location) : y.get? l = t.get? l :=
  (h.among l).elim id id

end Retraces

end Store

end Excerpt
