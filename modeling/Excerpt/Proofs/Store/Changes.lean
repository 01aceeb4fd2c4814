import Excerpt.Proofs.Store.Growth
import Excerpt.Store.Edit
import Mathlib.Logic.Relation

/-!
# Changes of the store

Every operation that changes the store and does not take anything away makes something new at a
free place or replaces the content of a file, at the place that a path leads to. `Change` names
what is done, `Changes` says what it does, and `Runs` is a run of changes of which each was
permitted in the store that it was made in. One step keeps a store well-formed and extends it, so a
run does.

For each operation of the store there is a lemma that says which change it is.
-/

namespace Excerpt

namespace Store

/-- What is done to a store: a directory, a file or a link comes to a path. -/
inductive Change where
  | dir (p : Path)
  | file (p : Path)
  | link (target p : Path)
  deriving DecidableEq, Repr

/-- The path of a change. -/
def Change.path : Change → Path
  | .dir p | .file p | .link _ p => p

/-- What a new node is that comes into being by a change. -/
def Change.Makes : Change → Node → Prop
  | .dir _, node => node = .dir
  | .file _, node => node.isFile = true
  | .link target _, node => node = .link target ∧ (0 : UInt8) ∉ target.bytes

/-- A change leads to a free place in `d`. A link at the end of the path of a new link is not
followed. -/
def Change.LandsAt (s : Store) (c : Change) (d : Location) (n : Bytes) : Prop :=
  Leads s (s.start c.path) c.path.steps (d ++ [n]) ∧
    ∀ target p, c = .link target p → wantsDir p = false →
      ∃ front, p.steps = front ++ [.name n] ∧ Leads s (s.start p) front d

/-- What a change does. -/
inductive Changes (c : Change) (s : Store) : Store → Prop where
  | new {d : Location} {n : Bytes} {node : Node} :
      c.LandsAt s d n → s.get? d = some .dir → IsEntryName n → s.get? (d ++ [n]) = none →
      c.Makes node → Changes c s (s.put (d ++ [n]) node)
  | rewritten {p : Path} {l : Location} {old content : Bytes} {mode mode' : Nat}
      {stamp stamp' : Stamp} : c = .file p → s.find true p = .ok (l, .file old mode stamp) →
      Changes c s (s.put l (.file content mode' stamp'))

/-- Runs of changes, each of them permitted where it was made. -/
def Runs (may : Store → Change → Prop) : Store → Store → Prop :=
  Relation.ReflTransGen fun s t => ∃ c, may s c ∧ Changes c s t

variable {s t u : Store} {l d : Location} {n : Bytes} {node : Node} {c : Change} {p : Path}
  {may may' : Store → Change → Prop}

/-! ### Steps and runs -/

lemma grants_iff {n : Bytes} : grants n = true ↔ IsEntryName n := by
  unfold grants
  simp only [Bool.and_eq_true, decide_eq_true_eq, Bool.not_eq_true', List.contains_eq_mem,
    decide_eq_false_iff_not]
  constructor
  · rintro ⟨⟨⟨hcomponent, hslash⟩, hnul⟩, hshort⟩
    exact ⟨⟨hcomponent, hslash⟩, hnul, hshort⟩
  · rintro ⟨⟨hcomponent, hslash⟩, hnul, hshort⟩
    exact ⟨⟨⟨hcomponent, hslash⟩, hnul⟩, hshort⟩

lemma Change.Makes.isSound (h : c.Makes node) : IsSound node := by
  cases c with
  | dir => rw [show node = .dir from h]; trivial
  | file =>
    cases node with
    | link => cases h
    | _ => trivial
  | link => rw [h.1]; exact h.2

/-- Only the making of a link makes one. -/
lemma Change.Makes.isLink (h : c.Makes node) (hlink : ∀ target p, c ≠ .link target p) :
    node.isLink = false := by
  cases c with
  | dir =>
    rw [show node = .dir from h]
    rfl
  | file =>
    have hfile : node.isFile = true := h
    cases node with
    | link => cases hfile
    | _ => rfl
  | link target p => exact absurd rfl (hlink target p)

lemma extends_put_new (hfree : s.get? (d ++ [n]) = none) (node : Node) :
    Extends s (s.put (d ++ [n]) node) := by
  refine ⟨fun l old hold => ⟨old, ?_, rfl⟩, rfl, rfl⟩
  rw [get?_put_of_ne (by simp), hold]
  rintro rfl
  rw [hfree] at hold
  cases hold

lemma extends_put_file {old content : Bytes} {mode mode' : Nat} {stamp stamp' : Stamp}
    (hold : s.get? l = some (.file old mode stamp)) :
    Extends s (s.put l (.file content mode' stamp')) := by
  have hne : l ≠ [] := by
    rintro rfl
    cases hold
  refine ⟨fun l' node hn => ?_, rfl, rfl⟩
  by_cases h : l' = l
  · subst h
    rw [hold] at hn
    cases hn
    exact ⟨_, get?_put_self hne, rfl⟩
  · exact ⟨node, by rw [get?_put_of_ne hne h, hn], rfl⟩

lemma Changes.extends (hs : s.WellFormed) (h : Changes c s t) : Extends s t := by
  cases h with
  | new _ _ _ hfree _ => exact extends_put_new hfree _
  | rewritten _ hf => exact extends_put_file (get?_of_find hs hf)

lemma Changes.wellFormed (hs : s.WellFormed) (h : Changes c s t) : t.WellFormed := by
  cases h with
  | new _ hd hn hfree hnode => exact hs.put_new hd hn hnode.isSound hfree
  | rewritten _ hf => exact hs.put_old (get?_of_find hs hf) (by simp) trivial

namespace Runs

lemma refl (s : Store) : Runs may s s := Relation.ReflTransGen.refl

lemma trans (h : Runs may s t) (h' : Runs may t u) : Runs may s u :=
  Relation.ReflTransGen.trans h h'

lemma single (hc : may s c) (h : Changes c s t) : Runs may s t :=
  Relation.ReflTransGen.single ⟨c, hc, h⟩

lemma mono (hmay : ∀ s c, may s c → may' s c) (h : Runs may s t) : Runs may' s t :=
  Relation.ReflTransGen.mono (fun _ _ ⟨c, hc, h⟩ => ⟨c, hmay _ c hc, h⟩) _ _ h

lemma wellFormed (h : Runs may s t) (hs : s.WellFormed) : t.WellFormed := by
  induction h with
  | refl => exact hs
  | tail _ hstep ih =>
    obtain ⟨c, -, hc⟩ := hstep
    exact hc.wellFormed ih

lemma «extends» (h : Runs may s t) (hs : s.WellFormed) : Extends s t := by
  induction h with
  | refl => exact Extends.refl _
  | tail hrun hstep ih =>
    obtain ⟨c, -, hc⟩ := hstep
    exact ih.trans (hc.extends (wellFormed hrun hs))

/-- A permission that is only given for stores that extend the first one is enough. -/
lemma of_extends (h : Runs (fun u c => Extends s u → may u c) s t) (hs : s.WellFormed) :
    Runs may s t := by
  induction h with
  | refl => exact refl _
  | tail _ hlast ih =>
    obtain ⟨c, hc, hchange⟩ := hlast
    exact ih.trans (single (hc (ih.extends hs)) hchange)

/-- An invariant of well-formed stores that every permitted change keeps is kept by runs. -/
lemma invariant {inv : Store → Prop}
    (hstep : ∀ s t c, s.WellFormed → inv s → may s c → Changes c s t → inv t)
    (h : Runs may s t) (hs : s.WellFormed) (hinv : inv s) : inv t := by
  induction h with
  | refl => exact hinv
  | tail hrun hlast ih =>
    obtain ⟨c, hc, hchange⟩ := hlast
    exact hstep _ _ c (wellFormed hrun hs) ih hc hchange

/-- A file stays a file. If it has other bytes in the end, then a path that was permitted to be
written leads to it. -/
lemma file_kept {content : Bytes} {mode : Nat} {stamp : Stamp} (h : Runs may s t)
    (hs : s.WellFormed) (hl : s.get? l = some (.file content mode stamp)) :
    ∃ content' mode' stamp', t.get? l = some (.file content' mode' stamp') ∧
      (content' = content ∨
        ∃ u p node, may u (.file p) ∧ Extends u t ∧ t.find true p = .ok (l, node)) := by
  induction h with
  | refl => exact ⟨content, mode, stamp, hl, Or.inl rfl⟩
  | @tail u v hrun hlast ih =>
    obtain ⟨c, hc, hchange⟩ := hlast
    obtain ⟨content', mode', stamp', hn, hkept⟩ := ih
    have hu : u.WellFormed := wellFormed hrun hs
    have hext := hchange.extends hu
    have hkept' : content' = content ∨
        ∃ u p node, may u (.file p) ∧ Extends u v ∧ v.find true p = .ok (l, node) := by
      refine hkept.imp id ?_
      rintro ⟨u', p, node, hmay, hext', hfind⟩
      obtain ⟨node', hfind', -⟩ := hext.find hfind
      exact ⟨u', p, node', hmay, hext'.trans hext, hfind'⟩
    cases hchange with
    | new _ _ _ hfree _ =>
      refine ⟨content', mode', stamp', ?_, hkept'⟩
      rw [get?_put_of_ne (by simp), hn]
      rintro rfl
      rw [hfree] at hn
      cases hn
    | @rewritten p l' _ content'' _ mode'' _ stamp'' he hf =>
      have hne : l' ≠ [] := by
        rintro rfl
        cases get?_of_find hu hf
      by_cases heq : l = l'
      · subst heq
        obtain ⟨node, hfind, -⟩ := hext.find hf
        exact ⟨content'', mode'', stamp'', get?_put_self hne,
          Or.inr ⟨u, p, node, he ▸ hc, hext, hfind⟩⟩
      · exact ⟨content', mode', stamp', by rw [get?_put_of_ne hne heq, hn], hkept'⟩

end Runs

/-! ### When operations succeed -/

lemma makeDir_eq_ok_iff : s.makeDir p = .ok t ↔
    ∃ d n asDir, s.locate false p = .ok (.vacant d n, asDir) ∧ t = s.put (d ++ [n]) .dir := by
  unfold makeDir
  constructor
  · intro h
    split at h
    · cases h
    · cases h
    · rename_i d n asDir hl
      cases h
      exact ⟨d, n, asDir, hl, rfl⟩
  · rintro ⟨d, n, asDir, hl, rfl⟩
    rw [hl]

/-- A file is written in its place, with its mode, or in a free place. -/
lemma writeTarget_eq_ok_iff {newMode mode : Nat} : s.writeTarget p newMode = .ok (l, mode) ↔
    (∃ content stamp, s.locate true p = .ok (.found l (.file content mode stamp), false) ∧
      writable mode = true) ∨
    ∃ d n, s.locate true p = .ok (.vacant d n, false) ∧ l = d ++ [n] ∧ mode = newMode := by
  unfold writeTarget
  constructor
  · intro h
    split at h
    · cases h
    · cases h
    · rename_i content _ stamp hl
      split at h
      · rename_i hmode
        cases h
        exact Or.inl ⟨content, stamp, hl, hmode⟩
      · cases h
    · cases h
    · rename_i d n hl
      cases h
      exact Or.inr ⟨d, n, hl, rfl, rfl⟩
  · rintro (⟨content, stamp, hl, hmode⟩ | ⟨d, n, hl, rfl, rfl⟩)
    · rw [hl]
      exact if_pos hmode
    · rw [hl]

lemma write_eq_ok_iff {content : Bytes} : s.write p content = .ok t ↔
    ∃ l mode, s.writeTarget p plainMode = .ok (l, mode) ∧
      t = s.put l (.file content (writtenMode mode) s.clock) := by
  unfold write
  constructor
  · intro h
    split at h
    · cases h
    · rename_i l mode htarget
      cases h
      exact ⟨l, mode, htarget, rfl⟩
  · rintro ⟨l, mode, htarget, rfl⟩
    rw [htarget]

/-- A link can have any target that can be looked up, whether or not it leads anywhere. -/
lemma makeLink_eq_ok_iff {target : Path} : s.makeLink target p = .ok t ↔ IsLocatable target ∧
    ∃ d n, s.locate false p = .ok (.vacant d n, false) ∧ t = s.put (d ++ [n]) (.link target) := by
  unfold makeLink
  constructor
  · intro h
    split at h
    · cases h
    · rename_i hnul
      split at h
      · cases h
      · rename_i hne
        split at h
        · cases h
        · rename_i hlong
          split at h
          · cases h
          · cases h
          · cases h
          · rename_i d n hl
            cases h
            exact ⟨⟨by simpa using hnul, hne, Nat.not_le.mp hlong⟩, d, n, hl, rfl⟩
  · rintro ⟨htarget, d, n, hl, rfl⟩
    rw [if_neg (by simpa using htarget.noNul), if_neg htarget.ne_nil,
      if_neg (Nat.not_le.mpr htarget.short), hl]

/-! ### Which operation makes which change -/

lemma changes_of_makeDir (hs : s.WellFormed) (h : s.makeDir p = .ok t) : Changes (.dir p) s t := by
  obtain ⟨d, n, asDir, hl, rfl⟩ := makeDir_eq_ok_iff.mp h
  obtain ⟨hleads, hd, hn, hfree⟩ := of_locate_vacant hs hl
  exact .new ⟨hleads, fun _ _ hc => by cases hc⟩ hd hn hfree rfl

/-- A file that is written to stands where its path leads to. -/
lemma of_writeTarget {newMode mode : Nat} (hs : s.WellFormed)
    (h : s.writeTarget p newMode = .ok (l, mode)) :
    (∃ content stamp, s.find true p = .ok (l, .file content mode stamp)) ∨
    (∃ d n, l = d ++ [n] ∧ Leads s (s.start p) p.steps (d ++ [n]) ∧ s.get? d = some .dir ∧
      IsEntryName n ∧ s.get? (d ++ [n]) = none) := by
  rcases writeTarget_eq_ok_iff.mp h with ⟨content, stamp, hl, -⟩ | ⟨d, n, hl, rfl, rfl⟩
  · exact Or.inl ⟨content, stamp, find_of_locate hl⟩
  · exact Or.inr ⟨d, n, rfl, of_locate_vacant hs hl⟩

lemma changes_of_writeTarget {newMode mode mode' : Nat} {content : Bytes} {stamp : Stamp}
    (hs : s.WellFormed) (h : s.writeTarget p newMode = .ok (l, mode)) :
    Changes (.file p) s (s.put l (.file content mode' stamp)) := by
  rcases of_writeTarget hs h with ⟨_, _, hf⟩ | ⟨d, n, rfl, hleads, hd, hn, hfree⟩
  · exact .rewritten rfl hf
  · exact .new ⟨hleads, fun _ _ hc => by cases hc⟩ hd hn hfree rfl

lemma changes_of_write {content : Bytes} (hs : s.WellFormed) (h : s.write p content = .ok t) :
    Changes (.file p) s t := by
  obtain ⟨l, mode, htarget, rfl⟩ := write_eq_ok_iff.mp h
  exact changes_of_writeTarget hs htarget

/-- A copy is made from a file, and it is empty where it is made onto that very file. -/
lemma of_copy {src dst : Path} (hs : s.WellFormed) (h : s.copy src dst = .ok t) :
    ∃ origin content mode stamp l mode' copied,
      s.find true src = .ok (origin, .file content mode stamp) ∧
      s.writeTarget dst mode = .ok (l, mode') ∧ copied = (if l = origin then [] else content) ∧
      t = s.put l (.file copied (copiedMode copied mode) s.clock) := by
  unfold copy at h
  split at h
  · cases h
  · rename_i origin content mode stamp hf
    split at h
    · split at h
      · cases h
      · rename_i l mode' hl
        have hn := get?_of_find hs hf
        refine ⟨origin, content, mode, stamp, l, mode', _, hf, hl, rfl, ?_⟩
        have hne : l ≠ [] := by
          rcases of_writeTarget hs hl with ⟨_, _, hf'⟩ | ⟨d, n, rfl, -⟩
          · rintro rfl
            cases get?_of_find hs hf'
          · simp
        by_cases heq : l = origin
        · subst heq
          simp only [get?_put_self hne, put_put] at h
          cases h
          rw [if_pos rfl]
        · simp only [get?_put_of_ne hne (Ne.symm heq), hn, put_put] at h
          cases h
          rw [if_neg heq]
    · cases h
  · cases h

lemma changes_of_copy {src dst : Path} (hs : s.WellFormed) (h : s.copy src dst = .ok t) :
    Changes (.file dst) s t := by
  obtain ⟨_, _, _, _, _, _, _, -, hl, -, rfl⟩ := of_copy hs h
  exact changes_of_writeTarget hs hl

lemma of_setModified {stamp : Stamp} (h : s.setModified p stamp = .ok t) :
    ∃ l content mode old, s.find true p = .ok (l, .file content mode old) ∧
      t = s.put l (.file content mode stamp) := by
  unfold setModified at h
  split at h
  · cases h
  · rename_i l content mode old hfind
    split at h
    · cases h
      exact ⟨l, content, mode, old, hfind, rfl⟩
    · cases h
  · cases h

lemma changes_of_setModified {stamp : Stamp} (h : s.setModified p stamp = .ok t) :
    Changes (.file p) s t := by
  obtain ⟨_, _, _, _, hfind, rfl⟩ := of_setModified h
  exact .rewritten rfl hfind

lemma of_setMode {mode : Nat} (h : s.setMode p mode = .ok t) :
    t = s ∨ ∃ l content old stamp, s.find true p = .ok (l, .file content old stamp) ∧
      t = s.put l (.file content mode stamp) := by
  unfold setMode at h
  split at h
  · cases h
  · rename_i l content old stamp hfind
    cases h
    exact Or.inr ⟨l, content, old, stamp, hfind, rfl⟩
  · cases h
    exact Or.inl rfl

lemma changes_of_setMode {mode : Nat} (h : s.setMode p mode = .ok t) :
    t = s ∨ Changes (.file p) s t := by
  rcases of_setMode h with rfl | ⟨_, _, _, _, hfind, rfl⟩
  · exact Or.inl rfl
  · exact Or.inr (.rewritten rfl hfind)

lemma changes_of_makeLink {target : Path} (hs : s.WellFormed) (h : s.makeLink target p = .ok t) :
    Changes (.link target p) s t := by
  obtain ⟨htarget, d, n, hl, rfl⟩ := makeLink_eq_ok_iff.mp h
  obtain ⟨hleads, hd, hn, hfree⟩ := of_locate_vacant hs hl
  refine .new ⟨hleads, fun _ _ hc hp => ?_⟩ hd hn hfree ⟨rfl, htarget.noNul⟩
  cases hc
  exact last_of_locate_vacant hs hl hp

/-! ### What was made is found -/

lemma descend_put_new {follow : Bool} {todo : List Bytes} {dir : Location}
    (h : s.descend follow todo dir = .arrived (.vacant d n)) (hfree : s.get? (d ++ [n]) = none)
    (hlink : node.isLink = false) :
    (s.put (d ++ [n]) node).descend follow todo dir = .arrived (.found (d ++ [n]) node) := by
  induction todo, dir using descend_induction with
  | nil dir => cases h
  | dot rest dir ih =>
    rw [descend_dot] at h ⊢
    exact ih h
  | up rest dir ih =>
    rw [descend_up] at h ⊢
    exact ih h
  | long seg rest dir hlong =>
    rw [descend_long hlong] at h
    cases h
  | name seg rest dir hseg ih =>
    cases hn : s.get? (dir ++ [seg]) with
    | none =>
      rw [descend_none hseg follow rest hn] at h
      split at h
      · rename_i hnil
        cases h
        have hself : (s.put (d ++ [n]) node).get? (d ++ [n]) = some node :=
          get?_put_self (by simp)
        cases node with
        | dir =>
          rw [descend_dir hseg follow rest hself, hnil]
          rfl
        | file => rw [descend_file hseg follow rest hself rfl, if_pos hnil]
        | link => cases hlink
      · cases h
    | some found =>
      cases found with
      | dir =>
        rw [descend_dir hseg follow rest hn] at h
        rw [descend_dir hseg follow rest ((extends_put_new hfree _).dir hn)]
        exact ih h
      | link target =>
        rw [descend_link hseg follow rest hn] at h
        split at h <;> cases h
      | file =>
        rw [descend_file hseg follow rest hn rfl] at h
        split at h <;> cases h

lemma walk_put_new {follow asDir asDir' : Bool} {links : Nat} {dir : Location} {todo : List Bytes}
    (h : s.walk follow links dir todo asDir = .ok (.vacant d n, asDir'))
    (hfree : s.get? (d ++ [n]) = none) (hlink : node.isLink = false)
    (hdir : asDir' = true → node.isDir = true) :
    (s.put (d ++ [n]) node).walk follow links dir todo asDir =
      .ok (.found (d ++ [n]) node, asDir') := by
  induction links generalizing dir todo asDir with
  | zero => cases h
  | succ links ih =>
    rw [walk] at h ⊢
    split at h
    · cases h
    · rename_i hjump
      have hleg := (extends_put_new hfree node).descend (follow || asDir) todo dir
      rw [hjump] at hleg
      rw [hleg]
      exact ih h
    · split at h <;> cases h
    · rename_i harrived
      cases h
      rw [descend_put_new harrived hfree hlink]
      simpa using hdir

/-- What comes to the free place that a path leads to is found there. -/
lemma find_put_new {follow asDir : Bool} (hs : s.WellFormed)
    (h : s.locate follow p = .ok (.vacant d n, asDir)) (hlink : node.isLink = false)
    (hdir : asDir = true → node.isDir = true) :
    (s.put (d ++ [n]) node).find follow p = .ok (d ++ [n], node) := by
  obtain ⟨-, -, -, hfree⟩ := of_locate_vacant hs h
  obtain ⟨hp, hwalk⟩ := locate_eq_ok_iff.mp h
  exact find_of_locate (locate_eq_ok_iff.mpr ⟨hp, walk_put_new hwalk hfree hlink hdir⟩)

/-- A new file is seen by the walks that come to it, and by no other. -/
lemma descend_put_file {follow : Bool} {todo : List Bytes} {dir : Location}
    (hl : l ≠ []) (hfile : node.isFile = true) :
    (s.put l node).descend follow todo dir = s.descend follow todo dir ∨
      (s.put l node).descend follow todo dir = .arrived (.found l node) ∨
      ∃ fault, (s.put l node).descend follow todo dir = .refused fault := by
  induction todo, dir using descend_induction with
  | nil dir => exact Or.inl rfl
  | dot rest dir ih =>
    rw [descend_dot, descend_dot]
    exact ih
  | up rest dir ih =>
    rw [descend_up, descend_up]
    exact ih
  | long seg rest dir hlong =>
    rw [descend_long hlong, descend_long hlong]
    exact Or.inl rfl
  | name seg rest dir hseg ih =>
    by_cases he : dir ++ [seg] = l
    · have hself : (s.put l node).get? (dir ++ [seg]) = some node := by
        rw [he, get?_put_self hl]
      rw [descend_file hseg follow rest hself hfile, he]
      split
      · exact Or.inr (Or.inl rfl)
      · exact Or.inr (Or.inr ⟨_, rfl⟩)
    · have hput : (s.put l node).get? (dir ++ [seg]) = s.get? (dir ++ [seg]) :=
        get?_put_of_ne hl he
      cases hn : s.get? (dir ++ [seg]) with
      | none =>
        rw [descend_none hseg follow rest hn, descend_none hseg follow rest (hput.trans hn)]
        exact Or.inl rfl
      | some found =>
        cases found with
        | dir =>
          rw [descend_dir hseg follow rest hn, descend_dir hseg follow rest (hput.trans hn)]
          exact ih
        | link target =>
          rw [descend_link hseg follow rest hn, descend_link hseg follow rest (hput.trans hn)]
          exact Or.inl rfl
        | file =>
          rw [descend_file hseg follow rest hn rfl,
            descend_file hseg follow rest (hput.trans hn) rfl]
          exact Or.inl rfl

lemma walk_put_file {follow asDir asDir' : Bool} {links : Nat} {dir m : Location}
    {todo : List Bytes} {found : Node} (hl : l ≠ []) (hfile : node.isFile = true)
    (h : (s.put l node).walk follow links dir todo asDir = .ok (.found m found, asDir'))
    (hm : m ≠ l) : s.walk follow links dir todo asDir = .ok (.found m found, asDir') := by
  induction links generalizing dir todo asDir with
  | zero => cases h
  | succ links ih =>
    rw [walk] at h ⊢
    have hleg : (s.put l node).descend (follow || asDir) todo dir =
          s.descend (follow || asDir) todo dir ∨
        (s.put l node).descend (follow || asDir) todo dir = .arrived (.found l node) ∨
        ∃ fault, (s.put l node).descend (follow || asDir) todo dir = .refused fault :=
      descend_put_file hl hfile
    rcases hleg with hsame | harrived | ⟨fault, hrefused⟩
    · rw [hsame] at h
      split at h
      · cases h
      · exact ih h
      · exact h
      · exact h
    · rw [harrived] at h
      simp only at h
      split at h
      · cases h
      · cases h
        exact absurd rfl hm
    · rw [hrefused] at h
      cases h

/-- What was found next to a new file is found without it. -/
lemma find_put_file {follow : Bool} {m : Location} {found : Node} (hl : l ≠ [])
    (hfile : node.isFile = true) (h : (s.put l node).find follow p = .ok (m, found))
    (hm : m ≠ l) :
    s.find follow p = .ok (m, found) := by
  obtain ⟨asDir, hlocate⟩ := locate_of_find h
  obtain ⟨hp, hwalk⟩ := locate_eq_ok_iff.mp hlocate
  exact find_of_locate (locate_eq_ok_iff.mpr ⟨hp, walk_put_file hl hfile hwalk hm⟩)

/-- A directory that was made is new, and its path leads to it. -/
lemma of_makeDir (hs : s.WellFormed) (h : s.makeDir p = .ok t) :
    ∃ d n, t = s.put (d ++ [n]) .dir ∧ s.get? (d ++ [n]) = none ∧
      t.find false p = .ok (d ++ [n], .dir) := by
  obtain ⟨d, n, asDir, hl, rfl⟩ := makeDir_eq_ok_iff.mp h
  obtain ⟨-, -, -, hfree⟩ := of_locate_vacant hs hl
  exact ⟨d, n, rfl, hfree, find_put_new hs hl rfl fun _ => rfl⟩

/-- A file that is replaced is found where it was. -/
lemma find_put_old {follow : Bool} {old content : Bytes} {mode mode' : Nat} {stamp stamp' : Stamp}
    (hs : s.WellFormed) (h : s.find follow p = .ok (l, .file old mode stamp)) :
    (s.put l (.file content mode' stamp')).find follow p =
      .ok (l, .file content mode' stamp') := by
  have hold := get?_of_find hs h
  have hput : Extends s (s.put l (.file content mode' stamp')) := extends_put_file hold
  obtain ⟨node, hnode, -⟩ := hput.find h
  have hne : l ≠ [] := by
    rintro rfl
    cases hold
  have hwf : (s.put l (.file content mode' stamp')).WellFormed :=
    hs.put_old hold (by simp) trivial
  have hn := get?_of_find hwf hnode
  rw [get?_put_self hne, Option.some.injEq] at hn
  rw [hnode, ← hn]

/-- A file that comes to the place that a path is written at is found by the path. -/
lemma find_of_writeTarget {newMode mode mode' : Nat} {content : Bytes} {stamp : Stamp}
    (hs : s.WellFormed) (h : s.writeTarget p newMode = .ok (l, mode)) :
    (s.put l (.file content mode' stamp)).find true p = .ok (l, .file content mode' stamp) ∧
      Leads s (s.start p) p.steps l ∧ (s.get? l = none → mode = newMode) := by
  rcases writeTarget_eq_ok_iff.mp h with ⟨old, stamp, hl, -⟩ | ⟨d, n, hl, rfl, rfl⟩
  · have hfind := find_of_locate hl
    refine ⟨find_put_old hs hfind, (leads_of_find hs hfind rfl).1, fun hnone => ?_⟩
    rw [get?_of_find hs hfind] at hnone
    cases hnone
  · exact ⟨find_put_new hs hl rfl (by simp), (of_locate_vacant hs hl).1, fun _ => rfl⟩

/-- A file that was written is found, and has the content that was written. -/
lemma find_of_write {content : Bytes} (hs : s.WellFormed) (h : s.write p content = .ok t) :
    ∃ l mode, t = s.put l (.file content mode s.clock) ∧
      t.find true p = .ok (l, .file content mode s.clock) ∧ Leads s (s.start p) p.steps l ∧
      (s.get? l = none → mode = plainMode) := by
  obtain ⟨l, mode, htarget, rfl⟩ := write_eq_ok_iff.mp h
  obtain ⟨hfind, hleads, hnew⟩ := find_of_writeTarget hs htarget
  refine ⟨l, writtenMode mode, rfl, hfind, hleads, fun hnone => ?_⟩
  rw [hnew hnone]
  rfl

lemma of_readLink {target : Path} (h : s.readLink p = .ok target) :
    ∃ l, s.find false p = .ok (l, .link target) := by
  unfold readLink at h
  split at h
  · cases h
  · rename_i l _ hfind
    cases h
    exact ⟨l, hfind⟩
  · cases h

/-- What is removed was found without following a link, and is no directory. -/
lemma of_removeFile (h : s.removeFile p = .ok t) :
    ∃ l node, s.find false p = .ok (l, node) ∧ node ≠ .dir ∧ t = s.erase l := by
  unfold removeFile at h
  split at h
  · cases h
  · cases h
  · rename_i l node hnotdir hfind
    cases h
    exact ⟨l, node, hfind, hnotdir, rfl⟩

/-! ### Directories with those above them -/

/-- `q` is `p` or lies above it, by its steps. -/
def Over (p q : Path) : Prop := q.steps <+: p.steps ∧ q.isAbsolute = p.isAbsolute

lemma Over.refl (p : Path) : Over p p := ⟨List.prefix_rfl, rfl⟩

lemma Over.of_parent? {p q above : Path} (h : p.parent? = some above) (hq : Over above q) :
    Over p q := by
  obtain ⟨hsteps, habs⟩ := Path.of_parent?_eq_some h
  refine ⟨hq.1.trans ?_, hq.2.trans habs⟩
  rw [hsteps]
  exact List.dropLast_prefix _

/-- Makes a directory unless it is there. -/
def ensureDir (p : Path) : Edit Unit := fun s =>
  match s.makeDir p with
  | .ok s' => (.ok (), s')
  | .error fault => if s.isDir p then (.ok (), s) else (.error fault, s)

lemma makeDirsWithin_of_nil {depth : Nat} (hp : p.bytes = []) :
    Store.makeDirsWithin (depth + 1) p s = (.ok (), s) := by
  rw [Store.makeDirsWithin]
  exact if_pos hp

/-- If nothing above is missing, only the directory itself is made. -/
lemma makeDirsWithin_of_ne {depth : Nat} (hp : p.bytes ≠ [])
    (h : s.makeDir p ≠ .error .notFound) :
    Store.makeDirsWithin (depth + 1) p s = ensureDir p s := by
  rw [Store.makeDirsWithin, ensureDir]
  beta_reduce
  rw [if_neg hp]
  generalize s.makeDir p = made at h
  cases made with
  | ok => rfl
  | error fault =>
    cases fault with
    | notFound => exact absurd rfl h
    | _ => rfl

/-- Otherwise what is above is made first. -/
lemma makeDirsWithin_of_missing {depth : Nat} {above : Path} (hp : p.bytes ≠ [])
    (h : s.makeDir p = .error .notFound) (habove : p.parent? = some above) :
    Store.makeDirsWithin (depth + 1) p s = match Store.makeDirsWithin depth above s with
      | (.error fault, t) => (.error fault, t)
      | (.ok (), t) => ensureDir p t := by
  rw [Store.makeDirsWithin]
  beta_reduce
  rw [if_neg hp, h]
  simp only
  rw [habove]
  rfl

lemma makeDirsWithin_of_parent?_eq_none {depth : Nat} (hp : p.bytes ≠ [])
    (h : s.makeDir p = .error .notFound) (habove : p.parent? = none) :
    Store.makeDirsWithin (depth + 1) p s = (.error .notFound, s) := by
  rw [Store.makeDirsWithin]
  beta_reduce
  rw [if_neg hp, h]
  simp only
  rw [habove]

lemma runs_ensureDir (hs : s.WellFormed) (p : Path) :
    Runs (fun _ c => ∃ q, c = .dir q ∧ Over p q) s (ensureDir p s).2 := by
  unfold ensureDir
  split
  · rename_i hmake
    exact .single ⟨p, rfl, .refl p⟩ (changes_of_makeDir hs hmake)
  · split <;> exact .refl _

lemma runs_makeDirsWithin (depth : Nat) (p : Path) (s : Store) (hs : s.WellFormed) :
    Runs (fun _ c => ∃ q, c = .dir q ∧ Over p q) s (makeDirsWithin depth p s).2 := by
  induction depth generalizing p s with
  | zero => exact .refl _
  | succ depth ih =>
    by_cases hp : p.bytes = []
    · rw [makeDirsWithin_of_nil hp]
      exact .refl _
    by_cases hmissing : s.makeDir p = .error .notFound
    · cases habove : p.parent? with
      | none =>
        rw [makeDirsWithin_of_parent?_eq_none hp hmissing habove]
        exact .refl _
      | some above =>
        rw [makeDirsWithin_of_missing hp hmissing habove]
        have hruns : Runs (fun _ c => ∃ q, c = .dir q ∧ Over p q) s
            (makeDirsWithin depth above s).2 :=
          (ih above s hs).mono fun _ _ ⟨q, hc, hq⟩ => ⟨q, hc, hq.of_parent? habove⟩
        split
        · rename_i hrun
          rwa [hrun] at hruns
        · rename_i t hrun
          rw [hrun] at hruns
          exact hruns.trans (runs_ensureDir (hruns.wellFormed hs) p)
    · rw [makeDirsWithin_of_ne hp hmissing]
      exact runs_ensureDir hs p

/-- Making directories is a run of changes at the path and above it. -/
lemma runs_makeDirs (hs : s.WellFormed) (p : Path) :
    Runs (fun _ c => ∃ q, c = .dir q ∧ Over p q) s (makeDirs p s).2 :=
  runs_makeDirsWithin _ p s hs

end Store

end Excerpt
