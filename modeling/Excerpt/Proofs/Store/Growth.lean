import Excerpt.Proofs.Store.Resolution

/-!
# Stores that grow

A store extends another one if everything that was there is still there and is still the same kind
of thing; only what files hold may differ. What a path led to before, it leads to afterwards.
-/

namespace Excerpt

/-- A node without what a file holds. -/
def Node.shape : Node → Node
  | .file .. => .file [] 0 default
  | node => node

@[simp] lemma Node.shape_eq_dir {node : Node} : node.shape = .dir ↔ node = .dir := by
  cases node <;> simp [Node.shape]

@[simp] lemma Node.shape_eq_link {node : Node} {target : Path} :
    node.shape = .link target ↔ node = .link target := by
  cases node <;> simp [Node.shape]

lemma Node.isLink_of_shape {node node' : Node} (h : node'.shape = node.shape) :
    node'.isLink = node.isLink := by
  cases node <;> cases node' <;> simp_all [Node.shape, Node.isLink]

lemma Node.isDir_of_shape {node node' : Node} (h : node'.shape = node.shape) :
    node'.isDir = node.isDir := by
  cases node <;> cases node' <;> simp_all [Node.shape, Node.isDir]

lemma Node.isFile_of_shape {node node' : Node} (h : node'.shape = node.shape) :
    node'.isFile = node.isFile := by
  cases node <;> cases node' <;> simp_all [Node.shape, Node.isFile]

namespace Store

variable {s t u : Store} {l m d : Location} {n : Bytes} {a : List Component} {node : Node}

/-! ### Extensions -/

/-- Everything in `s` is in `t`, and of the same kind. -/
structure Extends (s t : Store) : Prop where
  kept : ∀ l node, s.get? l = some node → ∃ node', t.get? l = some node' ∧ node'.shape = node.shape
  cwd : t.cwd = s.cwd
  clock : t.clock = s.clock

namespace Extends

@[refl] lemma refl (s : Store) : Extends s s := ⟨fun _ node h => ⟨node, h, rfl⟩, rfl, rfl⟩

lemma trans (h : Extends s t) (h' : Extends t u) : Extends s u := by
  refine ⟨fun l node hn => ?_, h'.cwd.trans h.cwd, h'.clock.trans h.clock⟩
  obtain ⟨node', hn', hs'⟩ := h.kept l node hn
  obtain ⟨node'', hn'', hs''⟩ := h'.kept l node' hn'
  exact ⟨node'', hn'', hs''.trans hs'⟩

lemma dir (h : Extends s t) (hl : s.get? l = some .dir) : t.get? l = some .dir := by
  obtain ⟨node', hn, hs⟩ := h.kept l _ hl
  rw [hn, Node.shape_eq_dir.mp hs]

lemma link (h : Extends s t) {target : Path} (hl : s.get? l = some (.link target)) :
    t.get? l = some (.link target) := by
  obtain ⟨node', hn, hs⟩ := h.kept l _ hl
  rw [hn, Node.shape_eq_link.mp hs]

lemma start (h : Extends s t) (p : Path) : t.start p = s.start p := start_of_cwd h.cwd

/-! ### What paths lead to -/

/-- Steps that led to something lead there still. -/
lemma leads (h : Extends s t) (hl : Leads s l a m) (hm : s.get? m ≠ none) : Leads t l a m := by
  induction hl with
  | here => exact .here
  | free _ hfree => exact absurd hfree hm
  | down hn hlink _ ih =>
    obtain ⟨node', hn', hs'⟩ := h.kept _ _ hn
    exact .down hn' ((Node.isLink_of_shape hs').trans hlink) (ih hm)
  | up hd _ ih => exact .up (h.dir hd) (ih hm)
  | jump hn _ ih => exact .jump (h.link hn) (ih hm)

/-- A leg of a walk in a store that extends another one: where something was found, something of
the same kind is found, and links lead on to the same places. -/
def LegKept (t : Store) (follow : Bool) (todo : List Bytes) (dir : Location) : Leg → Prop
  | .arrived (.found l node) => ∃ node', node'.shape = node.shape ∧
      t.descend follow todo dir = .arrived (.found l node')
  | .arrived (.vacant ..) => True
  | .refused _ => True
  | .jump d target rest => t.descend follow todo dir = .jump d target rest

/-- A leg is kept by the walk that comes to the same from a place before. -/
lemma LegKept.of_eq {follow : Bool} {todo todo' : List Bytes} {dir dir' : Location} {leg : Leg}
    (h : LegKept t follow todo dir leg)
    (he : t.descend follow todo' dir' = t.descend follow todo dir) :
    LegKept t follow todo' dir' leg := by
  unfold LegKept at h ⊢
  rwa [he]

lemma descend (h : Extends s t) (follow : Bool) (todo : List Bytes) (dir : Location) :
    LegKept t follow todo dir (s.descend follow todo dir) := by
  induction todo, dir using descend_induction with
  | nil dir => exact ⟨.dir, rfl, rfl⟩
  | dot rest dir ih =>
    rw [descend_dot]
    exact ih.of_eq descend_dot
  | up rest dir ih =>
    rw [descend_up]
    exact ih.of_eq descend_up
  | long seg rest dir hlong =>
    rw [descend_long hlong]
    trivial
  | name seg rest dir hseg ih =>
    cases hn : s.get? (dir ++ [seg]) with
    | none =>
      rw [descend_none hseg follow rest hn]
      split <;> trivial
    | some node =>
      cases node with
      | dir =>
        rw [descend_dir hseg follow rest hn]
        exact ih.of_eq (descend_dir hseg follow rest (h.dir hn))
      | link target =>
        have hlink := descend_link hseg follow rest (h.link hn)
        rw [descend_link hseg follow rest hn]
        split
        · rename_i hstop
          exact ⟨_, rfl, hlink.trans (if_pos hstop)⟩
        · rename_i hgo
          exact hlink.trans (if_neg hgo)
      | file =>
        obtain ⟨node', hn', hshape⟩ := h.kept _ _ hn
        have hfile := descend_file hseg follow rest hn' (Node.isFile_of_shape hshape)
        rw [descend_file hseg follow rest hn rfl]
        split
        · rename_i hnil
          exact ⟨node', hshape, hfile.trans (if_pos hnil)⟩
        · trivial

lemma walk (h : Extends s t) {follow asDir asDir' : Bool} {links : Nat} {dir : Location}
    {todo : List Bytes} (hw : s.walk follow links dir todo asDir = .ok (.found l node, asDir')) :
    ∃ node', t.walk follow links dir todo asDir = .ok (.found l node', asDir') ∧
      node'.shape = node.shape := by
  induction links generalizing dir todo asDir with
  | zero => cases hw
  | succ links ih =>
    rw [Store.walk] at hw ⊢
    have hleg := h.descend (follow || asDir) todo dir
    split at hw
    · cases hw
    · rename_i hjump
      rw [hjump] at hleg
      rw [hleg]
      exact ih hw
    · rename_i l' found harrived
      rw [harrived] at hleg
      obtain ⟨node', hshape, he⟩ := hleg
      rw [he]
      have hdir := Node.isDir_of_shape hshape
      split at hw
      · cases hw
      · rename_i hcheck
        cases hw
        rw [← hdir] at hcheck
        refine ⟨node', ?_, hshape⟩
        simp only [hcheck]
        rfl
    · rename_i place hnotfound harrived
      cases hw
      exact absurd rfl (hnotfound l node)

lemma locate (h : Extends s t) {follow asDir : Bool} {p : Path}
    (hl : s.locate follow p = .ok (.found l node, asDir)) :
    ∃ node', t.locate follow p = .ok (.found l node', asDir) ∧ node'.shape = node.shape := by
  obtain ⟨hp, hwalk⟩ := locate_eq_ok_iff.mp hl
  rw [hp.locate_eq, h.start]
  exact h.walk hwalk

/-- What a path was found to lead to is found still. -/
lemma find (h : Extends s t) {follow : Bool} {p : Path} (hf : s.find follow p = .ok (l, node)) :
    ∃ node', t.find follow p = .ok (l, node') ∧ node'.shape = node.shape := by
  obtain ⟨asDir, hl⟩ := locate_of_find hf
  obtain ⟨node', hl', hshape⟩ := h.locate hl
  exact ⟨node', find_of_locate hl', hshape⟩

end Extends

/-! ### Links at the end -/

lemma descend_follow (todo : List Bytes) (dir : Location) :
    s.descend false todo dir = s.descend true todo dir ∨
      ∃ d n target, s.descend false todo dir = .arrived (.found (d ++ [n]) (.link target)) := by
  induction todo, dir using descend_induction with
  | nil dir => exact Or.inl rfl
  | dot rest dir ih =>
    rw [descend_dot, descend_dot]
    exact ih
  | up rest dir ih =>
    rw [descend_up, descend_up]
    exact ih
  | long seg rest dir hlong =>
    rw [descend_long hlong, descend_long hlong]
    exact Or.inl rfl
  | name seg rest dir hseg ih =>
    cases hn : s.get? (dir ++ [seg]) with
    | none =>
      rw [descend_none hseg _ rest hn, descend_none hseg _ rest hn]
      exact Or.inl rfl
    | some node =>
      cases node with
      | dir =>
        rw [descend_dir hseg _ rest hn, descend_dir hseg _ rest hn]
        exact ih
      | link target =>
        rw [descend_link hseg _ rest hn, descend_link hseg _ rest hn]
        by_cases hnil : rest = []
        · exact Or.inr ⟨dir, seg, target, by simp [hnil]⟩
        · exact Or.inl (by simp [hnil])
      | file =>
        rw [descend_file hseg _ rest hn rfl, descend_file hseg _ rest hn rfl]
        exact Or.inl rfl

lemma walk_follow {asDir asDir' : Bool} {links : Nat} {dir : Location} {todo : List Bytes}
    (h : s.walk true links dir todo asDir = .ok (.found l node, asDir')) :
    ∃ l' node' asDir'', s.walk false links dir todo asDir = .ok (.found l' node', asDir'') := by
  induction links generalizing dir todo asDir with
  | zero => cases h
  | succ links ih =>
    rw [walk] at h ⊢
    have hleg : s.descend (false || asDir) todo dir = s.descend (true || asDir) todo dir ∨
        asDir = false ∧ ∃ d n target,
          s.descend (false || asDir) todo dir = .arrived (.found (d ++ [n]) (.link target)) := by
      cases asDir with
      | true => exact Or.inl rfl
      | false => exact (descend_follow todo dir).imp_right fun hstop => ⟨rfl, hstop⟩
    rcases hleg with hsame | ⟨rfl, d, n, target, hstop⟩
    · rw [hsame]
      split at h
      · cases h
      · exact ih h
      · split at h
        · cases h
        · rename_i hcheck
          rw [if_neg hcheck]
          exact ⟨_, _, _, rfl⟩
      · rename_i hnotfound _
        cases h
        exact absurd rfl (hnotfound _ _)
    · rw [hstop]
      exact ⟨d ++ [n], .link target, false, rfl⟩

/-- Where a path leads to something, there is something without following a link at the end. -/
lemma find_follow {p : Path} (h : s.find true p = .ok (l, node)) :
    ∃ l' node', s.find false p = .ok (l', node') := by
  obtain ⟨asDir, hlocate⟩ := locate_of_find h
  obtain ⟨hp, hwalk⟩ := locate_eq_ok_iff.mp hlocate
  obtain ⟨l', node', asDir', hwalk'⟩ := walk_follow hwalk
  exact ⟨l', node', find_of_locate (locate_eq_ok_iff.mpr ⟨hp, hwalk'⟩)⟩

/-! ### Directories -/

lemma exists_of_isDir {p : Path} (h : s.isDir p = true) : ∃ l, s.find true p = .ok (l, .dir) := by
  unfold isDir node? at h
  split at h
  · rename_i l node hf
    cases node with
    | dir => exact ⟨l, hf⟩
    | _ => cases h
  · cases h

lemma isDir_of_find {p : Path} (h : s.find true p = .ok (l, .dir)) : s.isDir p = true := by
  rw [isDir, node?, h]
  rfl

lemma Extends.isDir {p : Path} (h : Extends s t) (hp : s.isDir p = true) : t.isDir p = true := by
  obtain ⟨l, hfind⟩ := exists_of_isDir hp
  obtain ⟨node, hfind', hshape⟩ := h.find hfind
  rw [Node.shape_eq_dir.mp hshape] at hfind'
  exact isDir_of_find hfind'

end Store

end Excerpt
