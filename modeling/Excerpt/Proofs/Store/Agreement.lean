import Excerpt.Proofs.Store.Children

/-!
# Stores that agree on some names

Two stores may hold the same wherever a location is made of names of one kind, and differ
elsewhere. If no link leads out of that part, then a path that is spelled with such names is looked
up in the same way in both. With all names allowed, the stores differ in the order of their entries
at most; with all but a few, they may differ in what has those few names.
-/

namespace Excerpt

namespace Store

variable {ok : Bytes → Prop} {s t : Store} {l dir : Location} {todo : List Bytes} {p : Path}
  {node : Node}

/-- The stores hold the same at the locations that are made of `ok` names, and links there only
mention such names. -/
structure Agree (ok : Bytes → Prop) (s t : Store) : Prop where
  get?_eq : ∀ l : Location, (∀ n ∈ l, ok n) → t.get? l = s.get? l
  targets : ∀ (l : Location) target, (∀ n ∈ l, ok n) → s.get? l = some (.link target) →
    ∀ n ∈ segments target, ok n
  cwd : t.cwd = s.cwd
  cwd_ok : ∀ n ∈ s.cwd, ok n
  clock : t.clock = s.clock

namespace Agree

/-- A leg that uses only names of one kind. -/
def LegUses (ok : Bytes → Prop) : Leg → Prop
  | .arrived (.found l _) => ∀ n ∈ l, ok n
  | .arrived (.vacant l n) => ∀ m ∈ l ++ [n], ok m
  | .refused _ => True
  | .jump d target rest => (∀ n ∈ d, ok n) ∧ ∀ n ∈ segments target ++ rest, ok n

lemma descend (h : Agree ok s t) (follow : Bool) (hdir : ∀ n ∈ dir, ok n)
    (htodo : ∀ n ∈ todo, ok n) :
    t.descend follow todo dir = s.descend follow todo dir ∧
      LegUses ok (s.descend follow todo dir) := by
  induction todo, dir using descend_induction with
  | nil dir => exact ⟨rfl, hdir⟩
  | dot rest dir ih =>
    rw [descend_dot, descend_dot]
    exact ih hdir fun n hn => htodo n (List.mem_cons_of_mem _ hn)
  | up rest dir ih =>
    rw [descend_up, descend_up]
    exact ih (fun n hn => hdir n (List.dropLast_subset dir hn))
      fun n hn => htodo n (List.mem_cons_of_mem _ hn)
  | long seg rest dir hlong =>
    rw [descend_long hlong, descend_long hlong]
    exact ⟨rfl, trivial⟩
  | name seg rest dir hseg ih =>
    have hrest : ∀ n ∈ rest, ok n := fun n hn => htodo n (List.mem_cons_of_mem _ hn)
    have hdown : ∀ n ∈ dir ++ [seg], ok n :=
      List.forall_mem_append.mpr
        ⟨hdir, List.forall_mem_singleton.mpr (htodo seg List.mem_cons_self)⟩
    have hsame := h.get?_eq (dir ++ [seg]) hdown
    cases hn : s.get? (dir ++ [seg]) with
    | none =>
      rw [descend_none hseg follow rest hn, descend_none hseg follow rest (hsame.trans hn)]
      refine ⟨rfl, ?_⟩
      split
      · exact hdown
      · trivial
    | some node =>
      cases node with
      | dir =>
        rw [descend_dir hseg follow rest hn, descend_dir hseg follow rest (hsame.trans hn)]
        exact ih hdown hrest
      | link target =>
        rw [descend_link hseg follow rest hn, descend_link hseg follow rest (hsame.trans hn)]
        refine ⟨rfl, ?_⟩
        split
        · exact hdown
        · exact ⟨hdir, List.forall_mem_append.mpr ⟨h.targets _ target hdown hn, hrest⟩⟩
      | file =>
        rw [descend_file hseg follow rest hn rfl,
          descend_file hseg follow rest (hsame.trans hn) rfl]
        refine ⟨rfl, ?_⟩
        split
        · exact hdown
        · trivial

lemma walk (h : Agree ok s t) {follow asDir : Bool} {links : Nat} (hdir : ∀ n ∈ dir, ok n)
    (htodo : ∀ n ∈ todo, ok n) :
    t.walk follow links dir todo asDir = s.walk follow links dir todo asDir ∧
      ∀ place asDir', s.walk follow links dir todo asDir = .ok (place, asDir') →
        LegUses ok (.arrived place) := by
  induction links generalizing dir todo asDir with
  | zero => exact ⟨rfl, fun _ _ hw => by cases hw⟩
  | succ links ih =>
    obtain ⟨hsame, huses⟩ := h.descend (follow || asDir) hdir htodo
    rw [Store.walk, Store.walk, hsame]
    split
    · exact ⟨rfl, fun _ _ hw => by cases hw⟩
    · rename_i d target rest hjump
      rw [hjump] at huses
      refine ih ?_ huses.2
      split
      · simp
      · exact huses.1
    · rename_i l node harrived
      rw [harrived] at huses
      refine ⟨rfl, fun place asDir' hw => ?_⟩
      split at hw
      · cases hw
      · cases hw
        exact huses
    · rename_i place hplace harrived
      rw [harrived] at huses
      refine ⟨rfl, fun place' asDir' hw => ?_⟩
      cases hw
      exact huses

/-- A path that is spelled with `ok` names is looked up in the same way. -/
theorem locate (h : Agree ok s t) {follow : Bool} (hp : ∀ n ∈ segments p, ok n) :
    t.locate follow p = s.locate follow p ∧
      ∀ place asDir, s.locate follow p = .ok (place, asDir) → LegUses ok (.arrived place) := by
  have hstart : ∀ n ∈ s.start p, ok n := by
    rw [start]
    split
    · simp
    · exact h.cwd_ok
  refine ⟨locate_congr fun _ => ?_, fun place asDir hl => ?_⟩
  · rw [start_of_cwd h.cwd]
    exact (h.walk hstart hp).1
  · exact (h.walk hstart hp).2 _ _ (locate_eq_ok_iff.mp hl).2

lemma find (h : Agree ok s t) (follow : Bool) (hp : ∀ n ∈ segments p, ok n) :
    t.find follow p = s.find follow p := by
  rw [Store.find, Store.find, (h.locate hp).1]

lemma uses_of_find (h : Agree ok s t) {follow : Bool} (hp : ∀ n ∈ segments p, ok n)
    (hf : s.find follow p = .ok (l, node)) : ∀ n ∈ l, ok n := by
  obtain ⟨asDir, hl⟩ := locate_of_find hf
  exact (h.locate hp).2 _ _ hl

lemma node? (h : Agree ok s t) (hp : ∀ n ∈ segments p, ok n) : t.node? p = s.node? p := by
  rw [Store.node?, Store.node?, h.find _ hp]

lemma ownNode? (h : Agree ok s t) (hp : ∀ n ∈ segments p, ok n) :
    t.ownNode? p = s.ownNode? p := by
  rw [Store.ownNode?, Store.ownNode?, h.find _ hp]

lemma isDir (h : Agree ok s t) (hp : ∀ n ∈ segments p, ok n) : t.isDir p = s.isDir p := by
  rw [Store.isDir, Store.isDir, h.node? hp]

lemma read (h : Agree ok s t) (hp : ∀ n ∈ segments p, ok n) : t.read p = s.read p := by
  rw [Store.read, Store.read, h.find _ hp]

end Agree

end Store

end Excerpt
