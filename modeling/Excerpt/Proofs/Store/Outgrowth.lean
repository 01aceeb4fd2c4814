import Excerpt.Proofs.Store.Missing
import Excerpt.Proofs.Store.Renaming

/-!
# Working elsewhere

A store has more than another one, but only beneath a place. What is done elsewhere is done alike in
both: single directories, links and files are made or refused in the same way, as long as the paths
run into nothing beneath that place, and afterwards the stores differ only there again.
-/

namespace Excerpt

namespace Store

/-- The store `t` has everything that is in `s`, and beneath `o` it may have more. -/
structure Outgrowth (o : Location) (s t : Store) : Prop where
  base : s.WellFormed
  wellFormed : t.WellFormed
  ext : Extends s t
  outside : ∀ l, ¬ o <+: l → t.get? l = s.get? l

/-- The path does not run into a place beneath `o` where nothing stands. -/
def KeepsOut (s : Store) (o : Location) (follow : Bool) (p : Path) : Prop :=
  ∀ q, Misses s follow (s.start p) p.steps q → ¬ o <+: q

namespace Outgrowth

variable {s t : Store} {o l : Location} {node : Node} {p : Path} {follow flag : Bool}

lemma refl (hs : s.WellFormed) : Outgrowth o s s := ⟨hs, hs, .refl s, fun _ _ => rfl⟩

/-! ### Changes in one place -/

lemma put (h : Outgrowth o s t) (hl : l ≠ []) (hs : (s.put l node).WellFormed)
    (ht : (t.put l node).WellFormed) : Outgrowth o (s.put l node) (t.put l node) := by
  refine ⟨hs, ht, ⟨fun m old hm => ?_, h.ext.cwd, h.ext.clock⟩, fun m hm => ?_⟩
  · by_cases he : m = l
    · subst he
      rw [get?_put_self hl] at hm ⊢
      exact ⟨node, rfl, congrArg Node.shape (Option.some.inj hm)⟩
    · rw [get?_put_of_ne hl he] at hm ⊢
      exact h.ext.kept m old hm
  · rw [get?_put hl, get?_put hl, h.outside m hm]

lemma erase (h : Outgrowth o s t) (hl : l ≠ []) (hs : (s.erase l).WellFormed)
    (ht : (t.erase l).WellFormed) : Outgrowth o (s.erase l) (t.erase l) := by
  refine ⟨hs, ht, ⟨fun m old hm => ?_, h.ext.cwd, h.ext.clock⟩, fun m hm => ?_⟩
  · rw [get?_erase hl] at hm ⊢
    split at hm
    · cases hm
    · rename_i hne
      rw [if_neg hne]
      exact h.ext.kept m old hm
  · rw [get?_erase hl, get?_erase hl, h.outside m hm]

/-! ### Looking up -/

/-- Both stores have something of one kind where the path leads, or nothing is found in either. -/
lemma locate (h : Outgrowth o s t) (follow : Bool)
    (hflag : Follows (follow || wantsDir p) (segments p) flag) (hp : KeepsOut s o flag p) :
    (∃ l node node' asDir, s.locate follow p = .ok (.found l node, asDir) ∧
      t.locate follow p = .ok (.found l node', asDir) ∧ node'.shape = node.shape) ∨
    ((∀ l node asDir, s.locate follow p ≠ .ok (.found l node, asDir)) ∧
      t.locate follow p = s.locate follow p) :=
  h.ext.locate_of_free h.base hflag fun q hq => by
    rw [h.outside q (hp q hq)]
    exact hq.free

lemma follows_true {todo : List Bytes} : Follows follow todo true := ⟨fun _ => rfl, Or.inl rfl⟩

lemma isDir_eq (h : Outgrowth o s t) (hp : KeepsOut s o true p) : t.isDir p = s.isDir p := by
  unfold Store.isDir Store.node? Store.find
  rcases h.locate true follows_true hp with ⟨l, node, node', asDir, hl, hl', hshape⟩ | ⟨-, he⟩
  · rw [hl, hl']
    exact Node.isDir_of_shape hshape
  · rw [he]

lemma isSome_ownNode?_eq (h : Outgrowth o s t)
    (hflag : Follows (false || wantsDir p) (segments p) flag) (hp : KeepsOut s o flag p) :
    (t.ownNode? p).isSome = (s.ownNode? p).isSome := by
  unfold Store.ownNode? Store.find
  rcases h.locate false hflag hp with ⟨l, node, node', asDir, hl, hl', -⟩ | ⟨-, he⟩
  · rw [hl, hl']
    rfl
  · rw [he]

/-! ### Single changes -/

/-- A directory is made in both stores or refused in both. -/
lemma makeDir_alike (h : Outgrowth o s t) (hp : KeepsOut s o true p) :
    Alike (Outgrowth o) (s.makeDir p) (t.makeDir p) := by
  have hs := fun u (hu : s.makeDir p = .ok u) => (changes_of_makeDir h.base hu).wellFormed h.base
  have ht := fun u (hu : t.makeDir p = .ok u) =>
    (changes_of_makeDir h.wellFormed hu).wellFormed h.wellFormed
  unfold Store.makeDir at hs ht ⊢
  rcases h.locate false follows_true hp with
    ⟨l, node, node', asDir, hl, hl', -⟩ | ⟨-, he⟩
  · rw [hl, hl']
    exact .error
  · rw [he] at ht ⊢
    split
    · exact .error
    · exact .error
    · rename_i hl
      exact .ok (h.put (by simp) (hs _ (by rw [hl])) (ht _ (by rw [hl])))

/-- A link is made in both stores or refused in both. -/
lemma makeLink_alike (h : Outgrowth o s t) (target : Path)
    (hflag : Follows (false || wantsDir p) (segments p) flag) (hp : KeepsOut s o flag p) :
    Alike (Outgrowth o) (s.makeLink target p) (t.makeLink target p) := by
  have hs := fun u (hu : s.makeLink target p = .ok u) =>
    (changes_of_makeLink h.base hu).wellFormed h.base
  have ht := fun u (hu : t.makeLink target p = .ok u) =>
    (changes_of_makeLink h.wellFormed hu).wellFormed h.wellFormed
  unfold Store.makeLink at hs ht ⊢
  split
  · exact .error
  · rename_i hnul
    rw [if_neg hnul] at hs ht
    split
    · exact .error
    · rename_i hempty
      rw [if_neg hempty] at hs ht
      split
      · exact .error
      · rename_i hlong
        rw [if_neg hlong] at hs ht
        rcases h.locate false hflag hp with ⟨l, node, node', asDir, hl, hl', -⟩ | ⟨-, he⟩
        · rw [hl, hl']
          exact .error
        · rw [he] at ht ⊢
          split
          · exact .error
          · exact .error
          · exact .error
          · rename_i hl
            exact .ok (h.put (by simp) (hs _ (by rw [hl])) (ht _ (by rw [hl])))

/-- A file is written in both stores or refused in both, if its place is not beneath `o`. -/
lemma write_alike (h : Outgrowth o s t) (hp : KeepsOut s o true p)
    (hplace : ∀ l node, s.find true p = .ok (l, node) → ¬ o <+: l) (content : Bytes) :
    Alike (Outgrowth o) (s.write p content) (t.write p content) := by
  have hlocate : t.locate true p = s.locate true p := by
    rcases h.locate true follows_true hp with
      ⟨l, node, node', asDir, hl, hl', -⟩ | ⟨-, he⟩
    · have hfind := find_of_locate hl
      have hnode := get?_of_find h.base hfind
      have hnode' := get?_of_find h.wellFormed (find_of_locate hl')
      rw [h.outside l (hplace l node hfind), hnode, Option.some.injEq] at hnode'
      rw [hl, hl', hnode']
    · exact he
  have htarget : t.writeTarget p plainMode = s.writeTarget p plainMode := by
    rw [writeTarget, writeTarget, hlocate]
  have hs := fun u (hu : s.write p content = .ok u) =>
    (changes_of_write h.base hu).wellFormed h.base
  have ht := fun u (hu : t.write p content = .ok u) =>
    (changes_of_write h.wellFormed hu).wellFormed h.wellFormed
  unfold Store.write at hs ht ⊢
  rw [htarget, h.ext.clock] at ht ⊢
  split
  · exact .error
  · rename_i l mode hl
    refine .ok (h.put ?_ (hs _ (by rw [hl])) (ht _ (by rw [hl])))
    rcases of_writeTarget h.base hl with ⟨_, _, hf⟩ | ⟨d, n, rfl, -⟩
    · rintro rfl
      have := get?_of_find h.base hf
      cases this
    · simp

/-- A file is removed from both stores or from neither. -/
lemma removeFile_alike (h : Outgrowth o s t)
    (hflag : Follows (false || wantsDir p) (segments p) flag) (hp : KeepsOut s o flag p) :
    Alike (Outgrowth o) (s.removeFile p) (t.removeFile p) := by
  unfold Store.removeFile Store.find
  rcases h.locate false hflag hp with ⟨l, node, node', asDir, hl, hl', hshape⟩ | ⟨hnot, he⟩
  · have hnode := get?_of_find h.base (find_of_locate hl)
    have hnode' := get?_of_find h.wellFormed (find_of_locate hl')
    rw [hl, hl']
    by_cases hdir : node = .dir
    · subst hdir
      rw [Node.shape_eq_dir.mp hshape]
      exact .error
    · have hdir' : node' ≠ .dir := fun he => hdir (Node.shape_eq_dir.mp (by rw [← hshape, he]; rfl))
      have hl : l ≠ [] := by
        rintro rfl
        exact hdir (Option.some.inj hnode).symm
      have herase := h.erase hl (h.base.erase hnode hdir) (h.wellFormed.erase hnode' hdir')
      cases node with
      | dir => exact absurd rfl hdir
      | _ =>
        cases node' with
        | dir => exact absurd rfl hdir'
        | _ => exact .ok herase
  · rw [he]
    split
    · exact .error
    · exact .error
    · rename_i hfound
      split at hfound <;> cases hfound
      exact absurd ‹_› (hnot _ _ _)

end Outgrowth

end Store

end Excerpt
