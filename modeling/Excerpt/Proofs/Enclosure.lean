import Excerpt.Proofs.Actions
import Excerpt.Proofs.Path.Texts
import Excerpt.Proofs.Store.Making
import Excerpt.Proofs.Store.Regions
import Excerpt.Program
import Excerpt.Script

/-!
# A store with a scratch directory in it

For as long as a scratch directory stands, the store is the one before with something in that
directory. Taking the directory away gives the store back, whatever was in it. The one file that is
written there again and again is the stub; its path leads to the same place at all times, as long as
no link stands there.
-/

namespace Excerpt

open Store

namespace Scratch

variable {s t u : Store} {dir : Path} {root m : Location} {node : Node}

/-- The name of the file of a stub. -/
def stubName : Bytes := Utf8.encode (Stub.className ++ ".java".toList)

lemma steps_stub (dir : Path) : (Stub.file dir).steps = dir.steps ++ [.name stubName] := by
  rw [Stub.file, Path.steps_joinText (by decide)]
  congr 1

lemma isAbsolute_stub (hdir : dir.bytes ≠ []) :
    (Stub.file dir).isAbsolute = dir.isAbsolute :=
  Path.isAbsolute_join hdir (Path.isAbsolute_ofText (by decide))

/-- What is no directory and stands at the path of the stub stands in the scratch directory. -/
lemma eq_of_find_stub (ht : t.WellFormed) (hleads : Leads t (t.start dir) dir.steps root)
    (hdir : dir.bytes ≠ []) (hfind : t.find false (Stub.file dir) = .ok (m, node))
    (hnotdir : node ≠ .dir) : m = root ++ [stubName] := by
  obtain ⟨front, n, d, hsteps, hfront, rfl⟩ := last_of_find ht hfind hnotdir
  rw [steps_stub] at hsteps
  obtain ⟨rfl, hlast⟩ := List.append_inj' hsteps rfl
  rw [List.singleton_inj, Component.name.injEq] at hlast
  rw [start_congr (isAbsolute_stub hdir)] at hfront
  rw [hleads.unique hfront, hlast]

/-- The store `t` is `s` with whatever there is in a scratch directory that the path `dir` leads
to. Only in the place of the stub there is no link. -/
structure Encloses (s : Store) (dir : Path) (root : Location) (t : Store) : Prop where
  base : s.WellFormed
  free : s.get? root = none
  made : (s.put root .dir).find false dir = .ok (root, .dir)
  wellFormed : t.WellFormed
  isDir : t.get? root = some .dir
  outside : t.eraseTree root = s
  stub : ∀ target, t.get? (root ++ [stubName]) ≠ some (.link target)

namespace Encloses

lemma root_ne_nil (h : Encloses s dir root t) : root ≠ [] := by
  rintro rfl
  cases h.free

lemma dir_ne_nil (h : Encloses s dir root t) : dir.bytes ≠ [] :=
  (isLocatable_of_find h.made).ne_nil

/-- Outside of the scratch directory nothing has changed. -/
lemma get?_of_not_prefix (h : Encloses s dir root t) (hm : ¬ root <+: m) : t.get? m = s.get? m := by
  rw [← h.outside, get?_eraseTree h.root_ne_nil, if_neg hm]

lemma extends_made (h : Encloses s dir root t) : Extends (s.put root .dir) t := by
  have hcwd : t.cwd = s.cwd := by rw [← h.outside]; rfl
  have hclock : t.clock = s.clock := by rw [← h.outside]; rfl
  refine ⟨fun m node hn => ⟨node, ?_, rfl⟩, hcwd, hclock⟩
  rw [get?_put h.root_ne_nil] at hn
  split at hn
  · rename_i he
    rw [he, h.isDir, ← hn]
  · rw [h.get?_of_not_prefix, hn]
    intro hp
    rw [h.base.get?_eq_none_of_prefix h.free hp] at hn
    cases hn

lemma found (h : Encloses s dir root t) : t.find false dir = .ok (root, .dir) := by
  obtain ⟨node, hfound, hshape⟩ := h.extends_made.find h.made
  rwa [Node.shape_eq_dir.mp hshape] at hfound

/-- Taking the scratch directory away gives the store back. -/
lemma discard (h : Encloses s dir root t) : Act.discard dir t = s := by
  rw [Act.discard, h.found]
  exact h.outside

lemma leads (h : Encloses s dir root t) : Leads t (t.start dir) dir.steps root :=
  (leads_of_find h.wellFormed h.found rfl).1

/-! ### New entries -/

/-- Something that is no link comes into a directory in the scratch directory. -/
lemma put_new {d : Location} {n : Bytes} (h : Encloses s dir root t) (hp : root <+: d)
    (hd : t.get? d = some .dir) (hn : IsEntryName n) (hfree : t.get? (d ++ [n]) = none)
    (hnode : node.isLink = false) : Encloses s dir root (t.put (d ++ [n]) node) := by
  have hsound : IsSound node := by
    cases node with
    | link => cases hnode
    | _ => trivial
  refine ⟨h.base, h.free, h.made, h.wellFormed.put_new hd hn hsound hfree, ?_, ?_, ?_⟩
  · rw [get?_put_of_ne (by simp), h.isDir]
    rintro rfl
    rw [h.isDir] at hfree
    cases hfree
  · rw [eraseTree_put (hp.trans (List.prefix_append ..)), h.outside]
  · intro target hlink
    rw [get?_put (by simp)] at hlink
    split at hlink
    · rw [Option.some.inj hlink] at hnode
      cases hnode
    · exact h.stub target hlink

/-- A file and the directories on the way to it come into the scratch directory. -/
lemma deposit {content : Bytes} {d names : Location} (h : Encloses s dir root t) (hp : root <+: d)
    (hd : t.get? d = some .dir) : Encloses s dir root (t.deposit content d names) := by
  induction names generalizing t d with
  | nil => exact h
  | cons n names ih =>
    have hnext : root <+: d ++ [n] := hp.trans (List.prefix_append ..)
    unfold Store.deposit
    split
    · rename_i hgrants
      have hn : IsEntryName n := grants_iff.mp hgrants
      split
      · rename_i hfree
        split
        · exact h.put_new hp hd hn hfree rfl
        · exact ih (h.put_new hp hd hn hfree rfl) hnext (get?_put_self (by simp))
      · rename_i hdir
        exact ih h hnext hdir
      · exact h
    · exact h

lemma deposits (h : Encloses s dir root t) (files : List (Location × Bytes)) :
    Encloses s dir root (files.foldl (fun s file => s.deposit file.2 root file.1) t) := by
  induction files generalizing t with
  | nil => exact h
  | cons file files ih => exact ih (h.deposit List.prefix_rfl h.isDir)

/-- What a program leaves in the scratch directory stays in there. -/
lemma keepWritten {result : ProgramResult} :
    Act.Keeps (Encloses s dir root) (Program.keepWritten dir result) := by
  intro w h
  rw [Program.keepWritten, find_true_of_dir h.found]
  exact h.deposits result.written

/-! ### Stubs -/

/-- The path of the stub leads into the scratch directory. -/
lemma eq_of_leads (h : Encloses s dir root t)
    (hl : Leads t (t.start (Stub.file dir)) (Stub.file dir).steps m) :
    m = root ++ [stubName] := by
  have hfree : LinkFree t (· = root ++ [stubName]) := by
    rintro m rfl target hn
    exact h.stub target hn
  rw [start_congr (isAbsolute_stub h.dir_ne_nil), steps_stub] at hl
  obtain ⟨k, hk, hstub, -⟩ := hl.split h.wellFormed (by rw [h.wellFormed.get?_start]; simp)
  rw [hk.unique h.leads] at hstub
  exact hfree.eq_along hstub ⟨rfl, trivial⟩

lemma write {content : Bytes} (h : Encloses s dir root t)
    (hwrite : t.write (Stub.file dir) content = .ok u) : Encloses s dir root u := by
  have hwf := (changes_of_write h.wellFormed hwrite).wellFormed h.wellFormed
  obtain ⟨l, mode, rfl, -, hleads, -⟩ := find_of_write h.wellFormed hwrite
  obtain rfl := h.eq_of_leads hleads
  refine ⟨h.base, h.free, h.made, hwf, ?_, ?_, fun target => ?_⟩
  · rw [get?_put_of_ne (by simp) (by simp), h.isDir]
  · rw [eraseTree_put (List.prefix_append ..), h.outside]
  · rw [get?_put_self (by simp)]
    simp

/-- Whoever removes the stub removes just the stub. -/
lemma removeFile (h : Encloses s dir root t)
    (hremove : t.removeFile (Stub.file dir) = .ok u) : Encloses s dir root u := by
  obtain ⟨l, node, hfind, hnotdir, rfl⟩ := of_removeFile hremove
  have hnode := get?_of_find h.wellFormed hfind
  obtain rfl := eq_of_find_stub h.wellFormed h.leads h.dir_ne_nil hfind hnotdir
  refine ⟨h.base, h.free, h.made, h.wellFormed.erase hnode hnotdir, ?_, ?_, fun target => ?_⟩
  · rw [get?_erase (by simp), if_neg (by simp), h.isDir]
  · rw [eraseTree_erase (List.prefix_append ..), h.outside]
  · rw [get?_erase (by simp), if_pos rfl]
    simp

end Encloses

end Scratch

end Excerpt
