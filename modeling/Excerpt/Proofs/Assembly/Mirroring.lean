import Excerpt.Proofs.Assembly.InOrder
import Excerpt.Proofs.Store.Spelling
import Excerpt.Proofs.Walk.Entries
import Mathlib.Data.List.Infix

/-!
# Mirroring the native tree

The native tree is copied beneath the library sources of the output, each entry to the names that
lead to it. A directory becomes a directory, a link to a directory stays the link that it is, and of
anything else the file that it leads to is taken. The walk hands over a directory before what lies
in it and nothing that lies behind a link, so each copy goes to a free name in a directory that was
made before, and no copied link is ever walked through.
-/

namespace Excerpt

open Store

/-- Whether a copy can be made: a file has to be readable and writable for its owner, and the text
of a link neither empty nor too long. -/
def Node.isCopyable : Node → Bool
  | .file _ mode _ => readable mode && writable mode
  | .link target => target.bytes ≠ [] && target.bytes.length < maxPath
  | .dir => true

namespace Assembly

variable {s t x : Store} {w v : World} {limits : Walk.Limits} {output root dst : Path}
  {srcDir : Text} {loc o way names front : Location} {m : Bytes} {own node : Node}
  {done tree : List Location}

/-! ### What is copied -/

/-- What is copied: the directory itself, and beneath it what the limits let through. -/
def IsCopied (s : Store) (limits : Walk.Limits) (loc names : Location) : Prop :=
  s.get? (loc ++ names) ≠ none ∧ (names = [] ∨ Walk.Admits s limits loc names)

/-- What the copy of an entry is. A file keeps its content, its permissions
(`permissions_copiedMode`) and its time. -/
inductive CopiedAs (s : Store) (root : Path) (loc names : Location) : Node → Prop where
  | dir : s.get? (loc ++ names) = some .dir → CopiedAs s root loc names .dir
  | link {target : Path} : s.get? (loc ++ names) = some (.link target) →
      s.node? (chain root names) = some .dir → CopiedAs s root loc names (.link target)
  | file {content : Bytes} {mode : Nat} {stamp : Stamp} : s.get? (loc ++ names) ≠ some .dir →
      s.node? (chain root names) = some (.file content mode stamp) →
      CopiedAs s root loc names (.file content (copiedMode content mode) stamp)

/-- Where the copy of what the names lead to goes. -/
def copyPath (output : Path) (srcDir : Text) (root : Path) (names : Location) : Path :=
  (output.joinText srcDir).join (((chain root names).strip? (root.parent?.getD root)).getD root)

/-- How many files stand beneath a location. -/
def filesBeneath (s : Store) (l : Location) : Nat :=
  s.entries.countP fun e => l.isPrefixOf e.1 && e.2.isFile

/-- A directory that can be walked and whose entries all lead to something that can be copied. -/
structure CanCopy (s : Store) (limits : Walk.Limits) (root : Path) (loc : Location) : Prop where
  wellFormed : s.WellFormed
  walked : root.same Walk.standardInput = false
  found : s.find true root = .ok (loc, .dir)
  copyable : ∀ names own, IsCopied s limits loc names → s.get? (loc ++ names) = some own →
    own.isCopyable = true ∧ (s.node? (chain root names)).any Node.isCopyable = true

/-- A place for the copy: the output, where the names `way` lead along directories to a free name
outside the directory that is copied, with paths that are not too long. -/
structure Awaits (s : Store) (limits : Walk.Limits) (output : Path) (srcDir : Text) (root : Path)
    (loc o way : Location) : Prop where
  found : s.find true output = .ok (o, .dir)
  relative : (Path.ofText srcDir).isAbsolute = false
  spelled : ∃ front n, way = front ++ [n] ∧ (Path.ofText srcDir).steps = front.map .name ∧
    root.fileName? = some n
  names : ∀ m ∈ way, IsEntryName m
  onlyDirs : OnlyDirs s o way
  free : s.get? (o ++ way) = none
  apart : ¬ loc <+: o ++ way
  short : ∀ names, IsCopied s limits loc names →
    (copyPath output srcDir root names).bytes.length < maxPath

/-! ### What entries lead to -/

/-- Above what is copied, directories are copied. -/
lemma IsCopied.dropLast (hs : s.WellFormed) (h : IsCopied s limits loc names) (hne : names ≠ []) :
    IsCopied s limits loc names.dropLast ∧ s.get? (loc ++ names.dropLast) = some .dir := by
  obtain ⟨hsome, hnil | hadmits⟩ := h
  · exact absurd hnil hne
  have hdir : s.get? (loc ++ names.dropLast) = some .dir := by
    have habove := hs.get?_dropLast hsome
    rwa [List.dropLast_append_of_ne_nil hne] at habove
  refine ⟨⟨by simp [hdir], ?_⟩, hdir⟩
  rcases eq_or_ne names.dropLast [] with hnil | hfront
  · exact Or.inl hnil
  · have hp := List.dropLast_prefix names
    have hproper : names.dropLast ≠ names := by
      intro heq
      have hlength := congrArg List.length heq
      have hpos := List.length_pos_of_ne_nil hne
      rw [List.length_dropLast] at hlength
      omega
    right
    constructor
    · exact Walk.reaches_of_le hadmits.depth hp.length_le
    · intro higher hhigher hne' hproper' hd
      apply hadmits.directories higher (hhigher.trans hp) hne' _ hd
      rintro rfl
      exact hproper (hhigher.eq_of_length_le hp.length_le).symm
    · exact hadmits.directories _ hp hfront hproper hdir

/-- A directory is copied as one. -/
lemma CopiedAs.eq_dir (h : CopiedAs s root loc names node)
    (hown : s.get? (loc ++ names) = some .dir) : node = .dir := by
  cases h with
  | dir => rfl
  | link hlink => rw [hown] at hlink; cases hlink
  | file hother => exact absurd hown hother

lemma CopiedAs.isSound (h : CopiedAs s root loc names node) (hs : s.WellFormed) :
    IsSound node := by
  cases h with
  | dir => trivial
  | link hlink => exact hs.isSound hlink
  | file => trivial

namespace CanCopy

/-- Directories are found by their names. -/
lemma find_dir (h : CanCopy s limits root loc) (hd : s.get? (loc ++ names) = some .dir)
    (hshort : (chain root names).bytes.length < maxPath) :
    s.find true (chain root names) = .ok (loc ++ names, .dir) := by
  rcases eq_or_ne names [] with rfl | hne
  · rw [List.append_nil]
    exact h.found
  · exact (Spells.of_dir h.wellFormed h.found hd).find_dir hne hd hshort

lemma isEntryName (h : CanCopy s limits root loc) (hsome : s.get? (loc ++ names) ≠ none) :
    ∀ m ∈ names, IsEntryName m :=
  fun _ hm => h.wellFormed.isEntryName hsome (List.mem_append_right loc hm)

/-- A file that is no link is found by its names. -/
lemma find_file (h : CanCopy s limits root loc) (hown : s.get? (loc ++ names) = some own)
    (hfile : own.isFile = true) (hshort : (chain root names).bytes.length < maxPath) :
    s.find true (chain root names) = .ok (loc ++ names, own) := by
  have hsome : s.get? (loc ++ names) ≠ none := by simp [hown]
  rcases List.eq_nil_or_concat' names with rfl | ⟨front, m, rfl⟩
  · have hroot := get?_of_find h.wellFormed h.found
    rw [List.append_nil, hroot] at hown
    cases hown
    cases hfile
  · have hm : Path.IsName m := (h.isEntryName hsome m (by simp)).isName
    rw [← List.append_assoc] at hown hsome ⊢
    rw [chain_concat] at hshort ⊢
    have hdir : s.get? (loc ++ front) = some .dir := h.wellFormed.get?_of_concat hsome
    have hfound := h.find_dir hdir (Nat.lt_trans (length_child_lt _ hm) hshort)
    apply find_child h.wellFormed hfound hown _ hshort
    cases own with
    | file => rfl
    | _ => cases hfile

/-- Everything that is copied is copied as something. -/
lemma exists_copiedAs (h : CanCopy s limits root loc) (hc : IsCopied s limits loc names) :
    ∃ node, CopiedAs s root loc names node := by
  obtain ⟨own, hown⟩ := Option.ne_none_iff_exists'.mp hc.1
  obtain ⟨node, hnode, -⟩ := (Option.any_eq_true _ _).mp (h.copyable names own hc hown).2
  obtain ⟨l, hfind⟩ := node?_eq_some hnode
  cases own with
  | dir => exact ⟨_, .dir hown⟩
  | link target =>
    cases node with
    | dir => exact ⟨_, .link hown hnode⟩
    | file => exact ⟨_, .file (by simp [hown]) hnode⟩
    | link => cases isLink_of_find h.wellFormed hfind
  | file =>
    rw [h.find_file hown rfl (isLocatable_of_find hfind).short] at hfind
    cases hfind
    exact ⟨_, .file (by simp [hown]) hnode⟩

end CanCopy

/-- The path of an entry behind the parent of the directory. -/
lemma exists_strip {n : Bytes} (hn : root.fileName? = some n)
    (hnames : ∀ m ∈ names, Path.IsName m) :
    ∃ rel, (chain root names).strip? (root.parent?.getD root) = some rel ∧
      rel.isAbsolute = false ∧ rel.steps = (n :: names).map .name ∧ rel.IsTrimmed := by
  obtain ⟨-, front, hsteps⟩ := Path.of_fileName?_eq_some hn
  have hne : root.steps ≠ [] := by simp [hsteps]
  obtain ⟨above, habove⟩ := Path.exists_parent hne
  have hcomponents : (chain root names).components =
      above.components ++ (n :: names).map .name := by
    rw [components_chain root hnames, Path.components_dir hn, Path.dir, habove]
    simp
  rw [habove]
  exact Path.strip?_eq_some hcomponents (List.cons_ne_nil n names)

namespace Awaits

/-- The path of a copy spells the names that it is for. -/
lemma respells (h : Awaits s limits output srcDir root loc o way)
    (hnames : ∀ m ∈ names, IsEntryName m)
    (hshort : (copyPath output srcDir root names).bytes.length < maxPath) :
    ∃ rel, (chain root names).strip? (root.parent?.getD root) = some rel ∧
      copyPath output srcDir root names = (output.joinText srcDir).join rel ∧
      Respells output (way ++ names) ((output.joinText srcDir).join rel) := by
  obtain ⟨front, n, rfl, hsteps, hn⟩ := h.spelled
  obtain ⟨rel, hstrip, hrelative, hrelSteps, htrimmed⟩ :=
    exists_strip hn fun m hm => (hnames m hm).isName
  have hpath : copyPath output srcDir root names = (output.joinText srcDir).join rel := by
    rw [copyPath, hstrip]
    rfl
  have hrelNe : rel.bytes ≠ [] := by
    intro hnil
    rw [Path.steps, hnil] at hrelSteps
    cases hrelSteps
  have habs := Path.isAbsolute_join_of_relative h.relative hrelative
  have hjoined : (output.joinText srcDir).join rel =
      output.join ((Path.ofText srcDir).join rel) := Path.join_join h.relative hrelative
  refine ⟨rel, hstrip, hpath, ?_⟩
  rw [hpath, hjoined] at hshort
  rw [hjoined]
  apply respells_join h.found habs (htrimmed.join hrelNe hrelative) _ (by simp) _ hshort
  · rw [Path.steps_join hrelative, hsteps, hrelSteps]
    simp
  · intro m hm
    rcases List.mem_append.mp hm with hm | hm
    · exact ⟨(h.names m hm).isName, (h.names m hm).noNul⟩
    · exact ⟨(hnames m hm).isName, (hnames m hm).noNul⟩

end Awaits

/-- How far the copy has come: the names that are `done` have their copies, and nothing else is new
but directories on the way to them. -/
structure Reached (s : Store) (root : Path) (loc o way : Location) (done : List Location)
    (x : Store) : Prop where
  adds : Adds (fun l node => OnWay o way l node ∨
    ∃ names ∈ done, l = o ++ way ++ names ∧ CopiedAs s root loc names node) s x
  made : ∀ names ∈ done, ∃ node, CopiedAs s root loc names node ∧
    x.get? (o ++ way ++ names) = some node

namespace Reached

/-- Names that are not done have no copies. -/
lemma get?_eq_none (h : Reached s root loc o way done x) (hs : s.WellFormed)
    (hfree : s.get? (o ++ way) = none) (hnil : [] ∈ done) (hnames : names ∉ done) :
    x.get? (o ++ way ++ names) = none := by
  by_contra hsome
  obtain ⟨node, hnode⟩ := Option.ne_none_iff_exists'.mp hsome
  rcases h.adds.added _ _ hnode with hold | ⟨-, front, hfront, hway⟩ | ⟨names', hdone, heq, -⟩
  · rw [hs.get?_eq_none_of_prefix hfree (List.prefix_append _ names)] at hold
    cases hold
  · rw [List.append_assoc] at hway
    have hlength := (List.append_cancel_left hway ▸ hfront).length_le
    rw [List.length_append] at hlength
    obtain rfl : names = [] := List.eq_nil_of_length_eq_zero (by omega)
    exact hnames hnil
  · exact hnames (List.append_cancel_left heq ▸ hdone)

/-- One more copy, in a directory that is there. -/
lemma put (h : Reached s root loc o way done x) (hdir : x.get? (o ++ way ++ front) = some .dir)
    (hm : IsEntryName m) (hfree : x.get? (o ++ way ++ front ++ [m]) = none)
    (hsound : IsSound node) (hcopied : CopiedAs s root loc (front ++ [m]) node) :
    Reached s root loc o way (done ++ [front ++ [m]]) (x.put (o ++ way ++ front ++ [m]) node) := by
  have hput : Adds (fun l node' => l = o ++ way ++ front ++ [m] ∧ node' = node) x
      (x.put (o ++ way ++ front ++ [m]) node) :=
    .put h.adds.wellFormed hdir hm hfree hsound ⟨rfl, rfl⟩
  constructor
  · refine (h.adds.mono ?_).trans (hput.mono ?_)
    · rintro l node' (hway | ⟨names, hdone, hnames⟩)
      · exact Or.inl hway
      · exact Or.inr ⟨names, List.mem_append_left _ hdone, hnames⟩
    · rintro l node' ⟨rfl, rfl⟩
      exact Or.inr ⟨front ++ [m], by simp, by simp, hcopied⟩
  · intro names hnames
    rcases List.mem_append.mp hnames with hdone | hlast
    · obtain ⟨node', hcopied', hnode'⟩ := h.made names hdone
      exact ⟨node', hcopied', hput.kept _ _ hnode'⟩
    · obtain rfl := List.mem_singleton.mp hlast
      refine ⟨node, hcopied, ?_⟩
      rw [← List.append_assoc]
      exact get?_put_self (by simp)

end Reached

lemma filesBeneath_put (hfree : x.get? (o ++ names) = none) :
    filesBeneath (x.put (o ++ names) node) o =
      filesBeneath x o + if node.isFile then 1 else 0 := by
  rw [filesBeneath, entries_put_of_none hfree, List.countP_append, filesBeneath]
  simp [List.isPrefixOf_iff_prefix]

/-! ### One entry -/

/-- A path that leads to a free name in a directory. -/
structure Slot (x : Store) (dst : Path) (d : Location) (m : Bytes) : Prop where
  wellFormed : x.WellFormed
  ne_nil : dst.bytes ≠ []
  locate : ∀ follow, x.locate follow dst = .ok (.vacant d m, false)
  above : ∃ above, dst.parent? = some above ∧ makeDirs above x = (.ok (), x)

namespace Slot

variable {base destRoot rel : Path} {d : Location} {e : WalkEntry}
  (h : Slot w.store (destRoot.join rel) d m) (hstrip : e.path.strip? base = some rel)

include h hstrip

lemma copyEntry_dir (he : e.isDir = true) : copyEntry base destRoot e w =
    (.ok 0, { w with store := w.store.put (d ++ [m]) .dir }) := by
  have hmake := makeDirs_of_vacant h.ne_nil (h.locate false)
  simp only [copyEntry, hstrip, he]
  exact Act.bind_eq_ok.mpr ⟨(), _, Act.edit_eq_ok.mpr ⟨_, hmake, rfl⟩, rfl⟩

/-- A link to a directory is copied as a link with the same text. -/
lemma copyEntry_link {target : Path} (he : e.isDir = false) (hdir : w.store.isDir e.path = true)
    (hread : w.store.readLink e.path = .ok target) (hnul : (0 : UInt8) ∉ target.bytes)
    (hcopyable : (Node.link target).isCopyable = true) : copyEntry base destRoot e w =
    (.ok 0, { w with store := w.store.put (d ++ [m]) (.link target) }) := by
  simp only [Node.isCopyable, Bool.and_eq_true, decide_eq_true_eq] at hcopyable
  have hmake := makeLink_of_vacant hnul hcopyable.1 hcopyable.2 (h.locate false)
  simp only [copyEntry, hstrip, he]
  refine Act.look_bind_eq_ok.mpr ⟨true, by rw [hdir], ?_⟩
  refine Act.bind_eq_ok.mpr ⟨(), _, Act.look_bind_eq_ok.mpr ⟨target, by rw [hread], ?_⟩, rfl⟩
  exact Act.change_eq_ok.mpr ⟨_, hmake, rfl⟩

/-- The file that anything else leads to is copied with its permissions and time. -/
lemma copyEntry_file {l : Location} {content : Bytes} {mode : Nat} {stamp : Stamp}
    (he : e.isDir = false) (hfind : w.store.find true e.path = .ok (l, .file content mode stamp))
    (hcopyable : (Node.file content mode stamp).isCopyable = true) :
    copyEntry base destRoot e w = (.ok 1, { w with
      store := w.store.put (d ++ [m]) (.file content (copiedMode content mode) stamp) }) := by
  have hmode : readable mode = true ∧ writable mode = true := by
    simpa [Node.isCopyable] using hcopyable
  have hdir : w.store.isDir e.path = false := by
    rw [isDir, node?, hfind]
    rfl
  have hother : d ++ [m] ≠ l := by
    rintro rfl
    have hnode := get?_of_find h.wellFormed hfind
    rw [(of_locate_vacant h.wellFormed (h.locate true)).2.2.2] at hnode
    cases hnode
  obtain ⟨above, habove, hmake⟩ := h.above
  have hcontent := copyContent_of_target h.wellFormed hfind hmode.1 hmode.2
    (writeTarget_of_vacant (h.locate true)) hother
  simp only [copyEntry, hstrip, he]
  refine Act.look_bind_eq_ok.mpr ⟨false, by rw [hdir], ?_⟩
  refine Act.bind_eq_ok.mpr ⟨(), _, ?_, rfl⟩
  rw [copyFile_of_parent habove]
  exact Act.bind_eq_ok.mpr ⟨(), w, Act.edit_eq_ok.mpr ⟨_, hmake, rfl⟩, hcontent⟩

end Slot

section Entries

variable (hc : CanCopy s limits root loc) (ha : Awaits s limits output srcDir root loc o way)

include hc ha

/-- The next entry has a slot: the directory above it was copied before it. -/
lemma Reached.exists_slot (hx : Reached s root loc o way done x) (hnil : [] ∈ done)
    (hnames : IsCopied s limits loc (front ++ [m])) (hnew : front ++ [m] ∉ done)
    (hfront : front ∈ done) :
    ∃ rel, (chain root (front ++ [m])).strip? (root.parent?.getD root) = some rel ∧
      Slot x ((output.joinText srcDir).join rel) (o ++ way ++ front) m := by
  have hs := hc.wellFormed
  have hwf := hx.adds.wellFormed
  have hentry := hc.isEntryName hnames.1
  have hm : IsEntryName m := hentry m (by simp)
  have hdir : s.get? (loc ++ front) = some .dir := by
    have habove := (hnames.dropLast hs (by simp)).2
    rwa [List.dropLast_concat] at habove
  obtain ⟨node, hcopied, hnode⟩ := hx.made front hfront
  rw [hcopied.eq_dir hdir, List.append_assoc] at hnode
  have hfree := hx.get?_eq_none hs ha.free hnil hnew
  rw [← List.append_assoc, List.append_assoc o] at hfree
  obtain ⟨rel, hstrip, -, hrespells⟩ := ha.respells hentry (ha.short _ hnames)
  rw [← List.append_assoc] at hrespells
  have houtput := hx.adds.find hs ha.found
  have hway : way ++ front ≠ [] := by
    obtain ⟨before, n, rfl, -⟩ := ha.spelled
    simp
  refine ⟨rel, hstrip, hwf, hrespells.speakable.ne_nil, ?_, ?_⟩
  · rw [List.append_assoc]
    exact hrespells.locate_free hwf houtput hnode hm hfree
  · exact hrespells.makeDirs_parent hwf houtput hnode hm.isName hway

/-- One entry more is copied. -/
lemma Reached.copyEntry (hx : Reached s root loc o way done w.store) (hnil : [] ∈ done)
    (hnames : IsCopied s limits loc (front ++ [m])) (hnew : front ++ [m] ∉ done)
    (hfront : front ∈ done) :
    ∃ node, CopiedAs s root loc (front ++ [m]) node ∧
      Assembly.copyEntry (root.parent?.getD root) (output.joinText srcDir)
        (Walk.entryAt root (front ++ [m]) ((s.get? (loc ++ (front ++ [m]))).getD .dir)) w =
      (.ok (if node.isFile then 1 else 0),
        { w with store := w.store.put (o ++ way ++ front ++ [m]) node }) := by
  have hs := hc.wellFormed
  obtain ⟨rel, hstrip, hslot⟩ := hx.exists_slot hc ha hnil hnames hnew hfront
  obtain ⟨own, hown⟩ := Option.ne_none_iff_exists'.mp hnames.1
  obtain ⟨husable, hleads⟩ := hc.copyable _ own hnames hown
  obtain ⟨node, hcopied⟩ := hc.exists_copiedAs hnames
  refine ⟨node, hcopied, ?_⟩
  cases hcopied with
  | dir hdir =>
    apply hslot.copyEntry_dir hstrip
    rw [hdir]
    rfl
  | @link target hlink hdir =>
    obtain rfl := Option.some.inj (hown.symm.trans hlink)
    obtain ⟨l, hfind⟩ := node?_eq_some hdir
    have hm : IsEntryName m := hc.isEntryName hnames.1 m (by simp)
    have habove := (hnames.dropLast hs (by simp)).2
    rw [List.dropLast_concat] at habove
    have hshort := (isLocatable_of_find hfind).short
    have hread := (Spells.of_dir hs hc.found habove).find_concat habove hm hshort hlink
    refine hslot.copyEntry_link hstrip ?_ (isDir_of_find (hx.adds.find hs hfind)) ?_
      (hs.isSound hown) husable
    · rw [hlink]
      rfl
    · change w.store.readLink (chain root (front ++ [m])) = .ok target
      rw [readLink, hx.adds.find hs hread]
  | @file content mode stamp hother hnode =>
    obtain ⟨l, hfind⟩ := node?_eq_some hnode
    rw [hnode] at hleads
    refine hslot.copyEntry_file hstrip ?_ (hx.adds.find hs hfind) hleads
    rw [hown] at hother ⊢
    cases own with
    | dir => exact absurd rfl hother
    | _ => rfl

/-- One entry more is reached, and counted if it is a file. -/
lemma Reached.step (hx : Reached s root loc o way done w.store) (hnil : [] ∈ done)
    (hnames : IsCopied s limits loc (front ++ [m])) (hnew : front ++ [m] ∉ done)
    (hfront : front ∈ done) :
    ∃ k y, Assembly.copyEntry (root.parent?.getD root) (output.joinText srcDir)
        (Walk.entryAt root (front ++ [m]) ((s.get? (loc ++ (front ++ [m]))).getD .dir)) w =
        (.ok k, { w with store := y }) ∧
      Reached s root loc o way (done ++ [front ++ [m]]) y ∧
      filesBeneath y (o ++ way) = filesBeneath w.store (o ++ way) + k := by
  obtain ⟨node, hcopied, hrun⟩ := hx.copyEntry hc ha hnil hnames hnew hfront
  obtain ⟨rel, -, hslot⟩ := hx.exists_slot hc ha hnil hnames hnew hfront
  obtain ⟨-, hdir, hm, hfree⟩ := of_locate_vacant hslot.wellFormed (hslot.locate false)
  refine ⟨_, _, hrun, hx.put hdir hm hfree (hcopied.isSound hc.wellFormed) hcopied, ?_⟩
  rw [List.append_assoc] at hfree ⊢
  exact filesBeneath_put hfree

/-- The entries are copied one after the other, and the files among them are counted. -/
lemma Reached.copyEntries (hx : Reached s root loc o way done w.store) (hnil : [] ∈ done)
    (hcopied : ∀ names ∈ tree, IsCopied s limits loc names) (hnodup : (done ++ tree).Nodup)
    (habove : ∀ names ∈ tree, names.dropLast ∈ done ++ tree)
    (hfirst : tree.Pairwise fun names later => ¬ later <+: names) :
    ∃ count y, Assembly.copyEntries (root.parent?.getD root) (output.joinText srcDir)
        (tree.map fun names => Walk.entryAt root names ((s.get? (loc ++ names)).getD .dir)) w =
        (.ok count, { w with store := y }) ∧
      Reached s root loc o way (done ++ tree) y ∧
      filesBeneath y (o ++ way) = filesBeneath w.store (o ++ way) + count := by
  induction tree generalizing done w with
  | nil => exact ⟨0, w.store, rfl, by rwa [List.append_nil], rfl⟩
  | cons names tree ih =>
    have hnew : names ∉ done := by
      intro hdone
      exact List.disjoint_of_nodup_append hnodup hdone List.mem_cons_self
    have hnames := hcopied names List.mem_cons_self
    obtain ⟨front, m, rfl⟩ : ∃ front m, names = front ++ [m] := by
      apply (List.eq_nil_or_concat' names).resolve_left
      rintro rfl
      exact hnew hnil
    -- What lies above an entry does not come later.
    have hfront : front ∈ done := by
      have hmem := habove _ List.mem_cons_self
      rw [List.dropLast_concat] at hmem
      rcases List.mem_append.mp hmem with hdone | hlater
      · exact hdone
      · rcases List.mem_cons.mp hlater with heq | hlater
        · simp at heq
        · exact absurd (List.prefix_append front [m]) (List.rel_of_pairwise_cons hfirst hlater)
    obtain ⟨k, x, hrun, hx', hcount⟩ := hx.step hc ha hnil hnames hnew hfront
    have happend : done ++ (front ++ [m]) :: tree = (done ++ [front ++ [m]]) ++ tree := by simp
    rw [happend] at hnodup habove ⊢
    have hlater : ∀ later ∈ tree, later ∈ (front ++ [m]) :: tree :=
      fun _ hmem => List.mem_cons_of_mem _ hmem
    obtain ⟨count, y, hrest, hy, hcount'⟩ := @ih { w with store := x } (done ++ [front ++ [m]])
      hx' (List.mem_append_left _ hnil) (fun later hmem => hcopied later (hlater later hmem)) hnodup
      (fun later hmem => habove later (hlater later hmem)) hfirst.of_cons
    refine ⟨k + count, y, ?_, hy, ?_⟩
    · exact Act.bind_eq_ok.mpr ⟨k, _, hrun, Act.bind_eq_ok.mpr ⟨count, _, hrest, rfl⟩⟩
    · rw [hcount']
      simp only [hcount, Nat.add_assoc]

end Entries

/-! ### The whole tree -/

section Tree

variable (hc : CanCopy s limits root loc) (ha : Awaits s limits output srcDir root loc o way)

include hc

include ha

end Tree

/-- A directory with an empty one, a file, links to a file and to a directory outside, and something
to leave out. -/
def nativeStore : Store where
  entries :=
    [(locationOf ["n"], .dir), (locationOf ["n", "e"], .dir),
      (locationOf ["n", "f"], .link (.ofText "../d/x".toList)),
      (locationOf ["n", "g"], .file [103] 0o600 ⟨5, 0⟩),
      (locationOf ["n", "l"], .link (.ofText "../d".toList)),
      (locationOf ["n", "skip"], .dir), (locationOf ["n", "skip", "y"], .file [] 0o644 ⟨5, 0⟩),
      (locationOf ["d"], .dir), (locationOf ["d", "x"], .file [120] 0o755 ⟨6, 7⟩),
      (locationOf ["o"], .dir)]
  cwd := []
  clock := ⟨9, 0⟩

def nativeRoot : Path := .ofText "/n".toList

/-- A name that is too long for a directory. -/
def longName : Text := List.replicate 256 'a'

end Assembly

end Excerpt
