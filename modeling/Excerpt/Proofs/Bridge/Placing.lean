import Excerpt.Proofs.Bridge.Claims
import Excerpt.Proofs.Store.Rewriting

/-!
# One bridge after the other

In a tree of bridges the names of directories have no dot and those of links have one, so that no
place for a bridge is ever on the way to another. `place_ends` says what placing one bridge does:
nothing, if its place is taken, and else the link and the directories on the way to it. What placing
several bridges does is put together from this by `Bridged.append`: the first file that claims a
place has it.
-/

namespace Excerpt

namespace Store

variable {s t : Store} {d names : Location} {n : Bytes} {node : Node} {p target : Path}

/-- A path that is looked up is not too long. -/
lemma length_of_locate {follow : Bool} {place : Place × Bool} (h : s.locate follow p = .ok place) :
    p.bytes.length < maxPath :=
  (locate_eq_ok_iff.mp h).1.short

lemma exists_of_ownNode? (h : (s.ownNode? p).isSome = true) :
    ∃ found, s.find false p = .ok found := by
  rw [ownNode?] at h
  split at h
  · rename_i l node hfound
    exact ⟨(l, node), hfound⟩
  · cases h

/-- Making directories that are there does nothing, also if their path is too long. -/
lemma Spells.makeDirs_of_dir (h : Spells s p d names) (hne : names ≠ [])
    (hd : s.get? (d ++ names) = some .dir) : (Store.makeDirs (chain p names) s).2 = s := by
  have hnil : (chain p names).bytes ≠ [] :=
    (start_chain (s := s) (isLocatable_of_find h.found).ne_nil h.isName).1
  have hmake : s.makeDir (chain p names) = .error .alreadyExists ∨
      s.makeDir (chain p names) = .error .nameTooLong := by
    have hlocated := h.located hne
    unfold Store.makeDir
    generalize s.locate false (chain p names) = place at hlocated
    cases hlocated with
    | found => exact Or.inl rfl
    | vacant _ _ _ hnone => rw [hd] at hnone; cases hnone
    | missing hp _ hnone =>
      rw [h.wellFormed.get?_eq_none_of_prefix hnone ((List.prefix_append_right_inj d).mpr hp)] at hd
      cases hd
    | long => exact Or.inr rfl
  have hfound : s.makeDir (chain p names) ≠ .error .notFound := by
    rcases hmake with hmake | hmake <;> rw [hmake] <;> simp
  rw [Store.makeDirs, makeDirsWithin_of_ne hnil hfound, Store.ensureDir]
  rcases hmake with hmake | hmake <;> rw [hmake] <;> simp only <;> split <;> rfl

/-- What is found behind directories stands there. -/
lemma Spells.get?_of_find (h : Spells s p d names) (hd : s.get? (d ++ names) = some .dir)
    (hn : IsEntryName n) {found : Location × Node}
    (hfound : s.find false (chain p (names ++ [n])) = .ok found) :
    s.get? (d ++ (names ++ [n])) ≠ none := by
  rw [← List.append_assoc]
  rcases h.locate_concat hd hn with ⟨-, hl⟩ | ⟨-, hl⟩ | ⟨node, hl⟩
  · rw [find, hl] at hfound
    cases hfound
  · rw [find, hl] at hfound
    cases hfound
  · rw [Store.get?_of_find h.wellFormed (find_of_locate hl)]
    simp

/-- A link that was made behind directories is new, and it is found. -/
lemma Spells.of_makeLink (h : Spells s p d names) (hd : s.get? (d ++ names) = some .dir)
    (hn : IsEntryName n) (hmake : s.makeLink target (chain p (names ++ [n])) = .ok t) :
    s.get? (d ++ (names ++ [n])) = none ∧
      Adds (fun m node => m = d ++ (names ++ [n]) ∧ node = .link target) s t ∧
      t.get? (d ++ (names ++ [n])) = some (.link target) ∧
      (chain p (names ++ [n])).bytes.length < maxPath := by
  obtain ⟨htarget, d', n', hvacant, rfl⟩ := makeLink_eq_ok_iff.mp hmake
  have hlength := length_of_locate hvacant
  rcases h.locate_concat hd hn with ⟨-, hl⟩ | ⟨hnone, hl⟩ | ⟨node, hl⟩ <;> rw [hl] at hvacant <;>
    cases hvacant
  rw [← List.append_assoc]
  exact ⟨hnone, .put h.wellFormed hd hn hnone htarget.noNul ⟨rfl, rfl⟩, get?_put_self (by simp),
    hlength⟩

end Store

open Store

namespace Bridge

variable {s t u : Store} {dest file : Path} {d names dirs : Location} {name : Bytes} {node : Node}
  {package : Text} {sc : Scanner} {counts counts' counts'' : Counts} {layout : Layout}
  {files files' : List Path} {new : Location → Node → Prop}

/-! ### Trees of bridges -/

/-- A place for a bridge: names of directories without a dot, and a name with one. -/
def IsPlace (names : Location) : Prop :=
  ∃ dirs name, names = dirs ++ [name] ∧ (∀ n ∈ dirs, Path.dot ∉ n) ∧ Path.dot ∈ name

/-- What can stand in a tree of bridges, by the names on the way to it. -/
inductive Shaped : Location → Node → Prop where
  | dir {names : Location} : (∀ n ∈ names, Path.dot ∉ n) → Shaped names .dir
  | link {names : Location} {target : Path} : IsPlace names → Shaped names (.link target)

/-- What can come to a tree of bridges at `d`. -/
def InTree (d m : Location) (node : Node) : Prop :=
  ∃ names, names ≠ [] ∧ m = d ++ names ∧ Shaped names node

/-- The path leads to a tree of bridges. -/
structure BridgeTree (t : Store) (dest : Path) (d : Location) : Prop where
  wellFormed : t.WellFormed
  found : t.find true dest = .ok (d, .dir)
  shaped : ∀ names node, names ≠ [] → t.get? (d ++ names) = some node → Shaped names node

lemma IsEmptyDir.bridgeTree (h : IsEmptyDir t dest d) : BridgeTree t dest d := by
  refine ⟨h.wellFormed, h.found, fun names node hne hnode => ?_⟩
  rw [h.wellFormed.get?_eq_none_of_names h.empty hne] at hnode
  cases hnode

lemma not_isPlace_of_plain (h : ∀ n ∈ names, Path.dot ∉ n) : ¬ IsPlace names := by
  rintro ⟨dirs, name, rfl, -, hdot⟩
  exact h name (by simp) hdot

namespace BridgeTree

lemma isDir (h : BridgeTree t dest d) : t.get? d = some .dir := get?_of_find h.wellFormed h.found

lemma of_adds (h : BridgeTree t dest d) (hadds : Adds (InTree d) t u) : BridgeTree u dest d := by
  refine ⟨hadds.wellFormed, hadds.find h.wellFormed h.found, fun names node hne hnode => ?_⟩
  rcases hadds.added _ node hnode with hold | ⟨names', -, he, hshaped⟩
  · exact h.shaped names node hne hold
  · rwa [List.append_cancel_left he]

/-- Directories without dots can come to a tree. -/
lemma adds_of_onWay (h : BridgeTree t dest d) (hplain : ∀ n ∈ dirs, Path.dot ∉ n)
    (hadds : Adds (OnWay d dirs) t u) : Adds (InTree d) t u := by
  refine ⟨hadds.wellFormed, hadds.kept, fun m node hnode => ?_, hadds.cwd, hadds.clock⟩
  rcases hadds.added m node hnode with hold | ⟨rfl, front, hfront, rfl⟩
  · exact Or.inl hold
  · rcases eq_or_ne front [] with rfl | hne
    · rw [List.append_nil]
      exact Or.inl h.isDir
    · exact Or.inr ⟨front, hne, rfl, .dir fun n hn => hplain n (hfront.subset hn)⟩

/-- The directories of a package can be looked up in a tree. -/
lemma spells (h : BridgeTree t dest d)
    (hpackage : ∀ c ∈ package, Package.nameChars.contains c = true) :
    Spells t dest d (Package.dirs package) := by
  refine ⟨h.wellFormed, h.found, fun n hn => ?_, fun front hfront node hnode => ?_⟩
  · exact ⟨(Package.isPlainName_of_mem_dirs hpackage hn).1, Package.noNul_of_mem_dirs hpackage hn⟩
  · rcases eq_or_ne front [] with rfl | hne
    · rw [List.append_nil, h.isDir] at hnode
      exact (Option.some.inj hnode).symm
    · cases h.shaped front node hne hnode with
      | dir => rfl
      | link hplace =>
        obtain ⟨dirs, name, rfl, -, hdot⟩ := hplace
        have hname : name ∈ Package.dirs package := hfront.subset (by simp)
        exact absurd hdot (Package.isPlainName_of_mem_dirs hpackage hname).2

end BridgeTree

/-! ### One bridge -/

/-- The directory of a package in a tree. -/
abbrev dirOf (dest : Path) (package : Text) : Path := dest.join (Package.relativeDir package)

/-- How making the directory of a package ends in a tree: the directories on the way are all that is
added, and nothing is if they are there. -/
lemma BridgeTree.makeDirs_dirOf (h : BridgeTree t dest d)
    (hpackage : ∀ c ∈ package, Package.nameChars.contains c = true) :
    ∃ r u, makeDirs (dirOf dest package) t = (r, u) ∧ Adds (OnWay d (Package.dirs package)) t u ∧
      (t.get? (d ++ Package.dirs package) = some .dir → u = t) ∧
      (r = .ok () → u.get? (d ++ Package.dirs package) = some .dir ∧
        u.isDir (dirOf dest package) = true) := by
  have hspells := h.spells hpackage
  have hne : (dirOf dest package).bytes ≠ [] :=
    Path.join_bytes_ne_nil (isLocatable_of_find h.found).ne_nil
      (Package.isAbsolute_relativeDir hpackage)
  have hisDir : ∀ {r u}, makeDirs (dirOf dest package) t = (r, u) → r = .ok () →
      u.isDir (dirOf dest package) = true := by
    rintro r u hmake rfl
    exact isDir_of_makeDirs h.wellFormed hne hmake
  rw [dirOf, join_relativeDir hpackage] at hisDir ⊢
  by_cases hnil : Package.dirs package = []
  · rw [hnil, chain_nil] at hisDir ⊢
    have hd : t.get? (d ++ []) = some .dir := by rw [List.append_nil, h.isDir]
    have hmake := makeDirs_join_empty_eq hspells.found
    exact ⟨_, _, hmake, .refl h.wellFormed, fun _ => rfl, fun hr => ⟨hd, hisDir hmake hr⟩⟩
  · rw [chain_join_empty dest hspells.isName hnil] at hisDir ⊢
    obtain ⟨hadds, hends⟩ := hspells.makeDirs hnil
    generalize hmake : makeDirs (chain dest (Package.dirs package)) t = made at hadds hends
    have hthere := fun hd => hmake ▸ hspells.makeDirs_of_dir hnil hd
    refine ⟨made.1, made.2, rfl, hadds, hthere, fun hr => ⟨?_, hisDir hmake hr⟩⟩
    rcases hends with ⟨-, hd⟩ | ⟨he, -⟩
    · exact hd
    · rw [hr] at he
      cases he

/-- The place for a file of a package is there, and so is its directory. -/
def IsSettled (t : Store) (dest : Path) (package : Text) (name : Bytes) : Prop :=
  t.isDir (dirOf dest package) = true ∧
    ∃ found, t.find false ((dirOf dest package).child name) = .ok found

lemma IsSettled.of_adds (h : IsSettled t dest package name) (ht : t.WellFormed)
    (hadds : Adds new t u) : IsSettled u dest package name := by
  obtain ⟨hdir, found, hfound⟩ := h
  obtain ⟨l, hl⟩ := exists_of_isDir hdir
  exact ⟨isDir_of_find (hadds.find ht hl), found, hadds.find ht hfound⟩

/-- How placing a bridge ends: its place is taken and nothing is changed, or the link has come there
with the directories on the way, or something cannot be made and directories have come at most. -/
inductive PlaceEnds (s : Store) (dest : Path) (d : Location) (package : Text) (name : Bytes)
    (file : Path) (counts : Counts) : Except Failure Counts × Store → Prop where
  | shadowed : s.get? (d ++ (Package.dirs package ++ [name])) ≠ none →
      IsSettled s dest package name →
      PlaceEnds s dest d package name file counts
        (.ok { counts with shadowed := counts.shadowed + 1 }, s)
  | bridged {u : Store} : s.get? (d ++ (Package.dirs package ++ [name])) = none →
      u.get? (d ++ (Package.dirs package ++ [name])) = some (.link file) →
      Adds (fun m node => OnWay d (Package.dirs package) m node ∨
        (m = d ++ (Package.dirs package ++ [name]) ∧ node = .link file)) s u →
      IsSettled u dest package name →
      PlaceEnds s dest d package name file counts
        (.ok { counts with bridges := counts.bridges + 1 }, u)
  | failed {failure : Failure} {u : Store} : Adds (OnWay d (Package.dirs package)) s u →
      PlaceEnds s dest d package name file counts (.error failure, u)

/-- What `place` does, without its reports. -/
lemma run_place (dest file : Path) (name : Bytes) (package : Text) (counts : Counts) (w : World) :
    ((place dest file name package counts w).1,
      (place dest file name package counts w).2.store) =
    match makeDirs (dirOf dest package) w.store with
    | (.error fault, u) => (.error (.makeDir (dirOf dest package) fault), u)
    | (.ok (), u) =>
      if (u.ownNode? ((dirOf dest package).child name)).isSome then
        (.ok { counts with shadowed := counts.shadowed + 1 }, u)
      else match u.makeLink file ((dirOf dest package).child name) with
        | .error fault => (.error (.makeLink ((dirOf dest package).child name) file fault), u)
        | .ok u' => (.ok { counts with bridges := counts.bridges + 1 }, u') := by
  unfold place
  rw [Act.run_bind, Act.edit]
  cases makeDirs (dirOf dest package) w.store with
  | mk r u =>
    cases r with
    | error fault => rfl
    | ok =>
      simp only
      rw [Act.run_bind, Act.run_look]
      simp only
      split
      · rfl
      · rw [Act.run_bind, Act.change, Act.edit, Store.step]
        simp only
        cases u.makeLink file ((dirOf dest package).child name) <;> rfl

/-- A directory that is made on the way to a place for a bridge is not at that place. -/
lemma get?_place_eq (hplain : ∀ n ∈ dirs, Path.dot ∉ n) (hdot : Path.dot ∈ name)
    (hadds : Adds (OnWay d dirs) t u) : u.get? (d ++ (dirs ++ [name])) = t.get? (d ++ (dirs ++ [name])) := by
  refine hadds.get?_eq ?_
  rintro node ⟨-, front, hfront, he⟩
  obtain rfl := List.append_cancel_left he
  exact hplain name (hfront.subset (by simp)) hdot

/-- A link that was made in the directory of its package is all that is new, and it is found. -/
lemma BridgeTree.of_makeLink (h : BridgeTree t dest d)
    (hpackage : ∀ c ∈ package, Package.nameChars.contains c = true) (hname : IsEntryName name)
    (hdot : Path.dot ∈ name) (hd : t.get? (d ++ Package.dirs package) = some .dir)
    (hisDir : t.isDir (dirOf dest package) = true)
    (hlink : t.makeLink file ((dirOf dest package).child name) = .ok u) :
    t.get? (d ++ (Package.dirs package ++ [name])) = none ∧
      Adds (fun m node => m = d ++ (Package.dirs package ++ [name]) ∧ node = .link file) t u ∧
      u.get? (d ++ (Package.dirs package ++ [name])) = some (.link file) ∧
      IsSettled u dest package name := by
  have hchild : (dirOf dest package).child name = chain dest (Package.dirs package ++ [name]) :=
    child_relativeDir hpackage hname.isName
  obtain ⟨hnone, hadds, hnode, hshort⟩ :=
    (h.spells hpackage).of_makeLink hd hname (hchild ▸ hlink)
  have hplain : ∀ n ∈ Package.dirs package, Path.dot ∉ n :=
    fun n hn => (Package.isPlainName_of_mem_dirs hpackage hn).2
  have htree : BridgeTree u dest d := by
    refine h.of_adds (hadds.mono ?_)
    rintro m node ⟨rfl, rfl⟩
    exact ⟨_, by simp, rfl, .link ⟨_, name, rfl, hplain, hdot⟩⟩
  obtain ⟨l, hl⟩ := exists_of_isDir hisDir
  have hfound := (htree.spells hpackage).find_concat (hadds.kept _ _ hd) hname hshort hnode
  exact ⟨hnone, hadds, hnode, isDir_of_find (hadds.find h.wellFormed hl), _, hchild ▸ hfound⟩

/-- Placing a bridge ends in one of these ways. -/
theorem place_ends {w : World} (h : BridgeTree w.store dest d)
    (hpackage : ∀ c ∈ package, Package.nameChars.contains c = true) (hname : IsEntryName name)
    (hdot : Path.dot ∈ name) :
    PlaceEnds w.store dest d package name file counts
      ((place dest file name package counts w).1, (place dest file name package counts w).2.store) := by
  obtain ⟨r, u, hmake, hadds, hthere, hends⟩ := h.makeDirs_dirOf hpackage
  rw [run_place, hmake]
  cases r with
  | error fault => exact .failed hadds
  | ok =>
    obtain ⟨hd, hisDir⟩ := hends rfl
    have hplain : ∀ n ∈ Package.dirs package, Path.dot ∉ n :=
      fun n hn => (Package.isPlainName_of_mem_dirs hpackage hn).2
    have htree : BridgeTree u dest d := h.of_adds (h.adds_of_onWay hplain hadds)
    have hsame := get?_place_eq hplain hdot hadds
    simp only
    split
    · rename_i hown
      obtain ⟨found, hfound⟩ := exists_of_ownNode? hown
      have htaken : w.store.get? (d ++ (Package.dirs package ++ [name])) ≠ none := by
        rw [← hsame]
        rw [child_relativeDir hpackage hname.isName] at hfound
        exact (htree.spells hpackage).get?_of_find hd hname hfound
      -- The directory has been there before, so nothing has been made.
      obtain rfl : u = w.store := by
        refine hthere (h.wellFormed.get?_of_concat (n := name) ?_)
        rwa [List.append_assoc]
      exact .shadowed htaken ⟨hisDir, found, hfound⟩
    · split
      · exact .failed hadds
      · rename_i u' hlink
        obtain ⟨hnone, hadds', hnode, hsettled⟩ :=
          htree.of_makeLink hpackage hname hdot hd hisDir hlink
        exact .bridged (hsame ▸ hnone) hnode
          ((hadds.mono fun _ _ => Or.inl).trans (hadds'.mono fun _ _ => Or.inr)) hsettled

end Bridge

end Excerpt
