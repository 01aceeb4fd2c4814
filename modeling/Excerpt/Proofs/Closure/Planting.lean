import Excerpt.Proofs.Canonical
import Excerpt.Proofs.Closure.Effects
import Excerpt.Proofs.Lockstep
import Excerpt.Proofs.Twins

/-!
# Trees of bridges made side by side

Bridges are made alike in two trees, call by call: the files of a directory are walked in path order,
and where a place is taken in one tree it is taken in the other. `Plants` says what the two trees have
to do with each other for that; trees in two scratch directories are a case of it.
-/

namespace Excerpt

open Store

namespace Bridge

variable {s s' t t' : Store} {tmp file source : Path} {a b top name : Bytes} {d : Location}
  {layout : Layout} {sc : Scanner} {package : Text} {counts : Counts} {w w' : World}
  {Q : Question → Question → Prop}

/-- What it takes to make bridges alike beneath `dest` and `dest'`: in stores that are related by
`S`, directories of packages and bridges for good files are made alike there, places are taken alike,
and good files are read with the same outcome. -/
structure Plants (S : Store → Store → Prop) (dest dest' : Path) (good : Path → Prop) : Prop where
  makeDirs : ∀ t t' package, S t t' → (∀ c ∈ package, Package.nameChars.contains c = true) →
    Alike Eq (Store.makeDirs (dest.join (Package.relativeDir package)) t).1
        (Store.makeDirs (dest'.join (Package.relativeDir package)) t').1 ∧
      S (Store.makeDirs (dest.join (Package.relativeDir package)) t).2
        (Store.makeDirs (dest'.join (Package.relativeDir package)) t').2
  taken : ∀ t t' package name, S t t' → (∀ c ∈ package, Package.nameChars.contains c = true) →
    Path.IsName name →
    (t'.ownNode? ((dest'.join (Package.relativeDir package)).child name)).isSome =
      (t.ownNode? ((dest.join (Package.relativeDir package)).child name)).isSome
  makeLink : ∀ t t' package name file, S t t' →
    (∀ c ∈ package, Package.nameChars.contains c = true) → Path.IsName name → Path.dot ∈ name →
    good file →
    Alike S (t.makeLink file ((dest.join (Package.relativeDir package)).child name))
      (t'.makeLink file ((dest'.join (Package.relativeDir package)).child name))
  read : ∀ t t' file, S t t' → good file → t'.read file = t.read file

variable {S : Store → Store → Prop} {dest dest' : Path} {good : Path → Prop} {limits : Walk.Limits}

/-! ### One bridge -/

lemma place_lockstep (h : Plants S dest dest' good) (hw : S w.store w'.store)
    (hQ : List.Forall₂ Q w.questions w'.questions)
    (hpackage : ∀ c ∈ package, Package.nameChars.contains c = true) (hname : Path.IsName name)
    (hdot : Path.dot ∈ name) (hfile : good file) :
    Act.Lockstep S Q Eq (place dest file name package counts)
      (place dest' file name package counts) w w' := by
  unfold place
  obtain ⟨halike, hmade⟩ := h.makeDirs _ _ package hw hpackage
  refine .bind (.edit hQ halike fun _ _ => hmade) fun _ _ v v' _ _ _ hv hQ' => ?_
  refine .look_bind hQ' (congrArg Except.ok (h.taken _ _ package name hv hpackage hname))
    fun taken _ => ?_
  split
  · exact .bind (.report hQ' hv) fun _ _ _ _ _ _ _ hv' hQ'' => .pure hQ'' hv' rfl
  · exact .bind (.change hQ' (h.makeLink _ _ package name file hv hpackage hname hdot hfile))
      fun _ _ _ _ _ _ _ hv' hQ'' => .pure hQ'' hv' rfl

/-! ### Many bridges -/

lemma placeFile_lockstep (h : Plants S dest dest' good) (hw : S w.store w'.store)
    (hQ : List.Forall₂ Q w.questions w'.questions) (hsc : Package.scanner = .ok sc)
    (hfile : good file) :
    Act.Lockstep S Q Eq (placeFile layout sc dest file counts)
      (placeFile layout sc dest' file counts) w w' := by
  have hread := h.read _ _ file hw hfile
  unfold placeFile
  split
  · exact .pure hQ hw rfl
  · rename_i hext
    simp only [Bool.not_eq_true, Bool.not_eq_false'] at hext
    refine .look_bind hQ (by rw [Package.ofFile, Package.ofFile, hread]) fun found hfound => ?_
    split
    · exact .pure hQ hw rfl
    · exact .pure hQ hw rfl
    · rename_i package name hname
      obtain ⟨n, hn, hdot⟩ := Path.dot_mem_of_hasExtension hext
      rw [hname, Option.some.injEq] at hn
      subst hn
      exact place_lockstep h hw hQ (Package.of_ofFile_eq_some hsc hfound).2
        (Path.of_fileName?_eq_some hname).1 hdot hfile

lemma placeFiles_lockstep {files : List Path} (h : Plants S dest dest' good)
    (hw : S w.store w'.store) (hQ : List.Forall₂ Q w.questions w'.questions)
    (hsc : Package.scanner = .ok sc) (hfiles : ∀ file ∈ files, good file) :
    Act.Lockstep S Q Eq (placeFiles layout sc dest files counts)
      (placeFiles layout sc dest' files counts) w w' := by
  induction files generalizing counts w w' with
  | nil => exact .pure hQ hw rfl
  | cons file files ih =>
    refine .bind (placeFile_lockstep h hw hQ hsc (hfiles file List.mem_cons_self)) ?_
    rintro counts' _ v v' - - rfl hv hQ'
    exact ih hv hQ' fun f hf => hfiles f (List.mem_cons_of_mem _ hf)

lemma placeGroups_lockstep {groups : List (Path × List Path)} (h : Plants S dest dest' good)
    (hw : S w.store w'.store) (hQ : List.Forall₂ Q w.questions w'.questions)
    (hsc : Package.scanner = .ok sc) (hfiles : ∀ g ∈ groups, ∀ file ∈ g.2, good file) :
    Act.Lockstep S Q Eq (placeGroups layout sc dest groups counts)
      (placeGroups layout sc dest' groups counts) w w' := by
  induction groups generalizing counts w w' with
  | nil => exact .pure hQ hw rfl
  | cons g groups ih =>
    have hrest := fun g hg => hfiles g (List.mem_cons_of_mem _ hg)
    obtain ⟨dir, files⟩ := g
    rw [placeGroups, placeGroups]
    split
    · exact .bind (.report hQ hw) fun _ _ v v' _ _ _ hv hQ' => ih hv hQ' hrest
    · refine .bind (placeFiles_lockstep h hw hQ hsc (hfiles _ List.mem_cons_self)) ?_
      rintro counts' _ v v' - - rfl hv hQ'
      exact ih hv hQ' hrest

/-- One call makes the same bridges in both trees if its walks come to the same good files. -/
theorem normalize_lockstep {recursive : Bool} (h : Plants S dest dest' good)
    (hw : S w.store w'.store) (hQ : List.Forall₂ Q w.questions w'.questions)
    (hwalk : ∀ gs, Walk.globs layout.ignore = .ok gs →
      Walk.files w'.store (.ofGlobs gs (if recursive then none else some 1)) source =
        Walk.files w.store (.ofGlobs gs (if recursive then none else some 1)) source ∧
      ∀ ps, Walk.files w.store (.ofGlobs gs (if recursive then none else some 1)) source = .ok ps →
        ∀ p ∈ ps, good p) :
    Act.Lockstep S Q (fun _ _ => True) (normalize layout source dest recursive)
      (normalize layout source dest' recursive) w w' := by
  unfold normalize
  refine .look_bind hQ rfl fun sc hsc => .look_bind hQ rfl fun gs hgs => ?_
  obtain ⟨hfiles, hgood⟩ := hwalk gs hgs
  refine .look_bind hQ (by rw [Walk.filesByDir, Walk.filesByDir, hfiles]) fun groups hgroups => ?_
  refine .bind (placeGroups_lockstep h hw hQ hsc fun g hg file hfile => ?_) ?_
  · unfold Walk.filesByDir at hgroups
    cases hps : Walk.files w.store
        (.ofGlobs gs (if recursive = true then none else some 1)) source with
    | error => rw [hps] at hgroups; cases hgroups
    | ok ps =>
      rw [hps] at hgroups
      cases hgroups
      exact hgood ps hps file (Walk.mem_of_mem_groupByDir hg hfile)
  · rintro counts _ v v' - - rfl hv hQ'
    exact .bind (.report hQ' hv) fun _ _ _ _ _ _ _ hv' hQ'' => .pure hQ'' hv' trivial

/-! ### Trees in two scratch directories -/

/-- The stores have the same in their scratch directories, the tree `top` among it. -/
structure Planted (s s' : Store) (tmp : Path) (a b : Bytes) (d : Location) (top : Bytes)
    (t t' : Store) : Prop where
  twins : Twins s s' tmp a b d t t'
  isTop : top = Scratch.testsName ∨ top = Scratch.srcTestsName
  there : t.isDir (chain (tmp.child a) [top]) = true

lemma isTreeDir_dirs (htop : top = Scratch.testsName ∨ top = Scratch.srcTestsName)
    (hpackage : ∀ c ∈ package, Package.nameChars.contains c = true) :
    Scratch.IsTreeDir (top :: Package.dirs package) :=
  ⟨top, _, rfl, htop, fun _ hn => Package.isPlainName_of_mem_dirs hpackage hn⟩

lemma isTreeDir_top (htop : top = Scratch.testsName ∨ top = Scratch.srcTestsName) :
    Scratch.IsTreeDir [top] :=
  ⟨top, [], rfl, htop, by simp⟩

/-- Making the directory of a package. -/
lemma makeDirs_relativeDir_alike (h : Planted s s' tmp a b d top t t')
    (hpackage : ∀ c ∈ package, Package.nameChars.contains c = true) :
    Alike Eq
        (makeDirs ((chain (tmp.child a) [top]).join (Package.relativeDir package)) t).1
        (makeDirs ((chain (tmp.child b) [top]).join (Package.relativeDir package)) t').1 ∧
      Planted s s' tmp a b d top
        (makeDirs ((chain (tmp.child a) [top]).join (Package.relativeDir package)) t).2
        (makeDirs ((chain (tmp.child b) [top]).join (Package.relativeDir package)) t').2 := by
  have hextends := (runs_makeDirs h.twins.left.wellFormed
    ((chain (tmp.child a) [top]).join (Package.relativeDir package))).extends
      h.twins.left.wellFormed
  refine ⟨?_, ⟨?_, h.isTop, hextends.isDir h.there⟩⟩
  all_goals
    rw [join_relativeDir hpackage, join_relativeDir hpackage]
    by_cases hne : Package.dirs package = []
    · have hmake := h.twins.makeDirs_join_empty (isTreeDir_top h.isTop) h.there
      rw [hne, chain_nil, chain_nil]
      first
        | exact hmake.1
        | rw [hmake.2.1, hmake.2.2]
          exact h.twins
    · have hmake := h.twins.makeDirs (isTreeDir_dirs h.isTop hpackage)
      rw [chain_join_empty _ (isName_of_mem_dirs hpackage) hne,
        chain_join_empty _ (isName_of_mem_dirs hpackage) hne]
      first
        | exact hmake.1
        | exact hmake.2

/-- Making a bridge where there is none yet. -/
lemma makeLink_relativeDir_alike (h : Planted s s' tmp a b d top t t')
    (hpackage : ∀ c ∈ package, Package.nameChars.contains c = true) (hname : Path.IsName name)
    (hdot : Path.dot ∈ name) (htarget : IsBridgeTarget a b file) :
    Alike (Planted s s' tmp a b d top)
      (t.makeLink file (chain (tmp.child a) (top :: Package.dirs package ++ [name])))
      (t'.makeLink file (chain (tmp.child b) (top :: Package.dirs package ++ [name]))) := by
  have hlink := h.twins.makeLink (isTreeDir_dirs h.isTop hpackage) hname hdot htarget
  have hthere : ∀ u, t.makeLink file
      (chain (tmp.child a) (top :: Package.dirs package ++ [name])) = .ok u →
      u.isDir (chain (tmp.child a) [top]) = true := fun u hu =>
    ((changes_of_makeLink h.twins.left.wellFormed hu).extends h.twins.left.wellFormed).isDir h.there
  generalize t.makeLink file
    (chain (tmp.child a) (top :: Package.dirs package ++ [name])) = x at hlink hthere
  generalize t'.makeLink file (chain (tmp.child b) (top :: Package.dirs package ++ [name])) = y
    at hlink
  cases hlink with
  | error => exact .error
  | ok hu => exact .ok ⟨hu, h.isTop, hthere _ rfl⟩

lemma plants_planted : Plants (Planted s s' tmp a b d top) (chain (tmp.child a) [top])
    (chain (tmp.child b) [top]) (IsBridgeTarget a b) where
  makeDirs _ _ _ h hpackage := makeDirs_relativeDir_alike h hpackage
  taken t t' package name h hpackage hname := by
    rw [child_relativeDir hpackage hname, child_relativeDir hpackage hname]
    have htree := isTreeDir_dirs h.isTop hpackage
    exact congrArg Option.isSome
      (h.twins.corresponds.ownNode? h.twins.exchangeable (h.twins.matches_entry htree hname))
  makeLink t t' package name file h hpackage hname hdot hfile := by
    rw [child_relativeDir hpackage hname, child_relativeDir hpackage hname]
    exact makeLink_relativeDir_alike h hpackage hname hdot hfile
  read _ _ _ h hfile := h.twins.corresponds.agree.read hfile.2

/-- Walks from `source` come to no file in the scratch directories. -/
def ClearOf (a b : Bytes) (d : Location) (layout : Layout) (source : Path) (recursive : Bool)
    (t t' : Store) : Prop :=
  ∀ gs, Walk.globs layout.ignore = .ok gs →
    Twins.WalksClear t (d ++ [a])
      (.ofGlobs gs (if recursive then none else some 1)) source ∧
    Twins.WalksClear t' (d ++ [b])
      (.ofGlobs gs (if recursive then none else some 1)) source

/-- One call makes the same bridges in both scratch directories. -/
theorem Planted.normalize_lockstep {recursive : Bool}
    (hw : Planted s s' tmp a b d top w.store w'.store)
    (hQ : List.Forall₂ Q w.questions w'.questions) (hsource : IsBridgeTarget a b source)
    (hclear : ClearOf a b d layout source recursive w.store w'.store) :
    Act.Lockstep (Planted s s' tmp a b d top) Q (fun _ _ => True)
      (normalize layout source (chain (tmp.child a) [top]) recursive)
      (normalize layout source (chain (tmp.child b) [top]) recursive) w w' := by
  refine Bridge.normalize_lockstep plants_planted hw hQ fun gs hgs => ?_
  obtain ⟨hleft, hright⟩ := hclear gs hgs
  obtain ⟨hfiles, hmem⟩ := hw.twins.files hsource.2 hleft hright
  refine ⟨hfiles, fun ps hps p hp => ?_⟩
  obtain ⟨names, rfl, hnames, havoids⟩ := hmem ps hps p hp
  have hisName : ∀ n ∈ names, Path.IsName n := fun n hn => (hnames n hn).isName
  refine ⟨isAbsolute_chain hsource.1 hisName, ?_⟩
  rw [segments_chain source hisName]
  exact hsource.2.append havoids

end Bridge

end Excerpt
