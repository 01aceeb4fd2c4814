import Excerpt.Proofs.Bridge
import Excerpt.Proofs.Store.Making

/-!
# Trees of bridges match their packages

Bridges for many source directories share one tree. However many calls add to it, and however they
end, it keeps one shape: directories have no dots in their names, bridges have one, and a bridge
stands where the package of its target says. Since a bridge never has the name of a directory, no
bridge is ever in the way of another, and all that can go wrong beneath the tree is a path that is
too long for the file system.
-/

namespace Excerpt

open Store

namespace Bridge

variable {s t u : Store} {dest file : Path} {d names : Location} {name : Bytes} {node : Node}
  {package : Text} {sc : Scanner} {counts : Counts} {new : Location → Node → Prop}

/-! ### Calls -/

/-- One call of `normalize`, without the place of the tree. -/
structure Call where
  layout : Layout
  source : Path
  recursive : Bool

/-- Makes the bridges that a call asks for. -/
def Call.run (dest : Path) (c : Call) : Act Counts := normalize c.layout c.source dest c.recursive

/-- The world after some calls. What became of one is nothing to the next. -/
def afterCalls (dest : Path) (w : World) (calls : List Call) : World :=
  calls.foldl (fun w c => (c.run dest w).2) w

/-- What a call can fail with: an ignored glob that cannot be read, the walk, the reading of a
source, or a place in the tree that is too long for the file system. -/
inductive Excuse (dest : Path) (c : Call) : Failure → Prop where
  | glob {text : Text} : text ∈ c.layout.ignore → Glob.ofText? text = none →
      Excuse dest c (.badGlob text)
  | walk {fault : Fault} : Excuse dest c (.walk c.source fault)
  | scan {names : Location} {fault : Fault} :
      (chain c.source names).hasExtension c.layout.sourceExt = true →
      Excuse dest c (.scan (chain c.source names) fault)
  | dir {package : Text} : IsLong (dest.join (Package.relativeDir package)) →
      Excuse dest c (.makeDir (dest.join (Package.relativeDir package)) .nameTooLong)
  | link {names : Location} {target : Path} : IsLong (chain dest names) →
      Excuse dest c (.makeLink (chain dest names) target .nameTooLong)

/-! ### Shape -/

/-- A bridge called `name` in the directories `dirs` of a tree belongs there: its target has this
name, is a source beneath the directory of a call, and declares the package of these directories. -/
structure Fits (calls : List Call) (t : Store) (dirs : Location) (name : Bytes) (target : Path) :
    Prop where
  isAbsolute : target.isAbsolute = true
  fileName : target.fileName? = some name
  source : ∃ c ∈ calls, target.hasExtension c.layout.sourceExt = true ∧
    ∃ names, target = chain c.source names
  package : ∃ sc package, Package.scanner = .ok sc ∧
    Package.ofFile t sc target = .ok (some package) ∧ Package.dirs package = dirs

/-- What can stand in a tree, by the names on the way to it. -/
inductive Canonical (calls : List Call) (t : Store) : Location → Node → Prop where
  | dir {names : Location} : (∀ n ∈ names, Path.dot ∉ n) → Canonical calls t names .dir
  | bridge {dirs : Location} {name : Bytes} {target : Path} : (∀ n ∈ dirs, Path.dot ∉ n) →
      Path.dot ∈ name → Fits calls t dirs name target →
      Canonical calls t (dirs ++ [name]) (.link target)

/-- The store `t` is `s` with something canonical beneath `d`. -/
def Grown (s : Store) (calls : List Call) (d : Location) (t : Store) : Prop :=
  Adds (fun m node => ∃ names, names ≠ [] ∧ m = d ++ names ∧ Canonical calls t names node) s t

/-- A path leads to a directory with nothing in it. -/
structure IsEmptyDir (s : Store) (dest : Path) (d : Location) : Prop where
  wellFormed : s.WellFormed
  found : s.find true dest = .ok (d, .dir)
  empty : s.names d = []

variable {calls : List Call}

lemma Fits.of_adds {dirs : Location} {target : Path} (h : Fits calls t dirs name target)
    (ht : t.WellFormed) (hadds : Adds new t u) : Fits calls u dirs name target := by
  obtain ⟨habs, hname, hsource, sc, package, hsc, hpackage, hdirs⟩ := h
  refine ⟨habs, hname, hsource, sc, package, hsc, ?_, hdirs⟩
  obtain ⟨⟨content, hread⟩, -⟩ := Package.of_ofFile_eq_some hsc hpackage
  unfold Package.ofFile at hpackage ⊢
  rw [hread] at hpackage
  rw [hadds.read ht hread]
  exact hpackage

lemma Canonical.of_adds (h : Canonical calls t names node) (ht : t.WellFormed)
    (hadds : Adds new t u) : Canonical calls u names node := by
  cases h with
  | dir hdirs => exact .dir hdirs
  | bridge hdirs hdot hfits => exact .bridge hdirs hdot (hfits.of_adds ht hadds)

lemma Canonical.fits {dirs : Location} {target : Path}
    (h : Canonical calls t (dirs ++ [name]) (.link target)) : Fits calls t dirs name target := by
  generalize hnames : dirs ++ [name] = names at h
  cases h with
  | bridge _ _ hfits =>
    obtain ⟨rfl, hlast⟩ := List.append_inj' hnames rfl
    exact List.singleton_inj.mp hlast ▸ hfits

lemma Grown.refl (hs : s.WellFormed) : Grown s calls d s := Adds.refl hs

/-- What is added to a tree has to be canonical. -/
lemma Grown.add (h : Grown s calls d t) (hadds : Adds new t u)
    (hnew : ∀ m node, new m node → t.get? m = some node ∨
      ∃ names, names ≠ [] ∧ m = d ++ names ∧ Canonical calls u names node) :
    Grown s calls d u := by
  have hkept : Grown s calls d t → Adds (fun m node => ∃ names, names ≠ [] ∧ m = d ++ names ∧
      Canonical calls u names node) s t :=
    Adds.mono fun _ _ ⟨names, hne, hm, hcanonical⟩ =>
      ⟨names, hne, hm, hcanonical.of_adds h.wellFormed hadds⟩
  refine (hkept h).trans ⟨hadds.wellFormed, hadds.kept, fun m node hn => ?_, hadds.cwd,
    hadds.clock⟩
  exact (hadds.added m node hn).elim Or.inl (hnew m node)

/-! ### Places in a tree -/

lemma join_foldl_joinText (segs : List Text) (acc : Path) (hacc : acc.isAbsolute = false)
    (hslash : ∀ seg ∈ segs, '/' ∉ seg) :
    dest.join (segs.foldl Path.joinText acc) = chain (dest.join acc) (segs.map Utf8.encode) := by
  induction segs generalizing acc with
  | nil => rfl
  | cons seg segs ih =>
    have hseg := Path.isAbsolute_ofText (hslash seg List.mem_cons_self)
    have hrest : ∀ seg ∈ segs, '/' ∉ seg := fun x hx => hslash x (List.mem_cons_of_mem _ hx)
    have hacc' : (acc.joinText seg).isAbsolute = false :=
      (Path.isAbsolute_foldl_joinText [seg] acc (by simpa using hslash seg List.mem_cons_self)).trans
        hacc
    rw [List.foldl_cons, ih _ hacc' hrest, Path.joinText, ← Path.join_join hacc hseg]
    rfl

lemma chain_join_empty {names : Location} (p : Path) (hnames : ∀ n ∈ names, Path.IsName n)
    (hne : names ≠ []) : chain (p.join Path.empty) names = chain p names := by
  obtain ⟨n, rest, rfl⟩ := List.exists_cons_of_ne_nil hne
  have hn : (⟨n⟩ : Path).isAbsolute = false := (hnames n List.mem_cons_self).isAbsolute
  have hchild : (p.join Path.empty).child n = p.child n := by
    have hempty : Path.empty.join ⟨n⟩ = ⟨n⟩ := by
      rw [Path.join, hn]
      rfl
    rw [Path.child, Path.join_join rfl hn, hempty]
    rfl
  exact congrArg (chain · rest) hchild

/-- Joining the directory of a package is following its names. -/
lemma join_relativeDir (hpackage : ∀ c ∈ package, Package.nameChars.contains c = true) :
    dest.join (Package.relativeDir package) =
      chain (dest.join Path.empty) (Package.dirs package) :=
  join_foldl_joinText _ _ rfl (Package.slash_notMem_segments hpackage)

lemma isName_of_mem_dirs (hpackage : ∀ c ∈ package, Package.nameChars.contains c = true) :
    ∀ n ∈ Package.dirs package, Path.IsName n :=
  fun _ hn => (Package.isPlainName_of_mem_dirs hpackage hn).1

/-- The place of a bridge is a chain of names behind the path of the tree. -/
lemma child_relativeDir (hpackage : ∀ c ∈ package, Package.nameChars.contains c = true)
    (hname : Path.IsName name) :
    (dest.join (Package.relativeDir package)).child name =
      chain dest (Package.dirs package ++ [name]) := by
  have hnames : ∀ n ∈ Package.dirs package ++ [name], Path.IsName n := by
    intro n hn
    rcases List.mem_append.mp hn with hn | hn
    · exact isName_of_mem_dirs hpackage n hn
    · exact List.mem_singleton.mp hn ▸ hname
  rw [join_relativeDir hpackage, ← chain_concat,
    chain_join_empty dest hnames (List.concat_ne_nil name _)]

/-- A package names directories, and only directories are on the way to them. -/
lemma Grown.spells (hs : IsEmptyDir s dest d) (h : Grown s calls d t)
    (hpackage : ∀ c ∈ package, Package.nameChars.contains c = true) :
    Spells t dest d (Package.dirs package) := by
  refine ⟨h.wellFormed, h.find hs.wellFormed hs.found, fun n hn => ?_, fun front hp node hn => ?_⟩
  · exact ⟨(Package.isPlainName_of_mem_dirs hpackage hn).1, Package.noNul_of_mem_dirs hpackage hn⟩
  · rcases h.added _ node hn with hold | ⟨names, -, hnames, hcanonical⟩
    · rcases eq_or_ne front [] with rfl | hne
      · rw [List.append_nil, get?_of_find hs.wellFormed hs.found] at hold
        exact (Option.some.inj hold).symm
      · rw [hs.wellFormed.get?_eq_none_of_names hs.empty hne] at hold
        cases hold
    · obtain rfl := List.append_cancel_left hnames
      cases hcanonical with
      | dir => rfl
      | @bridge dirs name target _ hdot =>
        have hmem : name ∈ Package.dirs package := hp.subset (by simp)
        exact absurd hdot (Package.isPlainName_of_mem_dirs hpackage hmem).2

/-! ### One file -/

lemma grown_of_onWay (h : Grown s calls d t) (hd : t.get? d = some .dir)
    (hpackage : ∀ c ∈ package, Package.nameChars.contains c = true)
    (hadds : Adds (OnWay d (Package.dirs package)) t u) : Grown s calls d u := by
  refine h.add hadds ?_
  rintro m node ⟨rfl, front, hfront, rfl⟩
  rcases eq_or_ne front [] with rfl | hne
  · rw [List.append_nil]
    exact Or.inl hd
  · refine Or.inr ⟨front, hne, rfl, .dir fun n hn => ?_⟩
    exact (Package.isPlainName_of_mem_dirs hpackage (hfront.subset hn)).2

/-- Making the directory of a package adds what is on the way to it, and fails only if its path is
too long. -/
lemma makeDirs_relativeDir (hs : IsEmptyDir s dest d) (h : Grown s calls d t)
    (hpackage : ∀ c ∈ package, Package.nameChars.contains c = true) :
    ∃ r u, makeDirs (dest.join (Package.relativeDir package)) t = (r, u) ∧
      Adds (OnWay d (Package.dirs package)) t u ∧
      ((r = .ok () ∧ u.get? (d ++ Package.dirs package) = some .dir) ∨
        (r = .error .nameTooLong ∧ IsLong (dest.join (Package.relativeDir package)))) := by
  rw [join_relativeDir hpackage]
  have hspells := h.spells hs hpackage
  by_cases hne : Package.dirs package = []
  · rw [hne, chain_nil]
    rcases makeDirs_join_empty hspells.found with hmake | ⟨hlong, hmake⟩
    · refine ⟨_, _, hmake, .refl h.wellFormed, Or.inl ⟨rfl, ?_⟩⟩
      rw [List.append_nil, get?_of_find h.wellFormed hspells.found]
    · exact ⟨_, _, hmake, .refl h.wellFormed, Or.inr ⟨rfl, hlong⟩⟩
  · rw [chain_join_empty dest (isName_of_mem_dirs hpackage) hne]
    obtain ⟨hadds, hends⟩ := hspells.makeDirs hne
    exact ⟨_, _, rfl, hadds, hends⟩

lemma place_upholds {c : Call} {w : World} (hs : IsEmptyDir s dest d)
    (h : Grown s calls d w.store)
    (hpackage : ∀ c ∈ package, Package.nameChars.contains c = true)
    (hname : IsEntryName name) (hdot : Path.dot ∈ name)
    (hfits : Fits calls w.store (Package.dirs package) name file) :
    Act.Upholds (Grown s calls d) (Excuse dest c) (place dest file name package counts) w := by
  obtain ⟨r, u, hmake, hadds, hends⟩ := makeDirs_relativeDir hs h hpackage
  have hd : w.store.get? d = some .dir :=
    get?_of_find h.wellFormed (h.find hs.wellFormed hs.found)
  have hgrown : Grown s calls d u := grown_of_onWay h hd hpackage hadds
  have hplain : ∀ n ∈ Package.dirs package, Path.dot ∉ n :=
    fun n hn => (Package.isPlainName_of_mem_dirs hpackage hn).2
  unfold place
  refine .bind (.edit (by rwa [hmake]) fun fault hfault => ?_) fun _ v hrun hv => ?_
  · rw [hmake] at hfault
    obtain ⟨rfl, -⟩ | ⟨rfl, hlong⟩ := hends
    · cases hfault
    · cases hfault
      exact .dir hlong
  · obtain ⟨u', hmake', rfl⟩ := Act.edit_eq_ok.mp hrun
    rw [hmake] at hmake'
    obtain ⟨rfl, rfl⟩ := Prod.mk.inj hmake'
    have hdir := (hends.resolve_right fun hr => by cases hr.1).2
    rw [child_relativeDir hpackage hname.isName]
    refine .look_bind hv (fun _ h => by cases h) fun taken htaken => ?_
    split
    · exact .bind (.report hv) fun _ _ _ hv' => .pure hv'
    · rename_i hfree
      cases htaken
      have hfree' : u.ownNode? (chain dest (Package.dirs package ++ [name])) = none := by
        simpa using hfree
      obtain ⟨sc, package', hsc, hread, hdirs⟩ := hfits.package
      obtain ⟨l, node, hfound, -⟩ := file_of_read (Package.of_ofFile_eq_some hsc hread).1.choose_spec
      have hlink := (hgrown.spells hs hpackage).makeLink hdir hname
        (hadds.find h.wellFormed hfound) hfree'
      refine .bind (.change hv (fun u' hu' => ?_) fun fault hfault => ?_) fun _ _ _ hv' => .pure hv'
      · rcases hlink with ⟨u'', hadds', hmake''⟩ | ⟨-, hmake''⟩
        · obtain rfl : u'' = u' := Except.ok.inj (hmake''.symm.trans hu')
          refine hgrown.add hadds' ?_
          rintro m node ⟨rfl, rfl⟩
          refine Or.inr ⟨Package.dirs package ++ [name], by simp, List.append_assoc .., ?_⟩
          exact .bridge hplain hdot
            ((hfits.of_adds h.wellFormed hadds).of_adds hgrown.wellFormed hadds')
        · cases hmake''.symm.trans hu'
      · rcases hlink with ⟨u'', -, hmake''⟩ | ⟨hlong, hmake''⟩
        · cases hmake''.symm.trans hfault
        · cases hmake''.symm.trans hfault
          exact .link hlong

/-! ### Many files -/

/-- What a walk from the source of a call comes to. -/
def Listed (c : Call) (file : Path) : Prop :=
  ∃ names, names ≠ [] ∧ (∀ n ∈ names, IsEntryName n) ∧ file = chain c.source names

/-- A listed file has a name that the file system gave out. -/
lemma Listed.isEntryName {c : Call} (h : Listed c file) (hname : file.fileName? = some name) :
    IsEntryName name := by
  obtain ⟨names, hne, hnames, rfl⟩ := h
  obtain ⟨front, n, rfl⟩ := (List.eq_nil_or_concat' names).resolve_left hne
  obtain ⟨-, before, hsteps⟩ := Path.of_fileName?_eq_some hname
  rw [steps_chain _ fun m hm => (hnames m hm).isName, List.map_append, ← List.append_assoc] at hsteps
  obtain ⟨-, hlast⟩ := List.append_inj' hsteps rfl
  rw [List.map_singleton, List.singleton_inj, Component.name.injEq] at hlast
  exact hlast ▸ hnames n (by simp)

lemma placeFile_upholds {c : Call} {w : World} (hs : IsEmptyDir s dest d)
    (h : Grown s calls d w.store) (hc : c ∈ calls) (habs : c.source.isAbsolute = true)
    (hsc : Package.scanner = .ok sc) (hfile : Listed c file) :
    Act.Upholds (Grown s calls d) (Excuse dest c) (placeFile c.layout sc dest file counts) w := by
  unfold placeFile
  split
  · exact .pure h
  · rename_i hext
    simp only [Bool.not_eq_true, Bool.not_eq_false'] at hext
    obtain ⟨names, -, hnames, hchain⟩ := id hfile
    refine .look_bind h (fun failure hfailure => ?_) fun found hfound => ?_
    · unfold Package.ofFile at hfailure
      split at hfailure
      · cases hfailure
        exact hchain ▸ .scan (hchain ▸ hext)
      · cases hfailure
    · split
      · exact .pure h
      · exact .pure h
      · rename_i package name hname
        obtain ⟨n, hn, hdot⟩ := Path.dot_mem_of_hasExtension hext
        rw [hname, Option.some.injEq] at hn
        subst hn
        refine place_upholds hs h (Package.of_ofFile_eq_some hsc hfound).2
          (hfile.isEntryName hname) hdot ⟨?_, hname, ⟨c, hc, hext, names, hchain⟩, sc, package, hsc,
            hfound, rfl⟩
        rw [hchain]
        exact isAbsolute_chain habs fun m hm => (hnames m hm).isName

lemma placeFiles_upholds {c : Call} {w : World} {files : List Path} (hs : IsEmptyDir s dest d)
    (h : Grown s calls d w.store) (hc : c ∈ calls) (habs : c.source.isAbsolute = true)
    (hsc : Package.scanner = .ok sc) (hfiles : ∀ file ∈ files, Listed c file) :
    Act.Upholds (Grown s calls d) (Excuse dest c)
      (placeFiles c.layout sc dest files counts) w := by
  induction files generalizing counts w with
  | nil => exact .pure h
  | cons file files ih =>
    refine .bind (placeFile_upholds hs h hc habs hsc (hfiles file List.mem_cons_self))
      fun _ _ _ hv => ih hv fun f hf => hfiles f (List.mem_cons_of_mem _ hf)

lemma placeGroups_upholds {c : Call} {w : World} {groups : List (Path × List Path)}
    (hs : IsEmptyDir s dest d) (h : Grown s calls d w.store) (hc : c ∈ calls)
    (habs : c.source.isAbsolute = true) (hsc : Package.scanner = .ok sc)
    (hgroups : ∀ g ∈ groups, ∀ file ∈ g.2, Listed c file) :
    Act.Upholds (Grown s calls d) (Excuse dest c)
      (placeGroups c.layout sc dest groups counts) w := by
  induction groups generalizing counts w with
  | nil => exact .pure h
  | cons g groups ih =>
    have hrest := fun g hg => hgroups g (List.mem_cons_of_mem _ hg)
    obtain ⟨dir, files⟩ := g
    rw [placeGroups]
    split
    · exact .bind (.report h) fun _ _ _ hv => ih hv hrest
    · exact .bind (placeFiles_upholds hs h hc habs hsc (hgroups _ List.mem_cons_self))
        fun _ _ _ hv => ih hv hrest

/-! ### Calls one after the other -/

lemma exists_scanner : ∃ sc, Package.scanner = .ok sc := by
  have hscanner : (Package.scanner.toOption.isSome) = true := by decide +kernel
  cases h : Package.scanner with
  | ok sc => exact ⟨sc, rfl⟩
  | error => rw [h] at hscanner; cases hscanner

/-- A call keeps the shape of the tree, and has a good reason to fail. -/
lemma Call.run_upholds {c : Call} {w : World} (hs : IsEmptyDir s dest d)
    (h : Grown s calls d w.store) (hc : c ∈ calls) (habs : c.source.isAbsolute = true) :
    Act.Upholds (Grown s calls d) (Excuse dest c) (c.run dest) w := by
  obtain ⟨sc, hsc⟩ := exists_scanner
  unfold Call.run normalize
  refine .look_bind h (fun _ hf => by rw [hsc] at hf; cases hf) fun sc' hsc' => ?_
  obtain rfl : sc = sc' := Except.ok.inj (hsc.symm.trans hsc')
  refine .look_bind h (fun failure hf => ?_) fun gs _ => ?_
  · obtain ⟨text, hmem, hnone, rfl⟩ := Walk.of_globs_eq_error hf
    exact .glob hmem hnone
  · refine .look_bind h (fun failure hf => ?_) fun groups hgroups => ?_
    · obtain ⟨fault, rfl⟩ := Walk.of_filesByDir_eq_error hf
      exact .walk
    · refine .bind (placeGroups_upholds hs h hc habs hsc fun g hg file hfile => ?_)
        fun _ _ _ hv => .bind (.report hv) fun _ _ _ hv' => .pure hv'
      obtain ⟨loc, -, names, hne, rfl, node, hnode, -⟩ :=
        Walk.met_of_mem_filesByDir h.wellFormed hgroups hg hfile
      refine ⟨names, hne, fun n hn => ?_, rfl⟩
      exact h.wellFormed.isEntryName (by rw [hnode]; simp) (List.mem_append_right loc hn)

/-- However many calls there were, the tree has its shape. -/
lemma grown_afterCalls {w : World} {made : List Call} (hs : IsEmptyDir s dest d)
    (h : Grown s calls d w.store) (hmade : ∀ c ∈ made, c ∈ calls)
    (habs : ∀ c ∈ made, c.source.isAbsolute = true) :
    Grown s calls d (afterCalls dest w made).store := by
  induction made generalizing w with
  | nil => exact h
  | cons c made ih =>
    have hrun := Call.run_upholds hs h (hmade c List.mem_cons_self) (habs c List.mem_cons_self)
    exact ih hrun.keeps (fun c hc => hmade c (List.mem_cons_of_mem _ hc))
      fun c hc => habs c (List.mem_cons_of_mem _ hc)

/-- Whatever calls were made into one empty directory, and however they ended: what stands beneath
it is canonical, nothing outside of it has changed, and the next call can fail only for its globs,
its walk, a source that cannot be read, or a place that is too long for the file system. -/
theorem afterCalls_canonical {w : World} {made : List Call} (hdest : IsEmptyDir w.store dest d)
    (habs : ∀ c ∈ made, c.source.isAbsolute = true) :
    (∀ names node, names ≠ [] → (afterCalls dest w made).store.get? (d ++ names) = some node →
      Canonical made (afterCalls dest w made).store names node) ∧
    (∀ l, (¬ d <+: l ∨ l = d) → (afterCalls dest w made).store.get? l = w.store.get? l) ∧
    ∀ next : Call, next.source.isAbsolute = true → ∀ failure,
      (next.run dest (afterCalls dest w made)).1 = .error failure → Excuse dest next failure := by
  have hgrown : Grown w.store made d (afterCalls dest w made).store :=
    grown_afterCalls hdest (.refl hdest.wellFormed) (fun c hc => hc) habs
  refine ⟨fun names node hne hn => ?_, fun l hl => ?_, fun next hnext failure hfailure => ?_⟩
  · rcases hgrown.added _ node hn with hold | ⟨names', -, he, hcanonical⟩
    · rw [hdest.wellFormed.get?_eq_none_of_names hdest.empty hne] at hold
      cases hold
    · rwa [List.append_cancel_left he]
  · refine hgrown.get?_eq ?_
    rintro node ⟨names, hne, rfl, -⟩
    rcases hl with hl | hl
    · exact hl (List.prefix_append ..)
    · exact hne (List.self_eq_append_right.mp hl.symm)
  · have hgrown' : Grown w.store (made ++ [next]) d (afterCalls dest w made).store :=
      grown_afterCalls hdest (.refl hdest.wellFormed) (fun c hc => List.mem_append_left _ hc) habs
    exact (Call.run_upholds hdest hgrown' (by simp) hnext).fails failure hfailure

/-! ### Two corpora -/

/-- The directory of the tree in the stores below. -/
def treeDir : Path := .ofText "/w/dest".toList

/-- The call for the sources in these stores. -/
def sourceCall : Call := ⟨.default, .ofText "/w/src".toList, true⟩

/-- The same call with a glob that cannot be read. -/
def globCall : Call := { sourceCall with layout := { Layout.default with ignore := ["[".toList] } }

/-- A source whose package is written with too many dots, and an empty directory for a tree. -/
def dottedStore : Store where
  entries :=
    [(locationOf ["w"], .dir), (locationOf ["w", "src"], .dir), (locationOf ["w", "src", "x"], .dir),
      (locationOf ["w", "src", "x", "B.java"],
        .file (Utf8.encode "package ..a..b.;\n".toList) plainMode ⟨0, 0⟩),
      (locationOf ["w", "dest"], .dir)]
  cwd := []
  clock := ⟨1, 0⟩

lemma run_dottedStore :
    IsEmptyDir dottedStore treeDir (locationOf ["w", "dest"]) ∧
      (afterCalls treeDir (.ofStore dottedStore) [sourceCall]).store.get?
          (locationOf ["w", "dest"] ++ (locationOf ["a", "b"] ++ [Utf8.encode "B.java".toList])) =
        some (.link (.ofText "/w/src/x/B.java".toList)) ∧
      (globCall.run treeDir (afterCalls treeDir (.ofStore dottedStore) [sourceCall])).1 =
        .error (.badGlob "[".toList) := by
  refine ⟨⟨by decide +kernel, by decide +kernel, by decide +kernel⟩, ?_, ?_⟩ <;> decide +kernel

/-- The bridge for that source fits its place, and what the next call fails with is excused. -/
theorem afterCalls_dottedStore :
    IsEmptyDir dottedStore treeDir (locationOf ["w", "dest"]) ∧
      Fits [sourceCall] (afterCalls treeDir (.ofStore dottedStore) [sourceCall]).store
        (locationOf ["a", "b"]) (Utf8.encode "B.java".toList)
        (.ofText "/w/src/x/B.java".toList) ∧
      Excuse treeDir globCall (.badGlob "[".toList) := by
  obtain ⟨hdest, hbridge, hfails⟩ := run_dottedStore
  have habs : ∀ c ∈ [sourceCall], c.source.isAbsolute = true := by decide
  obtain ⟨hshape, -, hexcuse⟩ := afterCalls_canonical (w := .ofStore dottedStore) hdest habs
  exact ⟨hdest, (hshape _ _ (by simp) hbridge).fits,
    hexcuse globCall (by decide) _ hfails⟩

/-- A source whose package is one segment of 256 letters. -/
def longStore : Store where
  entries :=
    [(locationOf ["w"], .dir), (locationOf ["w", "src"], .dir),
      (locationOf ["w", "src", "A.java"],
        .file (Utf8.encode ("package ".toList ++ List.replicate 256 'a' ++ [';'])) plainMode ⟨0, 0⟩),
      (locationOf ["w", "dest"], .dir)]
  cwd := []
  clock := ⟨1, 0⟩

/-- Calls also fail where the source can be walked and read: for the length of a package, and for a
glob. -/
theorem run_fails_for_length_or_glob :
    IsEmptyDir longStore treeDir (locationOf ["w", "dest"]) ∧
      sourceCall.source.isAbsolute = true ∧ globCall.source.isAbsolute = true ∧
      (sourceCall.run treeDir (.ofStore longStore)).1 =
        .error (.makeDir (treeDir.child (List.replicate 256 97)) .nameTooLong) ∧
      (globCall.run treeDir (.ofStore longStore)).1 = .error (.badGlob "[".toList) := by
  refine ⟨⟨by decide +kernel, by decide +kernel, by decide +kernel⟩, by decide, by decide, ?_, ?_⟩
  · decide +kernel
  · decide +kernel

end Bridge

end Excerpt
