import Excerpt.Proofs.Canonical
import Excerpt.Proofs.Walk.Files
import Excerpt.Proofs.Walk.Groups

/-!
# Files and the places that they claim

The files for which a call makes bridges are the sources that its walk lists, without those in a
directory that holds the module descriptor; they are taken by directory and name. A file claims the
place that its package and its name say. The claims of a call are the list of these places with
their files, so that the first file which claims a place is what the list assigns to it.
-/

namespace Excerpt

open Store

namespace Bridge

variable {layout : Layout} {ps files : List Path} {groups : List (Path × List Path)}
  {p file : Path} {n : Bytes} {s t u : Store} {sc : Scanner} {found : Option Text}
  {new : Location → Node → Prop}

/-! ### Considered files -/

/-- Whether a file of a listing is a source, and no file in its directory is the module
descriptor. -/
def isConsidered (layout : Layout) (files : List Path) (file : Path) : Bool :=
  file.hasExtension layout.sourceExt &&
    !files.any fun f => f.dir.same file.dir &&
      f.fileName? == some (Utf8.encode layout.moduleDescriptor)

/-- The files of a listing for which bridges are made, by directory and name. -/
def considered (layout : Layout) (files : List Path) : List Path :=
  sortBy Path.listedBefore (files.filter (isConsidered layout files))

lemma mem_considered_iff : p ∈ considered layout ps ↔
    p ∈ ps ∧ p.hasExtension layout.sourceExt = true ∧ ∀ q ∈ ps, q.dir.same p.dir = true →
      q.fileName? ≠ some (Utf8.encode layout.moduleDescriptor) := by
  simp [considered, isConsidered]

/-- A group holds the descriptor if some file in the directory of one of its files is called so. -/
lemma holdsDescriptor_iff (h : Walk.Grouped ps groups) {g : Path × List Path} (hg : g ∈ groups)
    (hp : p ∈ g.2) : holdsDescriptor layout g.2 = true ↔
      ∃ q ∈ ps, q.dir.same p.dir = true ∧
        q.fileName? = some (Utf8.encode layout.moduleDescriptor) := by
  have hpdir := ((h.mem_iff hg).mp hp).2
  simp only [holdsDescriptor, List.any_eq_true, beq_iff_eq, h.mem_iff hg, and_assoc]
  refine exists_congr fun q => and_congr_right fun _ => and_congr_left fun _ => ?_
  constructor
  · intro hq
    rw [Path.same_comm] at hq
    exact Path.same_trans hq hpdir
  · intro hq
    rw [Path.same_comm] at hq
    exact Path.same_trans hpdir hq

/-- The sources in the groups without a descriptor are the considered files. -/
theorem considered_eq (layout : Layout) (h : Walk.Grouped ps groups)
    (hps : ps.Pairwise fun p q => p.before q = true)
    (hnamed : ∀ p ∈ ps, ∃ n, p.fileName? = some n) :
    ((groups.filter (!holdsDescriptor layout ·.2)).flatMap (·.2)).filter
      (·.hasExtension layout.sourceExt) = considered layout ps := by
  have hgroups := h.pairwise_flatMap hps hnamed
    (List.filter_sublist (p := fun g => !holdsDescriptor layout g.2))
  have hfiles : (ps.filter (isConsidered layout ps)).Pairwise fun p q =>
      q.listedBefore p = true ∨ p.listedBefore q = true := by
    refine (hps.filter _).imp_of_mem fun {p q} hp hq hbefore => ?_
    obtain ⟨n, hn⟩ := hnamed p (List.mem_of_mem_filter hp)
    obtain ⟨m, hm⟩ := hnamed q (List.mem_of_mem_filter hq)
    by_contra hno
    rw [not_or, Bool.not_eq_true, Bool.not_eq_true] at hno
    have hsame := Path.listedBefore_total hn hm hno.2 hno.1
    rw [Path.not_same_of_before hbefore] at hsame
    cases hsame
  have htrans : ∀ p q r : Path, p.listedBefore q = true → q.listedBefore r = true →
      p.listedBefore r = true := fun _ _ _ => Path.listedBefore_trans
  refine eq_of_sorted Path.listedBefore_irrefl htrans (hgroups.filter _)
    (pairwise_sortBy htrans hfiles) fun p => ?_
  rw [mem_considered_iff, List.mem_filter, List.mem_flatMap]
  constructor
  · rintro ⟨⟨g, hg, hp⟩, hext⟩
    obtain ⟨hg, hdescriptor⟩ := List.mem_filter.mp hg
    refine ⟨((h.mem_iff hg).mp hp).1, hext, fun q hq hdir hname => ?_⟩
    rw [(holdsDescriptor_iff h hg hp).mpr ⟨q, hq, hdir, hname⟩] at hdescriptor
    cases hdescriptor
  · rintro ⟨hp, hext, hdescriptor⟩
    obtain ⟨d, hd, hsame⟩ := h.covers p hp
    obtain ⟨g, hg, rfl⟩ := List.mem_map.mp hd
    have hpg := (h.mem_iff hg).mpr ⟨hp, hsame⟩
    refine ⟨⟨g, List.mem_filter.mpr ⟨hg, ?_⟩, hpg⟩, hext⟩
    rw [Bool.not_eq_true', Bool.eq_false_iff]
    intro hholds
    obtain ⟨q, hq, hdir, hname⟩ := (holdsDescriptor_iff h hg hpg).mp hholds
    exact hdescriptor q hq hdir hname

/-! ### Listings -/

lemma fileName?_child (dir : Path) (hn : Path.IsName n) : (dir.child n).fileName? = some n := by
  rw [Path.fileName?, Path.components_eq, Path.steps_child hn, ← List.append_assoc,
    List.getLast?_concat]

/-- A listed file has a name that the file system gave out. -/
lemma exists_fileName? {limits : Walk.Limits} {root : Path} (hs : s.WellFormed)
    (h : Walk.files s limits root = .ok ps) (hp : p ∈ ps) :
    ∃ n, p.fileName? = some n ∧ IsEntryName n := by
  obtain ⟨-, loc, names, -, hne, rfl, -, node, hnode, -⟩ := ((Walk.mem_files_iff hs h).2 p).mp hp
  obtain ⟨front, n, rfl⟩ := (List.eq_nil_or_concat' names).resolve_left hne
  have hn : IsEntryName n := hs.isEntryName (by rw [hnode]; simp) (by simp)
  refine ⟨n, ?_, hn⟩
  rw [chain_concat, fileName?_child _ hn.isName]

/-- The files that the walk of a call lists. -/
def Call.listed (s : Store) (c : Call) : Except Failure (List Path) := do
  let gs ← Walk.globs c.layout.ignore
  Walk.files s (.ofGlobs gs (if c.recursive then none else some 1)) c.source

lemma Call.listed_eq_ok {c : Call} : c.listed s = .ok ps ↔ ∃ gs, Walk.globs c.layout.ignore = .ok gs ∧
    Walk.files s (.ofGlobs gs (if c.recursive then none else some 1)) c.source = .ok ps := by
  unfold Call.listed
  cases Walk.globs c.layout.ignore with
  | error failure => exact ⟨fun h => (by cases h), fun ⟨_, h, _⟩ => (by cases h)⟩
  | ok gs =>
    constructor
    · exact fun h => ⟨gs, rfl, h⟩
    · rintro ⟨_, hgs, h⟩
      cases hgs
      exact h

/-- The source of a call whose walk succeeds is found, if it is not the standard input. -/
lemma Call.found_of_listed {c : Call} (h : c.listed s = .ok ps) :
    c.source.same Walk.standardInput = true ∨ ∃ place, s.find true c.source = .ok place := by
  obtain ⟨gs, -, hps⟩ := Call.listed_eq_ok.mp h
  by_cases hroot : c.source.same Walk.standardInput = true
  · exact Or.inl hroot
  · cases hfind : s.find true c.source with
    | error fault =>
      rw [Walk.files, Walk.entries, if_neg hroot, hfind] at hps
      cases hps
    | ok place => exact Or.inr ⟨place, rfl⟩

/-- A walk that is not recursive comes one name far. -/
lemma length_of_passes {gs : List Glob} {names : Location} (hne : names ≠ [])
    (h : Walk.Passes (.ofGlobs gs (some 1)) Path.empty 0 names) : names.length = 1 := by
  match names, hne, h with
  | [_], _, _ => rfl
  | _ :: _ :: _, _, ⟨_, _, hdeep, _⟩ => cases hdeep

/-- A walk lists what it did before, if only directories have come where it goes. -/
lemma Call.listed_eq {c : Call} (hs : s.WellFormed) (hadds : Adds new s t)
    (hfound : c.source.same Walk.standardInput = true ∨ ∃ place, s.find true c.source = .ok place)
    (hnew : ∀ l names node, s.find true c.source = .ok (l, .dir) → names ≠ [] →
      (c.recursive = false → names.length = 1) → new (l ++ names) node → node = .dir) :
    c.listed t = c.listed s := by
  unfold Call.listed
  refine bind_congr fun gs => ?_
  rcases hfound with hroot | ⟨⟨l, node⟩, hfind⟩
  · rw [Walk.files, Walk.files, Walk.entries, Walk.entries, if_pos hroot, if_pos hroot]
  · refine Walk.files_eq hs hadds.wellFormed (by rw [hadds.find hs hfind, hfind]) ?_
    intro loc names hloc hne hpasses
    have hlength : c.recursive = false → names.length = 1 := by
      intro hflat
      rw [hflat] at hpasses
      exact length_of_passes hne hpasses
    constructor
    · rintro ⟨node, hnode, hfile⟩
      refine (hadds.added _ node hnode).elim (fun hold => ⟨node, hold, hfile⟩) fun hcame => ?_
      rw [hnew loc names node hloc hne hlength hcame] at hfile
      cases hfile
    · rintro ⟨node, hnode, hfile⟩
      exact ⟨node, hadds.kept _ node hnode, hfile⟩

/-- The files for which a call makes bridges. -/
def Call.sources (s : Store) (c : Call) : Except Failure (List Path) :=
  (c.listed s).map (considered c.layout)

lemma Call.sources_eq_ok {c : Call} : c.sources s = .ok files ↔
    ∃ ps, c.listed s = .ok ps ∧ considered c.layout ps = files := by
  rw [Call.sources]
  cases c.listed s with
  | error failure => exact ⟨fun h => (by cases h), fun ⟨_, h, _⟩ => (by cases h)⟩
  | ok ps => simp [Except.map]

/-- The files of a call lie beneath its source, or directly in it if the call is not recursive. -/
lemma Call.of_mem_sources {c : Call} (hs : s.WellFormed) (h : c.sources s = .ok files)
    (hp : p ∈ files) : ∃ names, names ≠ [] ∧ (∀ n ∈ names, Path.IsName n) ∧
      p = chain c.source names ∧ (c.recursive = false → names.length = 1) := by
  obtain ⟨ps, hlisted, rfl⟩ := Call.sources_eq_ok.mp h
  obtain ⟨gs, -, hps⟩ := Call.listed_eq_ok.mp hlisted
  obtain ⟨-, loc, names, -, hne, rfl, hpasses, node, hnode, -⟩ :=
    ((Walk.mem_files_iff hs hps).2 p).mp (mem_considered_iff.mp hp).1
  refine ⟨names, hne, fun n hn => ?_, rfl, fun hflat => ?_⟩
  · exact (hs.isEntryName (by rw [hnode]; simp) (List.mem_append_right loc hn)).isName
  · rw [hflat] at hpasses
    exact length_of_passes hne hpasses

/-! ### Claims -/

/-- The place that a file claims, if it declares a package: in the directories of the package, under
its own name. -/
def claim? (t : Store) (sc : Scanner) (file : Path) : Option (Location × Path) :=
  match Package.ofFile t sc file, file.fileName? with
  | .ok (some package), some name => some (Package.dirs package ++ [name], file)
  | _, _ => none

/-- The places that files claim, each with its file. -/
def claims (t : Store) (sc : Scanner) (files : List Path) : List (Location × Path) :=
  files.filterMap (claim? t sc)

/-- How many of the files declare no package. -/
def unpackaged (t : Store) (sc : Scanner) (files : List Path) : Nat :=
  files.countP (Package.ofFile t sc · = .ok none)

/-- What the files declare can be read. -/
def AllRead (t : Store) (sc : Scanner) (files : List Path) : Prop :=
  ∀ file ∈ files, ∃ found, Package.ofFile t sc file = .ok found

/-- What a file declares does not change when something is added. -/
lemma ofFile_of_adds (ht : t.WellFormed) (hadds : Adds new t u)
    (h : Package.ofFile t sc file = .ok found) : Package.ofFile u sc file = .ok found := by
  unfold Package.ofFile at h ⊢
  cases hread : t.read file with
  | error fault => rw [hread] at h; cases h
  | ok content =>
    rw [hread] at h
    rw [hadds.read ht hread]
    exact h

lemma AllRead.of_adds (h : AllRead t sc files) (ht : t.WellFormed) (hadds : Adds new t u) :
    AllRead u sc files := by
  intro file hfile
  obtain ⟨found, hfound⟩ := h file hfile
  exact ⟨found, ofFile_of_adds ht hadds hfound⟩

lemma AllRead.ofFile_eq (h : AllRead t sc files) (ht : t.WellFormed) (hadds : Adds new t u)
    (hfile : file ∈ files) : Package.ofFile u sc file = Package.ofFile t sc file := by
  obtain ⟨found, hfound⟩ := h file hfile
  rw [hfound, ofFile_of_adds ht hadds hfound]

/-- Claims stay as they are when something is added. -/
lemma AllRead.claims_eq (h : AllRead t sc files) (ht : t.WellFormed) (hadds : Adds new t u) :
    claims u sc files = claims t sc files := by
  refine List.filterMap_congr fun file hfile => ?_
  rw [claim?, claim?, h.ofFile_eq ht hadds hfile]

lemma AllRead.unpackaged_eq (h : AllRead t sc files) (ht : t.WellFormed) (hadds : Adds new t u) :
    unpackaged u sc files = unpackaged t sc files := by
  refine List.countP_congr fun file hfile => ?_
  rw [h.ofFile_eq ht hadds hfile]

@[simp] lemma claims_nil : claims t sc [] = [] := rfl

lemma claims_append (files files' : List Path) :
    claims t sc (files ++ files') = claims t sc files ++ claims t sc files' :=
  List.filterMap_append

lemma unpackaged_append (files files' : List Path) :
    unpackaged t sc (files ++ files') = unpackaged t sc files + unpackaged t sc files' :=
  List.countP_append

lemma claim?_eq_some {names : Location} {target : Path} :
    claim? t sc file = some (names, target) ↔ target = file ∧ ∃ package name,
      Package.ofFile t sc file = .ok (some package) ∧ file.fileName? = some name ∧
        names = Package.dirs package ++ [name] := by
  unfold claim?
  constructor
  · intro h
    split at h
    · rename_i package name hpackage hname
      cases h
      exact ⟨rfl, package, name, hpackage, hname, rfl⟩
    · cases h
  · rintro ⟨rfl, package, name, hpackage, hname, rfl⟩
    rw [hpackage, hname]

end Bridge

end Excerpt
