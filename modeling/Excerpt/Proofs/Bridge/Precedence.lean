import Excerpt.Proofs.Bridge.Placing

/-!
# The first claim to a place

A call makes one bridge after the other, and none where something stands. So it adds a link for each
place that is claimed and free, to the first file which claims it. `Bridged` says this of a list of
claims; it is closed under appending such lists, which gives whole calls, and calls one after the
other, from what one bridge does.
-/

namespace Excerpt

open Store

namespace Bridge

variable {s t u : Store} {dest file : Path} {d names l : Location} {name : Bytes} {node : Node}
  {package : Text} {sc : Scanner} {counts counts' counts'' : Counts} {layout : Layout}
  {files files' : List Path} {claimed claimed' : List (Location × Path)}
  {added added' : List Location}

/-! ### Claims -/

/-- What comes to a tree by claims: links to the first files that claim their places, and the
directories of the places. -/
inductive Arises (claimed : List (Location × Path)) : Location → Node → Prop where
  | link {names : Location} {file : Path} : claimed.lookup names = some file →
      Arises claimed names (.link file)
  | dir {names place : Location} {file : Path} : (place, file) ∈ claimed →
      names <+: place.dropLast → Arises claimed names .dir

/-- The claims are settled in `t`: nothing but what they give has come to `s`, and each claimed place
is taken. -/
structure Bridged (d : Location) (claimed : List (Location × Path)) (s t : Store) : Prop where
  adds : Adds (fun m node => ∃ names, m = d ++ names ∧ Arises claimed names node) s t
  taken : ∀ claim ∈ claimed, t.get? (d ++ claim.1) ≠ none
  places : ∀ claim ∈ claimed, IsPlace claim.1

/-- What comes to a place for a bridge is the link to the first file that claims it. -/
lemma Bridged.lookup_of_added (h : Bridged d claimed s t) (hplace : IsPlace names)
    (hfree : s.get? (d ++ names) = none) (hnode : t.get? (d ++ names) = some node) :
    ∃ file, claimed.lookup names = some file ∧ node = .link file := by
  rcases h.adds.added _ node hnode with hold | ⟨names', he, harises⟩
  · rw [hfree] at hold
    cases hold
  · obtain rfl := List.append_cancel_left he
    cases harises with
    | link hlookup => exact ⟨_, hlookup, rfl⟩
    | dir hclaim htaken =>
      obtain ⟨dirs, name, rfl, hplain, -⟩ := h.places _ hclaim
      rw [List.dropLast_concat] at htaken
      exact absurd hplace (not_isPlace_of_plain fun n hn => hplain n (htaken.subset hn))

/-- A free place goes to the first file that claims it. -/
theorem Bridged.get?_of_lookup (h : Bridged d claimed s t) (hlookup : claimed.lookup names = some file)
    (hfree : s.get? (d ++ names) = none) : t.get? (d ++ names) = some (.link file) := by
  have hclaim := mem_of_lookup hlookup
  obtain ⟨node, hnode⟩ := Option.ne_none_iff_exists'.mp (h.taken _ hclaim)
  obtain ⟨file', hlookup', rfl⟩ := h.lookup_of_added (h.places _ hclaim) hfree hnode
  rw [hlookup, Option.some.injEq] at hlookup'
  rw [hnode, hlookup']

/-- In a tree that was empty, the links are those to the first files that claim their places. -/
lemma Bridged.get?_eq_link_iff (h : Bridged d claimed s t) (hs : IsEmptyDir s dest d) :
    t.get? (d ++ names) = some (.link file) ↔ claimed.lookup names = some file := by
  have hfree : names ≠ [] → s.get? (d ++ names) = none :=
    fun hne => hs.wellFormed.get?_eq_none_of_names hs.empty hne
  constructor
  · intro hlink
    rcases h.adds.added _ _ hlink with hold | ⟨names', he, harises⟩
    · rcases eq_or_ne names [] with rfl | hne
      · rw [List.append_nil, get?_of_find hs.wellFormed hs.found] at hold
        cases hold
      · rw [hfree hne] at hold
        cases hold
    · obtain rfl := List.append_cancel_left he
      cases harises with
      | link hlookup => exact hlookup
  · intro hlookup
    obtain ⟨dirs, name, rfl, -⟩ := h.places _ (mem_of_lookup hlookup)
    exact h.get?_of_lookup hlookup (hfree (List.concat_ne_nil name dirs))

lemma Bridged.nil (hs : s.WellFormed) : Bridged d [] s s :=
  ⟨.refl hs, by simp, by simp⟩

lemma Arises.append_left (h : Arises claimed names node) : Arises (claimed ++ claimed') names node := by
  cases h with
  | link hlookup => exact .link (by rw [List.lookup_append, hlookup]; rfl)
  | dir hclaim htaken => exact .dir (List.mem_append_left _ hclaim) htaken

/-- Claims that are settled one after the other: the earlier ones come first. -/
theorem Bridged.append (h : Bridged d claimed s t) (h' : Bridged d claimed' t u) :
    Bridged d (claimed ++ claimed') s u := by
  refine ⟨⟨h'.adds.wellFormed, fun m node hn => h'.adds.kept m node (h.adds.kept m node hn), ?_,
    h'.adds.cwd.trans h.adds.cwd, h'.adds.clock.trans h.adds.clock⟩, ?_, ?_⟩
  · intro m node hnode
    cases hbetween : t.get? m with
    | some node' =>
      rw [h'.adds.kept m node' hbetween, Option.some.injEq] at hnode
      subst hnode
      refine (h.adds.added m node' hbetween).imp_right ?_
      rintro ⟨names, rfl, harises⟩
      exact ⟨names, rfl, harises.append_left⟩
    | none =>
      rcases h'.adds.added m node hnode with hold | ⟨names, rfl, harises⟩
      · rw [hbetween] at hold
        cases hold
      · refine Or.inr ⟨names, rfl, ?_⟩
        cases harises with
        | @link file hlookup =>
          -- Nobody has claimed the place before, or it would have been taken.
          have hnew : claimed.lookup names = none := by
            by_contra hne
            obtain ⟨file', hfile'⟩ := Option.ne_none_iff_exists'.mp hne
            exact h.taken _ (mem_of_lookup hfile') hbetween
          exact .link (by rw [List.lookup_append, hnew, hlookup]; rfl)
        | dir hclaim htaken => exact .dir (List.mem_append_right _ hclaim) htaken
  · intro claim hclaim
    rcases List.mem_append.mp hclaim with hclaim | hclaim
    · obtain ⟨node, hnode⟩ := Option.ne_none_iff_exists'.mp (h.taken claim hclaim)
      rw [h'.adds.kept _ node hnode]
      simp
    · exact h'.taken claim hclaim
  · intro claim hclaim
    exact (List.mem_append.mp hclaim).elim (h.places claim) (h'.places claim)

/-- Between two stores the free places of a tree went to the first files that claim them, nothing
that was there has changed, and nothing has come that no claim asks for. -/
structure FirstWins (d : Location) (claimed : List (Location × Path)) (s t : Store) : Prop where
  kept : ∀ l node, s.get? l = some node → t.get? l = some node
  first : ∀ names file, claimed.lookup names = some file → s.get? (d ++ names) = none →
    t.get? (d ++ names) = some (.link file)
  onlyClaimed : ∀ l node, s.get? l = none → t.get? l = some node →
    ∃ names, l = d ++ names ∧ Arises claimed names node

theorem Bridged.firstWins (h : Bridged d claimed s t) : FirstWins d claimed s t := by
  refine ⟨h.adds.kept, fun _ _ hlookup hfree => h.get?_of_lookup hlookup hfree, ?_⟩
  intro l node hfree hnode
  rcases h.adds.added l node hnode with hold | hnew
  · rw [hfree] at hold
    cases hold
  · exact hnew

/-! ### Links that came -/

/-- The links that are new in a store, each once. -/
structure NewLinks (s t : Store) (added : List Location) : Prop where
  nodup : added.Nodup
  mem_iff : ∀ l, l ∈ added ↔ s.get? l = none ∧ ∃ target, t.get? l = some (.link target)

lemma NewLinks.nil : NewLinks s s [] := by
  refine ⟨.nil, fun l => ?_⟩
  constructor
  · intro hl
    cases hl
  · rintro ⟨hnone, target, hlink⟩
    rw [hnone] at hlink
    cases hlink

lemma NewLinks.single (hfree : s.get? l = none) (hlink : t.get? l = some (.link file))
    (honly : ∀ m target, t.get? m = some (.link target) → s.get? m = none → m = l) :
    NewLinks s t [l] := by
  refine ⟨List.nodup_singleton _, fun m => ?_⟩
  rw [List.mem_singleton]
  constructor
  · rintro rfl
    exact ⟨hfree, file, hlink⟩
  · rintro ⟨hnone, target, hm⟩
    exact honly m target hm hnone

lemma NewLinks.append (h : NewLinks s t added) (h' : NewLinks t u added')
    (hst : ∀ l node, s.get? l = some node → t.get? l = some node)
    (htu : ∀ l node, t.get? l = some node → u.get? l = some node) :
    NewLinks s u (added ++ added') := by
  refine ⟨List.nodup_append'.mpr ⟨h.nodup, h'.nodup, fun l hl hl' => ?_⟩, fun l => ?_⟩
  · obtain ⟨-, target, hlink⟩ := (h.mem_iff l).mp hl
    rw [((h'.mem_iff l).mp hl').1] at hlink
    cases hlink
  · rw [List.mem_append, h.mem_iff, h'.mem_iff]
    constructor
    · rintro (⟨hnone, target, hlink⟩ | ⟨hnone, hlink⟩)
      · exact ⟨hnone, target, htu l _ hlink⟩
      · refine ⟨?_, hlink⟩
        by_contra hne
        obtain ⟨node, hnode⟩ := Option.ne_none_iff_exists'.mp hne
        rw [hst l node hnode] at hnone
        cases hnone
    · rintro ⟨hnone, target, hlink⟩
      cases hbetween : t.get? l with
      | none => exact Or.inr ⟨rfl, target, hlink⟩
      | some node =>
        rw [htu l node hbetween, Option.some.injEq] at hlink
        exact Or.inl ⟨hnone, target, by rw [hlink]⟩

/-! ### Trees stay trees -/

lemma BridgeTree.adds_of_bridged (h : BridgeTree s dest d) (hbridged : Bridged d claimed s t) :
    Adds (InTree d) s t := by
  refine ⟨hbridged.adds.wellFormed, hbridged.adds.kept, fun m node hnode => ?_, hbridged.adds.cwd,
    hbridged.adds.clock⟩
  rcases hbridged.adds.added m node hnode with hold | ⟨names, rfl, harises⟩
  · exact Or.inl hold
  · rcases eq_or_ne names [] with rfl | hne
    · have hd := hbridged.adds.kept d .dir h.isDir
      rw [List.append_nil] at hnode ⊢
      rw [hd] at hnode
      exact Or.inl (hnode ▸ h.isDir)
    · refine Or.inr ⟨names, hne, rfl, ?_⟩
      cases harises with
      | link hlookup => exact .link (hbridged.places _ (mem_of_lookup hlookup))
      | dir hclaim htaken =>
        obtain ⟨dirs, name, rfl, hplain, -⟩ := hbridged.places _ hclaim
        rw [List.dropLast_concat] at htaken
        exact .dir fun n hn => hplain n (htaken.subset hn)

lemma isPlace_dirs (hpackage : ∀ c ∈ package, Package.nameChars.contains c = true)
    (hdot : Path.dot ∈ name) : IsPlace (Package.dirs package ++ [name]) :=
  ⟨_, name, rfl, fun _ hn => (Package.isPlainName_of_mem_dirs hpackage hn).2, hdot⟩

/-- However placing a bridge ends, what has come is in the tree. -/
lemma PlaceEnds.adds (h : BridgeTree s dest d) {r : Except Failure Counts × Store}
    (hpackage : ∀ c ∈ package, Package.nameChars.contains c = true) (hdot : Path.dot ∈ name)
    (hends : PlaceEnds s dest d package name file counts r) : Adds (InTree d) s r.2 := by
  have hplain : ∀ n ∈ Package.dirs package, Path.dot ∉ n :=
    fun n hn => (Package.isPlainName_of_mem_dirs hpackage hn).2
  cases hends with
  | shadowed => exact .refl h.wellFormed
  | failed hadds => exact h.adds_of_onWay hplain hadds
  | bridged _ _ hadds =>
    refine ⟨hadds.wellFormed, hadds.kept, fun m node hnode => ?_, hadds.cwd, hadds.clock⟩
    rcases hadds.added m node hnode with hold | ⟨rfl, front, hfront, rfl⟩ | ⟨rfl, rfl⟩
    · exact Or.inl hold
    · rcases eq_or_ne front [] with rfl | hne
      · rw [List.append_nil]
        exact Or.inl h.isDir
      · exact Or.inr ⟨front, hne, rfl, .dir fun n hn => hplain n (hfront.subset hn)⟩
    · exact Or.inr ⟨_, by simp, rfl, .link (isPlace_dirs hpackage hdot)⟩

/-- A file that a walk can list: its name was given out by the file system. -/
def IsListed (file : Path) : Prop := ∃ name, file.fileName? = some name ∧ IsEntryName name

lemma placeFile_upholds_tree {w : World} (h : BridgeTree w.store dest d)
    (hsc : Package.scanner = .ok sc) (hfile : IsListed file) :
    Act.Upholds (BridgeTree · dest d) (fun _ => True) (placeFile layout sc dest file counts) w := by
  unfold placeFile
  split
  · exact .pure h
  · rename_i hext
    simp only [Bool.not_eq_true, Bool.not_eq_false'] at hext
    refine .look_bind h (fun _ _ => trivial) fun found hfound => ?_
    split
    · exact .pure h
    · exact .pure h
    · rename_i package name hname
      obtain ⟨n, hn, hentry⟩ := hfile
      obtain ⟨n', hn', hdot⟩ := Path.dot_mem_of_hasExtension hext
      rw [hname, Option.some.injEq] at hn hn'
      subst hn hn'
      have hpackage := (Package.of_ofFile_eq_some hsc hfound).2
      exact ⟨h.of_adds ((place_ends h hpackage hentry hdot).adds h hpackage hdot), fun _ _ => trivial⟩

lemma placeFiles_upholds_tree {w : World} (h : BridgeTree w.store dest d)
    (hsc : Package.scanner = .ok sc) (hfiles : ∀ file ∈ files, IsListed file) :
    Act.Upholds (BridgeTree · dest d) (fun _ => True)
      (placeFiles layout sc dest files counts) w := by
  induction files generalizing counts w with
  | nil => exact .pure h
  | cons file files ih =>
    exact .bind (placeFile_upholds_tree h hsc (hfiles file List.mem_cons_self))
      fun _ _ _ hv => ih hv fun f hf => hfiles f (List.mem_cons_of_mem _ hf)

lemma placeGroups_upholds_tree {w : World} {groups : List (Path × List Path)}
    (h : BridgeTree w.store dest d) (hsc : Package.scanner = .ok sc)
    (hgroups : ∀ g ∈ groups, ∀ file ∈ g.2, IsListed file) :
    Act.Upholds (BridgeTree · dest d) (fun _ => True)
      (placeGroups layout sc dest groups counts) w := by
  induction groups generalizing counts w with
  | nil => exact .pure h
  | cons g groups ih =>
    have hrest := fun g hg => hgroups g (List.mem_cons_of_mem _ hg)
    obtain ⟨dir, files⟩ := g
    rw [placeGroups]
    split
    · exact .bind (.report h) fun _ _ _ hv => ih hv hrest
    · exact .bind (placeFiles_upholds_tree h hsc (hgroups _ List.mem_cons_self))
        fun _ _ _ hv => ih hv hrest

/-- What a walk lists in groups has names. -/
lemma isListed_of_mem_groups {limits : Walk.Limits} {root : Path} {groups : List (Path × List Path)}
    {g : Path × List Path} (hs : s.WellFormed) (h : Walk.filesByDir s limits root = .ok groups)
    (hg : g ∈ groups) (hfile : file ∈ g.2) : IsListed file := by
  unfold Walk.filesByDir at h
  cases hps : Walk.files s limits root with
  | error => rw [hps] at h; cases h
  | ok ps =>
    rw [hps] at h
    cases h
    exact exists_fileName? hs hps (Walk.mem_of_mem_groupByDir hg hfile)

/-- However a call ends, the tree stays a tree. -/
lemma Call.run_upholds_tree {w : World} (h : BridgeTree w.store dest d) (c : Call) :
    Act.Upholds (BridgeTree · dest d) (fun _ => True) (c.run dest) w := by
  unfold Call.run normalize
  refine .look_bind h (fun _ _ => trivial) fun sc hsc => ?_
  refine .look_bind h (fun _ _ => trivial) fun gs _ => ?_
  refine .look_bind h (fun _ _ => trivial) fun groups hgroups => ?_
  refine .bind (placeGroups_upholds_tree h hsc fun g hg file hfile => ?_)
    fun _ _ _ hv => .bind (.report hv) fun _ _ _ hv' => .pure hv'
  exact isListed_of_mem_groups h.wellFormed hgroups hg hfile

lemma bridgeTree_afterCalls {w : World} (h : BridgeTree w.store dest d) (made : List Call) :
    BridgeTree (afterCalls dest w made).store dest d := by
  induction made generalizing w with
  | nil => exact h
  | cons c made ih => exact ih (c.run_upholds_tree h).keeps

/-! ### What a run did -/

/-- The place that a file claims, if it claims one, is there. -/
def IsSettledFile (t : Store) (dest : Path) (sc : Scanner) (file : Path) : Prop :=
  ∀ package name, Package.ofFile t sc file = .ok (some package) → file.fileName? = some name →
    IsSettled t dest package name

/-- What the files declare was read, and their claims are settled. -/
structure Served (d : Location) (sc : Scanner) (files : List Path) (s t : Store) : Prop where
  allRead : AllRead t sc files
  bridged : Bridged d (claims t sc files) s t

namespace Served

lemma nil (hs : s.WellFormed) : Served d sc [] s s := ⟨by simp [AllRead], .nil hs⟩

/-- What files that come later leave of the claims before them. -/
lemma claims_append_eq (h : Served d sc files s t) (h' : Served d sc files' t u) :
    claims u sc (files ++ files') = claims t sc files ++ claims u sc files' := by
  rw [claims_append, h.allRead.claims_eq h.bridged.adds.wellFormed h'.bridged.adds]

lemma append (h : Served d sc files s t) (h' : Served d sc files' t u) :
    Served d sc (files ++ files') s u := by
  refine ⟨fun file hfile => ?_, ?_⟩
  · exact (List.mem_append.mp hfile).elim
      (h.allRead.of_adds h.bridged.adds.wellFormed h'.bridged.adds file) (h'.allRead file)
  · rw [h.claims_append_eq h']
    exact h.bridged.append h'.bridged

end Served

/-- What making bridges for some files has done: they are served, and the counts have grown by the
links that are new, by the claims that found their place taken, and by the files that declare no
package. -/
structure Outcome (dest : Path) (d : Location) (sc : Scanner) (files : List Path) (s t : Store)
    (counts counts' : Counts) : Prop extends Served d sc files s t where
  links : ∃ added, NewLinks s t added ∧ counts'.bridges = counts.bridges + added.length
  total : counts'.bridges + counts'.shadowed =
    counts.bridges + counts.shadowed + (claims t sc files).length
  unpackaged : counts'.unpackaged = counts.unpackaged + Bridge.unpackaged t sc files
  settled : ∀ file ∈ files, IsSettledFile t dest sc file

namespace Outcome

lemma nil (hs : s.WellFormed) : Outcome dest d sc [] s s counts counts :=
  ⟨.nil hs, ⟨[], .nil, rfl⟩, rfl, rfl, by simp⟩

lemma append (h : Outcome dest d sc files s t counts counts')
    (h' : Outcome dest d sc files' t u counts' counts'') :
    Outcome dest d sc (files ++ files') s u counts counts'' := by
  have ht := h.bridged.adds.wellFormed
  have hadds := h'.bridged.adds
  obtain ⟨added, hadded, hbridges⟩ := h.links
  obtain ⟨added', hadded', hbridges'⟩ := h'.links
  refine ⟨h.toServed.append h'.toServed, ?_, ?_, ?_, fun file hfile => ?_⟩
  · refine ⟨added ++ added', hadded.append hadded' h.bridged.adds.kept hadds.kept, ?_⟩
    rw [hbridges', hbridges, List.length_append, Nat.add_assoc]
  · rw [h'.total, h.total, h.claims_append_eq h'.toServed, List.length_append, Nat.add_assoc]
  · rw [h'.unpackaged, h.unpackaged, unpackaged_append, h.allRead.unpackaged_eq ht hadds,
      Nat.add_assoc]
  · rcases List.mem_append.mp hfile with hfile | hfile
    · intro package name hpackage hname
      rw [h.allRead.ofFile_eq ht hadds hfile] at hpackage
      exact (h.settled file hfile package name hpackage hname).of_adds ht hadds
    · exact h'.settled file hfile

end Outcome

lemma claims_singleton (hread : Package.ofFile s sc file = .ok (some package))
    (hname : file.fileName? = some name) :
    claims s sc [file] = [(Package.dirs package ++ [name], file)] := by
  rw [claims, List.filterMap_cons, claim?, hread, hname]
  rfl

lemma IsSettled.isSettledFile (h : IsSettled s dest package name)
    (hread : Package.ofFile s sc file = .ok (some package)) (hname : file.fileName? = some name) :
    IsSettledFile s dest sc file := by
  intro package' name' hpackage' hname'
  rw [hread] at hpackage'
  rw [hname] at hname'
  cases hpackage'
  cases hname'
  exact h

/-- What one bridge that could be placed has done. -/
lemma PlaceEnds.outcome (h : BridgeTree s dest d) (hsc : Package.scanner = .ok sc)
    (hread : Package.ofFile s sc file = .ok (some package)) (hname : file.fileName? = some name)
    (hdot : Path.dot ∈ name)
    (hends : PlaceEnds s dest d package name file counts (.ok counts', t)) :
    Outcome dest d sc [file] s t counts counts' := by
  have hpackage := (Package.of_ofFile_eq_some hsc hread).2
  have hread' : Package.ofFile t sc file = .ok (some package) :=
    ofFile_of_adds h.wellFormed (hends.adds h hpackage hdot) hread
  have hclaims : claims t sc [file] = [(Package.dirs package ++ [name], file)] :=
    claims_singleton hread' hname
  have hunpackaged : Bridge.unpackaged t sc [file] = 0 := by
    simp [Bridge.unpackaged, hread']
  have hallRead : AllRead t sc [file] := fun f hf => ⟨_, List.mem_singleton.mp hf ▸ hread'⟩
  have hplace : IsPlace (Package.dirs package ++ [name]) := isPlace_dirs hpackage hdot
  cases hends with
  | shadowed htaken hsettled =>
    have hbridged : Bridged d (claims s sc [file]) s s := by
      rw [hclaims]
      exact ⟨.refl h.wellFormed, by simpa using htaken, by simpa using hplace⟩
    refine ⟨⟨hallRead, hbridged⟩, ⟨[], .nil, rfl⟩, ?_, ?_, ?_⟩
    · rw [hclaims]
      rfl
    · rw [hunpackaged]
      rfl
    · simpa using hsettled.isSettledFile hread' hname
  | bridged hfree hlink hadds hsettled =>
    have hbridged : Bridged d (claims t sc [file]) s t := by
      rw [hclaims]
      refine ⟨hadds.mono ?_, by simp [hlink], by simpa using hplace⟩
      rintro m node (⟨rfl, front, hfront, rfl⟩ | ⟨rfl, rfl⟩)
      · refine ⟨front, rfl, .dir (List.mem_singleton_self _) ?_⟩
        rwa [List.dropLast_concat]
      · exact ⟨_, rfl, .link (by simp)⟩
    have hnew : NewLinks s t [d ++ (Package.dirs package ++ [name])] := by
      refine .single hfree hlink fun m target hm hnone => ?_
      rcases hadds.added m _ hm with hold | ⟨he, -⟩ | ⟨he, -⟩
      · rw [hnone] at hold
        cases hold
      · cases he
      · exact he
    refine ⟨⟨hallRead, hbridged⟩, ⟨_, hnew, rfl⟩, ?_, ?_, ?_⟩
    · rw [hclaims, List.length_singleton]
      simp only
      omega
    · rw [hunpackaged]
      rfl
    · simpa using hsettled.isSettledFile hread' hname

lemma placeFile_outcome {w v : World} (h : BridgeTree w.store dest d)
    (hsc : Package.scanner = .ok sc) (hfile : IsListed file)
    (hrun : placeFile layout sc dest file counts w = (.ok counts', v)) :
    Outcome dest d sc ([file].filter (·.hasExtension layout.sourceExt)) w.store v.store counts
      counts' := by
  unfold placeFile at hrun
  split at hrun
  · rename_i hext
    simp only [Bool.not_eq_true'] at hext
    cases hrun
    rw [List.filter_cons_of_neg (by simp [hext])]
    exact .nil h.wellFormed
  · rename_i hext
    simp only [Bool.not_eq_true, Bool.not_eq_false'] at hext
    rw [List.filter_cons_of_pos (by simp [hext])]
    obtain ⟨found, hfound, hrun⟩ := Act.look_bind_eq_ok.mp hrun
    obtain ⟨name, hname, hentry⟩ := hfile
    rw [hname] at hrun
    cases found with
    | none =>
      cases hrun
      refine ⟨⟨fun f hf => ⟨none, List.mem_singleton.mp hf ▸ hfound⟩, ?_⟩, ⟨[], .nil, rfl⟩, ?_, ?_, ?_⟩
      · simpa [claims, claim?, hfound] using Bridged.nil h.wellFormed
      · simp [claims, claim?, hfound]
      · simp [Bridge.unpackaged, hfound]
      · intro f hf package _ hpackage
        rw [List.mem_singleton.mp hf, hfound] at hpackage
        cases hpackage
    | some package =>
      obtain ⟨n, hn, hdot⟩ := Path.dot_mem_of_hasExtension hext
      rw [hname, Option.some.injEq] at hn
      subst hn
      have hends : PlaceEnds w.store dest d package name file counts _ :=
        place_ends h (Package.of_ofFile_eq_some hsc hfound).2 hentry hdot
      simp only at hrun
      rw [hrun] at hends
      exact hends.outcome h hsc hfound hname hdot

lemma placeFiles_outcome {w v : World} (h : BridgeTree w.store dest d)
    (hsc : Package.scanner = .ok sc) (hfiles : ∀ file ∈ files, IsListed file)
    (hrun : placeFiles layout sc dest files counts w = (.ok counts', v)) :
    Outcome dest d sc (files.filter (·.hasExtension layout.sourceExt)) w.store v.store counts
      counts' := by
  induction files generalizing counts w with
  | nil =>
    cases hrun
    exact .nil h.wellFormed
  | cons file files ih =>
    obtain ⟨between, u, hfirst, hrest⟩ := Act.bind_eq_ok.mp hrun
    have hone := placeFile_outcome h hsc (hfiles file List.mem_cons_self) hfirst
    have hmany := ih (h.of_adds (h.adds_of_bridged hone.bridged))
      (fun f hf => hfiles f (List.mem_cons_of_mem _ hf)) hrest
    rw [← List.singleton_append, List.filter_append]
    exact hone.append hmany

/-- Making bridges for groups is making them for the sources in the groups without a descriptor. -/
lemma placeGroups_outcome {w v : World} {groups : List (Path × List Path)}
    (h : BridgeTree w.store dest d) (hsc : Package.scanner = .ok sc)
    (hgroups : ∀ g ∈ groups, ∀ file ∈ g.2, IsListed file)
    (hrun : placeGroups layout sc dest groups counts w = (.ok counts', v)) :
    Outcome dest d sc (((groups.filter (!holdsDescriptor layout ·.2)).flatMap (·.2)).filter
      (·.hasExtension layout.sourceExt)) w.store v.store counts counts' := by
  induction groups generalizing counts w with
  | nil =>
    cases hrun
    exact .nil h.wellFormed
  | cons g groups ih =>
    have hrest := fun g hg => hgroups g (List.mem_cons_of_mem _ hg)
    obtain ⟨dir, files⟩ := g
    rw [placeGroups] at hrun
    split at hrun
    · rename_i hholds
      obtain ⟨_, u, hreport, hrun⟩ := Act.bind_eq_ok.mp hrun
      have hu : u.store = w.store := by
        cases hreport
        rfl
      rw [List.filter_cons_of_neg (by simpa using hholds), ← hu]
      exact ih (hu ▸ h) hrest hrun
    · rename_i hholds
      obtain ⟨between, u, hfirst, hrun⟩ := Act.bind_eq_ok.mp hrun
      have hone := placeFiles_outcome h hsc (hgroups _ List.mem_cons_self) hfirst
      have hmany := ih (h.of_adds (h.adds_of_bridged hone.bridged)) hrest hrun
      rw [List.filter_cons_of_pos (by simpa using hholds), List.flatMap_cons, List.filter_append]
      exact hone.append hmany

/-- A call that succeeds has made bridges for the files that it considers. -/
theorem Call.run_outcome {w v : World} {c : Call} (h : BridgeTree w.store dest d)
    (hrun : c.run dest w = (.ok counts, v)) :
    ∃ sc files, Package.scanner = .ok sc ∧ c.sources w.store = .ok files ∧
      Outcome dest d sc files w.store v.store .zero counts := by
  unfold Call.run normalize at hrun
  obtain ⟨sc, hsc, hrun⟩ := Act.look_bind_eq_ok.mp hrun
  obtain ⟨gs, hgs, hrun⟩ := Act.look_bind_eq_ok.mp hrun
  obtain ⟨groups, hgroups, hrun⟩ := Act.look_bind_eq_ok.mp hrun
  obtain ⟨counts', u, hplace, hrun⟩ := Act.bind_eq_ok.mp hrun
  obtain ⟨_, _, hreport, hpure⟩ := Act.bind_eq_ok.mp hrun
  cases hreport
  cases hpure
  have houtcome := placeGroups_outcome h hsc
    (fun g hg file hfile => isListed_of_mem_groups h.wellFormed hgroups hg hfile) hplace
  unfold Walk.filesByDir at hgroups
  cases hps : Walk.files w.store (.ofGlobs gs (if c.recursive then none else some 1)) c.source with
  | error => rw [hps] at hgroups; cases hgroups
  | ok ps =>
    rw [hps] at hgroups
    cases hgroups
    have hnamed : ∀ p ∈ ps, ∃ n, p.fileName? = some n := fun p hp =>
      (exists_fileName? h.wellFormed hps hp).imp fun _ hn => hn.1
    rw [considered_eq c.layout (Walk.grouped_groupByDir ps) (Walk.mem_files_iff h.wellFormed hps).1 hnamed]
      at houtcome
    exact ⟨sc, _, hsc, Call.sources_eq_ok.mpr ⟨ps, Call.listed_eq_ok.mpr ⟨gs, hgs, hps⟩, rfl⟩, houtcome⟩

end Bridge

end Excerpt
