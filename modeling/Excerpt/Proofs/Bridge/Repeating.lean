import Excerpt.Proofs.Bridge.Precedence

/-!
# Calls in a tree that is there already

Whatever calls have made a tree of bridges before, the next call leaves what stands there and adds a
link for each other place that is claimed, to the first file which claims it. After that the same
call finds every claimed place taken. `run_first_wins` says both, with the counts.
-/

namespace Excerpt

open Store

namespace Bridge

variable {s t : Store} {dest file : Path} {d names : Location} {sc : Scanner}
  {counts counts' : Counts} {layout : Layout} {ps files : List Path}
  {groups : List (Path × List Path)} {c : Call}

/-! ### The same files -/

/-- Neither does the directory that the sources are in lie in the tree, nor does the tree lie
in it. -/
def Call.IsApart (c : Call) (s : Store) (d : Location) : Prop :=
  ∀ l, s.find true c.source = .ok (l, .dir) → ¬ l <+: d ∧ ¬ d <+: l

/-- What comes to a tree is not listed by a walk apart from it. -/
lemma Call.listed_of_isApart (hs : s.WellFormed) (hadds : Adds (InTree d) s t)
    (hapart : c.IsApart s d) (h : c.listed s = .ok ps) : c.listed t = .ok ps := by
  rw [c.listed_eq hs hadds (c.found_of_listed h), h]
  rintro l names node hl - - ⟨names', -, he, -⟩
  obtain ⟨hin, hout⟩ := hapart l hl
  have hd : d <+: l ++ names := he ▸ List.prefix_append d names'
  exact (List.prefix_or_prefix_of_prefix (List.prefix_append l names) hd).elim
    (fun hp => absurd hp hin) fun hp => absurd hp hout

/-! ### Settled claims -/

/-- The counts after files whose claims are settled: nothing but shadowed claims and files without a
package. -/
def Counts.again (counts : Counts) (t : Store) (sc : Scanner) (files : List Path) : Counts :=
  ⟨counts.bridges, counts.shadowed + (claims t sc files).length,
    counts.unpackaged + Bridge.unpackaged t sc files⟩

lemma Counts.again_append (files files' : List Path) :
    counts.again t sc (files ++ files') = (counts.again t sc files).again t sc files' := by
  simp only [again, claims_append, unpackaged_append, List.length_append, Nat.add_assoc]

/-- The action gives these counts and leaves the store as it is. -/
def GivesBack (a : Act Counts) (t : Store) (counts : Counts) : Prop :=
  ∀ w : World, w.store = t → ∃ v, a w = (.ok counts, v) ∧ v.store = t

lemma GivesBack.pure : GivesBack (Pure.pure counts) t counts := fun w hw => ⟨w, rfl, hw⟩

lemma GivesBack.look_bind {α : Type} {f : Store → Except Failure α} {g : α → Act Counts} {x : α}
    (hf : f t = .ok x) (hg : GivesBack (g x) t counts) :
    GivesBack (Act.look f >>= g) t counts := by
  rintro w rfl
  obtain ⟨v, hrun, hv⟩ := hg w rfl
  exact ⟨v, Act.look_bind_eq_ok.mpr ⟨x, hf, hrun⟩, hv⟩

lemma GivesBack.report_bind {level : Log.Level} {target message : String} {fields : List Log.Field}
    {g : Unit → Act Counts} (hg : GivesBack (g ()) t counts) :
    GivesBack (Act.report level target message fields >>= g) t counts := by
  intro w hw
  obtain ⟨v, hrun, hv⟩ := hg (Act.report level target message fields w).2 hw
  exact ⟨v, Act.bind_eq_ok.mpr ⟨(), _, rfl, hrun⟩, hv⟩

lemma GivesBack.bind {a : Act Counts} {f : Counts → Act Counts} (ha : GivesBack a t counts)
    (hf : GivesBack (f counts) t counts') : GivesBack (a >>= f) t counts' := by
  intro w hw
  obtain ⟨u, hrun, hu⟩ := ha w hw
  obtain ⟨v, hrest, hv⟩ := hf u hu
  exact ⟨v, Act.bind_eq_ok.mpr ⟨counts, u, hrun, hrest⟩, hv⟩

lemma place_givesBack {package : Text} {name : Bytes} (h : IsSettled t dest package name) :
    GivesBack (place dest file name package counts) t
      { counts with shadowed := counts.shadowed + 1 } := by
  obtain ⟨hdir, found, hfound⟩ := h
  obtain ⟨l, hl⟩ := exists_of_isDir hdir
  have hmake := makeDirs_of_isDir (isLocatable_of_find hl).ne_nil hdir
  have hown : (t.ownNode? ((dirOf dest package).child name)).isSome = true := by
    rw [ownNode?, hfound]
    rfl
  rintro w rfl
  have hrun := run_place dest file name package counts w
  rw [hmake] at hrun
  simp only at hrun
  rw [if_pos hown] at hrun
  obtain ⟨hfirst, hstore⟩ := Prod.mk.inj hrun
  exact ⟨_, Act.run_eq_of_fst hfirst, hstore⟩

/-- The file is listed, and if it is a source, what it declares can be read and is settled. -/
structure IsDone (layout : Layout) (t : Store) (dest : Path) (sc : Scanner) (file : Path) : Prop where
  listed : IsListed file
  read : file.hasExtension layout.sourceExt = true → ∃ found, Package.ofFile t sc file = .ok found
  settled : file.hasExtension layout.sourceExt = true → IsSettledFile t dest sc file

lemma placeFile_givesBack (h : IsDone layout t dest sc file) :
    GivesBack (placeFile layout sc dest file counts) t
      (counts.again t sc ([file].filter (·.hasExtension layout.sourceExt))) := by
  unfold placeFile
  split
  · rename_i hext
    rw [List.filter_cons_of_neg (by simpa using hext)]
    exact .pure
  · rename_i hext
    simp only [Bool.not_eq_true, Bool.not_eq_false'] at hext
    rw [List.filter_cons_of_pos (by simp [hext])]
    obtain ⟨found, hfound⟩ := h.read hext
    obtain ⟨name, hname, -⟩ := h.listed
    refine .look_bind hfound ?_
    rw [hname]
    cases found with
    | none =>
      have hagain : counts.again t sc [file] =
          { counts with unpackaged := counts.unpackaged + 1 } := by
        simp [Counts.again, claims, claim?, unpackaged, hfound]
      rw [List.filter_nil, hagain]
      exact .pure
    | some package =>
      have hagain : counts.again t sc [file] = { counts with shadowed := counts.shadowed + 1 } := by
        simp [Counts.again, claims, claim?, unpackaged, hfound, hname]
      rw [List.filter_nil, hagain]
      exact place_givesBack (h.settled hext package name hfound hname)

lemma placeFiles_givesBack (h : ∀ file ∈ files, IsDone layout t dest sc file) :
    GivesBack (placeFiles layout sc dest files counts) t
      (counts.again t sc (files.filter (·.hasExtension layout.sourceExt))) := by
  induction files generalizing counts with
  | nil => exact .pure
  | cons file files ih =>
    rw [← List.singleton_append, List.filter_append, Counts.again_append]
    exact (placeFile_givesBack (h file List.mem_cons_self)).bind
      (ih fun f hf => h f (List.mem_cons_of_mem _ hf))

lemma placeGroups_givesBack
    (h : ∀ g ∈ groups, holdsDescriptor layout g.2 = false → ∀ file ∈ g.2,
      IsDone layout t dest sc file) :
    GivesBack (placeGroups layout sc dest groups counts) t
      (counts.again t sc (((groups.filter (!holdsDescriptor layout ·.2)).flatMap (·.2)).filter
        (·.hasExtension layout.sourceExt))) := by
  induction groups generalizing counts with
  | nil => exact .pure
  | cons g groups ih =>
    have hrest := fun g hg => h g (List.mem_cons_of_mem _ hg)
    obtain ⟨dir, files⟩ := g
    rw [placeGroups]
    split
    · rename_i hholds
      rw [List.filter_cons_of_neg (by simpa using hholds)]
      exact .report_bind (ih hrest)
    · rename_i hholds
      rw [Bool.not_eq_true] at hholds
      rw [List.filter_cons_of_pos (by simpa using hholds), List.flatMap_cons, List.filter_append,
        Counts.again_append]
      exact (placeFiles_givesBack (h _ List.mem_cons_self hholds)).bind (ih hrest)

/-- Where the claims of a call are settled, the call changes nothing. -/
theorem Call.run_givesBack (ht : t.WellFormed) (hsc : Package.scanner = .ok sc)
    (hlisted : c.listed t = .ok ps) (hread : AllRead t sc (considered c.layout ps))
    (hsettled : ∀ file ∈ considered c.layout ps, IsSettledFile t dest sc file) :
    GivesBack (c.run dest) t (Counts.zero.again t sc (considered c.layout ps)) := by
  obtain ⟨gs, hgs, hps⟩ := Call.listed_eq_ok.mp hlisted
  have hgrouped := Walk.grouped_groupByDir ps
  have hnamed : ∀ p ∈ ps, IsListed p := fun p hp => exists_fileName? ht hps hp
  have heq := considered_eq c.layout hgrouped (Walk.mem_files_iff ht hps).1
    fun p hp => (hnamed p hp).imp fun _ hn => hn.1
  unfold Call.run normalize
  refine .look_bind hsc (.look_bind hgs (.look_bind (x := Walk.groupByDir ps) ?_ ?_))
  · rw [Walk.filesByDir, hps]
    rfl
  · rw [← heq] at hread hsettled ⊢
    refine .bind (placeGroups_givesBack fun g hg hholds file hfile => ?_) (.report_bind .pure)
    have hmem : file.hasExtension c.layout.sourceExt = true →
        file ∈ (((Walk.groupByDir ps).filter (!holdsDescriptor c.layout ·.2)).flatMap (·.2)).filter
          (·.hasExtension c.layout.sourceExt) := fun hext =>
      List.mem_filter.mpr ⟨List.mem_flatMap.mpr ⟨g, List.mem_filter.mpr ⟨hg, by simp [hholds]⟩,
        hfile⟩, hext⟩
    exact ⟨hnamed file (Walk.mem_of_mem_groupByDir hg hfile), fun hext => hread file (hmem hext),
      fun hext => hsettled file (hmem hext)⟩

/-! ### The first file wins -/

/-- Into a tree that calls have made, apart from its source, a call that succeeds brings the links
to the first files that claim a free place, and no others; it counts the links that came, the claims
that were too late, and the sources that claim nothing. Called again it changes nothing, and counts
every claim as too late. -/
theorem Call.run_first_wins {w v : World} {made : List Call} (hdest : IsEmptyDir w.store dest d)
    (hapart : c.IsApart (afterCalls dest w made).store d)
    (hrun : c.run dest (afterCalls dest w made) = (.ok counts, v)) :
    ∃ sc files, Package.scanner = .ok sc ∧
      c.sources (afterCalls dest w made).store = .ok files ∧
      AllRead v.store sc files ∧
      (∀ file ∈ files, ∀ found, Package.ofFile (afterCalls dest w made).store sc file = .ok found →
        Package.ofFile v.store sc file = .ok found) ∧
      FirstWins d (claims v.store sc files) (afterCalls dest w made).store v.store ∧
      (∃ added, NewLinks (afterCalls dest w made).store v.store added ∧
        counts.bridges = added.length) ∧
      counts.bridges + counts.shadowed = (claims v.store sc files).length ∧
      counts.unpackaged = unpackaged v.store sc files ∧
      ∃ v', c.run dest v = (.ok ⟨0, (claims v.store sc files).length, counts.unpackaged⟩, v') ∧
        v'.store = v.store := by
  have htree := bridgeTree_afterCalls hdest.bridgeTree made
  obtain ⟨sc, files, hsc, hsources, houtcome⟩ := c.run_outcome htree hrun
  have hadds := htree.adds_of_bridged houtcome.bridged
  refine ⟨sc, files, hsc, hsources, houtcome.allRead,
    fun file _ found hfound => ofFile_of_adds htree.wellFormed hadds hfound,
    houtcome.bridged.firstWins, ?_, ?_, ?_, ?_⟩
  · simpa [Counts.zero] using houtcome.links
  · simpa [Counts.zero] using houtcome.total
  · simpa [Counts.zero] using houtcome.unpackaged
  · obtain ⟨ps, hlisted, rfl⟩ := Call.sources_eq_ok.mp hsources
    have hagain := c.run_givesBack hadds.wellFormed hsc
      (c.listed_of_isApart htree.wellFormed hadds hapart hlisted) houtcome.allRead houtcome.settled
    have hcounts : Counts.zero.again v.store sc (considered c.layout ps) =
        ⟨0, (claims v.store sc (considered c.layout ps)).length, counts.unpackaged⟩ := by
      simp [Counts.again, Counts.zero, houtcome.unpackaged]
    exact hcounts ▸ hagain v rfl

/-- Two directories with a file `p/X.java`, one of which also has a `p/Y.java` that an older
directory claims; and a directory with the descriptor, and a source without a package. -/
def crowdedStore : Store where
  entries :=
    [(locationOf ["w"], .dir), (locationOf ["w", "dest"], .dir), (locationOf ["w", "old"], .dir),
      (locationOf ["w", "old", "Y.java"], packaged), (locationOf ["w", "src"], .dir),
      (locationOf ["w", "src", "U.java"], .file [] plainMode ⟨0, 0⟩),
      (locationOf ["w", "src", "a"], .dir), (locationOf ["w", "src", "a", "X.java"], packaged),
      (locationOf ["w", "src", "b"], .dir), (locationOf ["w", "src", "b", "X.java"], packaged),
      (locationOf ["w", "src", "b", "Y.java"], packaged), (locationOf ["w", "src", "c"], .dir),
      (locationOf ["w", "src", "c", "Z.java"], packaged),
      (locationOf ["w", "src", "c", "module-info.java"], .file [] plainMode ⟨0, 0⟩)]
  cwd := []
  clock := ⟨1, 0⟩
where
  packaged : Node := .file (Utf8.encode "package p;".toList) plainMode ⟨0, 0⟩

/-- The world after the call for the older directory. -/
def crowdedWorld : World :=
  afterCalls treeDir (.ofStore crowdedStore) [⟨.default, .ofText "/w/old".toList, true⟩]

/-- What stands in a tree at `p`, after the call for the sources of this store. -/
def crowdedPlace (name : String) : Option Node :=
  (sourceCall.run treeDir crowdedWorld).2.store.get? (locationOf ["w", "dest", "p", name])

lemma run_crowdedWorld :
    IsEmptyDir crowdedStore treeDir (locationOf ["w", "dest"]) ∧
      crowdedWorld.store.find true sourceCall.source = .ok (locationOf ["w", "src"], .dir) ∧
      (sourceCall.run treeDir crowdedWorld).1 = .ok ⟨1, 2, 1⟩ := by
  refine ⟨⟨by decide +kernel, by decide +kernel, by decide +kernel⟩, ?_, ?_⟩ <;> decide +kernel

/-- One link comes, to the first of the two files; the older one stays, and when the call is made
again all three claims are too late. -/
theorem run_crowdedWorld_first_wins :
    IsEmptyDir crowdedStore treeDir (locationOf ["w", "dest"]) ∧
      sourceCall.IsApart crowdedWorld.store (locationOf ["w", "dest"]) ∧
      crowdedPlace "X.java" = some (.link (.ofText "/w/src/a/X.java".toList)) ∧
      crowdedPlace "Y.java" = some (.link (.ofText "/w/old/Y.java".toList)) ∧
      crowdedPlace "Z.java" = none ∧
      (sourceCall.run treeDir (sourceCall.run treeDir crowdedWorld).2).1 = .ok ⟨0, 3, 1⟩ := by
  obtain ⟨hdest, hsource, hcounts⟩ := run_crowdedWorld
  have hapart : sourceCall.IsApart crowdedWorld.store (locationOf ["w", "dest"]) := by
    intro l hl
    rw [hsource] at hl
    cases hl
    constructor <;> decide
  obtain ⟨sc, files, -, -, -, -, -, -, htotal, -, v', hagain, -⟩ :=
    Call.run_first_wins hdest hapart (Act.run_eq_of_fst hcounts)
  refine ⟨hdest, hapart, ?_, ?_, ?_, ?_⟩
  · decide +kernel
  · decide +kernel
  · decide +kernel
  · have hcounted := congrArg Prod.fst hagain
    rwa [← htotal] at hcounted

end Bridge

end Excerpt
