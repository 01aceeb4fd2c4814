import Excerpt.Proofs.Closure.Landing
import Excerpt.Proofs.Extraction.Destinations
import Excerpt.Proofs.Request

/-!
# What an extraction leaves alone

The place of a file in the output is the place that it has in the corpus. So an extraction writes
only beneath the output if no file of its closure climbs out of the corpus on the way. Nothing
checks that: the name of a test may climb, and then so do the files beside it.
-/

namespace Excerpt

open Store

namespace Extraction

variable {layout : Layout} {r : Request} {test : Text} {closure : Closure} {base s t u : Store}
  {p : Path} {c o l : Location} {node : Node}

/-! ### Destinations -/

/-- The native tree lies beneath the corpus. -/
lemma nativeDir_steps (hlayout : layout.IsPlain) (hcorpus : r.corpus.isAbsolute = true) :
    (nativeDir layout r).isAbsolute = true ∧
      ∃ a, (nativeDir layout r).steps = r.corpus.steps ++ a ∧ .parent ∉ a := by
  obtain ⟨hsrc, hsteps⟩ := hlayout.src.joinText hcorpus
  obtain ⟨hnative, hsteps'⟩ := hlayout.native.joinText hsrc
  refine ⟨hnative, (Path.ofText layout.srcDir).steps ++ (Path.ofText layout.nativeDir).steps,
    ?_, ?_⟩
  · rw [nativeDir, Request.srcRoot, hsteps', hsteps, List.append_assoc]
  · simpa using ⟨hlayout.src.2, hlayout.native.2⟩

lemma nativeBase_steps (hlayout : layout.IsPlain) (hcorpus : r.corpus.isAbsolute = true) :
    (nativeBase layout r).isAbsolute = true ∧
      (nativeBase layout r).steps <+: (nativeDir layout r).steps := by
  obtain ⟨hdir, -⟩ := nativeDir_steps hlayout hcorpus
  unfold nativeBase
  cases hparent : (nativeDir layout r).parent? with
  | none => exact ⟨hdir, List.prefix_rfl⟩
  | some above =>
    obtain ⟨hsteps, habs⟩ := Path.of_parent?_eq_some hparent
    exact ⟨habs.trans hdir, hsteps ▸ List.dropLast_prefix _⟩

lemma InNativeTree.isName {names : Location} (h : InNativeTree layout r s names)
    (hs : s.WellFormed) : ∀ n ∈ names, Path.IsName n := by
  obtain ⟨loc, node, -, hnode⟩ := h
  exact fun n hn =>
    (hs.isEntryName (by rw [hnode]; simp) (List.mem_append_right loc hn)).isName

/-- A path in the native tree does not climb out of the corpus. -/
lemma InNativeTree.goesBeneath {names : Location} (h : InNativeTree layout r s names)
    (hs : s.WellFormed) (hlayout : layout.IsPlain) (hbase : base.WellFormed)
    (hr : Request.Accepted base layout r test c o) :
    ∃ a, GoesBeneath c (chain (nativeDir layout r) names) a := by
  obtain ⟨hcorpus, hsteps⟩ := hr.corpus_steps hbase
  obtain ⟨hdir, a, ha, hparent⟩ := nativeDir_steps hlayout hcorpus
  have hnames := h.isName hs
  refine ⟨a ++ names.map .name, .of_inside (isAbsolute_chain hdir hnames) ?_
    (inside_of_notMem (by simp [hparent]))⟩
  rw [steps_chain _ hnames, ha, hsteps, List.append_assoc]

/-- What is left of a path in the native tree has no `..`. -/
lemma parent_notMem_of_strip? {names : Location} {rel : Path} (hlayout : layout.IsPlain)
    (hbase : base.WellFormed) (hr : Request.Accepted base layout r test c o)
    (hnames : ∀ n ∈ names, Path.IsName n)
    (h : (chain (nativeDir layout r) names).strip? (nativeBase layout r) = some rel) :
    rel.isAbsolute = false ∧ .parent ∉ rel.steps := by
  obtain ⟨hcorpus, hsteps⟩ := hr.corpus_steps hbase
  obtain ⟨-, a, ha, hparent⟩ := nativeDir_steps hlayout hcorpus
  obtain ⟨-, hrel, habs⟩ := Path.of_strip?_eq_some (nativeBase_steps hlayout hcorpus).1 h
  refine ⟨habs, fun hclimb => ?_⟩
  have hmem : .parent ∈ (chain (nativeDir layout r) names).steps := by
    rw [hrel]
    exact List.mem_append_right _ hclimb
  rw [steps_chain _ hnames, ha, hsteps] at hmem
  simp [hparent] at hmem

/-- Destinations lie beneath the output if no file of the closure climbs out of the corpus. -/
lemma Destination.goesBeneath (h : Destination layout r closure s p) (hs : s.WellFormed)
    (hlayout : layout.IsPlain) (hbase : base.WellFormed)
    (hr : Request.Accepted base layout r test c o) (hclosure : closure.StaysBeneath r.corpus) :
    ∃ a, GoesBeneath o p a := by
  obtain ⟨hcorpus, -⟩ := hr.corpus_steps hbase
  obtain ⟨houtput, hosteps⟩ := hr.output_steps hbase
  have hnative : ∀ rel : Path, rel.isAbsolute = false → .parent ∉ rel.steps →
      ∃ a, GoesBeneath o ((nativeRoot layout r).join rel) a := by
    intro rel habs hparent
    obtain ⟨hroot, hroot'⟩ := hlayout.src.joinText houtput
    refine ⟨(Path.ofText layout.srcDir).steps ++ rel.steps, .of_inside ?_ ?_
      (inside_of_notMem (by simp [hlayout.src.2, hparent]))⟩
    · rw [nativeRoot, Path.isAbsolute_join (Path.bytes_ne_nil_of_isAbsolute hroot) habs, hroot]
    · rw [Path.steps_join habs, nativeRoot, hroot', hosteps, List.append_assoc]
  have hbeside : ∀ t : Text, (Path.ofText t).Descends →
      ∃ a, GoesBeneath o (r.output.joinText t) a :=
    fun t ht => ⟨(Path.ofText t).steps, hr.join_output hbase ht.1 (inside_of_notMem ht.2)⟩
  cases h with
  | @closure file _ hfile hdst =>
    unfold Assembly.destination at hdst
    split at hdst
    · rename_i rel hrel
      cases hdst
      obtain ⟨-, -, habs⟩ := Path.of_strip?_eq_some hcorpus hrel
      exact ⟨rel.steps, hr.join_output hbase habs (hclosure file hfile rel hrel)⟩
    · cases hdst
  | native _ htree hrel =>
    obtain ⟨habs, hparent⟩ :=
      parent_notMem_of_strip? hlayout hbase hr (htree.isName hs) hrel
    exact hnative _ habs hparent
  | nativeTop =>
    obtain ⟨habove, hinitial⟩ := nativeBase_steps hlayout hcorpus
    have hsome : ((nativeDir layout r).strip? (nativeBase layout r)).isSome = true := by
      rw [Path.strip?_isSome, Path.startsWith_iff habove]
      exact ⟨(nativeDir_steps hlayout hcorpus).1, hinitial⟩
    obtain ⟨rel, hrel⟩ := Option.isSome_iff_exists.mp hsome
    have htop : (chain (nativeDir layout r) []).strip? (nativeBase layout r) = some rel := hrel
    obtain ⟨habs, hparent⟩ := parent_notMem_of_strip? hlayout hbase hr (by simp) htop
    rw [hrel, Option.getD_some]
    exact hnative rel habs hparent
  | makefile => exact hbeside _ (by decide)
  | script => exact hbeside _ (by decide)

/-! ### The run -/

/-- Nothing outside of `o` has changed since `s`, and there are no links beneath `c` and `o`. -/
structure Confined (c o : Location) (s t : Store) : Prop where
  corpusDir : t.get? c = some .dir
  outputDir : t.get? o = some .dir
  corpusFree : LinkFree t (c <+: ·)
  outputFree : LinkFree t (o <+: ·)
  outside : ∀ l, ¬ o <+: l → t.get? l = s.get? l

/-- A change on the way to a place beneath `o` that makes no link: a directory or a file comes to a
place beneath `o`. -/
lemma of_changes_beneath {change : Change} {dst : Path} {a : List Component} (ht : t.WellFormed)
    (ho : t.get? o = some .dir) (hfree : LinkFree t (o <+: ·)) (hdst : GoesBeneath o dst a)
    (hover : Over dst change.path) (hlink : ∀ target p, change ≠ .link target p)
    (hc : Changes change t u) : ∃ l node, u = t.put l node ∧ o <+: l ∧ t.get? l ≠ some .dir ∧
      node.isLink = false := by
  have hbeneath : ∀ m, Leads t (t.start change.path) change.path.steps m →
      t.get? m ≠ some .dir → o <+: m := by
    intro m hm hdir
    rw [start_of_isAbsolute (hover.2.trans hdst.1)] at hm
    exact hdst.of_leads ht ho hfree hover.1 hm hdir
  cases hc with
  | @new d n node hlands _ _ hfree hmakes =>
    have hdir : t.get? (d ++ [n]) ≠ some .dir := by
      rw [hfree]
      simp
    exact ⟨_, node, rfl, hbeneath _ hlands.1 hdir, hdir, hmakes.isLink hlink⟩
  | @rewritten _ l _ _ _ _ _ _ he hfind =>
    subst he
    obtain ⟨hleads, hn⟩ := leads_of_find ht hfind rfl
    have hdir : t.get? l ≠ some .dir := by
      rw [hn]
      simp
    exact ⟨l, _, rfl, hbeneath l hleads hdir, hdir, rfl⟩

namespace Confined

lemma put (h : Confined c o s t) (hl : o <+: l) (hdir : t.get? l ≠ some .dir)
    (hnode : node.isLink = false) : Confined c o s (t.put l node) := by
  have hne : l ≠ [] := by
    rintro rfl
    exact hdir rfl
  refine ⟨?_, ?_, h.corpusFree.put hne hnode, h.outputFree.put hne hnode, fun m hm => ?_⟩
  · rw [get?_put_of_ne hne, h.corpusDir]
    rintro rfl
    exact hdir h.corpusDir
  · rw [get?_put_of_ne hne, h.outputDir]
    rintro rfl
    exact hdir h.outputDir
  · rw [get?_put_of_ne hne, h.outside m hm]
    rintro rfl
    exact hm hl

/-- A change on the way to a place beneath the output that makes no link. -/
lemma step {change : Change} {dst : Path} {a : List Component} (h : Confined c o s t)
    (ht : t.WellFormed) (hdst : GoesBeneath o dst a) (hover : Over dst change.path)
    (hlink : ∀ target p, change ≠ .link target p) (hc : Changes change t u) :
    Confined c o s u := by
  obtain ⟨l, node, rfl, hl, hdir, hnode⟩ :=
    of_changes_beneath ht h.outputDir h.outputFree hdst hover hlink hc
  exact h.put hl hdir hnode

/-- A run that writes to destinations and copies links of the native tree: there is no such link, as
the native tree lies in the corpus. -/
lemma run (h : Confined c o s t) (ht : t.WellFormed) (hlayout : layout.IsPlain)
    (hbase : base.WellFormed) (hr : Request.Accepted base layout r test c o)
    (hclosure : closure.StaysBeneath r.corpus) (hrun : Runs (Permits layout r closure) t u) :
    Confined c o s u := by
  refine hrun.invariant ?_ ht h
  intro t u change ht hinv hmay hc
  cases change with
  | dir q =>
    obtain ⟨dst, hdst, hover⟩ := hmay
    obtain ⟨a, ha⟩ := hdst.goesBeneath ht hlayout hbase hr hclosure
    exact hinv.step ht ha (show Over dst (Change.dir q).path from hover) (by simp) hc
  | file p =>
    obtain ⟨a, ha⟩ := Destination.goesBeneath hmay ht hlayout hbase hr hclosure
    exact hinv.step ht ha (show Over p (Change.file p).path from .refl p) (by simp) hc
  | link target p =>
    obtain ⟨-, names, htree, hread⟩ := hmay
    obtain ⟨a, ha⟩ := htree.goesBeneath ht hlayout hbase hr
    obtain ⟨m, hfind⟩ := of_readLink hread
    cases (ha.find ht hinv.corpusDir hinv.corpusFree hfind).2.2.2

end Confined

/-- If no file of the closure climbs out of the corpus, an extraction from a corpus without links
to an output without links changes nothing outside of the output, however it ends. -/
theorem run_confined (h : Host) (settings : Settings) {oracle : Oracle} (ho : oracle.ReadOnly)
    (dryRun : Bool) {corpus output : Path} {w : World} (hw : w.store.WellFormed)
    (hlayout : settings.layout.IsPlain)
    (hvalid : Request.validate w.store settings.layout corpus output test = .ok r)
    (hcorpus : w.store.find true corpus = .ok (c, .dir))
    (houtput : w.store.find true output = .ok (o, .dir))
    (hcorpusFree : LinkFree w.store (c <+: ·)) (houtputFree : LinkFree w.store (o <+: ·))
    (hclosure : ∀ closure, (Closure.build h settings oracle r (warnMissing r w).2).1 =
      .ok closure → closure.StaysBeneath r.corpus) (hl : ¬ o <+: l) :
    (run h settings oracle dryRun r w).2.store.get? l = w.store.get? l := by
  obtain ⟨c', o', hcorpus', houtput', hr⟩ := Request.accepted_of_validate hw hvalid
  rw [hcorpus, Except.ok.injEq, Prod.mk.injEq] at hcorpus'
  rw [houtput, Except.ok.injEq, Prod.mk.injEq] at houtput'
  obtain rfl := hcorpus'.1
  obtain rfl := houtput'.1
  rcases run_cases h settings ho dryRun r hw with hsame | ⟨-, closure, v, hbuild, hrun⟩
  · rw [hsame]
  · have hstays := hclosure closure (by rw [hbuild])
    have hstart : Confined c o w.store w.store :=
      ⟨hr.corpusDir, hr.outputDir, hcorpusFree, houtputFree, fun _ _ => rfl⟩
    exact (hstart.run hw hlayout hw hr hstays hrun).outside l hl

/-! ### A test beside the corpus -/

/-- A corpus with a test, an empty output, and a directory that has nothing to do with them. -/
def siblingStore : Store where
  entries :=
    [(locationOf ["w"], .dir), (locationOf ["w", "jck"], .dir),
      (locationOf ["w", "jck", "src"], .dir), (locationOf ["w", "jck", "tests"], .dir),
      (locationOf ["w", "jck", "tests", "t"], .dir),
      (locationOf ["w", "jck", "tests", "t", "a.txt"], .file [97] plainMode ⟨0, 0⟩),
      (locationOf ["w", "out"], .dir), (locationOf ["w", "side"], .dir),
      (locationOf ["w", "side", "a.txt"], .file [97] plainMode ⟨0, 0⟩), (locationOf ["tmp"], .dir)]
  cwd := []
  clock := ⟨1, 0⟩

/-- A request in `siblingStore` for the test with a name, in a directory beneath the tests. -/
def siblingRequest (name : String) : Request where
  corpus := .ofText "/w/jck".toList
  output := .ofText "/w/out".toList
  testDir := (Path.ofText "/w/jck/tests".toList).joinText name.toList
  testArg := name.toList
  missingDescriptor := none

set_option maxRecDepth 10000 in
lemma run_sibling_outside :
    Request.validate siblingStore .default (.ofText "/w/jck".toList) (.ofText "/w/out".toList)
        "../../side".toList = .ok (siblingRequest "../../side") ∧
      siblingStore.WellFormed ∧ siblingStore.names (locationOf ["w", "out"]) = [] ∧
      siblingStore.get? (locationOf ["w", "side", "a.txt"]) =
        some (.file [97] plainMode ⟨0, 0⟩) ∧
      (run .bare .default .silent false (siblingRequest "../../side")
          (.ofStore siblingStore)).2.store.get? (locationOf ["w", "side", "a.txt"]) =
        some (.file [] plainMode ⟨1, 0⟩) := by
  decide +kernel

/-- The name of a test can climb to a directory beside the corpus, whose files are then emptied. -/
theorem run_empties_sibling :
    Request.validate siblingStore .default (.ofText "/w/jck".toList) (.ofText "/w/out".toList)
        "../../side".toList = .ok (siblingRequest "../../side") ∧
      siblingStore.WellFormed ∧ Oracle.silent.ReadOnly ∧ Layout.default.IsPlain ∧
      (∀ region, LinkFree siblingStore region) ∧ siblingStore.names (locationOf ["w", "out"]) = [] ∧
      siblingStore.get? (locationOf ["w", "side", "a.txt"]) =
        some (.file [97] plainMode ⟨0, 0⟩) ∧
      (run .bare .default .silent false (siblingRequest "../../side")
          (.ofStore siblingStore)).2.store.get? (locationOf ["w", "side", "a.txt"]) =
        some (.file [] plainMode ⟨1, 0⟩) := by
  obtain ⟨hvalid, hw, hempty, hbefore, hafter⟩ := run_sibling_outside
  exact ⟨hvalid, hw, Oracle.silent_readOnly, Layout.isPlain_default,
    fun _ => linkFree_of_entries (by decide), hempty, hbefore, hafter⟩

set_option maxRecDepth 10000 in
lemma run_sibling_inside :
    Request.validate siblingStore .default (.ofText "/w/jck".toList) (.ofText "/w/out".toList)
        "t".toList = .ok (siblingRequest "t") ∧
      siblingStore.WellFormed ∧
      (Closure.build .bare .default .silent (siblingRequest "t")
          (warnMissing (siblingRequest "t") (.ofStore siblingStore)).2).1 =
        .ok ⟨⟨[.ofText "/w/jck/tests/t/a.txt".toList]⟩, false⟩ ∧
      (run .bare .default .silent false (siblingRequest "t") (.ofStore siblingStore)).1 =
        .ok ⟨⟨⟨[.ofText "/w/jck/tests/t/a.txt".toList]⟩, false⟩, 1, 0⟩ := by
  decide +kernel

/-- An extraction of a test of the corpus leaves the directory beside it alone. -/
theorem run_spares_sibling :
    siblingStore.WellFormed ∧ Oracle.silent.ReadOnly ∧
      (run .bare .default .silent false (siblingRequest "t") (.ofStore siblingStore)).1 =
        .ok ⟨⟨⟨[.ofText "/w/jck/tests/t/a.txt".toList]⟩, false⟩, 1, 0⟩ ∧
      (run .bare .default .silent false (siblingRequest "t")
          (.ofStore siblingStore)).2.store.get? (locationOf ["w", "side", "a.txt"]) =
        some (.file [97] plainMode ⟨0, 0⟩) := by
  obtain ⟨hvalid, hw, hbuild, hresult⟩ := run_sibling_inside
  have hfree : ∀ region, LinkFree siblingStore region :=
    fun _ => linkFree_of_entries (by decide)
  have hstays : ∀ closure, (Closure.build .bare .default .silent (siblingRequest "t")
      (warnMissing (siblingRequest "t") (.ofStore siblingStore)).2).1 = .ok closure →
        closure.StaysBeneath (siblingRequest "t").corpus := by
    intro closure hclosure file hfile rel hrel
    rw [hbuild, Except.ok.injEq] at hclosure
    subst hclosure
    rw [List.mem_singleton] at hfile
    subst hfile
    have hstrip : (Path.ofText "/w/jck/tests/t/a.txt".toList).strip? (siblingRequest "t").corpus =
        some (.ofText "tests/t/a.txt".toList) := by decide +kernel
    rw [hstrip, Option.some.injEq] at hrel
    subst hrel
    exact inside_of_forall (by decide +kernel)
  refine ⟨hw, Oracle.silent_readOnly, hresult, ?_⟩
  rw [run_confined .bare .default Oracle.silent_readOnly false (w := .ofStore siblingStore) hw
    Layout.isPlain_default hvalid (c := locationOf ["w", "jck"]) (o := locationOf ["w", "out"])
    (by decide +kernel) (by decide +kernel) (hfree _) (hfree _) hstays (by decide +kernel)]
  decide +kernel

end Extraction

end Excerpt
