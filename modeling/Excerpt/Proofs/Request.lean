import Excerpt.Proofs.Path.Texts
import Excerpt.Proofs.Store.Regions
import Excerpt.Request

/-!
# Accepted requests

An accepted request has the absolute paths of the two directories, without links, and the directory
of its test. Nothing in it depends on how the directories were spelled.
-/

namespace Excerpt

namespace Store

/-- The path of a location spells its names. -/
lemma steps_pathOf {l : Location} (h : ∀ n ∈ l, Path.IsName n) :
    (pathOf l).steps = l.map .name := by
  have hflat : ∀ l : Location, (∀ n ∈ l, Path.IsName n) →
      Path.bodyComponents (l.flatMap (Path.slash :: ·)) = l.map .name := by
    intro l
    induction l with
    | nil => exact fun _ => rfl
    | cons n l ih =>
      intro h
      have hn := h n List.mem_cons_self
      have hrest := ih fun m hm => h m (List.mem_cons_of_mem _ hm)
      rw [List.flatMap_cons, List.cons_append, Path.bodyComponents_slash_cons, List.map_cons]
      cases l with
      | nil => rw [List.flatMap_nil, List.append_nil, hn.bodyComponents]; rfl
      | cons m l =>
        rw [List.flatMap_cons, List.cons_append, Path.bodyComponents_slash_cons] at hrest
        rw [List.flatMap_cons, List.cons_append, Path.bodyComponents_append_slash,
          hn.bodyComponents, hrest]
        rfl
  cases l with
  | nil => rfl
  | cons n l => exact hflat _ h

lemma isAbsolute_pathOf (l : Location) : (pathOf l).isAbsolute = true := by
  cases l <;> rfl

lemma WellFormed.steps_pathOf {s : Store} {l : Location} (hs : s.WellFormed)
    (hl : s.get? l ≠ none) : (pathOf l).steps = l.map .name :=
  Store.steps_pathOf fun _ hn => (hs.isEntryName hl hn).isName

end Store

/-! ### Layouts -/

/-- The path is relative and has no `..`. -/
def Path.Descends (p : Path) : Prop := p.isAbsolute = false ∧ .parent ∉ p.steps

instance (p : Path) : Decidable p.Descends := inferInstanceAs (Decidable (_ ∧ _))

/-- The directories of the layout are named by paths that only descend, and the tests have a
directory of their own. -/
structure Layout.IsPlain (layout : Layout) : Prop where
  src : (Path.ofText layout.srcDir).Descends
  tests : (Path.ofText layout.testsDir).Descends
  native : (Path.ofText layout.nativeDir).Descends
  tests_ne_nil : (Path.ofText layout.testsDir).steps ≠ []

lemma Layout.isPlain_default : default.IsPlain :=
  ⟨by decide, by decide, by decide, by decide⟩

/-- What is beneath an absolute path by a path that descends. -/
lemma Path.Descends.joinText {p : Path} {t : Text} (ht : (ofText t).Descends)
    (hp : p.isAbsolute = true) :
    (p.joinText t).isAbsolute = true ∧ (p.joinText t).steps = p.steps ++ (ofText t).steps :=
  ⟨isAbsolute_joinText hp ht.1, steps_join ht.1⟩

/-! ### Names of tests -/

namespace TestName

variable {t : Text}

/-- No segment of the name is `..`. -/
def NoParent (t : Text) : Prop := ['.', '.'] ∉ Text.splitOn (· == '/') t

/-- No segment of the name is `..`, except perhaps the last. Only this is kept when an anchor is
cut off, since a segment that starts with `..` may be cut there. -/
def NoInnerParent (t : Text) : Prop := ['.', '.'] ∉ (Text.splitOn (· == '/') t).dropLast

instance (t : Text) : Decidable (NoParent t) := inferInstanceAs (Decidable (_ ∉ _))

lemma dropAnchor_noInnerParent (h : NoParent t) : NoInnerParent (dropAnchor t) := by
  unfold dropAnchor
  split
  · rename_i before after hcut
    split
    · exact fun hmem => h (List.dropLast_subset _ hmem)
    · obtain ⟨c, -, rfl⟩ := Text.of_cutLast?_eq_some hcut
      exact fun hmem => h ((Text.dropLast_splitOn_isPrefix before (c :: after)).subset hmem)
  · exact fun hmem => h (List.dropLast_subset _ hmem)

lemma dropStart_noInnerParent (piece : Text) (h : NoInnerParent t) :
    NoInnerParent (dropStart (piece ++ ['/']) t) := by
  unfold dropStart Text.afterStart?
  simp only
  split
  · rename_i hinitial
    obtain ⟨rest, rfl⟩ := List.isPrefixOf_iff_prefix.mp hinitial
    rw [List.drop_left, Option.getD_some]
    intro hmem
    rw [NoInnerParent, List.append_assoc, List.singleton_append,
      Text.splitOn_append_cons (by rfl),
      List.dropLast_append_of_ne_nil (Text.splitOn_ne_nil rest)] at h
    exact h (List.mem_append_right _ hmem)
  · exact h

lemma dropPage_noInnerParent (h : NoInnerParent t) : NoInnerParent (dropPage t) := by
  unfold dropPage
  split
  · rename_i before after hcut
    split
    · exact h
    · obtain ⟨c, hc, rfl⟩ := Text.of_cutLast?_eq_some hcut
      obtain rfl : c = '/' := by simpa using hc
      intro hmem
      rw [NoInnerParent, Text.splitOn_append_cons (by rfl),
        List.dropLast_append_of_ne_nil (Text.splitOn_ne_nil after)] at h
      exact h (List.mem_append_left _ (List.dropLast_subset _ hmem))
  · exact h

/-- A name without `..` is read as a directory that has none before its last segment. -/
lemma parse_noInnerParent (testsDir descriptorExt : Text) (h : NoParent t) :
    NoInnerParent (parse t testsDir descriptorExt).dir := by
  have hname : NoInnerParent (dropStart (testsDir ++ ['/']) (dropStart ['/'] (dropAnchor t))) :=
    dropStart_noInnerParent testsDir (dropStart_noInnerParent [] (dropAnchor_noInnerParent h))
  unfold parse
  simp only
  split
  · exact dropPage_noInnerParent hname
  · exact hname

/-- The steps of a segment. -/
def segmentSteps (t : Text) : List Component := (Path.segmentComponent? (Utf8.encode t)).toList

lemma flatMap_segmentSteps (segs : List Text) :
    (segs.filter (!·.isEmpty)).flatMap segmentSteps = segs.flatMap segmentSteps := by
  induction segs with
  | nil => rfl
  | cons seg segs ih =>
    cases seg with
    | nil => exact ih
    | cons c seg => exact congrArg (segmentSteps (c :: seg) ++ ·) ih

lemma steps_resolveText (root : Path) (t : Text) :
    (resolveText root t).steps = root.steps ++
        (Text.splitOn (· == '/') t).flatMap segmentSteps ∧
      (resolveText root t).isAbsolute = root.isAbsolute := by
  have hslash : ∀ seg ∈ (Text.splitOn (· == '/') t).filter (!·.isEmpty), '/' ∉ seg := by
    intro seg hseg hmem
    have := (Text.of_mem_splitOn (List.mem_filter.mp hseg).1 '/' hmem).2
    simp at this
  rw [← flatMap_segmentSteps]
  exact ⟨Path.steps_foldl_joinText _ root hslash, Path.isAbsolute_foldl_joinText _ root hslash⟩

lemma segmentSteps_cases (t : Text) :
    segmentSteps t = [] ∨ (segmentSteps t = [.parent] ∧ t = ['.', '.']) ∨
      ∃ n, segmentSteps t = [.name n] := by
  unfold segmentSteps
  cases hc : Path.segmentComponent? (Utf8.encode t) with
  | none => exact Or.inl rfl
  | some c =>
    rcases Path.segmentComponent?_eq_some hc with ⟨hdots, rfl⟩ | ⟨-, -, -, rfl⟩
    · exact Or.inr (Or.inl ⟨rfl, Path.encode_eq_dots hdots⟩)
    · exact Or.inr (Or.inr ⟨_, rfl⟩)

/-- Segments of which none but perhaps the last is `..` do not climb from inside. -/
lemma inside_segments {depth : Nat} {segs : List Text} (h : ['.', '.'] ∉ segs.dropLast) :
    Store.Inside (depth + 1) (segs.flatMap segmentSteps) := by
  rcases List.eq_nil_or_concat segs with rfl | ⟨front, last, rfl⟩
  · trivial
  · rw [List.concat_eq_append] at h ⊢
    rw [List.dropLast_concat] at h
    rw [List.flatMap_append, List.flatMap_singleton]
    refine Store.inside_append (fun step hstep hclimb => ?_) fun deeper hd => ?_
    · obtain ⟨seg, hseg, hstep⟩ := List.mem_flatMap.mp hstep
      rcases segmentSteps_cases seg with he | ⟨-, rfl⟩ | ⟨n, he⟩
      · rw [he] at hstep
        cases hstep
      · exact h hseg
      · rw [he, List.mem_singleton, hclimb] at hstep
        cases hstep
    · obtain ⟨deeper, rfl⟩ := Nat.exists_eq_add_of_lt (Nat.lt_of_lt_of_le (Nat.succ_pos _) hd)
      rcases segmentSteps_cases last with he | ⟨he, -⟩ | ⟨n, he⟩ <;> rw [he] <;> trivial

/-- The directory of a test whose name has no `..` does not climb out of the parent of the
directory of tests. -/
lemma resolve_steps (root : Path) (depth : Nat) (testsDir descriptorExt : Text)
    (h : NoParent t) :
    ((parse t testsDir descriptorExt).resolve root).isAbsolute = root.isAbsolute ∧
      ∃ a, ((parse t testsDir descriptorExt).resolve root).steps = root.steps ++ a ∧
        Store.Inside (depth + 1) a := by
  obtain ⟨hsteps, habs⟩ := steps_resolveText root (parse t testsDir descriptorExt).dir
  exact ⟨habs, _, hsteps, inside_segments (parse_noInnerParent testsDir descriptorExt h)⟩

end TestName

namespace Request

variable {s : Store} {layout : Layout} {corpus output : Path} {test : Text} {r : Request}

/-- What is known about an accepted request. -/
structure Accepted (s : Store) (layout : Layout) (r : Request) (test : Text)
    (corpus output : Location) : Prop where
  corpus_eq : r.corpus = Store.pathOf corpus
  output_eq : r.output = Store.pathOf output
  testDir_eq : r.testDir =
    (TestName.parse test layout.testsDir layout.descriptorExt).resolve (r.testsRoot layout)
  corpusDir : s.get? corpus = some .dir
  outputDir : s.get? output = some .dir
  testDir : s.isDir r.testDir = true

section Accepted

variable {c o : Location}

lemma Accepted.corpus_steps (h : Accepted s layout r test c o) (hs : s.WellFormed) :
    r.corpus.isAbsolute = true ∧ r.corpus.steps = c.map .name := by
  rw [h.corpus_eq, hs.steps_pathOf (by rw [h.corpusDir]; simp)]
  exact ⟨Store.isAbsolute_pathOf c, rfl⟩

lemma Accepted.output_steps (h : Accepted s layout r test c o) (hs : s.WellFormed) :
    r.output.isAbsolute = true ∧ r.output.steps = o.map .name := by
  rw [h.output_eq, hs.steps_pathOf (by rw [h.outputDir]; simp)]
  exact ⟨Store.isAbsolute_pathOf o, rfl⟩

/-- What does not climb stays beneath the output when it is taken from there. -/
lemma Accepted.join_output (h : Accepted s layout r test c o) (hs : s.WellFormed) {rel : Path}
    (hrel : rel.isAbsolute = false) (hinside : Store.Inside 0 rel.steps) :
    Store.GoesBeneath o (r.output.join rel) rel.steps := by
  obtain ⟨houtput, hsteps⟩ := h.output_steps hs
  refine .of_inside ?_ ?_ hinside
  · rw [Path.isAbsolute_join (Path.bytes_ne_nil_of_isAbsolute houtput) hrel, houtput]
  · rw [Path.steps_join hrel, hsteps]

lemma Accepted.testsRoot_steps (h : Accepted s layout r test c o) (hs : s.WellFormed)
    (hlayout : layout.IsPlain) : (r.testsRoot layout).isAbsolute = true ∧
      (r.testsRoot layout).steps = c.map .name ++ (Path.ofText layout.testsDir).steps := by
  obtain ⟨hcorpus, hsteps⟩ := h.corpus_steps hs
  obtain ⟨habs, htests⟩ := hlayout.tests.joinText hcorpus
  exact ⟨habs, by rw [Request.testsRoot, htests, hsteps]⟩

lemma Accepted.srcRoot_steps (h : Accepted s layout r test c o) (hs : s.WellFormed)
    (hlayout : layout.IsPlain) : (r.srcRoot layout).isAbsolute = true ∧
      (r.srcRoot layout).steps = c.map .name ++ (Path.ofText layout.srcDir).steps := by
  obtain ⟨hcorpus, hsteps⟩ := h.corpus_steps hs
  obtain ⟨habs, hsrc⟩ := hlayout.src.joinText hcorpus
  exact ⟨habs, by rw [Request.srcRoot, hsrc, hsteps]⟩

/-- The directory of a test whose name has no `..` does not climb out of the corpus. -/
theorem Accepted.testDir_enters (h : Accepted s layout r test c o) (hs : s.WellFormed)
    (hlayout : layout.IsPlain) (hname : TestName.NoParent test) : Store.Enters c r.testDir := by
  obtain ⟨habs, hsteps⟩ := h.testsRoot_steps hs hlayout
  obtain ⟨names, hnames, -⟩ := Path.exists_names (fun _ => Path.of_mem_steps) hlayout.tests.2
  have hne : names.length ≠ 0 := by
    rw [Ne, List.length_eq_zero_iff]
    rintro rfl
    exact hlayout.tests_ne_nil hnames
  obtain ⟨depth, hdepth⟩ := Nat.exists_eq_succ_of_ne_zero hne
  obtain ⟨habs', b, hb, hinside⟩ := TestName.resolve_steps (r.testsRoot layout) depth
    layout.testsDir layout.descriptorExt hname
  rw [h.testDir_eq]
  refine ⟨habs'.trans habs, names.map .name ++ b, ?_, ?_⟩
  · rw [hb, hsteps, hnames, List.append_assoc]
  · rwa [Store.inside_names_append, hdepth, Nat.zero_add]

end Accepted

/-- The directories of an accepted request exist. -/
theorem accepted_of_validate (hs : s.WellFormed)
    (h : validate s layout corpus output test = .ok r) :
    ∃ c o, s.find true corpus = .ok (c, .dir) ∧ s.find true output = .ok (o, .dir) ∧
      Accepted s layout r test c o := by
  unfold validate at h
  split at h
  · cases h
  · rename_i hdirs
    simp only [Bool.not_eq_true', Bool.not_eq_false, Bool.and_eq_true] at hdirs
    obtain ⟨c, hc⟩ := Store.exists_of_isDir hdirs.1.1
    have hcanonical : s.canonical corpus = .ok (Store.pathOf c) := by
      rw [Store.canonical, hc]
      rfl
    rw [hcanonical] at h
    simp only at h
    split at h
    · cases h
    · rename_i hout
      rw [Bool.not_eq_true', Bool.not_eq_false] at hout
      obtain ⟨o, ho⟩ := Store.exists_of_isDir hout
      have hcanonical' : s.canonical output = .ok (Store.pathOf o) := by
        rw [Store.canonical, ho]
        rfl
      rw [hcanonical'] at h
      simp only at h
      split at h
      · rename_i htest
        cases h
        exact ⟨c, o, hc, ho, rfl, rfl, rfl, Store.get?_of_find hs hc, Store.get?_of_find hs ho,
          htest⟩
      · cases h

/-- A request is accepted at the places that its two paths lead to. -/
lemma accepted_at (hs : s.WellFormed) (h : validate s layout corpus output test = .ok r)
    {c o : Location} (hcorpus : s.find true corpus = .ok (c, .dir))
    (houtput : s.find true output = .ok (o, .dir)) : Accepted s layout r test c o := by
  obtain ⟨c', o', hcorpus', houtput', hr⟩ := accepted_of_validate hs h
  obtain ⟨rfl, -⟩ := Prod.mk.inj (Except.ok.inj (hcorpus.symm.trans hcorpus'))
  obtain ⟨rfl, -⟩ := Prod.mk.inj (Except.ok.inj (houtput.symm.trans houtput'))
  exact hr

end Request

end Excerpt
