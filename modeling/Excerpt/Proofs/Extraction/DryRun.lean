import Excerpt.Proofs.Closure.Independence
import Excerpt.Proofs.Extraction.Copying
import Excerpt.Proofs.Store.Making

/-!
# What a dry run announces

A dry run and a real run of one request compute the same closure, although their scratch directories
have different names. So a dry run fails exactly if the closure phase of the real run does, and a
real run that succeeds has copied, file by file, what the dry run listed, and has copied the native
tree if the dry run reported native sources.

This needs what `Closure.Variation` asks of the names: where the walk over the tests among the library
sources comes to the scratch directory, a dry run lists a file that no real run can copy.
-/

namespace Excerpt

open Store

/-! ### Sets with the same files -/

/-- Two ordered sets with the same members go through them in the same order. -/
lemma PathSet.Ordered.forall₂_same {files files' : PathSet} (h : files.Ordered)
    (h' : files'.Ordered) (hsame : ∀ p, files'.contains p = files.contains p) :
    List.Forall₂ (fun p q => p.same q = true) files.toList files'.toList := by
  have hmem : ∀ {files : PathSet} {p : Path},
      files.contains p = true ↔ p.components ∈ files.toList.map Path.components := by
    intro files p
    simp only [contains_iff, List.mem_map, Path.same_eq_true]
  have hiff : ∀ c, c ∈ files.toList.map Path.components ↔
      c ∈ files'.toList.map Path.components := by
    intro c
    constructor
    · intro hc
      obtain ⟨p, -, rfl⟩ := List.mem_map.mp hc
      rwa [← hmem, hsame, hmem]
    · intro hc
      obtain ⟨p, -, rfl⟩ := List.mem_map.mp hc
      rwa [← hmem, ← hsame, hmem]
  have hsorted : ∀ {files : PathSet}, files.Ordered →
      (files.toList.map Path.components).Pairwise fun c d => Component.listBefore c d = true :=
    fun h => List.pairwise_map.mpr h
  have hne : ∀ {c d : List Component}, Component.listBefore c d = true → c ≠ d := by
    rintro c _ hcd rfl
    rw [Component.isStrictTotal_listBefore.irrefl] at hcd
    cases hcd
  have hperm : (files.toList.map Path.components).Perm (files'.toList.map Path.components) :=
    (List.perm_ext_iff_of_nodup ((hsorted h).imp hne) ((hsorted h').imp hne)).mpr hiff
  have heq := hperm.eq_of_pairwise (fun c d _ _ hcd hdc => by
    have hcc := Component.isStrictTotal_listBefore.trans _ _ _ hcd hdc
    rw [Component.isStrictTotal_listBefore.irrefl] at hcc
    cases hcc) (hsorted h) (hsorted h')
  rw [← List.forall₂_eq_eq_eq, List.forall₂_map_left_iff, List.forall₂_map_right_iff] at heq
  exact heq.imp fun _ _ hcomponents => Path.same_eq_true.mpr hcomponents

namespace Extraction

variable {layout : Layout} {settings : Settings} {oracle : Oracle}
  {answer : (entries roots : List Path) → Store → Except Failure PathSet} {host host' : Host}
  {r : Request} {c c' : Closure} {s s' t : Store} {tmp : Path} {a b : Bytes} {w w' v : World}
  {corpus output : Path} {files : List Path} {summary : Summary} {n : Nat}

/-! ### What a real run does after its closure is known -/

/-- Files of the corpus are copied one after the other: directories are made on the way to the
destination of a file, and then the file is copied there. -/
inductive CopiesInTurn (corpus output : Path) : List Path → Store → Store → Prop where
  | nil {s : Store} : CopiesInTurn corpus output [] s s
  | cons {s t u v : Store} {file dst : Path} {files : List Path} {origin l : Location}
      {content : Bytes} : Assembly.destination corpus output file = .ok dst →
      Runs (fun _ change => ∃ q, change = .dir q ∧ Over dst q) s t →
      Copies file dst origin l content t u → CopiesInTurn corpus output files u v →
      CopiesInTurn corpus output (file :: files) s v

lemma copiesInTurn_of_copyFiles (hw : w.store.WellFormed)
    (hcopy : Assembly.copyFiles corpus output files w = (.ok (), v)) :
    CopiesInTurn corpus output files w.store v.store ∧ v.store.WellFormed := by
  induction files generalizing w with
  | nil =>
    cases hcopy
    exact ⟨.nil, hw⟩
  | cons file files ih =>
    obtain ⟨dst, w₁, w₂, hfront, hdst, hfile, hback⟩ :=
      (copyFiles_ok hcopy : ∃ dst w₁ w₂, Assembly.copyFiles corpus output [] w = (.ok (), w₁) ∧ _)
    cases hfront
    obtain ⟨t, origin, l, content, hdirs, hcopies⟩ := copyFile_ok hw hfile
    have hw₂ := hcopies.changes.wellFormed (hdirs.wellFormed hw)
    obtain ⟨hrest, hv⟩ := ih hw₂ hback
    exact ⟨.cons hdst hdirs hcopies hrest, hv⟩

/-- The native tree is copied, with `n` files; afterwards its top is a directory of the output. -/
def CopiesNatives (layout : Layout) (r : Request) (n : Nat) (s t : Store) : Prop :=
  s.isDir (nativeDir layout r) = true ∧ t.isDir (nativeTop layout r) = true ∧
    ∃ w v : World, w.store = s ∧ v.store = t ∧ Assembly.copyNativeTree r.output layout.ignore
      (nativeDir layout r) layout.srcDir w = (.ok n, v)

/-- The change writes one of the two files that every output has. -/
def WritesHelper (r : Request) (_ : Store) (change : Change) : Prop :=
  change = .file (r.output.joinText "Makefile".toList) ∨
    change = .file (r.output.joinText "tryRun.sh".toList)

/-- A run from one store to the other did what was announced: it copied the announced files, each
once and in order, then the native tree if native sources were announced, and then it wrote the
files that every output has. -/
structure CarriesOut (layout : Layout) (r : Request) (plan : Closure) (summary : Summary)
    (s v : Store) : Prop where
  files : List.Forall₂ (fun p q => p.same q = true) plan.files.toList
    summary.closure.files.toList
  copied : summary.copied = plan.files.size
  hasNatives : summary.closure.hasNatives = plan.hasNatives
  phases : ∃ t u, CopiesInTurn r.corpus r.output summary.closure.files.toList s t ∧
    (plan.hasNatives = true → CopiesNatives layout r summary.natives t u) ∧
    (plan.hasNatives = false → summary.natives = 0 ∧ u = t) ∧ Runs (WritesHelper r) u v

lemma copiesNatives_of_run (hw : w.store.WellFormed) (houtput : r.output.isAbsolute = true)
    (hcopy : Assembly.copyNativeTree r.output layout.ignore (nativeDir layout r) layout.srcDir w =
      (.ok n, v)) : CopiesNatives layout r n w.store v.store := by
  obtain ⟨hdir, t, gs, es, u, hmake, -, hes, hentries, hv⟩ := copyNativeTree_ok hcopy
  refine ⟨hdir, ?_, w, v, rfl, rfl, hcopy⟩
  have htop : (nativeTop layout r).bytes ≠ [] := by
    refine Path.bytes_ne_nil_of_isAbsolute (Path.isAbsolute_join_of_left ?_ _)
    exact Path.isAbsolute_join_of_left houtput _
  have hmade := runs_makeDirs hw (nativeTop layout r)
  rw [hmake] at hmade
  have hruns := (copyEntries_obeys (c := ⟨⟨[]⟩, true⟩) (s := t) rfl fun e he => by
    obtain ⟨loc, hfind, names, -, hpath, node, hnode, -⟩ :=
      Walk.met_of_mem_entries (hmade.wellFormed hw) hes he
    exact ⟨names, hpath, loc, node, hfind, hnode⟩).of_run (w := { w with store := t })
      (hmade.wellFormed hw) hentries
  rw [hv]
  exact (hruns.extends (hmade.wellFormed hw)).isDir (isDir_of_makeDirs hw htop hmake)

lemma write_writesHelper {test : Text} {values : Reproducer.Values} :
    Act.Obeys (WritesHelper r) (Reproducer.write r.output test values) := by
  unfold Reproducer.write
  refine .bind (.change fun s t hs h => ?_) fun _ => .bind (.change fun s t hs h => ?_) fun _ =>
    .change fun s t hs h => ?_
  · exact .single (Or.inl rfl) (changes_of_write hs h)
  · exact .single (Or.inr rfl) (changes_of_write hs h)
  · rcases changes_of_setMode h with rfl | hchange
    · exact .refl _
    · exact .single (Or.inr rfl) hchange

/-- A run that succeeds carries out each plan with the files and the natives of its own closure. -/
lemma carriesOut_of_assemble (hw : w.store.WellFormed) (houtput : r.output.isAbsolute = true)
    (hordered : c.files.Ordered) (hordered' : c'.files.Ordered)
    (hnatives : c'.hasNatives = c.hasNatives)
    (hfiles : ∀ p, c'.files.contains p = c.files.contains p)
    (hrun : assemble host layout r c' w = (.ok summary, v)) :
    CarriesOut layout r c summary w.store v.store := by
  obtain ⟨hclosure, w₁, w₂, n, hcopy, hnative, hwrite, hcopied, hn⟩ := assemble_ok hrun
  obtain ⟨hturn, hw₁⟩ := copiesInTurn_of_copyFiles hw hcopy
  have hw₂ := (copyNatives_obeys.of_run hw₁ hnative).wellFormed hw₁
  have hforall := hordered.forall₂_same hordered' hfiles
  refine ⟨hclosure ▸ hforall, ?_, hclosure ▸ hnatives, w₁.store, w₂.store, hclosure ▸ hturn,
    fun hyes => ?_, fun hno => ?_, write_writesHelper.of_run hw₂ hwrite⟩
  · rw [hcopied, PathSet.size, PathSet.size, hforall.length_eq]
  · rw [copyNatives, if_pos (hnatives.trans hyes)] at hnative
    exact hn ▸ copiesNatives_of_run hw₁ houtput hnative
  · rw [copyNatives, hnatives, hno] at hnative
    cases hnative
    exact ⟨hn, rfl⟩

/-! ### Both runs -/

/-- Two runs compute the same closure, whatever was done before. -/
lemma build_endAlike (h : Closure.Variation settings r tmp a b s s' host host')
    (ho : oracle.AnswersBy answer) (halike : AnswersAlike answer s s' tmp a b)
    (hstores : Closure.Unchanged s s' w.store w'.store) (hquestions : w.questions = [])
    (hquestions' : w'.questions = []) :
    Act.EndAlike (fun c c' : Closure => c'.hasNatives = c.hasNatives ∧
        ∀ p, c'.files.contains p = c.files.contains p)
      (Closure.build host settings oracle r w).1 (Closure.build host' settings oracle r w').1 := by
  have hQ : List.Forall₂ (Question.Moved s s' tmp a b) w.questions w'.questions := by
    rw [hquestions, hquestions']
    exact .nil
  have hbuild := Closure.lockstep_from (Q := Question.Moved s s' tmp a b)
    (R := fun c c' : Closure => c'.hasNatives = c.hasNatives ∧
      ∀ p, c'.files.contains p = c.files.contains p)
    (f := Closure.askAll oracle settings.layout r)
    (g := fun found files => ⟨files, found.contents.hasNatives settings.layout⟩) h hstores hQ
    fun found library d w w' hprepared hfresh hr hQ =>
      (Closure.askAll_lockstep ho halike hfresh hr hprepared hQ).mono (fun _ _ h => h)
        fun _ _ hfiles => ⟨rfl, hfiles⟩
  exact hbuild.endAlike

/-- A dry run tells the truth about a real run. It fails or succeeds as the closure phase of the
real run does, with the same files and with native sources or not, and leaves the store as it was;
and if the real run succeeds, so does the dry run, and what it announced was carried out. -/
theorem dryRun_announces (h : Closure.Variation settings r tmp a b s s' host host')
    (houtput : r.output.isAbsolute = true) (ho : oracle.AnswersBy answer)
    (halike : AnswersAlike answer s s' tmp a b) :
    Act.EndAlike (fun (plan : Summary) c => c.hasNatives = plan.closure.hasNatives ∧
        ∀ p, c.files.contains p = plan.closure.files.contains p)
      (run host settings oracle true r (.ofStore s)).1
      (Closure.build host' settings oracle r (warnMissing r (.ofStore s')).2).1 ∧
    (run host settings oracle true r (.ofStore s)).2.store = s ∧
    ∀ summary v, run host' settings oracle false r (.ofStore s') = (.ok summary, v) →
      ∃ plan, (run host settings oracle true r (.ofStore s)).1 = .ok plan ∧
        CarriesOut settings.layout r plan.closure summary s' v.store := by
  have hs := h.wellFormed
  have hs' := h.rearranged.wellFormed hs
  have hread := ho.readOnly
  obtain ⟨v, hv, hdry⟩ := run_eq host settings hread true r (w := .ofStore s) hs
  have hwarned : (warnMissing r (.ofStore s)).2.store = s := warnMissing_reads _ hs
  have hwarned' : (warnMissing r (.ofStore s')).2.store = s' := warnMissing_reads _ hs'
  have hends := build_endAlike h ho halike ⟨hwarned, hwarned'⟩ (warnMissing_quiet _)
    (warnMissing_quiet _)
  -- What the real run computed is an ordered set, and so is what the dry run lists.
  rcases hplan : Closure.build host settings oracle r (warnMissing r (.ofStore s)).2 with ⟨x, u⟩
  rcases hreal : Closure.build host' settings oracle r (warnMissing r (.ofStore s')).2 with ⟨y, u'⟩
  rw [hplan, hreal] at hends
  rw [hplan] at hdry
  cases hends with
  | error =>
    refine ⟨by rw [hdry]; exact .error, by rw [hdry]; exact hv, fun summary v' hrun => ?_⟩
    obtain ⟨w₁, -, ⟨w₂, hbuild⟩, -⟩ := run_ok hread (w := .ofStore s') hs' hrun
    rw [hreal] at hbuild
    cases hbuild
  | @ok c c' hsame =>
    refine ⟨by rw [hdry]; exact .ok hsame, by rw [hdry]; exact hv, fun summary v' hrun => ?_⟩
    refine ⟨⟨c, 0, 0⟩, by rw [hdry]; rfl, ?_⟩
    obtain ⟨w₁, hw₁, ⟨w₂, hbuild⟩, hassemble⟩ := run_ok hread (w := .ofStore s') hs' hrun
    have hclosure : summary.closure = c' := by
      rw [hreal] at hbuild
      cases hbuild
      rfl
    rw [hclosure] at hassemble
    have hstore : w₁.store = s' := hw₁
    rw [← hstore]
    refine carriesOut_of_assemble (hstore ▸ hs') houtput ?_ ?_ hsame.1 hsame.2 hassemble
    · exact ordered_of_build hread (hwarned.symm ▸ hs) hplan
    · exact ordered_of_build hread (hwarned'.symm ▸ hs') hreal

/-! ### Samples -/

open Closure in
set_option maxRecDepth 10000 in
/-- A dry run for the test of `mirrorStore` announces the one file that a real run copies. -/
theorem dryRun_mirrorStore :
    Variation .default scriptRequest scratchPlace firstName secondName (mirrorStore .dir)
        (mirroredStore .dir) (hostNaming firstName) (hostNaming secondName) ∧
      AnswersAlike (fun _ _ => linksIn scratchPlace (mirrorBridge Scratch.testsName))
        (mirrorStore .dir) (mirroredStore .dir) scratchPlace firstName secondName ∧
      (run (hostNaming firstName) .default (mirrorOracle Scratch.testsName) true scriptRequest
        (.ofStore (mirrorStore .dir))).1 = .ok ⟨mirrorClosure, 0, 0⟩ ∧
      ∃ v, run (hostNaming secondName) .default (mirrorOracle Scratch.testsName) false scriptRequest
          (.ofStore (mirroredStore .dir)) = (.ok ⟨mirrorClosure, 1, 0⟩, v) ∧
        CarriesOut Layout.default scriptRequest mirrorClosure ⟨mirrorClosure, 1, 0⟩
          (mirroredStore .dir) v.store := by
  have hvariation := variation_mirrorStore
  have halike := mirrorOracle_answersAlike hvariation.wellFormed hvariation.rearranged (Or.inl rfl)
    (by decide +kernel)
  have hdry : (run (hostNaming firstName) .default (mirrorOracle Scratch.testsName) true
      scriptRequest (.ofStore (mirrorStore .dir))).1 = .ok ⟨mirrorClosure, 0, 0⟩ := by decide +kernel
  have hreal : (run (hostNaming secondName) .default (mirrorOracle Scratch.testsName) false
      scriptRequest (.ofStore (mirroredStore .dir))).1 = .ok ⟨mirrorClosure, 1, 0⟩ := by
    decide +kernel
  obtain ⟨-, -, hcarries⟩ :=
    dryRun_announces hvariation (by decide) (mirrorOracle_answersBy _) halike
  obtain ⟨plan, hplan, hdone⟩ := hcarries _ _ (Act.run_eq_of_fst hreal)
  rw [hdry, Except.ok.injEq] at hplan
  subst hplan
  exact ⟨hvariation, halike, hdry, _, Act.run_eq_of_fst hreal, hdone⟩

open Closure in
set_option maxRecDepth 10000 in
/-- If the tests among the library sources are a link to the place of the scratch directory, a dry
run lists a file in its own scratch directory, which a real run does not have. -/
theorem dryRun_lists_scratch :
    (mirrorStore (.link scratchPlace)).WellFormed ∧
      (mirrorOracle Scratch.srcTestsName).AnswersBy
        (fun _ _ => linksIn scratchPlace (mirrorBridge Scratch.srcTestsName)) ∧
      AnswersAlike (fun _ _ => linksIn scratchPlace (mirrorBridge Scratch.srcTestsName))
        (mirrorStore (.link scratchPlace)) (mirrorStore (.link scratchPlace)) scratchPlace firstName
        secondName ∧
      ∃ plan c, (run (hostNaming firstName) .default (mirrorOracle Scratch.srcTestsName) true
          scriptRequest (.ofStore (mirrorStore (.link scratchPlace)))).1 = .ok plan ∧
        (Closure.build (hostNaming secondName) .default (mirrorOracle Scratch.srcTestsName)
          scriptRequest (warnMissing scriptRequest
            (.ofStore (mirrorStore (.link scratchPlace)))).2).1 = .ok c ∧
        plan.closure.files.contains leakedPath = true ∧ c.files.contains leakedPath = false := by
  have hs : (mirrorStore (.link scratchPlace)).WellFormed := by decide +kernel
  have hruns : (run (hostNaming firstName) .default (mirrorOracle Scratch.srcTestsName) true
        scriptRequest (.ofStore (mirrorStore (.link scratchPlace)))).1 =
          .ok ⟨⟨⟨[leakedPath, .ofText "/jck/tests/t/T.java".toList]⟩, false⟩, 0, 0⟩ ∧
      (Closure.build (hostNaming secondName) .default (mirrorOracle Scratch.srcTestsName)
        scriptRequest (warnMissing scriptRequest
          (.ofStore (mirrorStore (.link scratchPlace)))).2).1 =
          .ok ⟨⟨[.ofText "/jck/src/tests/two/tests/p/T.java".toList,
            .ofText "/jck/tests/t/T.java".toList]⟩, false⟩ := by decide +kernel
  exact ⟨hs, mirrorOracle_answersBy _, mirrorOracle_answersAlike hs ⟨.refl _, rfl, rfl⟩ (Or.inr rfl)
    (by decide +kernel), _, _, hruns.1, hruns.2, by decide +kernel, by decide +kernel⟩

end Extraction

end Excerpt
