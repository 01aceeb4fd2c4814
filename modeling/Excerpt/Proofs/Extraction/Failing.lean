import Excerpt.Proofs.Extraction.Delivery

/-!
# Extractions that fail

A run whose closure cannot be computed fails with the same failure, and leaves the store alone. The
other reasons to fail are noticed late: that a file of the closure is outside of the corpus when it
is its turn to be copied, and that there is no directory of native sources after the whole closure
was copied. What was copied before stays, and `run_leaves_copies` shows such a run.
-/

namespace Excerpt

open Store

namespace Extraction

variable {α β : Type} {layout : Layout} {settings : Settings} {h : Host} {oracle : Oracle}
  {r : Request} {test : Text} {c : Closure} {s t : Store} {w v : World} {files front back : List Path}
  {file : Path} {failure : Failure} {root output : Location}

/-! ### What copying may do -/

/-- Copying these files writes to their destinations, and makes directories on the way. -/
def CopyPermits (r : Request) (files : List Path) (_ : Store) : Change → Prop
  | .dir q => ∃ file ∈ files, ∃ dst,
      Assembly.destination r.corpus r.output file = .ok dst ∧ Over dst q
  | .file p => ∃ file ∈ files, Assembly.destination r.corpus r.output file = .ok p
  | .link .. => False

lemma copyFiles_copyPermits :
    Act.Obeys (CopyPermits r files) (Assembly.copyFiles r.corpus r.output files) :=
  copyFiles_obeys (fun file hfile dst hdst _ _ hq => ⟨file, hfile, dst, hdst, hq⟩)
    fun file hfile _ hdst _ => ⟨file, hfile, hdst⟩

lemma CopyPermits.permits {change : Change} (hpermits : CopyPermits r c.files.toList s change) :
    Permits layout r c s change := by
  cases change with
  | dir q =>
    obtain ⟨file, hfile, dst, hdst, hq⟩ := hpermits
    exact ⟨dst, .closure hfile hdst, hq⟩
  | file p =>
    obtain ⟨file, hfile, hdst⟩ := hpermits
    exact .closure hfile hdst
  | link => exact hpermits.elim

/-- Without a file to copy nothing happens. -/
lemma eq_of_runs_nil (hrun : Runs (CopyPermits r []) s t) : t = s := by
  induction hrun with
  | refl => rfl
  | tail _ hlast _ =>
    obtain ⟨change, hpermits, -⟩ := hlast
    cases change with
    | dir | file =>
      obtain ⟨file, hfile, -⟩ := hpermits
      cases hfile
    | link => exact hpermits.elim

/-! ### Failing after some copies -/

/-- The action fails with this failure, unless copying the files fails before that; whichever it
is, it does nothing else than copying these files. -/
def FailsAfter (r : Request) (files : List Path) (failure : Failure) (a : Act α) (w : World) :
    Prop :=
  ∃ e, (a w).1 = .error e ∧
    (e = failure ∨ ∃ v : World, v.store = w.store ∧
      (Assembly.copyFiles r.corpus r.output files v).1 = .error e) ∧
    Runs (CopyPermits r files) w.store (a w).2.store

/-- An action that fails without copying anything leaves the store as it is. -/
lemma FailsAfter.nil {a : Act α} (ha : FailsAfter r [] failure a w) :
    (a w).1 = .error failure ∧ (a w).2.store = w.store := by
  obtain ⟨e, hfail, rfl | ⟨v, -, hcopy⟩, hrun⟩ := ha
  · exact ⟨hfail, eq_of_runs_nil hrun⟩
  · cases hcopy

lemma FailsAfter.bind {a : Act α} {f : α → Act β} (ha : FailsAfter r files failure a w) :
    FailsAfter r files failure (a >>= f) w := by
  obtain ⟨e, hfail, hwhy, hrun⟩ := ha
  have hbind : (a >>= f) w = (.error e, (a w).2) := by
    rw [Act.run_bind, Act.run_eq_of_fst hfail]
  exact ⟨e, by rw [hbind], hwhy, by rw [hbind]; exact hrun⟩

/-- What stands behind copies is only reached if they succeed. -/
lemma FailsAfter.of_copyFiles {f : Unit → Act β} (hw : w.store.WellFormed)
    (hf : ∀ v, Assembly.copyFiles r.corpus r.output files w = (.ok (), v) →
      (f () v).1 = .error failure ∧ (f () v).2.store = v.store) :
    FailsAfter r files failure (Assembly.copyFiles r.corpus r.output files >>= f) w := by
  have hrun : Runs (CopyPermits r files) w.store
      (Assembly.copyFiles r.corpus r.output files w).2.store := copyFiles_copyPermits w hw
  unfold FailsAfter
  rw [Act.run_bind]
  rcases hcopy : Assembly.copyFiles r.corpus r.output files w with ⟨e | _, v⟩
  · rw [hcopy] at hrun
    exact ⟨e, rfl, Or.inr ⟨w, rfl, by rw [hcopy]⟩, hrun⟩
  · rw [hcopy] at hrun
    obtain ⟨hfail, hstore⟩ := hf v hcopy
    exact ⟨failure, hfail, Or.inl rfl, hstore ▸ hrun⟩

/-- A file that is outside of the corpus is noticed when it is its turn. -/
lemma copyFiles_outside (hw : w.store.WellFormed) (houtside : file.startsWith r.corpus = false) :
    FailsAfter r front (.outsideCorpus file r.corpus)
      (Assembly.copyFiles r.corpus r.output (front ++ file :: back)) w := by
  have hdst : Assembly.destination r.corpus r.output file =
      .error (.outsideCorpus file r.corpus) := by
    have hnone : file.strip? r.corpus = none := by
      rw [← Option.isNone_iff_eq_none, ← Option.not_isSome, Path.strip?_isSome, houtside]
      rfl
    rw [Assembly.destination, hnone]
  rw [Assembly.copyFiles_append]
  refine .of_copyFiles hw fun v _ => ?_
  rw [Assembly.copyFiles, Act.run_bind, Act.run_look, hdst]
  exact ⟨rfl, rfl⟩

/-- That there is no directory of native sources is noticed before any of them is copied. -/
lemma copyNatives_missing (hnatives : c.hasNatives = true)
    (hmissing : w.store.isDir (nativeDir layout r) = false) :
    (copyNatives layout r c w).1 = .error (.noNativeDir (nativeDir layout r)) ∧
      (copyNatives layout r c w).2.store = w.store := by
  have hlook : w.store.isDir ((r.srcRoot layout).joinText layout.nativeDir) = false := hmissing
  unfold copyNatives Assembly.copyNativeTree
  rw [if_pos hnatives, Act.run_bind, Act.run_look, hlook]
  exact ⟨rfl, rfl⟩

/-! ### A directory of native sources that stays missing -/

/-- A directory of native sources that is missing stays missing, if the output is apart from the
corpus, there are no links in them, and no file of the closure climbs. -/
lemma isDir_nativeDir_of_apart (hs : s.WellFormed) (hlayout : layout.IsPlain)
    (hr : Request.Accepted s layout r test root output) (hapart : Apart root output)
    (hfree : LinkFree s (root <+: ·)) (houtputFree : LinkFree s (output <+: ·))
    (hclosure : c.StaysBeneath r.corpus) (hmissing : s.isDir (nativeDir layout r) = false)
    (hrun : Runs (CopyPermits r c.files.toList) s t) : t.isDir (nativeDir layout r) = false := by
  have hstart : Confined root output s s :=
    ⟨hr.corpusDir, hr.outputDir, hfree, houtputFree, fun _ _ => rfl⟩
  have hconfined := hstart.run hs hlayout hs hr hclosure
    (hrun.mono fun _ _ hpermits => hpermits.permits)
  obtain ⟨hcorpus, hsteps⟩ := hr.corpus_steps hs
  obtain ⟨hdir, a, ha, hparent⟩ := nativeDir_steps hlayout hcorpus
  have hbeneath : GoesBeneath root (nativeDir layout r) a :=
    .of_inside hdir (by rw [ha, hsteps]) (inside_of_notMem hparent)
  have heq := hconfined.find_eq hs hapart hr.corpusDir hfree hbeneath true
  rw [Bool.eq_false_iff] at hmissing ⊢
  intro hnow
  obtain ⟨d, hd⟩ := exists_of_isDir hnow
  exact hmissing (isDir_of_find (heq ▸ hd))

/-! ### The whole run -/

/-- A real run fails as its assembling does. -/
lemma FailsAfter.of_assemble (ho : oracle.ReadOnly) (hw : w.store.WellFormed)
    (hbuild : (Closure.build h settings oracle r (warnMissing r w).2).1 = .ok c)
    (hassemble : ∀ v : World, v.store = w.store →
      FailsAfter r files failure (assemble h settings.layout r c) v) :
    FailsAfter r files failure (run h settings oracle false r) w := by
  obtain ⟨v, hv, hrun⟩ := run_eq h settings ho false r hw
  rw [hbuild] at hrun
  have hassembled : run h settings oracle false r w = assemble h settings.layout r c v := hrun
  obtain ⟨e, hfail, hwhy, hruns⟩ := hassemble v hv
  refine ⟨e, by rw [hassembled, hfail], ?_, ?_⟩
  · rwa [hv] at hwhy
  · rwa [hassembled, ← hv]

/-- A run whose closure cannot be computed fails and leaves the store as it was. A real run also
fails if its closure has a file outside of the corpus, and if its directory of native sources is
missing and copying does not make it; then it has done nothing else than copying the files before
that one, or those of the closure. -/
theorem run_fails (h : Host) (settings : Settings) (ho : oracle.ReadOnly) (r : Request)
    (hw : w.store.WellFormed) :
    (∀ e, (Closure.build h settings oracle r (warnMissing r w).2).1 = .error e →
      ∀ dryRun, (run h settings oracle dryRun r w).1 = .error e ∧
        (run h settings oracle dryRun r w).2.store = w.store) ∧
    ∀ c, (Closure.build h settings oracle r (warnMissing r w).2).1 = .ok c →
      (∀ front file back, c.files.toList = front ++ file :: back →
        file.startsWith r.corpus = false →
        FailsAfter r front (.outsideCorpus file r.corpus)
          (run h settings oracle false r) w) ∧
      (c.hasNatives = true →
        (∀ t, Runs (CopyPermits r c.files.toList) w.store t →
          t.isDir (nativeDir settings.layout r) = false) →
        FailsAfter r c.files.toList (.noNativeDir (nativeDir settings.layout r))
          (run h settings oracle false r) w) := by
  refine ⟨fun e he dryRun => ?_, fun c hc => ⟨fun front file back hsplit houtside => ?_,
    fun hnatives hmissing => ?_⟩⟩
  · obtain ⟨v, hv, hrun⟩ := run_eq h settings ho dryRun r hw
    rw [he] at hrun
    exact ⟨by rw [hrun], by rw [hrun]; exact hv⟩
  · refine .of_assemble ho hw hc fun v hv => ?_
    unfold assemble Assembly.copyClosure
    rw [hsplit]
    exact (copyFiles_outside (hv ▸ hw) houtside).bind.bind
  · refine .of_assemble ho hw hc fun v hv => ?_
    unfold assemble Assembly.copyClosure
    simp only [bind_assoc, pure_bind]
    refine .of_copyFiles (hv ▸ hw) fun v' hcopy => ?_
    have hcopied : Runs (CopyPermits r c.files.toList) w.store v'.store :=
      hv ▸ copyFiles_copyPermits.of_run (hv ▸ hw) hcopy
    obtain ⟨hfail, hstore⟩ := copyNatives_missing hnatives (hmissing _ hcopied)
    rw [Act.run_bind, Act.run_eq_of_fst hfail]
    exact ⟨rfl, hstore⟩

/-! ### Samples -/

/-- A corpus with a test that has native sources, and without a directory of native sources. -/
def lackingStore : Store where
  entries :=
    [(locationOf ["w"], .dir), (locationOf ["w", "jck"], .dir),
      (locationOf ["w", "jck", "src"], .dir), (locationOf ["w", "jck", "tests"], .dir),
      (locationOf ["w", "jck", "tests", "t"], .dir),
      (locationOf ["w", "jck", "tests", "t", "n.c"], .file [110, 10] plainMode ⟨0, 0⟩),
      (locationOf ["w", "out"], .dir), (locationOf ["w", "side"], .dir),
      (locationOf ["w", "side", "z.txt"], .file [122] plainMode ⟨0, 0⟩), (locationOf ["tmp"], .dir)]
  cwd := []
  clock := ⟨1, 0⟩

/-- The same corpus with a link out of it beside the native source. -/
def strayStore : Store where
  entries := lackingStore.entries ++
    [(locationOf ["w", "jck", "tests", "t", "z.txt"], .link (.ofText "/w/side/z.txt".toList))]
  cwd := []
  clock := ⟨1, 0⟩

/-- The request for the test of these stores. -/
def lackingRequest : Request where
  corpus := .ofText "/w/jck".toList
  output := .ofText "/w/out".toList
  testDir := .ofText "/w/jck/tests/t".toList
  testArg := "t".toList
  missingDescriptor := none

/-- The native source of the test. -/
def lackingFile : Path := .ofText "/w/jck/tests/t/n.c".toList

/-- What is behind the link out of the corpus. -/
def strayFile : Path := .ofText "/w/side/z.txt".toList

set_option maxRecDepth 10000 in
lemma run_lacking :
    Request.validate lackingStore .default (.ofText "/w/jck".toList) (.ofText "/w/out".toList)
        "t".toList = .ok lackingRequest ∧
      lackingStore.WellFormed ∧ lackingStore.names (locationOf ["w", "out"]) = [] ∧
      (Closure.build .bare .default .silent lackingRequest
          (warnMissing lackingRequest (.ofStore lackingStore)).2).1 = .ok ⟨⟨[lackingFile]⟩, true⟩ ∧
      lackingStore.isDir (nativeDir Layout.default lackingRequest) = false ∧
      (run .bare .default .silent false lackingRequest (.ofStore lackingStore)).1 =
        .error (.noNativeDir (.ofText "/w/jck/src/share".toList)) ∧
      (run .bare .default .silent false lackingRequest (.ofStore lackingStore)).2.store.get?
        (locationOf ["w", "out", "tests", "t", "n.c"]) = some (.file [110, 10] plainMode ⟨0, 0⟩) := by
  decide +kernel

/-- Without a directory of native sources an extraction fails after it copied the closure, although
there was nothing in the output before. -/
theorem run_leaves_copies :
    Request.validate lackingStore .default (.ofText "/w/jck".toList) (.ofText "/w/out".toList)
        "t".toList = .ok lackingRequest ∧
      lackingStore.WellFormed ∧ Oracle.silent.ReadOnly ∧
      lackingStore.isDir (nativeDir Layout.default lackingRequest) = false ∧
      lackingStore.names (locationOf ["w", "out"]) = [] ∧
      (run .bare .default .silent false lackingRequest (.ofStore lackingStore)).1 =
        .error (.noNativeDir (.ofText "/w/jck/src/share".toList)) ∧
      (run .bare .default .silent false lackingRequest (.ofStore lackingStore)).2.store.get?
        (locationOf ["w", "out", "tests", "t", "n.c"]) = some (.file [110, 10] plainMode ⟨0, 0⟩) := by
  obtain ⟨hvalid, hs, hempty, -, hmissing, hfails, hleft⟩ := run_lacking
  exact ⟨hvalid, hs, Oracle.silent_readOnly, hmissing, hempty, hfails, hleft⟩

set_option maxRecDepth 10000 in
lemma build_stray :
    strayStore.WellFormed ∧
      (Closure.build .bare .default .silent lackingRequest
          (warnMissing lackingRequest (.ofStore strayStore)).2).1 =
        .ok ⟨⟨[lackingFile, strayFile]⟩, true⟩ ∧
      strayFile.startsWith lackingRequest.corpus = false := by
  decide +kernel

/-- Both late reasons to fail, after the native source was copied. -/
theorem run_lackingRequest_fails :
    lackingStore.WellFormed ∧ strayStore.WellFormed ∧ Oracle.silent.ReadOnly ∧
      FailsAfter lackingRequest [lackingFile] (.noNativeDir (nativeDir Layout.default lackingRequest))
        (run .bare .default .silent false lackingRequest) (.ofStore lackingStore) ∧
      FailsAfter lackingRequest [lackingFile] (.outsideCorpus strayFile lackingRequest.corpus)
        (run .bare .default .silent false lackingRequest) (.ofStore strayStore) := by
  obtain ⟨hvalid, hs, -, hbuild, hmissing, -, -⟩ := run_lacking
  obtain ⟨hs', hbuild', houtside⟩ := build_stray
  have hr : Request.Accepted lackingStore Layout.default lackingRequest "t".toList
      (locationOf ["w", "jck"]) (locationOf ["w", "out"]) :=
    Request.accepted_at hs hvalid (by decide +kernel) (by decide +kernel)
  have hstays : (Closure.mk ⟨[lackingFile]⟩ true).StaysBeneath lackingRequest.corpus := by
    intro file hfile rel hrel
    rw [List.mem_singleton] at hfile
    subst hfile
    have hstrip : lackingFile.strip? lackingRequest.corpus = some (.ofText "tests/t/n.c".toList) := by
      decide +kernel
    rw [hstrip, Option.some.injEq] at hrel
    subst hrel
    exact inside_of_forall (by decide +kernel)
  refine ⟨hs, hs', Oracle.silent_readOnly, ?_, ?_⟩
  · refine ((run_fails .bare .default Oracle.silent_readOnly lackingRequest
      (w := .ofStore lackingStore) hs).2 _ hbuild).2 rfl fun t ht => ?_
    exact isDir_nativeDir_of_apart hs Layout.isPlain_default hr (by decide)
      (linkFree_of_entries (by decide)) (linkFree_of_entries (by decide)) hstays hmissing ht
  · exact ((run_fails .bare .default Oracle.silent_readOnly lackingRequest
      (w := .ofStore strayStore) hs').2 _ hbuild').1 [lackingFile] strayFile [] rfl houtside

end Extraction

end Excerpt
