import Excerpt.Closure
import Excerpt.Proofs.Bridge

/-!
# What computing a closure does to the store

Whatever the outcome, computing a closure with an oracle that only reads leaves the store exactly
as it was: everything that is made is made in the scratch directory, which is taken away at the end.
-/

namespace Excerpt

open Store

/-- An oracle that leaves the store as it is. -/
def Oracle.ReadOnly (oracle : Oracle) : Prop := ∀ entries roots, Act.Reads (oracle entries roots)

/-- The oracle that names no file. -/
def Oracle.silent : Oracle := fun _ _ => return PathSet.empty

lemma Oracle.silent_readOnly : silent.ReadOnly := fun _ _ => Act.Reads.pure

/-- A host with nothing on it but places for scratch directories. -/
def Host.bare : Host where
  scratchDir := .ofText "/tmp/scratch".toList
  classDir := .ofText "/tmp/classes".toList
  environment := []
  date := []
  execute := fun _ _ _ => ⟨[], [], 0, []⟩

namespace Closure

variable {oracle : Oracle} {layout : Layout} {r : Request} {scratch : Path} {roots : SourceRoots}
  {s : Store} {root : Location} {good : Path → Prop} {settings : Settings}

/-! ### Trees of bridges -/

/-- The directories that bridges are made for. -/
def BridgeSource (layout : Layout) (r : Request) (p : Path) : Prop :=
  p = r.testDir ∨
  p ∈ ancestors (r.testsRoot layout) (r.testDir.bytes.length + 1) r.testDir.parent? ∨
  p = (r.srcRoot layout).joinText layout.testsDir

lemma isTree_tests (h : scratch.bytes ≠ []) :
    Bridge.IsTree scratch Scratch.testsName (scratch.joinText "tests".toList) :=
  Bridge.isTree_joinText h (by decide) Scratch.isName_testsName (Or.inl rfl)

lemma isTree_srcTests (h : scratch.bytes ≠ []) :
    Bridge.IsTree scratch Scratch.srcTestsName (scratch.joinText "src-tests".toList) :=
  Bridge.isTree_joinText h (by decide) Scratch.isName_srcTestsName (Or.inr rfl)

variable {sources : Path → Prop}

lemma bridgeTree_obeys {source dest : Path} {top : Bytes} (hdest : Bridge.IsTree scratch top dest)
    (hsource : sources source) :
    Act.Obeys (Scratch.Permits scratch (Bridge.Target sources))
      (bridgeTree layout source dest) := by
  unfold bridgeTree
  refine .bind (.makeDirs fun s q hq => ?_) fun _ => ?_
  · refine Bridge.permits_dir [] hdest (by simp) ?_ hq.2
    simpa using hq.1
  · exact .bind (Bridge.normalize_obeys hdest hsource) fun _ => Act.Reads.pure.obeys

lemma bridgeEach_obeys {dest : Path} {top : Bytes} {dirs : List Path}
    (hdest : Bridge.IsTree scratch top dest) (hdirs : ∀ d ∈ dirs, sources d) :
    Act.Obeys (Scratch.Permits scratch (Bridge.Target sources)) (bridgeEach layout dest dirs) := by
  induction dirs with
  | nil => exact Act.Reads.pure.obeys
  | cons d dirs ih =>
    exact .bind (Bridge.normalize_obeys hdest (hdirs d List.mem_cons_self))
      fun _ => ih fun d hd => hdirs d (List.mem_cons_of_mem _ hd)

lemma addBridgeRoots_obeys (h : scratch.bytes ≠ []) :
    Act.Obeys (Scratch.Permits scratch (Bridge.Target (BridgeSource layout r)))
      (addBridgeRoots layout r scratch roots) := by
  have htests := isTree_tests h
  unfold addBridgeRoots
  refine .bind (bridgeTree_obeys htests (Or.inl rfl)) fun _ => ?_
  refine .bind (bridgeEach_obeys htests fun d hd => Or.inr (Or.inl hd)) fun _ => ?_
  refine .bind Act.Reads.look.obeys fun _ => ?_
  split
  · exact .bind (bridgeTree_obeys (isTree_srcTests h) (Or.inr (Or.inr rfl)))
      fun _ => Act.Reads.pure.obeys
  · exact Act.Reads.pure.obeys

/-- Making the bridges keeps the shape of the scratch directory. -/
lemma addBridgeRoots_keeps (h : scratch.bytes ≠ [])
    (hgood : ∀ t target, Scratch s scratch root good t →
      Bridge.Target (BridgeSource layout r) t target → good target) :
    Act.Keeps (Scratch s scratch root good) (addBridgeRoots layout r scratch roots) :=
  (addBridgeRoots_obeys h).keeps (fun _ ht => ht.wellFormed)
    fun _ _ ht hrun => ht.run hgood hrun

/-! ### Questions -/

lemma ask_reads (ho : oracle.ReadOnly) {entries : List Path} :
    Act.Reads (ask oracle entries roots) :=
  Act.Reads.noteQuestion.bind fun _ => ho entries roots.toList

/-- Writing a stub and going on with its file. -/
lemma write_bind {α : Type} (name : Text) (f : Path → Act α) :
    (Stub.write scratch name >>= f) =
      Act.change (.writeStub (Stub.file scratch))
        (·.write (Stub.file scratch) (Utf8.encode (Stub.source name))) >>=
          fun _ => f (Stub.file scratch) := by
  rw [Stub.write, bind_assoc]
  simp only [pure_bind]

lemma askSources_keeps {inv : Store → Prop} {ps : List Path} {files : PathSet}
    (hask : ∀ entries, Act.Keeps inv (ask oracle entries roots)) :
    Act.Keeps inv (askSources oracle roots ps files) := by
  induction ps generalizing files with
  | nil => exact Act.Keeps.pure
  | cons p ps ih => exact (hask [p]).bind fun _ => ih

/-- Asking about classes keeps what writing and removing the stub and the questions keep. -/
lemma askClasses_keeps {inv : Store → Prop} {names : List Text} {files : PathSet}
    (hask : ∀ entries, Act.Keeps inv (ask oracle entries roots))
    (hwrite : ∀ t u content, inv t → t.write (Stub.file scratch) content = .ok u → inv u)
    (hremove : ∀ t u, inv t → t.removeFile (Stub.file scratch) = .ok u → inv u) :
    Act.Keeps inv (askClasses oracle roots scratch names files) := by
  induction names generalizing files with
  | nil => exact Act.Keeps.pure
  | cons name names ih =>
    rw [askClasses]
    rw [write_bind]
    refine .bind (.change fun t u ht hu => hwrite t u _ ht hu) fun _ =>
      .bind (hask _) fun found => ?_
    have hrest : Act.Keeps inv (do
        Stub.remove (Stub.file scratch)
        askClasses oracle roots scratch names (files.union found)) :=
      .bind (.change hremove) fun _ => ih
    split
    · exact .bind Act.Keeps.report fun _ => hrest
    · exact hrest

lemma reportResolved_reads {ps : List Path} : Act.Reads (reportResolved s ps) := by
  induction ps with
  | nil => exact Act.Reads.pure
  | cons p ps ih =>
    rw [reportResolved]
    split
    · exact Act.Reads.report.bind fun _ => ih
    · exact ih

lemma resolve_reads {files : PathSet} : Act.Reads (resolve files) :=
  Act.Reads.look.bind fun _ => reportResolved_reads.bind fun _ => Act.Reads.pure

/-- All work in the scratch directory keeps its shape. -/
theorem askAll_keeps (ho : oracle.ReadOnly) (h : scratch.bytes ≠ [])
    (hgood : ∀ t target, Scratch s scratch root good t →
      Bridge.Target (BridgeSource layout r) t target → good target)
    {found : Findings} {library : SourceRoots} :
    Act.Keeps (Scratch s scratch root good) (askAll oracle layout r found library scratch) := by
  have hwf : ∀ t, Scratch s scratch root good t → t.WellFormed := fun _ ht => ht.wellFormed
  unfold askAll
  refine .bind (addBridgeRoots_keeps h hgood) fun roots => ?_
  refine .bind (Act.Reads.report.keeps hwf) fun _ => ?_
  have hask : ∀ entries, Act.Keeps (Scratch s scratch root good) (ask oracle entries roots) :=
    fun _ => (ask_reads ho).keeps hwf
  refine .bind (askSources_keeps hask) fun files => ?_
  refine .bind (askClasses_keeps hask (fun t u content ht hwrite => ?_) fun t u ht hremove =>
    (ht.removeFile_stub hremove).2) fun files => resolve_reads.keeps hwf
  obtain ⟨_, -, -, -, hu⟩ := ht.write_stub hwrite
  exact hu

/-! ### Before the questions -/

lemma reportDangling_reads {page : Path} {links : List Text} :
    Act.Reads (addLinks.reportDangling page links) := by
  induction links with
  | nil => exact Act.Reads.pure
  | cons link links ih => exact Act.Reads.report.bind fun _ => ih

lemma addLinks_reads {sc : Scanner} {corpus : Path} {pages : List Path} {files : PathSet} :
    Act.Reads (addLinks sc corpus pages files) := by
  induction pages generalizing files with
  | nil => exact Act.Reads.pure
  | cons page pages ih =>
    exact Act.Reads.look.bind fun _ => reportDangling_reads.bind fun _ => ih

lemma findings_reads : Act.Reads (findings settings r) := by
  unfold findings
  refine Act.Reads.look.bind fun contents => Act.Reads.look.bind fun pages => ?_
  refine addLinks_reads.bind fun files => Act.Reads.look.bind fun scripts => ?_
  exact Act.Reads.look.bind fun names => Act.Reads.report.bind fun _ => Act.Reads.pure

/-- Computing a closure leaves the store as it was, however it ends. -/
theorem build_store (ho : oracle.ReadOnly) (h : Host) {w : World} (hw : w.store.WellFormed) :
    (build h settings oracle r w).2.store = w.store := by
  have hreads : Act.Reads (build h settings oracle r) := by
    unfold build
    refine findings_reads.bind fun found => Act.Reads.look.bind fun library => ?_
    refine Act.Reads.bind (fun v hv => ?_) fun _ => Act.Reads.pure
    exact Act.within_store hv fun hdir root => askAll_keeps ho hdir fun _ _ _ _ => trivial
  exact hreads w hw

end Closure

end Excerpt
