import Excerpt.Compiler
import Excerpt.Proofs.Actions
import Excerpt.Proofs.Text.Lines
import Excerpt.Proofs.Trace.Monitor

/-!
# What a compiler's answer consists of

Discovery starts the compiler, decodes what it printed and watches the lines. `discover_records`
says that the answer consists of exactly the files that some line of either stream announces. So it
depends neither on the order of the lines nor on the stream that they are on, nor on lines that
announce nothing, nor on the exit status; more lines can only add files.
-/

namespace Excerpt

/-! ### Announcing lines -/

namespace TraceEvent

/-- A carriage return at the end of a line is not looked at. -/
lemma parse_append_return (t : Text) : parse (t ++ ['\r']) = parse t := by
  rw [parse, parse, Text.trim_append_blank (by decide)]

end TraceEvent

namespace Watch

/-- The line says that an object is opened which counts: one that is parsed, or a source that is
loaded, beneath a source root and none of the units that are compiled. -/
def Announces (w : Watch) (line : Text) (o : FileObject) : Prop :=
  (TraceEvent.parse line = .parsingStarted o ∨
    (TraceEvent.parse line = .loading o ∧ o.isSource w.sourceExt = true)) ∧
  o.claimedBy w.roots = true ∧ ∀ e ∈ w.entries, (FileObject.plain e).sameFile o = false

variable {w : Watch} {line : Text} {o : FileObject}

lemma opened?_eq_some {e : TraceEvent} : Monitor.opened? w e = some o ↔
    e = .parsingStarted o ∨ (e = .loading o ∧ o.isSource w.sourceExt = true) := by
  cases e with
  | parsingStarted d => simp [Monitor.opened?]
  | loading d =>
    simp only [Monitor.opened?, Option.ite_none_right_eq_some, Option.some.injEq, reduceCtorEq,
      TraceEvent.loading.injEq, false_or]
    constructor
    · rintro ⟨h, rfl⟩
      exact ⟨rfl, h⟩
    · rintro ⟨rfl, h⟩
      exact ⟨h, rfl⟩
  | sourcePath => simp [Monitor.opened?]
  | classPath => simp [Monitor.opened?]
  | other => simp [Monitor.opened?]

/-- A monitor adds the files that are announced. -/
lemma addition?_parse {p : Path} : Monitor.addition? w (TraceEvent.parse line) = some p ↔
    ∃ o, w.Announces line o ∧ o.path = p := by
  rw [Monitor.addition?_eq_some]
  refine exists_congr fun o => ?_
  rw [opened?_eq_some, Announces, ← and_assoc]
  refine and_congr_left fun _ => and_congr_right fun _ => ?_
  simp [Monitor.counts]

lemma announces_append_return (line : Text) (o : FileObject) :
    w.Announces (line ++ ['\r']) o ↔ w.Announces line o := by
  rw [Announces, Announces, TraceEvent.parse_append_return]

lemma not_announces_nil (o : FileObject) : ¬ w.Announces [] o := by
  have hnil : TraceEvent.parse [] = .other := by decide
  rintro ⟨h, -⟩
  rw [hnil] at h
  simp at h

/-- A line of decoded bytes announces something exactly if a piece of the bytes does. -/
lemma exists_announces_lossy {q : FileObject → Prop} (bs : Bytes) :
    (∃ line ∈ Text.lines (Utf8.lossy bs), ∃ o, w.Announces line o ∧ q o) ↔
      ∃ piece ∈ Text.splitOn (· == Utf8.newline) bs, ∃ o, w.Announces (Utf8.lossy piece) o ∧ q o := by
  rw [Text.exists_mem_lines (q := fun line => ∃ o, w.Announces line o ∧ q o),
    Utf8.splitOn_lossy]
  · simp only [List.mem_map, exists_exists_and_eq_and]
  · exact fun t => exists_congr fun o => by rw [announces_append_return]
  · rintro ⟨o, h, -⟩
    exact not_announces_nil o h

end Watch

/-! ### Compiling -/

namespace Program

variable {h : Host} {why : Fault → Failure} {program : Path} {arguments : List Bytes} {w : World}

/-- Starting a program answers with what the program does, if it is found. -/
lemma fst_run_ok {file : Path} (hfile : locate w.store (h.get? "PATH") program = .ok file) :
    (run h why program arguments w).1 = .ok (h.execute w.store file arguments) := by
  rw [run, Act.run_bind, Act.run_look, hfile]
  rfl

lemma fst_run_error {fault : Fault}
    (hfile : locate w.store (h.get? "PATH") program = .error fault) :
    (run h why program arguments w).1 = .error (why fault) := by
  rw [run, Act.run_bind, Act.run_look, hfile]
  rfl

lemma keepWritten_answers {dir : Path} {result : ProgramResult} :
    Act.Answers (keepWritten dir result) () := by
  intro w
  unfold keepWritten
  split <;> rfl

end Program

namespace Compiler

variable {c : Compiler} {h : Host} {entries roots : List Path} {w : World} {s : Store}
  {result : ProgramResult} {found : PathSet}

/-- What the compiler prints when it is started for some entry units. -/
def Prints (c : Compiler) (h : Host) (entries roots : List Path) (s : Store)
    (result : ProgramResult) : Prop :=
  ∃ t sourcePath file, s.makeDir h.classDir = .ok t ∧ sourcePath? roots = some sourcePath ∧
    Program.locate t (h.get? "PATH") c.program = .ok file ∧
    h.execute t file (c.arguments h.classDir sourcePath entries) = result

/-- The lines that were printed, as bytes, on either stream. -/
def printedLines (result : ProgramResult) : List Bytes :=
  Text.splitOn (· == Utf8.newline) result.stderr ++ Text.splitOn (· == Utf8.newline) result.stdout

/-- The line was printed on one of the streams, and announces an object that counts. -/
def Announced (watch : Watch) (result : ProgramResult) (line : Bytes) : Prop :=
  line ∈ printedLines result ∧ ∃ o, watch.Announces (Utf8.lossy line) o

lemma fst_reportEach (level : Log.Level) (target message field : String) (ps : List Path)
    (w : World) : (reportEach level target message field ps w).1 = .ok () := by
  induction ps generalizing w with
  | nil => rfl
  | cons p ps ih => exact ih _

/-- Compiling answers with what a monitor notes, if the compiler can be started. -/
lemma fst_compile : (compile c h entries roots w).1 =
    match sourcePath? roots with
    | none => .error .separatorInRoot
    | some sourcePath =>
      match Program.locate w.store (h.get? "PATH") c.program with
      | .error fault => .error (.runCompiler c.program fault)
      | .ok file => .ok (monitorOf ⟨roots, entries, c.sourceExt⟩
          (h.execute w.store file (c.arguments h.classDir sourcePath entries))).used := by
  cases hroots : sourcePath? roots with
  | none =>
    rw [compile, hroots]
    rfl
  | some sourcePath =>
    rw [compile, hroots]
    simp only
    rw [Act.run_bind]
    cases hfile : Program.locate w.store (h.get? "PATH") c.program with
    | error fault =>
      rw [Act.run_eq_of_fst (Program.fst_run_error hfile)]
    | ok file =>
      rw [Act.run_eq_of_fst (Program.fst_run_ok hfile)]
      refine Act.Answers.bind Program.keepWritten_answers
        (.bind .report (.bind (fun v => fst_reportEach ..) ?_)) _
      split
      · exact .bind .report (.bind .report .pure)
      · exact .bind .report .pure

/-- Discovery succeeds exactly if the compiler was started, with what a monitor notes. -/
lemma fst_discover_eq_ok_iff : (c.discover h entries roots w).1 = .ok found ↔
    ∃ result, c.Prints h entries roots w.store result ∧
      (monitorOf ⟨roots, entries, c.sourceExt⟩ result).used = found := by
  have hspan : (c.discover h entries roots w).1 =
      (Act.within .makeClassDir h.classDir (c.compile h entries roots) { w with events := [] }).1 :=
    rfl
  rw [hspan, Act.fst_within]
  constructor
  · intro hok
    split at hok
    · cases hok
    · rename_i t ht
      rw [fst_compile] at hok
      split at hok
      · cases hok
      · rename_i sourcePath hroots
        split at hok
        · cases hok
        · rename_i file hfile
          injection hok with hfound
          exact ⟨_, ⟨t, sourcePath, file, ht, hroots, hfile, rfl⟩, hfound⟩
  · rintro ⟨result, ⟨t, sourcePath, file, ht, hroots, hfile, rfl⟩, rfl⟩
    rw [ht]
    simp only [fst_compile, hroots, hfile]

/-- A monitor of what was printed has noted the files that a line of either stream announces. -/
lemma contains_monitorOf {watch : Watch} {p : Path} :
    (monitorOf watch result).used.contains p = true ↔
      ∃ line ∈ Text.lines (Utf8.lossy result.stderr) ++ Text.lines (Utf8.lossy result.stdout),
        ∃ o, watch.Announces line o ∧ o.path.same p = true := by
  rw [monitorOf, Monitor.contains_observeTrace, Monitor.contains_observeTrace]
  have hstart : Monitor.start.used.contains p = false := rfl
  simp only [hstart, Bool.false_eq_true, false_or, Watch.addition?_parse, List.mem_append,
    or_and_right, exists_or, exists_exists_and_eq_and]

/-- The same, by the lines as they were printed. -/
lemma contains_monitorOf_printed {watch : Watch} {p : Path} :
    (monitorOf watch result).used.contains p = true ↔
      ∃ line ∈ printedLines result,
        ∃ o, watch.Announces (Utf8.lossy line) o ∧ o.path.same p = true := by
  rw [contains_monitorOf]
  simp only [printedLines, List.mem_append, or_and_right, exists_or]
  exact or_congr (Watch.exists_announces_lossy _) (Watch.exists_announces_lossy _)

/-- Lines that announce something only add files. -/
lemma contains_monitorOf_mono {watch : Watch} {result' : ProgramResult} {p : Path}
    (hlines : ∀ line, Announced watch result line → line ∈ printedLines result')
    (hp : (monitorOf watch result).used.contains p = true) :
    (monitorOf watch result').used.contains p = true := by
  obtain ⟨line, hline, o, hannounces, hsame⟩ := contains_monitorOf_printed.mp hp
  exact contains_monitorOf_printed.mpr
    ⟨line, hlines line ⟨hline, o, hannounces⟩, o, hannounces, hsame⟩

/-- When the compiler was started, discovery answers with exactly the files that a line of either
stream announces, whatever else was printed and whatever the exit status is. Another compilation
that prints the announcing lines too, on whichever stream, in whichever order and however often,
answers with at least these files, and with no others if it announces nothing else. -/
theorem discover_records (hprints : c.Prints h entries roots w.store result) :
    ∃ found, (c.discover h entries roots w).1 = .ok found ∧
      (∀ p, found.contains p = true ↔
        ∃ line ∈ Text.lines (Utf8.lossy result.stderr) ++ Text.lines (Utf8.lossy result.stdout),
          ∃ o, Watch.Announces ⟨roots, entries, c.sourceExt⟩ line o ∧ o.path.same p = true) ∧
      ∀ h' w' result', c.Prints h' entries roots w'.store result' →
        ∃ found', (c.discover h' entries roots w').1 = .ok found' ∧
          ((∀ line, Announced ⟨roots, entries, c.sourceExt⟩ result line →
              line ∈ printedLines result') →
            ∀ p, found.contains p = true → found'.contains p = true) ∧
          ((∀ line, Announced ⟨roots, entries, c.sourceExt⟩ result line ↔
              Announced ⟨roots, entries, c.sourceExt⟩ result' line) →
            ∀ p, found.contains p = found'.contains p) := by
  refine ⟨_, fst_discover_eq_ok_iff.mpr ⟨result, hprints, rfl⟩, fun p => contains_monitorOf, ?_⟩
  intro h' w' result' hprints'
  refine ⟨_, fst_discover_eq_ok_iff.mpr ⟨result', hprints', rfl⟩,
    fun hlines p => contains_monitorOf_mono hlines, fun hlines p => Bool.eq_iff_iff.mpr ⟨?_, ?_⟩⟩
  · exact contains_monitorOf_mono fun line hline => ((hlines line).mp hline).1
  · exact contains_monitorOf_mono fun line hline => ((hlines line).mpr hline).1

/-! ### A compilation -/

/-- A store with a program `/bin/javac`. -/
def compilerStore : Store where
  entries :=
    [([Utf8.encode "bin".toList], .dir),
     ([Utf8.encode "bin".toList, Utf8.encode "javac".toList], .file [] 493 ⟨0, 0⟩),
     ([Utf8.encode "tmp".toList], .dir)]
  cwd := []
  clock := ⟨0, 0⟩

/-- A host on which every program opens a unit and two more files, one on each stream, and writes a
class. -/
def printingHost : Host where
  scratchDir := .ofText "/tmp/scratch".toList
  classDir := .ofText "/tmp/classes".toList
  environment := [("PATH".toList, "/bin".toList)]
  date := []
  execute _ _ _ :=
    { stdout := Utf8.encode "[loading RegularFileObject[/c/src/p/B.java]]".toList
      stderr := Utf8.encode ("[parsing started SimpleFileObject[/c/src/U.java]]\n" ++
        "[parsing started DirectoryFileObject[/c/src:p/A.java]]\r\n").toList
      exitCode := 1
      written := [(Store.locationOf ["p", "U.class"], [202, 254, 186, 190])] }

/-- A compiler that is looked for by its name. -/
def javac : Compiler := ⟨.ofText "javac".toList, [], "java".toList⟩

/-- What the host prints: the unit and two files are opened. -/
lemma javac_prints : javac.Prints printingHost [.ofText "/c/src/U.java".toList]
    [.ofText "/c/src".toList] compilerStore (printingHost.execute compilerStore .empty []) :=
  ⟨_, _, _, rfl, rfl, rfl, rfl⟩

/-- The two files are found, and the unit is not. -/
theorem discover_records_printed :
    ∃ found, (javac.discover printingHost [.ofText "/c/src/U.java".toList]
        [.ofText "/c/src".toList] (.ofStore compilerStore)).1 = .ok found ∧
      found.toList = [.ofText "/c/src/p/A.java".toList, .ofText "/c/src/p/B.java".toList] ∧
      ∀ p, found.contains p = true ↔
        ∃ line ∈ ["[parsing started SimpleFileObject[/c/src/U.java]]".toList,
            "[parsing started DirectoryFileObject[/c/src:p/A.java]]".toList,
            "[loading RegularFileObject[/c/src/p/B.java]]".toList],
          ∃ o, Watch.Announces ⟨[.ofText "/c/src".toList], [.ofText "/c/src/U.java".toList],
            "java".toList⟩ line o ∧ o.path.same p = true := by
  obtain ⟨found, hok, hcontains, -⟩ := discover_records (w := .ofStore compilerStore) javac_prints
  have hfound : (javac.discover printingHost [.ofText "/c/src/U.java".toList]
      [.ofText "/c/src".toList] (.ofStore compilerStore)).1 =
        .ok ⟨[.ofText "/c/src/p/A.java".toList, .ofText "/c/src/p/B.java".toList]⟩ := by
    decide +kernel
  rw [hok] at hfound
  injection hfound with hfound
  refine ⟨found, hok, by rw [hfound], fun p => ?_⟩
  rw [hcontains]
  rfl

end Compiler

end Excerpt
