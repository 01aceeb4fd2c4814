import Excerpt.Proofs.Closure.Account

/-!
# Nothing is left of computing a closure

Computing a closure gives the store back as it was, however it ends, also with an oracle that does
not only read. The oracle may fail at any question, and it may do as it likes in the scratch
directory: take away the stub that it was asked about, take away bridges, leave files of its own. It
only has to leave alone what lies outside, and to put no link in the place where stubs are written.
-/

namespace Excerpt

open Store

/-- An oracle that works in the scratch directory only, whatever it answers and whether it fails
or not. -/
def Oracle.StaysIn (dir : Path) (oracle : Oracle) : Prop :=
  ∀ (entries roots : List Path) (s : Store) (root : Location),
    Act.Keeps (Scratch.Encloses s dir root) (oracle entries roots)

/-- An oracle that only reads works nowhere. -/
lemma Oracle.ReadOnly.staysIn {oracle : Oracle} (h : oracle.ReadOnly) (dir : Path) :
    oracle.StaysIn dir :=
  fun entries roots _ _ => (h entries roots).keeps fun _ ht => ht.wellFormed

/-- The oracle that takes away the stub that it is asked about, and names no file. -/
def Oracle.consuming (dir : Path) : Oracle := fun entries _ => do
  if entries.contains (Stub.file dir) then
    Act.change (.deleteStub (Stub.file dir)) (·.removeFile (Stub.file dir))
  return PathSet.empty

lemma Oracle.consuming_staysIn (dir : Path) : (consuming dir).StaysIn dir := by
  intro entries roots s root
  have hremove : Act.Keeps (Scratch.Encloses s dir root)
      (Act.change (.deleteStub (Stub.file dir)) (·.removeFile (Stub.file dir))) :=
    .change fun _ _ ht hu => ht.removeFile hu
  unfold consuming
  split
  · exact hremove.bind fun _ => .pure
  · exact .pure

namespace Closure

variable {oracle : Oracle} {layout : Layout} {r : Request} {scratch : Path} {root : Location}
  {s : Store} {settings : Settings}

lemma ask_keeps {roots : SourceRoots} (ho : oracle.StaysIn scratch) {entries : List Path} :
    Act.Keeps (Scratch.Encloses s scratch root) (ask oracle entries roots) :=
  .bind (fun _ h => h) fun _ => ho entries roots.toList s root

/-- While the bridges are made there is no stub yet and no question is asked; from the first
question on, nothing goes beyond the scratch directory. -/
lemma askAll_encloses (ho : oracle.StaysIn scratch) {found : Findings} {library : SourceRoots}
    {w : World} (hw : Scratch s scratch root (fun _ => True) w.store) :
    Scratch.Encloses s scratch root (askAll oracle layout r found library scratch w).2.store := by
  have hbridges : Act.Keeps (Scratch s scratch root fun _ => True)
      (addBridgeRoots layout r scratch library) :=
    addBridgeRoots_keeps hw.encloses.dir_ne_nil fun _ _ _ _ => trivial
  have hquestions : ∀ roots, Act.Keeps (Scratch.Encloses s scratch root) (do
      let files ← askSources oracle roots (found.contents.sources layout) found.files
      let files ← askClasses oracle roots scratch found.classes files
      resolve files) := by
    intro roots
    apply Act.Keeps.bind (askSources_keeps fun _ => ask_keeps ho)
    intro files
    apply Act.Keeps.bind
    · apply askClasses_keeps (fun _ => ask_keeps ho)
      · intro t u content ht hu
        exact ht.write hu
      · intro t u ht hu
        exact ht.removeFile hu
    · intro files
      exact resolve_reads.keeps fun _ ht => ht.wellFormed
  have hfirst := hbridges w hw
  unfold askAll
  rw [Act.run_bind]
  split
  · rename_i roots v hrun
    rw [hrun] at hfirst
    exact Act.Keeps.report.bind (fun _ => hquestions roots) v hfirst.encloses
  · rename_i hrun
    rw [hrun] at hfirst
    exact hfirst.encloses

/-- Computing a closure gives the store back as it was: whether it succeeds, or fails at a listing,
a page, a script, a pattern, a bridge, a question or the removal of a stub. -/
theorem build_restores {host : Host} (ho : oracle.StaysIn host.scratchDir) {w : World}
    (hw : w.store.WellFormed) : (build host settings oracle r w).2.store = w.store := by
  have hwithin : ∀ found library, Act.Reads (Act.within .makeScratch host.scratchDir
      (askAll oracle settings.layout r found library host.scratchDir)) := by
    intro found library v hv
    exact Act.within_restores hv fun root u hu => askAll_encloses ho hu
  have hreads : Act.Reads (build host settings oracle r) := by
    apply findings_reads.bind
    intro found
    apply Act.Reads.look.bind
    intro library
    exact (hwithin found library).bind fun _ => Act.Reads.pure
  exact hreads w hw

set_option maxRecDepth 10000 in
/-- An oracle that takes the stub away makes the test with a script fail, and all is as before. -/
theorem build_scriptStore_restores :
    scriptStore.WellFormed ∧ (Oracle.consuming Host.bare.scratchDir).StaysIn Host.bare.scratchDir ∧
      (build .bare .default (.consuming Host.bare.scratchDir) scriptRequest
        (.ofStore scriptStore)).1 =
          .error (.deleteStub (Stub.file Host.bare.scratchDir) .notFound) ∧
      (build .bare .default (.consuming Host.bare.scratchDir) scriptRequest
        (.ofStore scriptStore)).2.store = scriptStore := by
  have hrun : scriptStore.WellFormed ∧
      (build .bare .default (.consuming Host.bare.scratchDir) scriptRequest
        (.ofStore scriptStore)).1 =
          .error (.deleteStub (Stub.file Host.bare.scratchDir) .notFound) := by decide +kernel
  have ho := Oracle.consuming_staysIn Host.bare.scratchDir
  exact ⟨hrun.1, ho, hrun.2, build_restores ho (w := .ofStore scriptStore) hrun.1⟩

end Closure

end Excerpt
