import Excerpt.Proofs.Path.Folding
import Excerpt.Proofs.Trace.Monitor

/-!
# Recorded files and source roots

A file counts if it was found beneath a source root, and a file of a search path is found where
its directory is. What is recorded is the directory joined with the rest. `used_beneath_roots`
says what this gives: a recorded file starts with a root, or it is an absolute rest, which replaces
its directory; and if its steps do not climb above the root, folding them stays beneath the root.
-/

namespace Excerpt

namespace FileObject

variable {roots : List Path} {o : FileObject}

/-- A claimed object lies beneath a root unless it has an absolute rest. -/
lemma startsWith_of_claimedBy (hroots : ∀ root ∈ roots, root.isAbsolute = true)
    (h : o.claimedBy roots = true) :
    (∃ base, o = .directory base o.path ∧ o.path.isAbsolute = true) ∨
      ∃ root ∈ roots, o.path.startsWith root = true := by
  cases o with
  | directory base relative =>
    obtain ⟨root, hroot, hstarts⟩ := List.any_eq_true.mp h
    cases hrel : relative.isAbsolute with
    | true =>
      have hpath : (directory base relative).path = relative := by
        rw [path, Path.join, if_pos hrel]
      exact Or.inl ⟨base, by rw [hpath], by rw [hpath, hrel]⟩
    | false =>
      obtain ⟨habs, hinitial⟩ := (Path.startsWith_iff (hroots root hroot)).mp hstarts
      refine Or.inr ⟨root, hroot, (Path.startsWith_iff (hroots root hroot)).mpr ⟨?_, ?_⟩⟩
      · rw [path, Path.isAbsolute_join (Path.bytes_ne_nil_of_isAbsolute habs) hrel, habs]
      · rw [path, Path.steps_join hrel]
        exact hinitial.trans (List.prefix_append _ _)
  | regular p => exact Or.inr (List.any_eq_true.mp h)
  | simple p => exact Or.inr (List.any_eq_true.mp h)
  | plain p => exact Or.inr (List.any_eq_true.mp h)
  | archive p entry => cases h
  | runtime p => cases h

end FileObject

namespace Monitor

/-- Whatever traces are taken in, a recorded file is the path of an object that a line opens. It is
an absolute rest behind a directory, or it starts with a source root; and then folding it stays
beneath that root if its steps do not climb above the root. -/
theorem used_beneath_roots {w : Watch}
    (hroots : ∀ root ∈ w.roots, root.isAbsolute = true ∧ Component.parent ∉ root.components)
    (traces : List Text) {p : Path}
    (hp : p ∈ (traces.foldl (observeTrace w) start).used.toList) :
    ∃ o, (∃ trace ∈ traces, ∃ line ∈ Text.lines trace,
        opened? w (TraceEvent.parse line) = some o) ∧ o.path = p ∧
      ((∃ base, o = .directory base p ∧ p.isAbsolute = true) ∨
        ∃ root ∈ w.roots, p.startsWith root = true ∧
          (Store.Inside 0 (p.steps.drop root.steps.length) → p.fold.startsWith root = true)) := by
  rcases mem_foldl_observeTrace hp with hstart | ⟨trace, htrace, line, hline, hadd⟩
  · cases hstart
  · obtain ⟨o, hopened, hcounts, rfl⟩ := addition?_eq_some.mp hadd
    refine ⟨o, ⟨trace, htrace, line, hline, hopened⟩, rfl, ?_⟩
    have hclaimed : o.claimedBy w.roots = true := (Bool.and_eq_true_iff.mp hcounts).1
    refine (FileObject.startsWith_of_claimedBy (fun root h => (hroots root h).1) hclaimed).imp id ?_
    rintro ⟨root, hroot, hstarts⟩
    obtain ⟨habs, hparent⟩ := hroots root hroot
    refine ⟨root, hroot, hstarts, Path.startsWith_fold habs (fun hmem => hparent ?_) hstarts⟩
    rw [Path.components_eq]
    exact List.mem_append_right _ hmem

/-- A watch for the files beneath `/c/src`. -/
def sampleWatch : Watch := ⟨[Path.ofText "/c/src".toList], [], "java".toList⟩

/-- A trace in which one file beneath `/c/src` is opened. -/
def sampleTrace : Text := "[parsing started DirectoryFileObject[/c/src:p/./A.java]]\n".toList

theorem used_beneath_sampleRoot :
    ∃ o, (∃ trace ∈ [sampleTrace], ∃ line ∈ Text.lines trace,
        opened? sampleWatch (TraceEvent.parse line) = some o) ∧
      o.path = Path.ofText "/c/src/p/./A.java".toList ∧
      ((∃ base, o = .directory base (Path.ofText "/c/src/p/./A.java".toList) ∧
          (Path.ofText "/c/src/p/./A.java".toList).isAbsolute = true) ∨
        ∃ root ∈ sampleWatch.roots,
          (Path.ofText "/c/src/p/./A.java".toList).startsWith root = true ∧
          (Store.Inside 0 ((Path.ofText "/c/src/p/./A.java".toList).steps.drop root.steps.length) →
            (Path.ofText "/c/src/p/./A.java".toList).fold.startsWith root = true)) :=
  used_beneath_roots (by decide +kernel) [sampleTrace] (by decide +kernel)

/-- An absolute rest is recorded although it is not beneath the root. -/
theorem used_outside_roots :
    ¬ ∀ p ∈ (observeTrace sampleWatch start
        "[parsing started DirectoryFileObject[/c/src:/etc/passwd]]\n".toList).used.toList,
      ∃ root ∈ sampleWatch.roots, p.fold.startsWith root = true := by
  decide +kernel

end Monitor

end Excerpt
