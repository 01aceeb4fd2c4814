import Excerpt.Proofs.Extraction.Destinations

/-!
# Which files an extraction changes

An extraction changes no file, except where one of its destinations leads to it. That happens: when
the output is the corpus, a file of the closure is its own destination, and a copy empties its
destination before it reads its source.
-/

namespace Excerpt

open Store

namespace Extraction

/-- Every file that was there is there after an extraction, and with the same bytes unless a
destination leads to it. -/
theorem run_preserves_files (h : Host) (settings : Settings) {oracle : Oracle}
    (ho : oracle.ReadOnly) (dryRun : Bool) (r : Request) {w : World} (hw : w.store.WellFormed)
    {l : Location} {content : Bytes} {mode : Nat} {stamp : Stamp}
    (hl : w.store.get? l = some (.file content mode stamp)) :
    ∃ content' mode' stamp',
      (run h settings oracle dryRun r w).2.store.get? l = some (.file content' mode' stamp') ∧
      (content' = content ∨ dryRun = false ∧
        ∃ c, (Closure.build h settings oracle r (warnMissing r w).2).1 = .ok c ∧
        ∃ p node, Destination settings.layout r c (run h settings oracle dryRun r w).2.store p ∧
          (run h settings oracle dryRun r w).2.store.find true p = .ok (l, node)) := by
  rcases run_cases h settings ho dryRun r hw with hsame | ⟨hdry, c, v, hc, hrun⟩
  · exact ⟨content, mode, stamp, by rw [hsame, hl], Or.inl rfl⟩
  · obtain ⟨content', mode', stamp', hn, hkept⟩ := hrun.file_kept hw hl
    refine ⟨content', mode', stamp', hn, hkept.imp id ?_⟩
    rintro ⟨u, p, node, hdst, hext, hfind⟩
    exact ⟨hdry, c, by rw [hc], p, node, Destination.of_extends hdst hext, hfind⟩

/-! ### An output that is the corpus -/

/-- The file of the sample test. -/
def sampleFile : Location := locationOf ["corpus", "tests", "t", "T.java"]

/-- A corpus with one test of one file. -/
def sampleStore : Store where
  entries :=
    [(sampleFile.take 1, .dir), (sampleFile.take 2, .dir), (sampleFile.take 3, .dir),
      (sampleFile, .file (Utf8.encode "class T { }".toList) plainMode ⟨0, 0⟩),
      (locationOf ["corpus", "src"], .dir), (locationOf ["tmp"], .dir)]
  cwd := []
  clock := ⟨1, 0⟩

/-- The request for the test of the sample, with the corpus for the output. -/
def sampleRequest : Request where
  corpus := .ofText "/corpus".toList
  output := .ofText "/corpus".toList
  testDir := .ofText "/corpus/tests/t".toList
  testArg := "t".toList
  missingDescriptor := none

set_option maxRecDepth 10000 in
lemma run_sample :
    Request.validate sampleStore .default (.ofText "/corpus".toList) (.ofText "/corpus".toList)
        "t".toList = .ok sampleRequest ∧
      sampleStore.WellFormed ∧
      sampleStore.get? sampleFile =
        some (.file (Utf8.encode "class T { }".toList) plainMode ⟨0, 0⟩) ∧
      (run .bare .default .silent false sampleRequest (.ofStore sampleStore)).2.store.get?
        sampleFile = some (.file [] plainMode ⟨1, 0⟩) := by
  decide +kernel

/-- With the corpus for the output, a file of the test is empty after an extraction. -/
theorem run_onto_corpus_empties :
    Request.validate sampleStore .default (.ofText "/corpus".toList) (.ofText "/corpus".toList)
        "t".toList = .ok sampleRequest ∧
      sampleStore.WellFormed ∧ Oracle.silent.ReadOnly ∧
      sampleStore.get? sampleFile =
        some (.file (Utf8.encode "class T { }".toList) plainMode ⟨0, 0⟩) ∧
      (run .bare .default .silent false sampleRequest (.ofStore sampleStore)).2.store.get?
        sampleFile = some (.file [] plainMode ⟨1, 0⟩) := by
  obtain ⟨hvalid, hs, hbefore, hafter⟩ := run_sample
  exact ⟨hvalid, hs, Oracle.silent_readOnly, hbefore, hafter⟩

/-- In the sample a destination leads to the file. -/
theorem destination_of_sampleFile :
    sampleStore.WellFormed ∧ Oracle.silent.ReadOnly ∧ ∃ c p node,
      Destination Layout.default sampleRequest c
        (run .bare .default .silent false sampleRequest (.ofStore sampleStore)).2.store p ∧
      (run .bare .default .silent false sampleRequest (.ofStore sampleStore)).2.store.find true p =
        .ok (sampleFile, node) := by
  obtain ⟨-, hs, hbefore, hafter⟩ := run_sample
  obtain ⟨content', mode', stamp', hn, hkept⟩ := run_preserves_files .bare .default
    Oracle.silent_readOnly false sampleRequest (w := .ofStore sampleStore) hs hbefore
  rw [hafter, Option.some.injEq, Node.file.injEq] at hn
  rcases hkept with hsame | ⟨-, c, -, p, node, hdst, hfind⟩
  · rw [← hn.1] at hsame
    cases hsame
  · exact ⟨hs, Oracle.silent_readOnly, c, p, node, hdst, hfind⟩

end Extraction

end Excerpt
