import Excerpt.Proofs.Extraction.Destinations
import Excerpt.Proofs.Path.Order
import Excerpt.Proofs.Closure.Phases

/-!
# Copies that succeed

A failure ends a run at once, so in a run that succeeds each file of the closure was copied. The run
then falls into three parts: what was done before a file was copied, the copy, and what was done
after it. `Copies` says what a copy does, and `run_copies` gives the three parts.
-/

namespace Excerpt

open Store

/-- The closure without the spellings of a path. -/
def Closure.without (c : Closure) (p : Path) : Closure :=
  ⟨⟨c.files.toList.filter (!·.same p)⟩, c.hasNatives⟩

namespace Extraction

variable {layout : Layout} {settings : Settings} {h : Host} {oracle : Oracle} {r : Request}
  {c : Closure} {s t u : Store} {src dst corpus output : Path} {files : List Path} {w v : World}

/-! ### One file -/

/-- What copying the file `src` to `dst` does to the store `t`: the content of the file goes to the
place that `dst` leads to afterwards. Only a file that is copied onto itself is emptied. -/
structure Copies (src dst : Path) (origin l : Location) (content : Bytes) (t u : Store) :
    Prop where
  source : ∃ mode stamp, t.find true src = .ok (origin, .file content mode stamp)
  changes : Changes (.file dst) t u
  target : ∃ mode stamp, u = t.put l (.file (if l = origin then [] else content) mode stamp) ∧
    u.find true dst = .ok (l, .file (if l = origin then [] else content) mode stamp)

/-- A copy with mode and time does nothing else, apart from making directories on the way. -/
lemma copyFile_ok (hw : w.store.WellFormed)
    (hcopy : Assembly.copyFile src dst w = (.ok (), v)) :
    ∃ t origin l content, Runs (fun _ c => ∃ q, c = .dir q ∧ Over dst q) w.store t ∧
      Copies src dst origin l content t v.store := by
  -- Once the directories are there, the content is copied first and the time is set afterwards.
  have hrest : ∀ {modified : Store → Except Failure Stamp} {w : World}, w.store.WellFormed → (do
        Act.change (.copy src dst) (·.copy src dst)
        let stamp ← Act.look modified
        Act.change (.setTimes dst) (·.setModified dst stamp)) w = (.ok (), v) →
      ∃ origin l content, Copies src dst origin l content w.store v.store := by
    intro modified w hw hrest
    obtain ⟨_, w₁, hchange, hrest⟩ := Act.bind_eq_ok.mp hrest
    obtain ⟨t, hcopied, rfl⟩ := Act.change_eq_ok.mp hchange
    obtain ⟨stamp, w₂, hlook, hrest⟩ := Act.bind_eq_ok.mp hrest
    cases congrArg Prod.snd hlook
    obtain ⟨u, hset, rfl⟩ := Act.change_eq_ok.mp hrest
    obtain ⟨origin, content, mode, old, l, mode', copied, hfind, htarget, hwhole, rfl⟩ :=
      of_copy hw hcopied
    have hfound : (w.store.put l (.file copied (copiedMode copied mode) w.store.clock)).find true
        dst = .ok (l, .file copied (copiedMode copied mode) w.store.clock) :=
      (find_of_writeTarget hw htarget).1
    subst hwhole
    obtain ⟨l', content', mode'', old', hfind', rfl⟩ := of_setModified hset
    rw [hfound, Except.ok.injEq, Prod.mk.injEq] at hfind'
    obtain ⟨rfl, hnode⟩ := hfind'
    obtain ⟨rfl, rfl, -⟩ := Node.file.inj hnode
    have hwf := (changes_of_copy hw hcopied).wellFormed hw
    refine ⟨origin, l, content, ⟨mode, old, hfind⟩, ?_, _, stamp, put_put,
      find_put_old hwf hfound⟩
    simp only [put_put]
    exact changes_of_writeTarget hw htarget
  unfold Assembly.copyFile at hcopy
  cases habove : dst.parent? with
  | some above =>
    simp only [habove] at hcopy
    obtain ⟨_, w₁, hdirs, hcopy⟩ := Act.bind_eq_ok.mp hcopy
    obtain ⟨t, hmake, rfl⟩ := Act.edit_eq_ok.mp hdirs
    have hruns := runs_makeDirs hw above
    rw [hmake] at hruns
    obtain ⟨origin, l, content, hcopies⟩ := hrest (hruns.wellFormed hw) hcopy
    refine ⟨t, origin, l, content, hruns.mono ?_, hcopies⟩
    rintro s c ⟨q, rfl, hq⟩
    exact ⟨q, rfl, hq.of_parent? habove⟩
  | none =>
    simp only [habove] at hcopy
    obtain ⟨origin, l, content, hcopies⟩ := hrest hw hcopy
    exact ⟨w.store, origin, l, content, .refl _, hcopies⟩

/-- Only a link is copied as a link. -/
lemma copyLink_ok (hcopy : Assembly.copyLink src dst w = (.ok (), v)) :
    ∃ l target, w.store.find false src = .ok (l, .link target) := by
  obtain ⟨target, w₁, hlook, -⟩ := Act.bind_eq_ok.mp hcopy
  rw [Act.run_look, Prod.mk.injEq] at hlook
  cases hread : w.store.readLink src with
  | error =>
    rw [hread] at hlook
    cases hlook.1
  | ok target =>
    obtain ⟨l, hfind⟩ := of_readLink hread
    exact ⟨l, target, hfind⟩

/-! ### All files -/

lemma destination_ok {file : Path} {w₁ : World}
    (hlook : Act.look (fun _ => Assembly.destination corpus output file) w = (.ok dst, w₁)) :
    Assembly.destination corpus output file = .ok dst ∧ w₁ = w := by
  obtain ⟨hdst, rfl⟩ := Prod.mk.inj hlook
  exact ⟨hdst, rfl⟩

/-- Where files are copied in order, some come before a file and some after it. -/
lemma copyFiles_ok {front back : List Path} {file : Path}
    (hcopy : Assembly.copyFiles corpus output (front ++ file :: back) w = (.ok (), v)) :
    ∃ dst w₁ w₂, Assembly.copyFiles corpus output front w = (.ok (), w₁) ∧
      Assembly.destination corpus output file = .ok dst ∧
      Assembly.copyFile file dst w₁ = (.ok (), w₂) ∧
      Assembly.copyFiles corpus output back w₂ = (.ok (), v) := by
  induction front generalizing w with
  | nil =>
    obtain ⟨dst, w₁, hlook, hrest⟩ := Act.bind_eq_ok.mp hcopy
    obtain ⟨_, w₂, hfile, hback⟩ := Act.bind_eq_ok.mp hrest
    obtain ⟨hdst, rfl⟩ := destination_ok hlook
    exact ⟨dst, w₁, w₂, rfl, hdst, hfile, hback⟩
  | cons first front ih =>
    obtain ⟨first', w', hlook, hcopy⟩ := Act.bind_eq_ok.mp hcopy
    obtain ⟨_, w₀, hcopied, hcopy⟩ := Act.bind_eq_ok.mp hcopy
    obtain ⟨dst, w₁, w₂, hfront, hdst, hfile, hback⟩ := ih (w := w₀) hcopy
    refine ⟨dst, w₁, w₂, ?_, hdst, hfile, hback⟩
    exact Act.bind_eq_ok.mpr ⟨first', w', hlook, Act.bind_eq_ok.mpr ⟨(), w₀, hcopied, hfront⟩⟩

/-! ### The native tree -/

/-- The top of the native tree in the output. -/
def nativeTop (layout : Layout) (r : Request) : Path :=
  (nativeRoot layout r).join
    (((nativeDir layout r).strip? (nativeBase layout r)).getD (nativeDir layout r))

/-- Where the native tree is copied, its top is made before its entries are looked up. -/
lemma copyNativeTree_ok {n : Nat} (hcopy : Assembly.copyNativeTree r.output layout.ignore
    (nativeDir layout r) layout.srcDir w = (.ok n, v)) :
    w.store.isDir (nativeDir layout r) = true ∧
    ∃ t gs es u, makeDirs (nativeTop layout r) w.store = (.ok (), t) ∧
      Walk.globs layout.ignore = .ok gs ∧
      Walk.entries t (Walk.Limits.ofGlobs gs none) (nativeDir layout r) = .ok es ∧
      Assembly.copyEntries (nativeBase layout r) (nativeRoot layout r) es { w with store := t } =
        (.ok n, u) ∧ v.store = u.store := by
  unfold Assembly.copyNativeTree at hcopy
  obtain ⟨isDir, w₁, hlook, hcopy⟩ := Act.bind_eq_ok.mp hcopy
  cases hlook
  simp only at hcopy
  split at hcopy
  · cases hcopy
  · rename_i hdir
    obtain ⟨_, w₁, hdirs, hcopy⟩ := Act.bind_eq_ok.mp hcopy
    obtain ⟨t, hmake, rfl⟩ := Act.edit_eq_ok.mp hdirs
    obtain ⟨gs, w₂, hglobs, hcopy⟩ := Act.bind_eq_ok.mp hcopy
    obtain ⟨hgs, rfl⟩ := Prod.mk.inj hglobs
    obtain ⟨es, w₃, hentries, hcopy⟩ := Act.bind_eq_ok.mp hcopy
    obtain ⟨hes, rfl⟩ := Prod.mk.inj hentries
    obtain ⟨copied, w₄, hcopied, hcopy⟩ := Act.bind_eq_ok.mp hcopy
    obtain ⟨_, w₅, hreport, hcopy⟩ := Act.bind_eq_ok.mp hcopy
    cases hreport
    cases hcopy
    exact ⟨by simpa using hdir, t, gs, es, w₄, hmake, hgs, hes, hcopied, rfl⟩

/-! ### The whole run -/

lemma assemble_ok {summary : Summary}
    (hrun : assemble h layout r c w = (.ok summary, v)) : summary.closure = c ∧
    ∃ w₁ w₂ n, Assembly.copyFiles r.corpus r.output c.files.toList w = (.ok (), w₁) ∧
      copyNatives layout r c w₁ = (.ok n, w₂) ∧
      Reproducer.write r.output r.testArg (.ofHost h) w₂ = (.ok (), v) ∧
      summary.copied = c.files.size ∧ summary.natives = n := by
  obtain ⟨copied, w₁, hcopy, hrun⟩ := Act.bind_eq_ok.mp hrun
  obtain ⟨_, w₁, hfiles, hcopied⟩ := Act.bind_eq_ok.mp hcopy
  cases hcopied
  obtain ⟨n, w₂, hnatives, hrun⟩ := Act.bind_eq_ok.mp hrun
  obtain ⟨_, w₃, hwrite, hrun⟩ := Act.bind_eq_ok.mp hrun
  cases hrun
  exact ⟨rfl, w₁, w₂, n, hfiles, hnatives, hwrite, rfl, rfl⟩

/-- A run that succeeds computes its closure in the store that it was given, and then assembles. -/
lemma run_ok {summary : Summary} (ho : oracle.ReadOnly) (hw : w.store.WellFormed)
    (hrun : run h settings oracle false r w = (.ok summary, v)) :
    ∃ w₁ : World, w₁.store = w.store ∧
      (∃ w₂, Closure.build h settings oracle r (warnMissing r w).2 = (.ok summary.closure, w₂)) ∧
      assemble h settings.layout r summary.closure w₁ = (.ok summary, v) := by
  obtain ⟨_, w₁, hfirst, hrun⟩ := Act.bind_eq_ok.mp hrun
  have hw₁ := warnMissing_reads.eq_of_run hw hfirst
  obtain ⟨c, w₂, hbuild, hrun⟩ := Act.bind_eq_ok.mp hrun
  have hw₂ : w₂.store = w.store := by
    have hstore : (Closure.build h settings oracle r w₁).2.store = w₁.store :=
      Closure.build_store ho h (hw₁ ▸ hw)
    rw [hbuild] at hstore
    exact hstore.trans hw₁
  obtain ⟨_, w₃, hreport, hrun⟩ := Act.bind_eq_ok.mp hrun
  have hw₃ := Act.Reads.report.eq_of_run (hw₂ ▸ hw) hreport
  obtain ⟨hclosure, -⟩ := assemble_ok hrun
  rw [hclosure, hfirst]
  exact ⟨w₃, hw₃.trans hw₂, ⟨w₂, hbuild⟩, hrun⟩

lemma ordered_of_build (ho : oracle.ReadOnly) (hw : w.store.WellFormed)
    (hbuild : Closure.build h settings oracle r w = (.ok c, v)) : c.files.Ordered := by
  obtain ⟨found, library, root, t, answers, hmade, -, -⟩ := Closure.build_ok ho hw hbuild
  rw [hmade.asked.resolved]
  exact PathSet.ordered_empty.insertAll _

/-- A file of an ordered set comes between others, and none of those after it is a spelling of
it. -/
lemma split_of_ordered {files : PathSet} {file : Path} (h : files.Ordered)
    (hfile : file ∈ files.toList) : ∃ front back, files.toList = front ++ file :: back ∧
      ∀ q ∈ back, q ∈ files.toList.filter (!·.same file) := by
  obtain ⟨front, back, hsplit⟩ := List.append_of_mem hfile
  refine ⟨front, back, hsplit, fun q hq => List.mem_filter.mpr ⟨?_, ?_⟩⟩
  · rw [hsplit]
    exact List.mem_append_right _ (List.mem_cons_of_mem _ hq)
  · unfold PathSet.Ordered at h
    rw [hsplit] at h
    have hbefore := List.rel_of_pairwise_cons (List.pairwise_append.mp h).2.1 hq
    rw [Path.same_comm, Path.not_same_of_before hbefore]
    rfl

/-- In a run that succeeds each file of the closure is copied, and after that only the other
destinations are written to. -/
theorem run_copies {summary : Summary} {file : Path} (ho : oracle.ReadOnly)
    (hw : w.store.WellFormed) (hrun : run h settings oracle false r w = (.ok summary, v))
    (hfile : file ∈ summary.closure.files.toList) :
    ∃ dst t u origin l content, Assembly.destination r.corpus r.output file = .ok dst ∧
      Runs (Permits settings.layout r summary.closure) w.store t ∧
      Copies file dst origin l content t u ∧
      Runs (Permits settings.layout r (summary.closure.without file)) u v.store := by
  obtain ⟨w₁, hw₁, ⟨w₂, hbuild⟩, hassemble⟩ := run_ok ho hw hrun
  obtain ⟨-, w₃, w₄, n, hfiles, hnatives, hwrite, -⟩ := assemble_ok hassemble
  have hwarn : (warnMissing r w).2.store.WellFormed := by
    rw [warnMissing_reads w hw]
    exact hw
  obtain ⟨front, back, hsplit, hback⟩ := split_of_ordered (ordered_of_build ho hwarn hbuild) hfile
  have hmem : ∀ q ∈ front, q ∈ summary.closure.files.toList := by
    intro q hq
    rw [hsplit]
    exact List.mem_append_left _ hq
  rw [hsplit] at hfiles
  obtain ⟨dst, w₅, w₆, hfirst, hdst, hcopy, hlast⟩ := copyFiles_ok hfiles
  have hbefore : Runs (Permits settings.layout r summary.closure) w.store w₅.store := by
    rw [← hw₁]
    refine (copyFiles_obeys ?_ ?_).of_run (hw₁ ▸ hw) hfirst
    · exact fun q hq dst hdst s p hp => ⟨dst, .closure (hmem q hq) hdst, hp⟩
    · exact fun q hq dst hdst s => .closure (hmem q hq) hdst
  have hw₅ := hbefore.wellFormed hw
  obtain ⟨t, origin, l, content, hdirs, hcopies⟩ := copyFile_ok hw₅ hcopy
  have hdirs' : Runs (Permits settings.layout r summary.closure) w₅.store t := by
    refine hdirs.mono ?_
    rintro s change ⟨q, rfl, hq⟩
    exact ⟨dst, .closure hfile hdst, hq⟩
  have hw₆ := hcopies.changes.wellFormed (hdirs.wellFormed hw₅)
  have hafter : Runs (Permits settings.layout r (summary.closure.without file)) w₆.store
      w₃.store := by
    refine (copyFiles_obeys ?_ ?_).of_run hw₆ hlast
    · exact fun q hq dst hdst s p hp => ⟨dst, .closure (hback q hq) hdst, hp⟩
    · exact fun q hq dst hdst s => .closure (hback q hq) hdst
  have hw₃ := hafter.wellFormed hw₆
  -- What is copied besides the closure does not depend on its files.
  have hnatives' : copyNatives settings.layout r (summary.closure.without file) w₃ =
    (.ok n, w₄) := hnatives
  have hnativeRun := copyNatives_obeys.of_run hw₃ hnatives'
  have hw₄ := hnativeRun.wellFormed hw₃
  exact ⟨dst, t, w₆.store, origin, l, content, hdst, hbefore.trans hdirs', hcopies,
    hafter.trans (hnativeRun.trans (write_obeys.of_run hw₄ hwrite))⟩

end Extraction

end Excerpt
