import Excerpt.Proofs.Closure.Repeating
import Excerpt.Proofs.Extraction.Delivery
import Excerpt.Proofs.Store.Rewriting

/-!
# Extracting twice

A second run goes the way of the first one: what the first one read lies out of reach of the output,
directories that it made are there, and files that it wrote are written again with what they hold.
`Repeats` says this of an action, and it is closed under sequencing. Only a link cannot be made a
second time, so all depends on there being no link to a directory in the native tree.
-/

namespace Excerpt

open Store

namespace Extraction

variable {α β : Type} {layout : Layout} {settings : Settings} {host : Host} {oracle : Oracle}
  {r : Request} {test : Text} {closure : Closure} {s t x : Store} {w v : World}
  {src dst p scratch : Path} {c o l origin : Location} {a : List Component} {content : Bytes}
  {mode : Nat} {stamp : Stamp}

/-! ### Actions that can be repeated -/

/-- The store has grown beneath `o` only, and there are no links. -/
structure Staged (o : Location) (s x : Store) : Prop where
  grown : Outgrowth o s x
  free : LinkFree x (o <+: ·)

/-- When the action succeeds in a first run, it succeeds in a second one, and with the same answer.
-/
def Repeats (o : Location) (s : Store) (a : Act α) : Prop :=
  ∀ (w v : World) (x : α), Staged o s w.store → a w = (.ok x, v) →
    Staged o s v.store ∧ Lasting w.store v.store ∧
      ∀ (t : Store) (w' : World), Lasting v.store t → Retraces o s t w.store w'.store →
        ∃ v', a w' = (.ok x, v') ∧ Retraces o s t v.store v'.store

/-- A change on the way to a place beneath `o` that makes no link. -/
lemma Staged.step {change : Change} (h : Staged o s x) (ho : s.get? o = some .dir)
    (hdst : GoesBeneath o dst a) (hover : Over dst change.path)
    (hlink : ∀ target p, change ≠ .link target p) (hc : Changes change x t) : Staged o s t := by
  have hx := h.grown.wellFormed
  obtain ⟨l, node, rfl, hl, hdir, hnode⟩ :=
    of_changes_beneath hx (h.grown.ext.dir ho) h.free hdst hover hlink hc
  have hne : l ≠ [] := by
    rintro rfl
    exact hdir rfl
  exact ⟨h.grown.put_beneath hl hne (hc.wellFormed hx) (hc.extends hx), h.free.put hne hnode⟩

/-- A file beneath `o` is replaced. -/
lemma Staged.put_file {old : Bytes} {mode' : Nat} {stamp' : Stamp} (h : Staged o s x) (hl : o <+: l)
    (hold : x.get? l = some (.file old mode' stamp')) (content : Bytes) (mode : Nat)
    (stamp : Stamp) : Staged o s (x.put l (.file content mode stamp)) := by
  have hne : l ≠ [] := by
    rintro rfl
    cases hold
  exact ⟨h.grown.put_beneath hl hne (h.grown.wellFormed.put_old hold (by simp) trivial)
    (extends_put_file hold), h.free.put hne rfl⟩

namespace Repeats

lemma pure {x : α} : Repeats o s (Pure.pure x : Act α) := by
  intro w v y hw hrun
  cases hrun
  exact ⟨hw, .refl _, fun t w' _ hw' => ⟨w', rfl, hw'⟩⟩

lemma throw {e : Failure} : Repeats o s (MonadExcept.throw e : Act α) := by
  intro w v y hw hrun
  cases hrun

lemma report {level : Log.Level} {target message : String} {fields : List Log.Field} :
    Repeats o s (Act.report level target message fields) := by
  intro w v y hw hrun
  cases hrun
  exact ⟨hw, .refl _, fun t w' _ hw' => ⟨_, rfl, hw'⟩⟩

lemma bind {a : Act α} {f : α → Act β} (ha : Repeats o s a) (hf : ∀ x, Repeats o s (f x)) :
    Repeats o s (a >>= f) := by
  intro w v y hw hrun
  obtain ⟨x, w₁, hfirst, hrest⟩ := Act.bind_eq_ok.mp hrun
  obtain ⟨hw₁, hlasting, hagain⟩ := ha w w₁ x hw hfirst
  obtain ⟨hv, hlasting', hagain'⟩ := hf x w₁ v y hw₁ hrest
  refine ⟨hv, hlasting.trans hlasting', fun t w' ht hw' => ?_⟩
  obtain ⟨w₂, hfirst', hw₂⟩ := hagain t w' (hlasting'.trans ht) hw'
  obtain ⟨v', hrest', hv'⟩ := hagain' t w₂ ht hw₂
  exact ⟨v', Act.bind_eq_ok.mpr ⟨x, w₂, hfirst', hrest'⟩, hv'⟩

/-- What does not depend on the output is seen again. -/
lemma look_bind {f : Store → Except Failure α} {g : α → Act β}
    (hf : ∀ x, Outgrowth o s x → f x = f s) (hg : ∀ x, f s = .ok x → Repeats o s (g x)) :
    Repeats o s (Act.look f >>= g) := by
  intro w v y hw hrun
  obtain ⟨x, w₁, hlook, hrest⟩ := Act.bind_eq_ok.mp hrun
  obtain ⟨hx, rfl⟩ := Prod.mk.inj hlook
  rw [hf _ hw.grown] at hx
  obtain ⟨hv, hlasting, hagain⟩ := hg x hx _ v y hw hrest
  refine ⟨hv, hlasting, fun t w' ht hw' => ?_⟩
  obtain ⟨v', hrest', hv'⟩ := hagain t w' ht hw'
  exact ⟨v', Act.bind_eq_ok.mpr ⟨x, w', by rw [Act.run_look, hf _ hw'.grown, hx], hrest'⟩, hv'⟩

/-- Directories that were made are there the second time. -/
lemma makeDirs {why : Fault → Failure} (ho : s.get? o = some .dir) (hdst : GoesBeneath o dst a)
    (hover : Over dst p) : Repeats o s (Act.edit why (Store.makeDirs p)) := by
  intro w v _ hw hrun
  obtain ⟨t, hmake, rfl⟩ := Act.edit_eq_ok.mp hrun
  have hwf := hw.grown.wellFormed
  have hlasting := Lasting.makeDirs hwf hmake
  have hne : p.bytes ≠ [] := Path.bytes_ne_nil_of_isAbsolute (hover.2.trans hdst.1)
  have hruns := runs_makeDirs hwf p
  rw [hmake] at hruns
  have hstaged : Staged o s t := by
    refine hruns.invariant ?_ hwf hw
    rintro x y change - hx ⟨q, rfl, hq⟩ hchange
    have hover' : Over dst (Change.dir q).path := ⟨hq.1.trans hover.1, hq.2.trans hover.2⟩
    exact hx.step ho hdst hover' (by simp) hchange
  refine ⟨hstaged, hlasting, fun t' w' ht hw' => ?_⟩
  have hdir : w'.store.isDir p = true :=
    (ht.ext.trans hw'.lasting.ext).isDir (isDir_of_makeDirs hwf hne hmake)
  exact ⟨_, Act.edit_eq_ok.mpr ⟨_, makeDirs_of_isDir hne hdir, rfl⟩,
    hw'.dirs ht.ext (dirsAdded_of_makeDirs hwf hmake)⟩

end Repeats

/-! ### Copies -/

section Secluded

variable (h : Closure.Secluded settings r test s c o scratch)

include h in
/-- A file of the corpus can be copied again to the same place in the output. -/
lemma Repeats.copyContent (hsrc : KeepsTo s c src) (hdst : GoesBeneath o dst a) :
    Repeats o s (Assembly.copyContent src dst) := by
  intro w v _ hw hrun
  have hwf := hw.grown.wellFormed
  obtain ⟨origin, l, content, mode, stamp, htransfers⟩ := Assembly.copyContent_ok hwf hrun
  obtain ⟨mode', htarget⟩ := htransfers.target
  have hsource : s.find true src = .ok (origin, .file content mode stamp) :=
    ((h.undisturbed hw.grown).find_eq hsrc true).symm.trans htransfers.source
  have hl : o <+: l := by
    have hleads := leads_of_writeTarget hwf htarget
    rw [start_of_isAbsolute hdst.1] at hleads
    refine hdst.of_leads hwf (hw.grown.ext.dir h.accepted.outputDir) hw.free List.prefix_rfl hleads ?_
    rcases old_of_writeTarget hwf htarget with hfree | ⟨_, _, hold⟩
    · rw [hfree]
      simp
    · rw [hold]
      simp
  have hne : l ≠ origin := by
    rintro rfl
    exact h.output l (hsrc.reachable_of_find h.wellFormed h.accepted.corpusDir hsource) hl
  obtain ⟨hmode, hv⟩ := htransfers.result hne
  have hchanges : Changes (.file dst) w.store v.store := by
    rw [hv]
    exact changes_of_writeTarget hwf htarget
  have hcopied : writable (copiedMode content mode) = true :=
    (writable_copiedMode content mode).trans hmode
  have hfound : v.store.find true dst = .ok (l, .file content (copiedMode content mode) stamp) := by
    rw [hv]
    exact (find_of_writeTarget hwf htarget).1
  have hlasting : Lasting w.store v.store := by
    have hext := hchanges.extends hwf
    rw [hv] at hext ⊢
    refine .put ?_ hext hcopied
    rintro rfl
    cases get?_of_find (hchanges.wellFormed hwf) hfound
  refine ⟨hw.step h.accepted.outputDir hdst (show Over dst (Change.file dst).path from .refl dst)
    (by simp) hchanges, hlasting, fun t w' ht hw' => ?_⟩
  have hwf' := hw'.grown.wellFormed
  obtain ⟨old, mode', stamp', hold, hmode'⟩ :=
    (ht.trans hw'.lasting).find (hchanges.wellFormed hwf) hwf' hfound hcopied
  have hsource' : w'.store.find true src = .ok (origin, .file content mode stamp) :=
    ((h.undisturbed hw'.grown).find_eq hsrc true).trans hsource
  refine ⟨_, Assembly.copyContent_of_target hwf' hsource' htransfers.readable hmode
    (writeTarget_of_find hwf' hold hmode') hne, ?_⟩
  rw [hv]
  exact hw'.put hl (get?_of_find hwf' hold) hcopied

include h in
lemma Repeats.copyFile (hsrc : KeepsTo s c src) (hdst : GoesBeneath o dst a) :
    Repeats o s (Assembly.copyFile src dst) := by
  cases habove : dst.parent? with
  | some above =>
    rw [Assembly.copyFile_of_parent habove]
    exact .bind (.makeDirs h.accepted.outputDir hdst ((Over.refl above).of_parent? habove))
      fun _ => .copyContent h hsrc hdst
  | none =>
    rw [Assembly.copyFile_of_top habove]
    exact .copyContent h hsrc hdst

include h in
lemma Repeats.copyFiles {files : List Path} (hfiles : ∀ file ∈ files, KeepsTo s c file)
    (hdst : ∀ file ∈ files, ∀ dst, Assembly.destination r.corpus r.output file = .ok dst →
      ∃ a, GoesBeneath o dst a) :
    Repeats o s (Assembly.copyFiles r.corpus r.output files) := by
  induction files with
  | nil => exact .pure
  | cons file files ih =>
    refine .look_bind (fun _ _ => rfl) fun dst hdest => ?_
    obtain ⟨a, ha⟩ := hdst file List.mem_cons_self dst hdest
    exact .bind (.copyFile h (hfiles file List.mem_cons_self) ha) fun _ =>
      ih (fun file hfile => hfiles file (List.mem_cons_of_mem _ hfile))
        fun file hfile => hdst file (List.mem_cons_of_mem _ hfile)

/-! ### The native tree -/

/-- Nothing in the native tree is a link to a directory, apart from what is ignored. -/
def NativesPlain (layout : Layout) (r : Request) (s : Store) : Prop :=
  ∀ gs es, Walk.globs layout.ignore = .ok gs →
    Walk.entries s (.ofGlobs gs none) (nativeDir layout r) = .ok es →
    ∀ e ∈ es, e.isDir = false → s.isDir e.path = false

lemma mem_toOption_iff {e : Except Failure α} {x : α} : x ∈ e.toOption ↔ e = .ok x := by
  cases e <;> simp [Except.toOption]

instance : Decidable (NativesPlain layout r s) :=
  decidable_of_iff (∀ gs ∈ (Walk.globs layout.ignore).toOption,
      ∀ es ∈ (Walk.entries s (.ofGlobs gs none) (nativeDir layout r)).toOption,
        ∀ e ∈ es, e.isDir = false → s.isDir e.path = false) (by
    simp only [mem_toOption_iff]
    exact ⟨fun h gs es hgs => h gs hgs es, fun h gs hgs es => h gs es hgs⟩)

include h in
/-- What is no link to a directory can be copied again. -/
lemma Repeats.copyEntry {base destRoot : Path} {e : WalkEntry} (hpath : KeepsTo s c e.path)
    (hdst : ∀ rel, e.path.strip? base = some rel → ∃ a, GoesBeneath o (destRoot.join rel) a)
    (hplain : e.isDir = false → s.isDir e.path = false) :
    Repeats o s (Assembly.copyEntry base destRoot e) := by
  unfold Assembly.copyEntry
  cases hrel : e.path.strip? base with
  | none => exact .throw
  | some rel =>
    obtain ⟨a, ha⟩ := hdst rel hrel
    simp only
    split
    · exact .bind (.makeDirs h.accepted.outputDir ha (.refl _)) fun _ => .pure
    · rename_i hdir
      refine .look_bind (fun x hx => congrArg Except.ok ((h.undisturbed hx).isDir_eq hpath))
        fun isDir hisDir => ?_
      cases hisDir
      rw [hplain (by simpa using hdir), if_neg Bool.false_ne_true]
      exact .bind (.copyFile h hpath ha) fun _ => .pure

include h in
lemma Repeats.copyEntries {base destRoot : Path} {es : List WalkEntry}
    (hpath : ∀ e ∈ es, KeepsTo s c e.path)
    (hdst : ∀ e ∈ es, ∀ rel, e.path.strip? base = some rel →
      ∃ a, GoesBeneath o (destRoot.join rel) a)
    (hplain : ∀ e ∈ es, e.isDir = false → s.isDir e.path = false) :
    Repeats o s (Assembly.copyEntries base destRoot es) := by
  induction es with
  | nil => exact .pure
  | cons e es ih =>
    refine .bind (.copyEntry h (hpath e List.mem_cons_self) (hdst e List.mem_cons_self)
      (hplain e List.mem_cons_self)) fun _ => ?_
    exact .bind (ih (fun e he => hpath e (List.mem_cons_of_mem _ he))
      (fun e he => hdst e (List.mem_cons_of_mem _ he))
      fun e he => hplain e (List.mem_cons_of_mem _ he)) fun _ => .pure

include h in
lemma keepsTo_nativeDir : KeepsTo s c (nativeDir settings.layout r) := by
  obtain ⟨hcorpus, hcorpusSteps⟩ := h.accepted.corpus_steps h.wellFormed
  obtain ⟨hdir, a, hsteps, hparent⟩ := nativeDir_steps h.plain hcorpus
  exact (KeepsTo.of_steps_eq hcorpus hcorpusSteps).append h.wellFormed h.accepted.corpusDir hdir
    hsteps hparent

include h in
/-- The native tree can be copied again if no link in it leads to a directory. -/
lemma Repeats.copyNatives (hclosure : closure.StaysBeneath r.corpus)
    (hplain : closure.hasNatives = true → NativesPlain settings.layout r s) :
    Repeats o s (copyNatives settings.layout r closure) := by
  have hdir := keepsTo_nativeDir h
  have hbeneath : ∀ p, Destination settings.layout r closure s p → ∃ a, GoesBeneath o p a :=
    fun p hp => hp.goesBeneath h.wellFormed h.plain h.wellFormed h.accepted hclosure
  unfold Extraction.copyNatives
  split
  · rename_i hnatives
    refine .look_bind (fun x hx => congrArg Except.ok ((h.undisturbed hx).isDir_eq hdir))
      fun isDir _ => ?_
    simp only
    split
    · exact .throw
    · obtain ⟨top, htop⟩ := hbeneath _ (.nativeTop hnatives)
      refine .bind (.makeDirs h.accepted.outputDir htop (.refl _)) fun _ => ?_
      refine .look_bind (fun _ _ => rfl) fun gs hgs => ?_
      refine .look_bind (fun x hx => (h.undisturbed hx).entries_eq hdir _) fun es hes => ?_
      have htree : ∀ e ∈ es, ∃ names, e.path = chain (nativeDir settings.layout r) names ∧
          InNativeTree settings.layout r s names := by
        intro e he
        obtain ⟨loc, hfind, names, -, hpath, node, hnode, -⟩ :=
          Walk.met_of_mem_entries h.wellFormed hes he
        exact ⟨names, hpath, loc, node, hfind, hnode⟩
      refine .bind (.copyEntries h (fun e he => ?_) (fun e he rel hrel => ?_)
        (hplain hnatives gs es hgs hes)) fun _ => .bind .report fun _ => .pure
      · obtain ⟨names, hpath, hin⟩ := htree e he
        rw [hpath]
        exact hdir.chain h.wellFormed h.accepted.corpusDir (hin.isName h.wellFormed)
      · obtain ⟨names, hpath, hin⟩ := htree e he
        exact hbeneath _ (.native hnatives hin (hpath ▸ hrel))
  · exact .pure

end Secluded

/-! ### The files beside the test -/

/-- The name of the script. -/
def scriptName : Bytes := Utf8.encode "tryRun.sh".toList

/-- What writing a file of this name into the output does, where `mode` is the mode it had. -/
structure Writes (o : Location) (s : Store) (p : Path) (l : Location) (content : Bytes) (mode : Nat)
    (x y : Store) : Prop where
  staged : Staged o s y
  lasting : Lasting x y
  old : x.get? l = none ∨ ∃ old stamp, x.get? l = some (.file old mode stamp)
  writable : writable (writtenMode mode) = true
  result : y = x.put l (.file content (writtenMode mode) s.clock)
  found : y.find true p = .ok (l, .file content (writtenMode mode) s.clock)

lemma Staged.write {n : Bytes} (h : Staged o s x) (ho : s.get? o = some .dir)
    (hp : GoesBeneath o p [.name n]) (hwrite : x.write p content = .ok t) :
    ∃ mode, Writes o s p (o ++ [n]) content mode x t := by
  have hx := h.grown.wellFormed
  have hchanges := changes_of_write hx hwrite
  have hstaged := h.step ho hp (show Over p (Change.file p).path from .refl p) (by simp) hchanges
  obtain ⟨l, mode, htarget, rfl⟩ := write_eq_ok_iff.mp hwrite
  have hfound : (x.put l (.file content (writtenMode mode) x.clock)).find true p =
      .ok (l, .file content (writtenMode mode) x.clock) := (find_of_writeTarget hx htarget).1
  obtain ⟨hl, -⟩ := hp.find hstaged.grown.wellFormed (hstaged.grown.ext.dir ho) hstaged.free hfound
  obtain rfl : l = o ++ [n] := hl
  have hmode := (writable_writtenMode mode).trans (writable_of_writeTarget (by decide) htarget)
  rw [h.grown.ext.clock] at hstaged hchanges hfound ⊢
  exact ⟨mode, hstaged, .put (by simp) (hchanges.extends hx) hmode,
    old_of_writeTarget hx htarget, hmode, rfl, hfound⟩

/-- A file that is not written to afterwards is written again with the mode it got. -/
lemma Writes.again {y z : Store} (h : Writes o s p l content mode x y) (hl : o <+: l)
    (ht : Lasting y t) (hsame : t.get? l = y.get? l) (hz : Retraces o s t x z) :
    ∃ z', z.write p content = .ok z' ∧ Retraces o s t y z' := by
  have hwf := hz.grown.wellFormed
  obtain ⟨old, mode', stamp, hfind, hmode'⟩ :=
    (ht.trans hz.lasting).find h.staged.grown.wellFormed hwf h.found h.writable
  have hold := get?_of_find hwf hfind
  have hy := get?_of_find h.staged.grown.wellFormed h.found
  have hmode : writtenMode mode' = writtenMode mode := by
    rcases hz.among l with hend | hnow
    · rw [hsame, hy, hold] at hend
      rw [(Node.file.inj (Option.some.inj hend)).2.1, writtenMode_writtenMode]
    · rcases h.old with hfree | ⟨old', stamp', hold'⟩
      · rw [hfree, hold] at hnow
        cases hnow
      · rw [hold', hold] at hnow
        rw [(Node.file.inj (Option.some.inj hnow)).2.1]
  refine ⟨_, write_of_find hwf hfind hmode' content, ?_⟩
  rw [hz.grown.ext.clock, h.result, hmode]
  exact hz.put hl hold h.writable

/-- The script in the output. -/
def scriptNode (test : Text) (values : Reproducer.Values) (stamp : Stamp) : Node :=
  .file (Utf8.encode (Reproducer.render test values)) Reproducer.scriptMode stamp

/-- The files beside the test can be written again. Only what the script says may be different. -/
lemma write_again (hr : Request.Accepted s layout r test c o) (hs : s.WellFormed)
    (values values' : Reproducer.Values) (hw : Staged o s w.store)
    (hwrite : Reproducer.write r.output r.testArg values w = (.ok (), v)) :
    Staged o s v.store ∧ Lasting w.store v.store ∧
      v.store.get? (o ++ [scriptName]) = some (scriptNode r.testArg values s.clock) ∧
      ∀ w', Retraces o s v.store w.store w'.store →
        ∃ v', Reproducer.write r.output r.testArg values' w' = (.ok (), v') ∧
          (∀ l, l ≠ o ++ [scriptName] → v'.store.get? l = v.store.get? l) ∧
          v'.store.get? (o ++ [scriptName]) = some (scriptNode r.testArg values' s.clock) := by
  obtain ⟨_, w₁, hchange, hwrite⟩ := Act.bind_eq_ok.mp hwrite
  obtain ⟨x, hmake, rfl⟩ := Act.change_eq_ok.mp hchange
  obtain ⟨_, w₂, hchange, hwrite⟩ := Act.bind_eq_ok.mp hwrite
  obtain ⟨y, hscript, rfl⟩ := Act.change_eq_ok.mp hchange
  obtain ⟨t, hset, rfl⟩ := Act.change_eq_ok.mp hwrite
  obtain ⟨hmakePath, -⟩ := spelled_beside hs hr "Makefile".toList (by decide)
    (n := Utf8.encode "Makefile".toList) (by decide)
  obtain ⟨hscriptPath, -⟩ := spelled_beside hs hr "tryRun.sh".toList (by decide)
    (n := scriptName) (by decide)
  obtain ⟨mode, hx⟩ := hw.write hr.outputDir hmakePath hmake
  obtain ⟨mode', hy⟩ := hx.staged.write hr.outputDir hscriptPath hscript
  have hyold := get?_of_find hy.staged.grown.wellFormed hy.found
  rw [setMode_of_find hy.found, Except.ok.injEq] at hset
  have ht : t = y.put (o ++ [scriptName]) (scriptNode r.testArg values s.clock) := hset.symm
  have hstaged : Staged o s t := by
    rw [ht]
    exact hy.staged.put_file (List.prefix_append o _) hyold _ _ _
  have hlasting : Lasting y t := by
    rw [ht]
    exact .put (by simp) (extends_put_file hyold) (by decide)
  have hother : ∀ l, l ≠ o ++ [scriptName] → t.get? l = x.get? l := by
    intro l hl
    rw [ht, get?_put_of_ne (by simp) hl, hy.result, get?_put_of_ne (by simp) hl]
  refine ⟨hstaged, hx.lasting.trans (hy.lasting.trans hlasting),
    by rw [ht, get?_put_self (by simp)], fun w' hw' => ?_⟩
  have hne : o ++ [Utf8.encode "Makefile".toList] ≠ o ++ [scriptName] := by
    rw [ne_eq, List.append_cancel_left_eq]
    decide
  obtain ⟨z, hmake', hz⟩ := hx.again (List.prefix_append o _) (hy.lasting.trans hlasting)
    (hother _ hne) hw'
  have hwf := hz.grown.wellFormed
  obtain ⟨old, mode'', stamp, hfind, hmode⟩ :=
    (hlasting.trans hz.lasting).find hy.staged.grown.wellFormed hwf hy.found hy.writable
  have hscript' := write_of_find hwf hfind hmode (Utf8.encode (Reproducer.render r.testArg values'))
  have hset' := setMode_put hwf hfind (Utf8.encode (Reproducer.render r.testArg values'))
    (writtenMode mode'') Reproducer.scriptMode
  refine ⟨_, Act.bind_eq_ok.mpr ⟨(), _, Act.change_eq_ok.mpr ⟨z, hmake', rfl⟩,
    Act.bind_eq_ok.mpr ⟨(), _, Act.change_eq_ok.mpr ⟨_, hscript', rfl⟩,
      Act.change_eq_ok.mpr ⟨_, hset', rfl⟩⟩⟩, fun l hl => ?_, ?_⟩
  · simp only [get?_put_of_ne (show o ++ [scriptName] ≠ [] by simp) hl]
    rcases hz.among l with hend | hnow
    · exact hend
    · exact hnow.trans (hother l hl).symm
  · simp only [get?_put_self (show o ++ [scriptName] ≠ [] by simp), hz.grown.ext.clock]
    rfl

/-! ### The whole run -/

/-- In a corpus without links that lies apart from the output, only the pages of the test can lead
to the output. -/
lemma secluded_of_linkFree {root : Location} (hs : s.WellFormed) (hlayout : settings.layout.IsPlain)
    (hr : Request.Accepted s settings.layout r test c o) (hname : TestName.NoParent test)
    (hapart : Apart c o) (hfree : LinkFree s (c <+: ·))
    (hpages : Closure.PagesKeepOut settings r s o) (hat : Closure.ScratchAt s scratch root)
    (hout : ¬ c <+: root) (hout' : ¬ o <+: root) :
    Closure.Secluded settings r test s c o scratch where
  wellFormed := hs
  plain := hlayout
  accepted := hr
  output _ hl := hapart.not_prefix_of_around (Or.inr (hfree.of_reachable hl))
  testDir := by
    obtain ⟨a, ha⟩ := (hr.testDir_enters hs hlayout hname).goesBeneath
    exact .of_goesBeneath hfree ha
  pages := hpages
  scratch := by
    refine ⟨root, hat, hout', fun l hl hroot => ?_⟩
    rcases List.prefix_or_prefix_of_prefix (hfree.of_reachable hl) hroot with hc | hc
    · exact hout hc
    · have hnone := hs.get?_eq_none_of_prefix (hat.free hs) hc
      rw [hr.corpusDir] at hnone
      cases hnone

/-- Without a link to a directory in the native tree, an extraction that succeeded can be done once
more: it comes to the same and leaves everything as it is, up to what the script says. Of the output
nothing may be in reach of the corpus, and neither the oracle nor the pages of the test may look at
what is there. -/
theorem run_again {host' : Host}
    {answer : (entries roots : List Path) → Store → Except Failure PathSet} {summary : Summary}
    (h : Closure.Secluded settings r test s c o host'.scratchDir) (ho : oracle.AnswersBy answer)
    (hanswer : Closure.IgnoresBeneath answer o) (hfree : LinkFree s (o <+: ·))
    (hrun : run host settings oracle false r (.ofStore s) = (.ok summary, v))
    (hsame : (Closure.build host' settings oracle r (.ofStore s)).1 = .ok summary.closure)
    (hfiles : ∀ p ∈ summary.closure.files.toList, KeepsTo s c p)
    (hstays : summary.closure.StaysBeneath r.corpus)
    (hplain : summary.closure.hasNatives = true → NativesPlain settings.layout r s) :
    ∃ v', run host' settings oracle false r (.ofStore v.store) = (.ok summary, v') ∧
      (∀ l, l ≠ o ++ [scriptName] → v'.store.get? l = v.store.get? l) ∧
      v.store.get? (o ++ [scriptName]) = some (scriptNode r.testArg (.ofHost host) s.clock) ∧
      v'.store.get? (o ++ [scriptName]) = some (scriptNode r.testArg (.ofHost host') s.clock) := by
  obtain ⟨w₁, hw₁, -, hassemble⟩ := run_ok ho.readOnly h.wellFormed hrun
  obtain ⟨-, w₂, w₃, n, hcopied, hnatives, hwrite, hcount, hn⟩ := assemble_ok hassemble
  have hbeneath : ∀ file ∈ summary.closure.files.toList, ∀ dst,
      Assembly.destination r.corpus r.output file = .ok dst → ∃ a, GoesBeneath o dst a := by
    intro file hfile dst hdst
    have hdestination : Destination settings.layout r summary.closure s dst := .closure hfile hdst
    exact hdestination.goesBeneath h.wellFormed h.plain h.wellFormed h.accepted hstays
  have hstart : Staged o s w₁.store := by
    rw [hw₁]
    exact ⟨.refl h.wellFormed, hfree⟩
  obtain ⟨hw₂, hlasting₂, hagain₂⟩ :=
    Repeats.copyFiles h hfiles hbeneath w₁ w₂ () hstart hcopied
  obtain ⟨hw₃, hlasting₃, hagain₃⟩ := Repeats.copyNatives h hstays hplain w₂ w₃ n hw₂ hnatives
  obtain ⟨hv, hlasting, hscript, hagain⟩ :=
    write_again h.accepted h.wellFormed _ (.ofHost host') hw₃ hwrite
  -- The second run computes the same closure and goes through the same steps.
  have hwarn := warnMissing_reads (r := r) (.ofStore v.store) hv.grown.wellFormed
  have hquestions : (warnMissing r (.ofStore v.store)).2.questions = [] := warnMissing_quiet _
  have hbuild := Closure.build_again h ho hanswer hv.grown rfl hwarn (by rw [hquestions]; exact .nil)
    hsame hfiles
  obtain ⟨u, hu, heq⟩ :=
    run_eq host' settings ho.readOnly false r (w := .ofStore v.store) hv.grown.wellFormed
  rw [hbuild] at heq
  obtain ⟨u₂, hcopied', hu₂⟩ := hagain₂ v.store u (hlasting₃.trans hlasting)
    (by rw [hu]; exact .start hv.grown _)
  obtain ⟨u₃, hnatives', hu₃⟩ := hagain₃ v.store u₂ hlasting hu₂
  obtain ⟨v', hwrite', hplaces, hscript'⟩ := hagain u₃ hu₃
  refine ⟨v', ?_, hplaces, hscript, hscript'⟩
  rw [heq]
  cases summary with
  | mk closure copied natives =>
    obtain rfl : copied = closure.files.size := hcount
    obtain rfl : natives = n := hn
    exact Act.bind_eq_ok.mpr ⟨_, u₂, Act.bind_eq_ok.mpr ⟨(), u₂, hcopied', rfl⟩,
      Act.bind_eq_ok.mpr ⟨_, u₃, hnatives', Act.bind_eq_ok.mpr ⟨(), v', hwrite', rfl⟩⟩⟩

/-! ### A test with native sources -/

/-- A corpus with a test that has a native source, and a native tree with a header. What stands in
the native tree beside the header is left open. -/
def nativeStore (beside : Location × Node) : Store where
  entries :=
    [(locationOf ["w"], .dir), (locationOf ["w", "jck"], .dir),
      (locationOf ["w", "jck", "src"], .dir), (locationOf ["w", "jck", "src", "lib"], .dir),
      (locationOf ["w", "jck", "src", "lib", "a.h"], .file [97, 10] plainMode ⟨0, 0⟩),
      (locationOf ["w", "jck", "src", "share"], .dir),
      (locationOf ["w", "jck", "tests"], .dir), (locationOf ["w", "jck", "tests", "t"], .dir),
      (locationOf ["w", "jck", "tests", "t", "n.c"], .file [110, 10] plainMode ⟨0, 0⟩),
      (locationOf ["w", "out"], .dir), (locationOf ["tmp"], .dir), beside]
  cwd := []
  clock := ⟨1, 0⟩

/-- The native tree with a header. -/
def headerStore : Store :=
  nativeStore (locationOf ["w", "jck", "src", "share", "n.h"], .file [104, 10] plainMode ⟨0, 0⟩)

/-- The native tree with a link to a directory. -/
def linkedStore : Store :=
  nativeStore (locationOf ["w", "jck", "src", "share", "d"], .link (.ofText "../lib".toList))

/-- The request for the test in the corpus. -/
def nativeRequest : Request where
  corpus := .ofText "/w/jck".toList
  output := .ofText "/w/out".toList
  testDir := .ofText "/w/jck/tests/t".toList
  testArg := "t".toList
  missingDescriptor := none

/-- The native source of the test. -/
def nativeSource : Path := .ofText "/w/jck/tests/t/n.c".toList

/-- The surroundings on another day. -/
def laterHost : Host := { Host.bare with date := "2".toList }

set_option maxRecDepth 10000 in
lemma run_linked :
    Request.validate linkedStore .default (.ofText "/w/jck".toList) (.ofText "/w/out".toList)
        "t".toList = .ok nativeRequest ∧
      linkedStore.WellFormed ∧ linkedStore.names (locationOf ["w", "out"]) = [] ∧
      (run .bare .default .silent false nativeRequest (.ofStore linkedStore)).1 =
        .ok ⟨⟨⟨[nativeSource]⟩, true⟩, 1, 0⟩ ∧
      (run .bare .default .silent false nativeRequest (.ofStore
        (run .bare .default .silent false nativeRequest (.ofStore linkedStore)).2.store)).1 =
        .error (.makeLink (.ofText "/w/out/src/share/d".toList) (.ofText "../lib".toList)
          .alreadyExists) := by
  decide +kernel

/-- A link to a directory in the native tree is copied once. The second time its place is taken, and
the extraction fails. -/
theorem run_again_refuses_link :
    Request.validate linkedStore .default (.ofText "/w/jck".toList) (.ofText "/w/out".toList)
        "t".toList = .ok nativeRequest ∧
      linkedStore.WellFormed ∧ Oracle.silent.ReadOnly ∧
      Apart (locationOf ["w", "jck"]) (locationOf ["w", "out"]) ∧
      linkedStore.names (locationOf ["w", "out"]) = [] ∧
      (run .bare .default .silent false nativeRequest (.ofStore linkedStore)).1 =
        .ok ⟨⟨⟨[nativeSource]⟩, true⟩, 1, 0⟩ ∧
      (run .bare .default .silent false nativeRequest (.ofStore
        (run .bare .default .silent false nativeRequest (.ofStore linkedStore)).2.store)).1 =
        .error (.makeLink (.ofText "/w/out/src/share/d".toList) (.ofText "../lib".toList)
          .alreadyExists) := by
  obtain ⟨hvalid, hs, hempty, hfirst, hsecond⟩ := run_linked
  exact ⟨hvalid, hs, Oracle.silent_readOnly, by decide, hempty, hfirst, hsecond⟩

/-- What an extraction of the test comes to where the native tree has a header. -/
def headerSummary : Summary := ⟨⟨⟨[nativeSource]⟩, true⟩, 1, 1⟩

set_option maxRecDepth 10000 in
lemma run_header :
    Request.validate headerStore .default (.ofText "/w/jck".toList) (.ofText "/w/out".toList)
        "t".toList = .ok nativeRequest ∧
      headerStore.WellFormed ∧
      (TestContents.ofDir headerStore nativeRequest.testDir).map
        (·.descriptors Layout.default) = .ok [] ∧
      NativesPlain Layout.default nativeRequest headerStore ∧
      (Closure.build laterHost .default .silent nativeRequest (.ofStore headerStore)).1 =
        .ok headerSummary.closure ∧
      (run .bare .default .silent false nativeRequest (.ofStore headerStore)).1 =
        .ok headerSummary := by
  decide +kernel

/-- With a header in the native tree an extraction can be done once more, also on another day. -/
theorem run_headerStore_again :
    headerStore.WellFormed ∧ NativesPlain Layout.default nativeRequest headerStore ∧
      (run .bare .default .silent false nativeRequest (.ofStore headerStore)).1 =
        .ok headerSummary ∧
      ∃ v', run laterHost .default .silent false nativeRequest (.ofStore
          (run .bare .default .silent false nativeRequest (.ofStore headerStore)).2.store) =
          (.ok headerSummary, v') ∧
        ∀ l, l ≠ locationOf ["w", "out"] ++ [scriptName] → v'.store.get? l =
          (run .bare .default .silent false nativeRequest (.ofStore headerStore)).2.store.get? l := by
  obtain ⟨hvalid, hs, hpages, hplain, hbuild, hrun⟩ := run_header
  have hr : Request.Accepted headerStore Layout.default nativeRequest "t".toList
      (locationOf ["w", "jck"]) (locationOf ["w", "out"]) :=
    Request.accepted_at hs hvalid (by decide +kernel) (by decide +kernel)
  have hfree : ∀ region, LinkFree headerStore region := fun _ => linkFree_of_entries (by decide)
  have hpagesOut : Closure.PagesKeepOut .default nativeRequest headerStore
      (locationOf ["w", "out"]) := by
    intro contents sc page dir content link rel hcontents _ hpage
    rw [hcontents] at hpages
    have hnone : contents.descriptors Layout.default = [] := Except.ok.inj hpages
    rw [show Settings.default.layout = Layout.default from rfl, hnone] at hpage
    cases hpage
  have hat : Closure.ScratchAt headerStore laterHost.scratchDir (locationOf ["tmp", "scratch"]) :=
    ⟨headerStore.put (locationOf ["tmp", "scratch"]) .dir, by decide +kernel, by decide +kernel⟩
  have hsecluded := secluded_of_linkFree hs Layout.isPlain_default hr (by decide +kernel) (by decide)
    (hfree _) hpagesOut hat (by decide) (by decide)
  have hfiles : ∀ p ∈ headerSummary.closure.files.toList,
      KeepsTo headerStore (locationOf ["w", "jck"]) p := by
    intro p hp
    rw [List.mem_singleton.mp hp]
    obtain ⟨a, ha⟩ := (Enters.of_noParent (by decide +kernel) (by decide +kernel)
      (by decide +kernel) : Enters (locationOf ["w", "jck"]) nativeSource).goesBeneath
    exact .of_goesBeneath (hfree _) ha
  have hstays : headerSummary.closure.StaysBeneath nativeRequest.corpus := by
    intro file hfile rel hrel
    rw [List.mem_singleton.mp hfile] at hrel
    have hstrip : nativeSource.strip? nativeRequest.corpus = some (.ofText "tests/t/n.c".toList) := by
      decide +kernel
    rw [hstrip, Option.some.injEq] at hrel
    subst hrel
    exact inside_of_forall (by decide +kernel)
  have ho : Oracle.silent.AnswersBy fun _ _ _ => .ok PathSet.empty := fun _ _ _ => ⟨rfl, rfl, rfl⟩
  obtain ⟨v', hagain, hsame, -⟩ := run_again hsecluded ho (fun _ _ _ _ _ => rfl) (hfree _)
    (Act.run_eq_of_fst hrun) hbuild hfiles hstays fun _ => hplain
  exact ⟨hs, hplain, hrun, v', hagain, hsame⟩

end Extraction

end Excerpt
