import Excerpt.Extraction
import Excerpt.Proofs.Assembly.Copying
import Excerpt.Proofs.Closure.Effects

/-!
# Where an extraction writes

Once its closure is known, an extraction writes only to destinations: the places that the files of
the closure and the entries of the native tree have in the output, and two files beside them. It
makes directories on the way to destinations, and it makes a link only where the native tree has
one.
-/

namespace Excerpt

open Store

namespace Extraction

variable {layout : Layout} {r : Request} {c : Closure} {s t : Store} {p : Path}
  {may : Store → Change → Prop}

/-- The directory of native sources. -/
def nativeDir (layout : Layout) (r : Request) : Path :=
  (r.srcRoot layout).joinText layout.nativeDir

/-- What paths in the native tree are taken relative to. -/
def nativeBase (layout : Layout) (r : Request) : Path :=
  (nativeDir layout r).parent?.getD (nativeDir layout r)

/-- What the native tree is copied beneath. -/
def nativeRoot (layout : Layout) (r : Request) : Path := r.output.joinText layout.srcDir

/-- A path in the native tree, by the names on the way from its top. -/
def InNativeTree (layout : Layout) (r : Request) (s : Store) (names : Location) : Prop :=
  ∃ loc node, s.find true (nativeDir layout r) = .ok (loc, .dir) ∧
    s.get? (loc ++ names) = some node

/-- The places that an extraction writes to. -/
inductive Destination (layout : Layout) (r : Request) (c : Closure) (s : Store) : Path → Prop where
  | closure {file dst : Path} : file ∈ c.files.toList →
      Assembly.destination r.corpus r.output file = .ok dst → Destination layout r c s dst
  | native {names : Location} {rel : Path} : c.hasNatives = true →
      InNativeTree layout r s names →
      (chain (nativeDir layout r) names).strip? (nativeBase layout r) = some rel →
      Destination layout r c s ((nativeRoot layout r).join rel)
  | nativeTop : c.hasNatives = true →
      Destination layout r c s ((nativeRoot layout r).join
        (((nativeDir layout r).strip? (nativeBase layout r)).getD (nativeDir layout r)))
  | makefile : Destination layout r c s (r.output.joinText "Makefile".toList)
  | script : Destination layout r c s (r.output.joinText "tryRun.sh".toList)

/-- What an extraction may do once its closure is known. -/
def Permits (layout : Layout) (r : Request) (c : Closure) (s : Store) : Change → Prop
  | .dir q => ∃ dst, Destination layout r c s dst ∧ Over dst q
  | .file p => Destination layout r c s p
  | .link target p => Destination layout r c s p ∧ ∃ names, InNativeTree layout r s names ∧
      s.readLink (chain (nativeDir layout r) names) = .ok target

lemma InNativeTree.of_extends {names : Location} (h : InNativeTree layout r s names)
    (hext : Extends s t) : InNativeTree layout r t names := by
  obtain ⟨loc, node, hfind, hn⟩ := h
  obtain ⟨top, hfind', htop⟩ := hext.find hfind
  obtain ⟨node', hn', -⟩ := hext.kept _ _ hn
  exact ⟨loc, node', by rw [hfind', Node.shape_eq_dir.mp htop], hn'⟩

lemma Destination.of_extends (h : Destination layout r c s p) (hext : Extends s t) :
    Destination layout r c t p := by
  cases h with
  | closure hfile hdst => exact .closure hfile hdst
  | native hc htree hrel => exact .native hc (htree.of_extends hext) hrel
  | nativeTop hc => exact .nativeTop hc
  | makefile => exact .makefile
  | script => exact .script

/-! ### Copying -/

lemma copyFiles_obeys {corpus output : Path} {files : List Path}
    (hdir : ∀ file ∈ files, ∀ dst, Assembly.destination corpus output file = .ok dst →
      ∀ s q, Over dst q → may s (.dir q))
    (hfile : ∀ file ∈ files, ∀ dst, Assembly.destination corpus output file = .ok dst →
      ∀ s, may s (.file dst)) :
    Act.Obeys may (Assembly.copyFiles corpus output files) := by
  induction files with
  | nil => exact Act.Reads.pure.obeys
  | cons file files ih =>
    refine .look_bind fun w dst hw hdst => ?_
    refine (Act.Obeys.bind (Assembly.copyFile_obeys ?_ ?_) fun _ => ?_) w hw
    · exact hdir file List.mem_cons_self dst hdst
    · exact hfile file List.mem_cons_self dst hdst
    · exact ih (fun f hf => hdir f (List.mem_cons_of_mem _ hf))
        fun f hf => hfile f (List.mem_cons_of_mem _ hf)

lemma copyLink_obeys {link dst : Path}
    (hlink : ∀ s target, s.readLink link = .ok target → may s (.link target dst)) :
    Act.Obeys may (Assembly.copyLink link dst) := by
  refine .look_bind fun w target hw htarget => ?_
  have hread : w.store.readLink link = .ok target := by
    split at htarget
    · rename_i h
      cases htarget
      exact h
    · cases htarget
  unfold Act.change Act.edit Store.step
  split
  · rename_i hstep
    split at hstep
    · rename_i hmake
      cases hstep
      exact .single (hlink _ _ hread) (changes_of_makeLink hw hmake)
    · cases hstep
  · rename_i hstep
    split at hstep
    · cases hstep
    · cases hstep
      exact .refl _

/-- Copying an entry of the native tree. -/
lemma copyEntry_obeys {names : Location} {e : WalkEntry} (hc : c.hasNatives = true)
    (hpath : e.path = chain (nativeDir layout r) names) (htree : InNativeTree layout r s names) :
    Act.Obeys (fun t change => Extends s t → Permits layout r c t change)
      (Assembly.copyEntry (nativeBase layout r) (nativeRoot layout r) e) := by
  unfold Assembly.copyEntry
  split
  · exact Act.Reads.throw.obeys
  · rename_i rel hrel
    rw [hpath] at hrel
    have hdst : ∀ t, Extends s t → Destination layout r c t ((nativeRoot layout r).join rel) :=
      fun t hext => .native hc (htree.of_extends hext) hrel
    simp only
    split
    · exact .bind (.makeDirs fun t q hq hext => ⟨_, hdst t hext, hq⟩) fun _ =>
        Act.Reads.pure.obeys
    · refine .bind Act.Reads.look.obeys fun _ => ?_
      split
      · refine .bind (copyLink_obeys fun t target hread hext => ?_) fun _ => Act.Reads.pure.obeys
        exact ⟨hdst t hext, names, htree.of_extends hext, hpath ▸ hread⟩
      · refine .bind (Assembly.copyFile_obeys (fun t q hq hext => ?_) fun t hext => ?_) fun _ =>
          Act.Reads.pure.obeys
        · exact ⟨_, hdst t hext, hq⟩
        · exact hdst t hext

lemma copyEntries_obeys {es : List WalkEntry} (hc : c.hasNatives = true)
    (hes : ∀ e ∈ es, ∃ names, e.path = chain (nativeDir layout r) names ∧
      InNativeTree layout r s names) :
    Act.Obeys (fun t change => Extends s t → Permits layout r c t change)
      (Assembly.copyEntries (nativeBase layout r) (nativeRoot layout r) es) := by
  induction es with
  | nil => exact Act.Reads.pure.obeys
  | cons e es ih =>
    obtain ⟨names, hpath, htree⟩ := hes e List.mem_cons_self
    refine .bind (copyEntry_obeys hc hpath htree) fun _ => ?_
    exact .bind (ih fun e he => hes e (List.mem_cons_of_mem _ he)) fun _ => Act.Reads.pure.obeys

lemma copyNatives_obeys : Act.Obeys (Permits layout r c) (copyNatives layout r c) := by
  unfold copyNatives
  split
  · rename_i hc
    unfold Assembly.copyNativeTree
    refine .bind Act.Reads.look.obeys fun found => ?_
    simp only
    split
    · exact Act.Reads.throw_bind.obeys
    · refine .bind (.makeDirs fun s q hq => ⟨_, .nativeTop hc, hq⟩) fun _ => ?_
      refine .bind Act.Reads.look.obeys fun gs => ?_
      refine .look_bind_extends fun s es hs hes => ?_
      refine .bind (copyEntries_obeys hc fun e he => ?_) fun _ =>
        (Act.Reads.report.bind fun _ => Act.Reads.pure).obeys
      obtain ⟨loc, hfind, names, -, hpath, node, hnode, -⟩ := Walk.met_of_mem_entries hs hes he
      exact ⟨names, hpath, loc, node, hfind, hnode⟩
  · exact Act.Reads.pure.obeys

lemma write_obeys {test : Text} {v : Reproducer.Values} :
    Act.Obeys (Permits layout r c) (Reproducer.write r.output test v) := by
  unfold Reproducer.write
  refine .bind (.change fun s t hs h => ?_) fun _ => .bind (.change fun s t hs h => ?_) fun _ =>
    .change fun s t hs h => ?_
  · exact .single (c := .file _) .makefile (changes_of_write hs h)
  · exact .single (c := .file _) .script (changes_of_write hs h)
  · rcases changes_of_setMode h with rfl | hchange
    · exact .refl _
    · exact .single (c := .file _) .script hchange

/-- Copying a closure to the output writes only to destinations. -/
theorem assemble_obeys {h : Host} : Act.Obeys (Permits layout r c) (assemble h layout r c) := by
  unfold assemble Assembly.copyClosure
  refine .bind (.bind (copyFiles_obeys ?_ ?_) fun _ => Act.Reads.pure.obeys) fun _ => ?_
  · exact fun file hfile dst hdst s q hq => ⟨dst, .closure hfile hdst, hq⟩
  · exact fun file hfile dst hdst s => .closure hfile hdst
  · exact .bind copyNatives_obeys fun _ => .bind write_obeys fun _ => Act.Reads.pure.obeys

lemma warnMissing_reads : Act.Reads (warnMissing r) := by
  unfold warnMissing
  split
  · exact Act.Reads.report
  · exact Act.Reads.pure

lemma warnMissing_quiet : Act.Quiet (warnMissing r) := by
  unfold warnMissing
  split
  · exact Act.Quiet.report
  · exact Act.Quiet.pure

/-- A run is the computation of its closure, and then nothing in a dry run and the assembling in a
real one. -/
lemma run_eq (h : Host) (settings : Settings) {oracle : Oracle} (ho : oracle.ReadOnly)
    (dryRun : Bool) (r : Request) {w : World} (hw : w.store.WellFormed) :
    ∃ v : World, v.store = w.store ∧ run h settings oracle dryRun r w =
      match (Closure.build h settings oracle r (warnMissing r w).2).1 with
      | .error e => (.error e, v)
      | .ok c => if dryRun then (.ok ⟨c, 0, 0⟩, v) else assemble h settings.layout r c v := by
  have hwarn := warnMissing_reads (r := r) w hw
  have hbuild : (Closure.build h settings oracle r (warnMissing r w).2).2.store = w.store := by
    rw [Closure.build_store ho h (hwarn ▸ hw), hwarn]
  have hfirst : (warnMissing r w).1 = .ok () := by
    unfold warnMissing
    cases r.missingDescriptor <;> rfl
  unfold run
  rw [Act.run_bind, Act.run_eq_of_fst hfirst]
  simp only
  rw [Act.run_bind]
  rcases hc : Closure.build h settings oracle r (warnMissing r w).2 with ⟨e | c, v⟩
  · rw [hc] at hbuild
    exact ⟨v, hbuild, rfl⟩
  · rw [hc] at hbuild
    refine ⟨(Act.report .info target "dependency closure resolved" [("files".toList,
      Text.ofNat c.files.size), ("natives".toList, Log.flag c.hasNatives)] v).2, hbuild, ?_⟩
    cases dryRun <;> rfl

/-- A whole extraction leaves the store alone until its closure is known, and then writes only to
destinations. -/
theorem run_cases (h : Host) (settings : Settings) {oracle : Oracle} (ho : oracle.ReadOnly)
    (dryRun : Bool) (r : Request) {w : World} (hw : w.store.WellFormed) :
    (run h settings oracle dryRun r w).2.store = w.store ∨
    (dryRun = false ∧ ∃ c v, Closure.build h settings oracle r (warnMissing r w).2 = (.ok c, v) ∧
      Runs (Permits settings.layout r c) w.store (run h settings oracle dryRun r w).2.store) := by
  obtain ⟨v, hv, hrun⟩ := run_eq h settings ho dryRun r hw
  rcases hbuild : Closure.build h settings oracle r (warnMissing r w).2 with ⟨e | c, v'⟩
  · rw [hbuild] at hrun
    exact Or.inl (by rw [hrun]; exact hv)
  · rw [hbuild] at hrun
    cases dryRun with
    | true => exact Or.inl (by rw [hrun]; exact hv)
    | false =>
      have hassemble : run h settings oracle false r w = assemble h settings.layout r c v := hrun
      rw [hassemble, ← hv]
      exact Or.inr ⟨rfl, c, v', rfl, assemble_obeys v (hv ▸ hw)⟩

end Extraction

end Excerpt
