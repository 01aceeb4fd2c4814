import Excerpt.Proofs.Extraction.Confinement
import Excerpt.Proofs.Extraction.Copying

/-!
# What is delivered

A corpus without links is copied place by place: what stands in the output has come from the same
place in the corpus. There are exceptions. The makefile and the script come to the output whatever
the corpus has in their places, and a native directory of more than one name is copied to other
places than it has in the corpus. So a file of the closure is delivered as it is unless its place
is such a foreign one.
-/

namespace Excerpt

open Store

namespace Extraction

variable {layout : Layout} {settings : Settings} {h : Host} {oracle : Oracle} {r : Request}
  {test : Text} {closure : Closure} {s t u : Store} {src dst p : Path} {w v : World}
  {c o l m k : Location} {a b : List Component} {node : Node} {foreign : Location → Prop}

/-- A place of the output that something else comes to than the file of the corpus at the same
place. -/
inductive Foreign (layout : Layout) (r : Request) (closure : Closure) (s : Store) (c o : Location) :
    Location → Prop where
  | makefile : Foreign layout r closure s c o [Utf8.encode "Makefile".toList]
  | script : Foreign layout r closure s c o [Utf8.encode "tryRun.sh".toList]
  | native {names k m : Location} {rel : Path} : closure.hasNatives = true →
      InNativeTree layout r s names →
      (chain (nativeDir layout r) names).strip? (nativeBase layout r) = some rel →
      spelled (chain (nativeDir layout r) names) = c ++ k →
      spelled ((nativeRoot layout r).join rel) = o ++ m → k ≠ m → Foreign layout r closure s c o m

/-- The output beneath `o` mirrors the corpus beneath `c`: nothing has changed outside of the
output since `s`, and each file of the output has the content of the file of the corpus at the same
place, unless the place is foreign. -/
structure Mirrors (c o : Location) (foreign : Location → Prop) (s t : Store) : Prop where
  wellFormed : t.WellFormed
  confined : Confined c o s t
  same : ∀ m content mode stamp, t.get? (o ++ m) = some (.file content mode stamp) →
    foreign m ∨ ∃ mode' stamp', s.get? (c ++ m) = some (.file content mode' stamp')

/-- Neither of two locations lies beneath the other one. -/
def Apart (c o : Location) : Prop := ¬ c <+: o ∧ ¬ o <+: c

instance (c o : Location) : Decidable (Apart c o) :=
  inferInstanceAs (Decidable (¬ c <+: o ∧ ¬ o <+: c))

lemma Apart.not_prefix_of_around (h : Apart c o) (hm : Around c m) : ¬ o <+: m := by
  intro ho
  rcases hm with hm | hm
  · exact h.2 (ho.trans hm)
  · exact (List.prefix_or_prefix_of_prefix hm ho).elim h.1 h.2

/-- In a confined run the paths of the corpus lead to what they led to before. -/
lemma Confined.find_eq (hconfined : Confined c o s t) (hs : s.WellFormed) (hapart : Apart c o)
    (hc : s.get? c = some .dir) (hfree : LinkFree s (c <+: ·)) (hp : GoesBeneath c p a)
    (follow : Bool) : t.find follow p = s.find follow p := by
  have heq : ∀ m, Around c m → s.get? m = t.get? m :=
    fun m hm => (hconfined.outside m (hapart.not_prefix_of_around hm)).symm
  exact ((hs.linkFree_around hc hfree).find_eq heq hp.1 hp.stays follow).symm

namespace Mirrors

/-- Making directories brings no file. -/
lemma makeDirs (hm : Mirrors c o foreign s t) (hdst : GoesBeneath o dst b)
    (hrun : Runs (fun _ change => ∃ q, change = .dir q ∧ Over dst q) t u) :
    Mirrors c o foreign s u := by
  refine hrun.invariant ?_ hm.wellFormed hm
  rintro t u _ ht hinv ⟨q, rfl, hq⟩ hc
  have hconfined := hinv.confined.step ht hdst (show Over dst (Change.dir q).path from hq)
    (by simp) hc
  refine ⟨hc.wellFormed ht, hconfined, fun m content mode stamp hn => ?_⟩
  cases hc with
  | @new d n node _ _ _ _ hmakes =>
    rw [show node = .dir from hmakes, get?_put (by simp)] at hn
    split at hn
    · cases hn
    · exact hinv.same m content mode stamp hn
  | rewritten he => cases he

/-- A file that comes to a place has to have the content of the file at that place of the corpus,
unless the place is foreign. -/
lemma put {content : Bytes} {mode : Nat} {stamp : Stamp} (hm : Mirrors c o foreign s t)
    (hdst : GoesBeneath o dst b) (hc : Changes (.file dst) t u)
    (hu : u = t.put l (.file content mode stamp))
    (hfind : u.find true dst = .ok (l, .file content mode stamp))
    (hsame : ∀ m, spelled dst = o ++ m →
      foreign m ∨ ∃ mode' stamp', s.get? (c ++ m) = some (.file content mode' stamp')) :
    Mirrors c o foreign s u := by
  have hconfined := hm.confined.step hm.wellFormed hdst
    (show Over dst (Change.file dst).path from .refl dst) (by simp) hc
  have hwf := hc.wellFormed hm.wellFormed
  obtain ⟨hl, -, hn, -⟩ := hdst.find hwf hconfined.outputDir hconfined.outputFree hfind
  rw [← hdst.spelled_eq] at hl
  have hne : l ≠ [] := by
    rintro rfl
    cases hn
  refine ⟨hwf, hconfined, fun m content' mode' stamp' hfile => ?_⟩
  rw [hu, get?_put hne] at hfile
  split at hfile
  · rename_i he
    cases hfile
    exact hsame m (by rw [he, hl])
  · exact hm.same m content' mode' stamp' hfile

/-- Copying a file of the corpus to the same place of the output, or to a foreign one. -/
lemma copyFile (hm : Mirrors c o foreign s w.store) (hapart : Apart c o)
    (hsrc : GoesBeneath c src a) (hdst : GoesBeneath o dst b)
    (hplace : ∀ k m, spelled src = c ++ k → spelled dst = o ++ m → foreign m ∨ k = m)
    (hcopy : Assembly.copyFile src dst w = (.ok (), v)) : Mirrors c o foreign s v.store := by
  obtain ⟨t, origin, l, content, hdirs, hcopies⟩ := copyFile_ok hm.wellFormed hcopy
  have ht := hm.makeDirs hdst hdirs
  obtain ⟨mode, stamp, hsource⟩ := hcopies.source
  obtain ⟨mode', stamp', hput, hfound⟩ := hcopies.target
  obtain ⟨horigin, hcorpus, hn, -⟩ :=
    hsrc.find ht.wellFormed ht.confined.corpusDir ht.confined.corpusFree hsource
  rw [← hsrc.spelled_eq] at horigin
  have hout : ¬ o <+: origin := hapart.not_prefix_of_around (Or.inr hcorpus)
  have hne : l ≠ origin := by
    have hconfined := ht.confined.step ht.wellFormed hdst
      (show Over dst (Change.file dst).path from .refl dst) (by simp) hcopies.changes
    obtain ⟨-, houtput, -, -⟩ := hdst.find (hcopies.changes.wellFormed ht.wellFormed)
      hconfined.outputDir hconfined.outputFree hfound
    rintro rfl
    exact hout houtput
  rw [if_neg hne] at hput hfound
  refine ht.put hdst hcopies.changes hput hfound fun m hmplace => ?_
  obtain ⟨k, hk⟩ := hcorpus
  rcases hplace k m (by rw [← horigin, hk]) hmplace with hforeign | rfl
  · exact Or.inl hforeign
  · rw [ht.confined.outside origin hout, ← hk] at hn
    exact Or.inr ⟨mode, stamp, hn⟩

/-- Writing a file at a foreign place. -/
lemma write {content : Bytes} (hm : Mirrors c o foreign s t) (hdst : GoesBeneath o dst b)
    (hplace : ∀ m, spelled dst = o ++ m → foreign m) (hwrite : t.write dst content = .ok u) :
    Mirrors c o foreign s u := by
  obtain ⟨l, mode, hput, hfound, -, -⟩ := find_of_write hm.wellFormed hwrite
  exact hm.put hdst (changes_of_write hm.wellFormed hwrite) hput hfound
    fun m hmplace => Or.inl (hplace m hmplace)

lemma setMode {mode : Nat} (hm : Mirrors c o foreign s t) (hdst : GoesBeneath o dst b)
    (hplace : ∀ m, spelled dst = o ++ m → foreign m) (hset : t.setMode dst mode = .ok u) :
    Mirrors c o foreign s u := by
  rcases of_setMode hset with rfl | ⟨l, content, old, stamp, hfind, rfl⟩
  · exact hm
  · exact hm.put hdst (.rewritten rfl hfind) rfl (find_put_old hm.wellFormed hfind)
      fun m hmplace => Or.inl (hplace m hmplace)

end Mirrors

/-! ### Along the run -/

section Run

variable (hs : s.WellFormed) (hr : Request.Accepted s layout r test c o) (hapart : Apart c o)

include hs hr in
/-- A file of the corpus and its destination spell the same names. -/
lemma spelled_destination {file : Path} (henters : Enters c file)
    (hdst : Assembly.destination r.corpus r.output file = .ok dst) :
    ∃ a names, GoesBeneath c file a ∧ GoesBeneath o dst a ∧ spelled file = c ++ names ∧
      spelled dst = o ++ names := by
  obtain ⟨rel, hrel, habs, hsteps, hinside⟩ := Closure.exists_strip hr hs henters
  rw [Assembly.destination, hrel] at hdst
  cases hdst
  have hsrc : GoesBeneath c file rel.steps := .of_inside henters.1 hsteps hinside
  have hdst := hr.join_output hs habs hinside
  obtain ⟨names, hnames⟩ := hinside.exists_along []
  simp only [List.append_nil] at hnames
  refine ⟨rel.steps, names, hsrc, hdst, ?_, ?_⟩
  · rw [hsrc.spelled_eq, hnames]
  · rw [hdst.spelled_eq, hnames]

include hs hr hapart in
lemma Mirrors.copyFiles {files : List Path} (hm : Mirrors c o foreign s w.store)
    (henters : ∀ file ∈ files, Enters c file)
    (hcopy : Assembly.copyFiles r.corpus r.output files w = (.ok (), v)) :
    Mirrors c o foreign s v.store := by
  induction files generalizing w with
  | nil =>
    cases hcopy
    exact hm
  | cons file files ih =>
    obtain ⟨dst, w₁, hlook, hfirst⟩ := Act.bind_eq_ok.mp hcopy
    obtain ⟨_, w₂, hfile, hrest⟩ := Act.bind_eq_ok.mp hfirst
    obtain ⟨hdst, rfl⟩ := destination_ok hlook
    obtain ⟨a, names, hsrc, hbeneath, hplace, hplace'⟩ :=
      spelled_destination hs hr (henters file List.mem_cons_self) hdst
    refine ih (hm.copyFile hapart hsrc hbeneath (fun k m hk hm => ?_) hfile)
      (fun f hf => henters f (List.mem_cons_of_mem _ hf)) hrest
    rw [hplace, List.append_cancel_left_eq] at hk
    rw [hplace', List.append_cancel_left_eq] at hm
    exact Or.inr (hk.symm.trans hm)

variable (hlayout : layout.IsPlain) (hfree : LinkFree s (c <+: ·))

include hs hr hapart hlayout hfree in
/-- The native tree is still the one of before. -/
lemma Mirrors.inNativeTree {names : Location} (hm : Mirrors c o foreign s t)
    (htree : InNativeTree layout r t names) : InNativeTree layout r s names := by
  have hwf := hm.wellFormed
  obtain ⟨loc, node, hfind, hn⟩ := htree
  have htop : InNativeTree layout r t [] :=
    ⟨loc, .dir, hfind, by rw [List.append_nil]; exact get?_of_find hwf hfind⟩
  obtain ⟨a, ha⟩ := htop.goesBeneath hwf hlayout hs hr
  obtain ⟨-, hbeneath, -, -⟩ := ha.find hwf hm.confined.corpusDir hm.confined.corpusFree hfind
  refine ⟨loc, node, ?_, ?_⟩
  · rw [← hfind]
    exact (hm.confined.find_eq hs hapart hr.corpusDir hfree ha true).symm
  · rw [← hn]
    refine (hm.confined.outside _ ?_).symm
    exact hapart.not_prefix_of_around (Or.inr (hbeneath.trans (List.prefix_append ..)))

variable (hclosure : closure.StaysBeneath r.corpus) (hnatives : closure.hasNatives = true)

include hs hr hapart hlayout hclosure hnatives in
/-- An entry of the native tree is copied to its place in the corpus or to a foreign place. -/
lemma Mirrors.copyEntry {e : WalkEntry} {names : Location} {n : Nat}
    (hm : Mirrors c o (Foreign layout r closure s c o) s w.store)
    (hpath : e.path = chain (nativeDir layout r) names) (htree : InNativeTree layout r s names)
    (hcopy : Assembly.copyEntry (nativeBase layout r) (nativeRoot layout r) e w = (.ok n, v)) :
    Mirrors c o (Foreign layout r closure s c o) s v.store := by
  unfold Assembly.copyEntry at hcopy
  cases hrel : e.path.strip? (nativeBase layout r) with
  | none =>
    simp only [hrel] at hcopy
    cases hcopy
  | some rel =>
    simp only [hrel] at hcopy
    obtain ⟨a, ha⟩ := htree.goesBeneath hs hlayout hs hr
    rw [← hpath] at ha
    obtain ⟨b, hb⟩ :=
      (Destination.native (c := closure) hnatives htree (hpath ▸ hrel)).goesBeneath hs hlayout hs hr
        hclosure
    by_cases hdir : e.isDir = true
    · rw [if_pos hdir] at hcopy
      obtain ⟨_, w₁, hdirs, hcopy⟩ := Act.bind_eq_ok.mp hcopy
      cases hcopy
      obtain ⟨t, hmake, rfl⟩ := Act.edit_eq_ok.mp hdirs
      have hruns := runs_makeDirs hm.wellFormed ((nativeRoot layout r).join rel)
      rw [hmake] at hruns
      exact hm.makeDirs hb hruns
    · rw [if_neg hdir] at hcopy
      obtain ⟨isDir, w₁, hlook, hcopy⟩ := Act.bind_eq_ok.mp hcopy
      cases hlook
      split at hcopy
      · obtain ⟨_, w₁, hlink, -⟩ := Act.bind_eq_ok.mp hcopy
        obtain ⟨l, target, hfind⟩ := copyLink_ok hlink
        cases (ha.find hm.wellFormed hm.confined.corpusDir hm.confined.corpusFree hfind).2.2.2
      · obtain ⟨_, w₁, hfile, hcopy⟩ := Act.bind_eq_ok.mp hcopy
        cases hcopy
        refine hm.copyFile hapart ha hb (fun k m hk hm => ?_) hfile
        by_cases hkm : k = m
        · exact Or.inr hkm
        · exact Or.inl (.native hnatives htree (hpath ▸ hrel) (hpath ▸ hk) hm hkm)

include hs hr hapart hlayout hclosure hnatives in
lemma Mirrors.copyEntries {es : List WalkEntry} {n : Nat}
    (hm : Mirrors c o (Foreign layout r closure s c o) s w.store)
    (hes : ∀ e ∈ es, ∃ names, e.path = chain (nativeDir layout r) names ∧
      InNativeTree layout r s names)
    (hcopy : Assembly.copyEntries (nativeBase layout r) (nativeRoot layout r) es w = (.ok n, v)) :
    Mirrors c o (Foreign layout r closure s c o) s v.store := by
  induction es generalizing w n with
  | nil =>
    cases hcopy
    exact hm
  | cons e es ih =>
    obtain ⟨_, w₁, hentry, hcopy⟩ := Act.bind_eq_ok.mp hcopy
    obtain ⟨_, w₂, hrest, hcopy⟩ := Act.bind_eq_ok.mp hcopy
    cases hcopy
    obtain ⟨names, hpath, htree⟩ := hes e List.mem_cons_self
    exact ih (hm.copyEntry hs hr hapart hlayout hclosure hnatives hpath htree hentry)
      (fun e he => hes e (List.mem_cons_of_mem _ he)) hrest

omit hnatives

include hs hr hapart hlayout hfree hclosure in
lemma Mirrors.copyNatives {n : Nat} (hm : Mirrors c o (Foreign layout r closure s c o) s w.store)
    (hcopy : Extraction.copyNatives layout r closure w = (.ok n, v)) :
    Mirrors c o (Foreign layout r closure s c o) s v.store := by
  unfold Extraction.copyNatives at hcopy
  by_cases hnatives : closure.hasNatives = true
  · rw [if_pos hnatives] at hcopy
    unfold Assembly.copyNativeTree at hcopy
    obtain ⟨isDir, w₁, hlook, hcopy⟩ := Act.bind_eq_ok.mp hcopy
    cases hlook
    simp only at hcopy
    split at hcopy
    · cases hcopy
    · obtain ⟨_, w₁, hdirs, hcopy⟩ := Act.bind_eq_ok.mp hcopy
      obtain ⟨t, hmake, rfl⟩ := Act.edit_eq_ok.mp hdirs
      obtain ⟨gs, w₂, hglobs, hcopy⟩ := Act.bind_eq_ok.mp hcopy
      cases congrArg Prod.snd hglobs
      obtain ⟨es, w₃, hentries, hcopy⟩ := Act.bind_eq_ok.mp hcopy
      obtain ⟨hes, rfl⟩ := Prod.mk.inj hentries
      obtain ⟨copied, w₄, hcopied, hcopy⟩ := Act.bind_eq_ok.mp hcopy
      obtain ⟨_, w₅, hreport, hcopy⟩ := Act.bind_eq_ok.mp hcopy
      cases hreport
      cases hcopy
      obtain ⟨b, hb⟩ := (Destination.nativeTop (s := s) hnatives).goesBeneath hs hlayout hs hr
        hclosure
      have hruns := runs_makeDirs hm.wellFormed ((nativeRoot layout r).join
        (((nativeDir layout r).strip? (nativeBase layout r)).getD (nativeDir layout r)))
      have hmakes : Store.makeDirs ((nativeRoot layout r).join
          (((nativeDir layout r).strip? (nativeBase layout r)).getD (nativeDir layout r)))
          w.store = (.ok (), t) := hmake
      rw [hmakes] at hruns
      have ht : Mirrors c o (Foreign layout r closure s c o) s t := hm.makeDirs hb hruns
      have hmirrors : Mirrors c o (Foreign layout r closure s c o) s w₄.store := by
        refine Mirrors.copyEntries hs hr hapart hlayout hclosure hnatives
          (w := { w with store := t }) ht (fun e he => ?_) hcopied
        obtain ⟨loc, hfind, names, -, hpath, node, hnode, -⟩ :=
          Walk.met_of_mem_entries ht.wellFormed hes he
        exact ⟨names, hpath, ht.inNativeTree hs hr hapart hlayout hfree ⟨loc, node, hfind, hnode⟩⟩
      exact hmirrors
  · rw [if_neg hnatives] at hcopy
    cases hcopy
    exact hm

include hs hr in
/-- What is written beside the test is written at the top of the output. -/
lemma spelled_beside (name : Text) {n : Bytes} (hname : (Path.ofText name).isAbsolute = false)
    (hsteps : (Path.ofText name).steps = [.name n]) :
    GoesBeneath o (r.output.joinText name) [.name n] ∧
      ∀ m, spelled (r.output.joinText name) = o ++ m → m = [n] := by
  have hbeneath := hr.join_output hs hname (by rw [hsteps]; trivial)
  rw [hsteps] at hbeneath
  refine ⟨hbeneath, fun m hm => ?_⟩
  have hspelled : spelled (r.output.joinText name) = along o [.name n] := hbeneath.spelled_eq
  rw [hspelled] at hm
  exact (List.append_cancel_left_eq ..).mp hm.symm

include hs hr in
lemma Mirrors.writeHelpers {test : Text} {values : Reproducer.Values}
    (hm : Mirrors c o (Foreign layout r closure s c o) s w.store)
    (hwrite : Reproducer.write r.output test values w = (.ok (), v)) :
    Mirrors c o (Foreign layout r closure s c o) s v.store := by
  obtain ⟨_, w₁, hchange, hwrite⟩ := Act.bind_eq_ok.mp hwrite
  obtain ⟨t, hmake, rfl⟩ := Act.change_eq_ok.mp hchange
  obtain ⟨_, w₂, hchange, hwrite⟩ := Act.bind_eq_ok.mp hwrite
  obtain ⟨t', hscript, rfl⟩ := Act.change_eq_ok.mp hchange
  obtain ⟨t'', hmode, rfl⟩ := Act.change_eq_ok.mp hwrite
  obtain ⟨hb, hplace⟩ := spelled_beside hs hr "Makefile".toList (by decide)
    (n := Utf8.encode "Makefile".toList) (by decide)
  obtain ⟨hb', hplace'⟩ := spelled_beside hs hr "tryRun.sh".toList (by decide)
    (n := Utf8.encode "tryRun.sh".toList) (by decide)
  have hforeign : ∀ m, spelled (r.output.joinText "tryRun.sh".toList) = o ++ m →
      Foreign layout r closure s c o m := by
    intro m hspelled
    rw [hplace' m hspelled]
    exact .script
  have ht : Mirrors c o (Foreign layout r closure s c o) s t := by
    refine hm.write hb (fun m hspelled => ?_) hmake
    rw [hplace m hspelled]
    exact .makefile
  exact (ht.write hb' hforeign hscript).setMode hb' hforeign hmode

end Run

/-- An empty output has no files yet. -/
lemma Mirrors.refl (hs : s.WellFormed) (hr : Request.Accepted s layout r test c o)
    (hfree : LinkFree s (c <+: ·)) (hempty : s.names o = []) : Mirrors c o foreign s s := by
  have hdir : ∀ m node, s.get? (o ++ m) = some node → node = .dir := by
    intro m node hn
    by_cases hne : m = []
    · rw [hne, List.append_nil, hr.outputDir] at hn
      exact (Option.some.inj hn).symm
    · rw [hs.get?_eq_none_of_names hempty hne] at hn
      cases hn
  refine ⟨hs, ⟨hr.corpusDir, hr.outputDir, hfree, ?_, fun _ _ => rfl⟩, ?_⟩
  · rintro l ⟨m, rfl⟩ target hn
    cases hdir m _ hn
  · intro m content mode stamp hn
    cases hdir m _ hn

/-- If the native directory has one name, the native tree is copied to its place in the corpus, and
only the two files beside the test are foreign. -/
lemma Foreign.eq_of_single {n : Bytes} (hs : s.WellFormed)
    (hr : Request.Accepted s layout r test c o) (hlayout : layout.IsPlain)
    (hsingle : (Path.ofText layout.nativeDir).steps = [.name n])
    (hm : Foreign layout r closure s c o m) :
    m = [Utf8.encode "Makefile".toList] ∨ m = [Utf8.encode "tryRun.sh".toList] := by
  cases hm with
  | makefile => exact Or.inl rfl
  | script => exact Or.inr rfl
  | @native names k m rel _ htree hrel hk hm hkm =>
    obtain ⟨hsrc, hsrcSteps⟩ := hr.srcRoot_steps hs hlayout
    obtain ⟨hdir, hdirSteps⟩ := hlayout.native.joinText hsrc
    obtain ⟨houtput, hosteps⟩ := hr.output_steps hs
    obtain ⟨hroot, hrootSteps⟩ := hlayout.src.joinText houtput
    have hnames := htree.isName hs
    obtain ⟨above, habove⟩ := Path.exists_parent (p := nativeDir layout r)
      (by rw [nativeDir, hdirSteps, hsingle]; simp)
    have hbase : nativeBase layout r = above := by rw [nativeBase, habove, Option.getD_some]
    obtain ⟨habsteps, habs⟩ := Path.of_parent?_eq_some habove
    rw [nativeDir, hdirSteps, hsingle, List.dropLast_concat] at habsteps
    rw [hbase] at hrel
    obtain ⟨-, hrelSteps, hrelAbs⟩ := Path.of_strip?_eq_some (habs.trans hdir) hrel
    rw [steps_chain _ hnames, nativeDir, hdirSteps, hsingle, habsteps, List.append_assoc,
      List.append_cancel_left_eq] at hrelSteps
    obtain ⟨front, hfront, -⟩ := Path.exists_names (fun _ => Path.of_mem_steps) hlayout.src.2
    have hback : [.name n] ++ names.map .name = (n :: names).map Component.name := rfl
    rw [spelled, steps_chain _ hnames, nativeDir, hdirSteps, hsrcSteps, hsingle, hfront,
      List.append_assoc _ [_], hback, ← List.map_append, ← List.map_append, along_names] at hk
    rw [spelled, Path.steps_join hrelAbs, nativeRoot, hrootSteps, hosteps, ← hrelSteps, hfront,
      hback, ← List.map_append, ← List.map_append, along_names] at hm
    rw [List.nil_append, List.append_assoc, List.append_cancel_left_eq] at hk hm
    exact absurd (hk.symm.trans hm) hkm

/-- After a run that succeeds, the output mirrors the corpus. -/
theorem run_mirrors {summary : Summary} (ho : oracle.ReadOnly) (hw : w.store.WellFormed)
    (hlayout : settings.layout.IsPlain) (hr : Request.Accepted w.store settings.layout r test c o)
    (hapart : Apart c o) (hfree : LinkFree w.store (c <+: ·)) (hempty : w.store.names o = [])
    (hrun : run h settings oracle false r w = (.ok summary, v))
    (henters : ∀ file ∈ summary.closure.files.toList, Enters c file) :
    Mirrors c o (Foreign settings.layout r summary.closure w.store c o) w.store v.store := by
  obtain ⟨w₁, hw₁, -, hassemble⟩ := run_ok ho hw hrun
  obtain ⟨-, w₂, w₃, n, hfiles, hnatives, hwrite, -⟩ := assemble_ok hassemble
  have hclosure := Closure.staysBeneath_of_enters hr hw henters
  have hstart : Mirrors c o (Foreign settings.layout r summary.closure w.store c o) w.store
      w₁.store := by
    rw [hw₁]
    exact .refl hw hr hfree hempty
  have hcopied := hstart.copyFiles hw hr hapart henters hfiles
  exact (hcopied.copyNatives hw hr hapart hlayout hfree hclosure hnatives).writeHelpers hw hr hwrite

/-- In a run that succeeds, each file of the closure is delivered: its place in the output has what
it holds, unless the place is foreign. -/
theorem run_delivers {summary : Summary} {corpus output file : Path} (ho : oracle.ReadOnly)
    (hkeeps : oracle.KeepsToRoots) (hw : w.store.WellFormed) (hlayout : settings.layout.IsPlain)
    (hname : TestName.NoParent test)
    (hvalid : Request.validate w.store settings.layout corpus output test = .ok r)
    (hcorpus : w.store.find true corpus = .ok (c, .dir))
    (houtput : w.store.find true output = .ok (o, .dir)) (hapart : Apart c o)
    (hfree : LinkFree w.store (c <+: ·)) (hempty : w.store.names o = [])
    (hout : ∀ root, Closure.ScratchAt w.store h.scratchDir root → ¬ c <+: root)
    (hrun : run h settings oracle false r w = (.ok summary, v))
    (hfile : file ∈ summary.closure.files.toList) :
    ∃ m content mode stamp dst content' mode' stamp',
      w.store.find true file = .ok (c ++ m, .file content mode stamp) ∧
      Assembly.destination r.corpus r.output file = .ok dst ∧
      v.store.find true dst = .ok (o ++ m, .file content' mode' stamp') ∧
      (content' = content ∨ Foreign settings.layout r summary.closure w.store c o m) := by
  have hr := Request.accepted_at hw hvalid hcorpus houtput
  have henters : ∀ file ∈ summary.closure.files.toList, Enters c file := by
    obtain ⟨_, -, ⟨_, hbuild⟩, -⟩ := run_ok ho hw hrun
    have hwarn := warnMissing_reads (r := r) w hw
    exact Closure.build_enters ho hkeeps (hwarn ▸ hw) hlayout hname (hwarn ▸ hr) (hwarn ▸ hfree)
      (hwarn ▸ hout) hbuild
  have hmirrors := run_mirrors ho hw hlayout hr hapart hfree hempty hrun henters
  -- The file was copied at some time, and what stands at a place stays there.
  obtain ⟨dst, t, u, origin, l, content, hdst, hbefore, hcopies, hafter⟩ :=
    run_copies ho hw hrun hfile
  obtain ⟨a, names, hsrc, hbeneath, hplace, hplace'⟩ :=
    spelled_destination hw hr (henters file hfile) hdst
  obtain ⟨mode, stamp, hsource⟩ := hcopies.source
  obtain ⟨mode', stamp', -, htarget⟩ := hcopies.target
  have hstart : Confined c o w.store w.store :=
    (Mirrors.refl hw hr hfree hempty : Mirrors c o (fun _ => False) w.store w.store).confined
  have hconfined := hstart.run hw hlayout hw hr (Closure.staysBeneath_of_enters hr hw henters)
    hbefore
  rw [hconfined.find_eq hw hapart hr.corpusDir hfree hsrc] at hsource
  obtain ⟨rfl, -, hn, -⟩ := hsrc.find hw hr.corpusDir hfree hsource
  rw [← hsrc.spelled_eq, hplace] at hn hsource
  have hu := hcopies.changes.wellFormed (hbefore.wellFormed hw)
  obtain ⟨node, hfound, hshape⟩ := (hafter.extends hu).find htarget
  obtain ⟨rfl, -, hn', -⟩ :=
    hbeneath.find hmirrors.wellFormed hmirrors.confined.outputDir hmirrors.confined.outputFree hfound
  rw [← hbeneath.spelled_eq, hplace'] at hn' hfound
  cases node with
  | dir => cases Node.isFile_of_shape hshape
  | link => cases Node.isFile_of_shape hshape
  | file content' mode' stamp' =>
    refine ⟨names, content, mode, stamp, dst, content', mode', stamp', hsource, hdst, hfound, ?_⟩
    rcases hmirrors.same names content' mode' stamp' hn' with hforeign | ⟨_, _, hsame⟩
    · exact Or.inr hforeign
    · rw [hn, Option.some.injEq, Node.file.injEq] at hsame
      exact Or.inl hsame.1.symm

/-! ### A test with a link to a makefile -/

/-- The makefile of a corpus. -/
def corpusMakefile : Bytes := Utf8.encode "all:\n".toList

/-- A corpus with a makefile, and a test with a page that links to it. -/
def makefileStore : Store where
  entries :=
    [(locationOf ["w"], .dir), (locationOf ["w", "jck"], .dir),
      (locationOf ["w", "jck", "Makefile"], .file corpusMakefile plainMode ⟨0, 0⟩),
      (locationOf ["w", "jck", "src"], .dir), (locationOf ["w", "jck", "tests"], .dir),
      (locationOf ["w", "jck", "tests", "t"], .dir),
      (locationOf ["w", "jck", "tests", "t", "index.html"],
        .file (Utf8.encode "<a href=\"../../Makefile\">m</a>\n".toList) plainMode ⟨0, 0⟩),
      (locationOf ["w", "out"], .dir), (locationOf ["tmp"], .dir)]
  cwd := []
  clock := ⟨1, 0⟩

/-- The request for the test in `makefileStore`. -/
def makefileRequest : Request where
  corpus := .ofText "/w/jck".toList
  output := .ofText "/w/out".toList
  testDir := .ofText "/w/jck/tests/t".toList
  testArg := "t".toList
  missingDescriptor := none

/-- What an extraction of the test in `makefileStore` comes to. -/
def makefileSummary : Summary :=
  ⟨⟨⟨[.ofText "/w/jck/Makefile".toList, .ofText "/w/jck/tests/t/index.html".toList]⟩, false⟩, 2, 0⟩

set_option maxRecDepth 10000 in
lemma run_makefileStore :
    Request.validate makefileStore .default (.ofText "/w/jck".toList) (.ofText "/w/out".toList)
        "t".toList = .ok makefileRequest ∧
      makefileStore.WellFormed ∧ makefileStore.names (locationOf ["w", "out"]) = [] ∧
      makefileStore.read (.ofText "/w/jck/Makefile".toList) = .ok corpusMakefile ∧
      let result := run .bare .default .silent false makefileRequest (.ofStore makefileStore)
      result.1 = .ok makefileSummary ∧
        result.2.store.read (.ofText "/w/out/Makefile".toList) ≠ .ok corpusMakefile := by
  decide +kernel

/-- A makefile of the corpus is a file of the closure, and the output has another one in its place,
although the extraction succeeds. -/
theorem run_replaces_makefile :
    Request.validate makefileStore .default (.ofText "/w/jck".toList) (.ofText "/w/out".toList)
        "t".toList = .ok makefileRequest ∧
      makefileStore.WellFormed ∧ TestName.NoParent "t".toList ∧ Layout.default.IsPlain ∧
      Oracle.silent.ReadOnly ∧ Oracle.silent.KeepsToRoots ∧
      (∀ region, LinkFree makefileStore region) ∧
      makefileStore.names (locationOf ["w", "out"]) = [] ∧
      Apart (locationOf ["w", "jck"]) (locationOf ["w", "out"]) ∧
      (run .bare .default .silent false makefileRequest (.ofStore makefileStore)).1 =
        .ok makefileSummary ∧
      .ofText "/w/jck/Makefile".toList ∈ makefileSummary.closure.files.toList ∧
      Assembly.destination makefileRequest.corpus makefileRequest.output
        (.ofText "/w/jck/Makefile".toList) = .ok (.ofText "/w/out/Makefile".toList) ∧
      makefileStore.read (.ofText "/w/jck/Makefile".toList) = .ok corpusMakefile ∧
      (run .bare .default .silent false makefileRequest (.ofStore makefileStore)).2.store.read
        (.ofText "/w/out/Makefile".toList) ≠ .ok corpusMakefile := by
  obtain ⟨hvalid, hw, hempty, hread, hrun, hother⟩ := run_makefileStore
  exact ⟨hvalid, hw, by decide, Layout.isPlain_default, Oracle.silent_readOnly,
    Oracle.silent_keepsToRoots, fun _ => linkFree_of_entries (by decide), hempty, by decide,
    hrun, List.mem_cons_self, by decide +kernel, hread, hother⟩

/-- The page of that test is delivered as it is. -/
theorem run_delivers_page :
    makefileStore.WellFormed ∧
      ∃ m content mode stamp dst content' mode' stamp',
        makefileStore.find true (.ofText "/w/jck/tests/t/index.html".toList) =
          .ok (locationOf ["w", "jck"] ++ m, .file content mode stamp) ∧
        Assembly.destination makefileRequest.corpus makefileRequest.output
          (.ofText "/w/jck/tests/t/index.html".toList) = .ok dst ∧
        (run .bare .default .silent false makefileRequest (.ofStore makefileStore)).2.store.find
          true dst = .ok (locationOf ["w", "out"] ++ m, .file content' mode' stamp') ∧
        content' = content := by
  obtain ⟨hvalid, hw, hempty, -, hrun, -⟩ := run_makefileStore
  have hfree : LinkFree makefileStore (locationOf ["w", "jck"] <+: ·) :=
    linkFree_of_entries (by decide)
  have hout : ∀ root, Closure.ScratchAt makefileStore Host.bare.scratchDir root →
      ¬ locationOf ["w", "jck"] <+: root := by
    intro root hroot
    rw [hroot.eq (t := makefileStore.put (locationOf ["tmp", "scratch"]) .dir)
      (l := locationOf ["tmp", "scratch"]) (by decide +kernel) (by decide +kernel)]
    decide +kernel
  have hvalid' : Request.validate makefileStore Settings.default.layout
      (.ofText "/w/jck".toList) (.ofText "/w/out".toList) "t".toList = .ok makefileRequest := hvalid
  have hpage : .ofText "/w/jck/tests/t/index.html".toList ∈ makefileSummary.closure.files.toList :=
    List.mem_cons_of_mem _ List.mem_cons_self
  obtain ⟨m, content, mode, stamp, dst, content', mode', stamp', hfind, hdst, hfound, hsame⟩ :=
    run_delivers Oracle.silent_readOnly Oracle.silent_keepsToRoots (w := .ofStore makefileStore) hw
      Layout.isPlain_default (by decide) hvalid' (c := locationOf ["w", "jck"])
      (o := locationOf ["w", "out"]) (by decide +kernel) (by decide +kernel) (by decide) hfree hempty
      hout (Act.run_eq_of_fst hrun) hpage
  refine ⟨hw, m, content, mode, stamp, dst, content', mode', stamp', hfind, hdst, hfound,
    hsame.resolve_right fun hforeign => ?_⟩
  -- The native directory has one name, and the page is none of the two files beside the test.
  have hplaces : makefileStore.find true (.ofText "/w/jck".toList) =
        .ok (locationOf ["w", "jck"], .dir) ∧
      makefileStore.find true (.ofText "/w/out".toList) = .ok (locationOf ["w", "out"], .dir) ∧
      (makefileStore.find true (.ofText "/w/jck/tests/t/index.html".toList)).toOption.map (·.1) =
        some (locationOf ["w", "jck", "tests", "t", "index.html"]) := by decide +kernel
  have hr := Request.accepted_at hw hvalid' hplaces.1 hplaces.2.1
  have hpath := hplaces.2.2
  rw [show makefileStore.find true _ = _ from hfind] at hpath
  have hm : locationOf ["w", "jck"] ++ m = locationOf ["w", "jck", "tests", "t", "index.html"] :=
    Option.some.inj hpath
  rcases hforeign.eq_of_single hw hr Layout.isPlain_default (n := Utf8.encode "share".toList)
    (by decide) with rfl | rfl
  · revert hm
    decide
  · revert hm
    decide

end Extraction

end Excerpt
