import Excerpt.Bridge
import Excerpt.Proofs.Scratch
import Excerpt.Proofs.Walk

/-!
# What making bridges does

Bridges are made at places that only package names and file names decide, and package names have
no slashes. So all that happens is permitted in a scratch directory, and each bridge points at a
file that was met on a walk and could be read.
-/

namespace Excerpt

open Store

namespace Bridge

variable {sources : Path → Prop} {dir dest file source : Path} {top name : Bytes} {package : Text}
  {layout : Layout} {sc : Scanner} {s t : Store} {may : Store → Path → Prop}

/-! ### Targets -/

/-- A path that is met on a walk from one of the sources. -/
def Chained (sources : Path → Prop) (file : Path) : Prop :=
  ∃ source names, sources source ∧ (∀ n ∈ names, Path.IsName n) ∧ file = chain source names

/-- A target of a bridge: met on a walk from one of the sources, and a regular file. -/
def Target (sources : Path → Prop) (t : Store) (file : Path) : Prop :=
  Chained sources file ∧ ∃ l node, t.find true file = .ok (l, node) ∧ node.isFile = true

/-- A tree in the scratch directory `dir`. -/
structure IsTree (dir : Path) (top : Bytes) (dest : Path) : Prop where
  steps : dest.steps = dir.steps ++ [.name top]
  isAbsolute : dest.isAbsolute = dir.isAbsolute
  ne_nil : dest.bytes ≠ []
  top : top = Scratch.testsName ∨ top = Scratch.srcTestsName

lemma isTree_joinText {text : Text} (hdir : dir.bytes ≠ []) (htext : '/' ∉ text)
    (hname : Path.IsName (Utf8.encode text))
    (htop : Utf8.encode text = Scratch.testsName ∨ Utf8.encode text = Scratch.srcTestsName) :
    IsTree dir (Utf8.encode text) (dir.joinText text) := by
  have habs := Path.isAbsolute_ofText htext
  refine ⟨?_, Path.isAbsolute_join hdir habs, Path.join_bytes_ne_nil hdir habs, htop⟩
  rw [Path.steps_joinText htext, hname.component]
  rfl

lemma Target.of_extends (h : Target sources s file) (hext : Extends s t) :
    Target sources t file := by
  obtain ⟨hchained, l, node, hf, hfile⟩ := h
  obtain ⟨node', hf', hshape⟩ := hext.find hf
  exact ⟨hchained, l, node', hf', (Node.isFile_of_shape hshape).trans hfile⟩

/-! ### Making bridges -/

/-- Making the directory of a tree, or of a package in it, is permitted. -/
lemma permits_dir {q : Path} (dirs : Location) (hdest : IsTree dir top dest)
    (hdirs : ∀ n ∈ dirs, Package.IsPlainName n)
    (hq : q.steps <+: dest.steps ++ dirs.map .name) (habs : q.isAbsolute = dest.isAbsolute) :
    Scratch.Permits dir may s (.dir q) := by
  refine ⟨habs.trans hdest.isAbsolute, top :: dirs, ⟨top, dirs, rfl, hdest.top, hdirs⟩, ?_⟩
  rw [hdest.steps, List.append_assoc] at hq
  exact hq

lemma place_obeys {counts : Counts} (hdest : IsTree dir top dest)
    (hpackage : ∀ c ∈ package, Package.nameChars.contains c = true) (hname : Path.IsName name)
    (hdot : Path.dot ∈ name) (hfile : ∀ t, may t file) :
    Act.Obeys (Scratch.Permits dir may) (place dest file name package counts) := by
  have hrel := Package.isAbsolute_relativeDir hpackage
  have hdirs : ∀ n ∈ Package.dirs package, Package.IsPlainName n :=
    fun n hn => Package.isPlainName_of_mem_dirs hpackage hn
  have hjoin : (dest.join (Package.relativeDir package)).steps =
      dest.steps ++ (Package.dirs package).map .name := by
    rw [Path.steps_join hrel, Package.steps_relativeDir hpackage]
  have habs := Path.isAbsolute_join hdest.ne_nil hrel
  have hne := Path.join_bytes_ne_nil hdest.ne_nil hrel
  unfold place
  refine .bind (.makeDirs fun s q hq => ?_) fun _ => ?_
  · exact permits_dir _ hdest hdirs (hjoin ▸ hq.1) (hq.2.trans habs)
  · refine .bind Act.Reads.look.obeys fun taken => ?_
    split
    · exact (Act.Reads.report.bind fun _ => .pure).obeys
    · refine .bind (.change fun s t hs hlink => ?_) fun _ => Act.Reads.pure.obeys
      refine .single (c := .link file _) ⟨hfile s, ?_, wantsDir_child _ hname,
        top :: Package.dirs package, name, ?_, hdot, ?_⟩ (changes_of_makeLink hs hlink)
      · exact (Path.isAbsolute_join hne hname.isAbsolute).trans (habs.trans hdest.isAbsolute)
      · exact ⟨top, _, rfl, hdest.top, hdirs⟩
      · rw [Path.steps_child hname, hjoin, hdest.steps]
        simp

lemma placeFile_obeys {counts : Counts} (hsc : Package.scanner = .ok sc)
    (hdest : IsTree dir top dest) (hfile : Chained sources file) :
    Act.Obeys (Scratch.Permits dir (Target sources)) (placeFile layout sc dest file counts) := by
  unfold placeFile
  split
  · exact Act.Reads.pure.obeys
  · rename_i hext
    simp only [Bool.not_eq_true, Bool.not_eq_false'] at hext
    refine .look_bind_extends fun s found hs hfound => ?_
    split
    · exact Act.Reads.pure.obeys
    · exact Act.Reads.pure.obeys
    · rename_i package name hname
      obtain ⟨⟨content, hread⟩, hpackage⟩ := Package.of_ofFile_eq_some hsc hfound
      obtain ⟨n, hn, hdot⟩ := Path.dot_mem_of_hasExtension hext
      rw [hname, Option.some.injEq] at hn
      subst hn
      have htarget : Target sources s file := ⟨hfile, file_of_read hread⟩
      have hplace : Act.Obeys (Scratch.Permits dir fun t f => Extends s t → Target sources t f)
          (place dest file name package counts) :=
        place_obeys hdest hpackage (Path.of_fileName?_eq_some hname).1 hdot
          fun t hst => htarget.of_extends hst
      refine hplace.mono fun t c hc hst => ?_
      cases c with
      | dir => exact hc
      | file => exact hc
      | link target p => exact ⟨hc.1 hst, hc.2⟩

lemma placeFiles_obeys {counts : Counts} {files : List Path} (hsc : Package.scanner = .ok sc)
    (hdest : IsTree dir top dest) (hfiles : ∀ file ∈ files, Chained sources file) :
    Act.Obeys (Scratch.Permits dir (Target sources))
      (placeFiles layout sc dest files counts) := by
  induction files generalizing counts with
  | nil => exact Act.Reads.pure.obeys
  | cons file files ih =>
    exact .bind (placeFile_obeys hsc hdest (hfiles file List.mem_cons_self))
      fun _ => ih fun f hf => hfiles f (List.mem_cons_of_mem _ hf)

lemma placeGroups_obeys {counts : Counts} {groups : List (Path × List Path)}
    (hsc : Package.scanner = .ok sc) (hdest : IsTree dir top dest)
    (hgroups : ∀ g ∈ groups, ∀ file ∈ g.2, Chained sources file) :
    Act.Obeys (Scratch.Permits dir (Target sources))
      (placeGroups layout sc dest groups counts) := by
  induction groups generalizing counts with
  | nil => exact Act.Reads.pure.obeys
  | cons g groups ih =>
    have hrest := fun g hg => hgroups g (List.mem_cons_of_mem _ hg)
    obtain ⟨d, files⟩ := g
    rw [placeGroups]
    split
    · exact .bind Act.Reads.report.obeys fun _ => ih hrest
    · exact .bind (placeFiles_obeys hsc hdest (hgroups _ List.mem_cons_self)) fun _ => ih hrest

theorem normalize_obeys {recursive : Bool} (hdest : IsTree dir top dest)
    (hsource : sources source) :
    Act.Obeys (Scratch.Permits dir (Target sources)) (normalize layout source dest recursive) := by
  unfold normalize
  refine .look_bind_extends fun _ sc _ hsc => ?_
  refine .bind Act.Reads.look.obeys fun gs => ?_
  refine .look_bind_extends fun s groups hs hgroups => ?_
  refine .bind ?_ fun _ => (Act.Reads.report.bind fun _ => .pure).obeys
  refine (placeGroups_obeys hsc hdest fun g hg file hfile => ?_).mono fun _ _ hc _ _ => hc
  obtain ⟨loc, -, names, -, rfl, node, hnode, -⟩ := Walk.met_of_mem_filesByDir hs hgroups hg hfile
  refine ⟨source, names, hsource, fun n hn => ?_, rfl⟩
  exact (hs.isEntryName (by rw [hnode]; simp) (List.mem_append_right loc hn)).isName

/-! ### No questions -/

lemma placeFile_quiet {counts : Counts} : Act.Quiet (placeFile layout sc dest file counts) := by
  unfold placeFile
  split
  · exact Act.Quiet.pure
  · refine .bind Act.Quiet.look fun found => ?_
    split
    · exact Act.Quiet.pure
    · exact Act.Quiet.pure
    · refine .bind Act.Quiet.edit fun _ => .bind Act.Quiet.look fun taken => ?_
      split
      · exact Act.Quiet.report.bind fun _ => .pure
      · exact .bind Act.Quiet.edit fun _ => .pure

lemma placeFiles_quiet {counts : Counts} {files : List Path} :
    Act.Quiet (placeFiles layout sc dest files counts) := by
  induction files generalizing counts with
  | nil => exact Act.Quiet.pure
  | cons file files ih => exact placeFile_quiet.bind fun _ => ih

lemma placeGroups_quiet {counts : Counts} {groups : List (Path × List Path)} :
    Act.Quiet (placeGroups layout sc dest groups counts) := by
  induction groups generalizing counts with
  | nil => exact Act.Quiet.pure
  | cons g groups ih =>
    rw [placeGroups]
    split
    · exact Act.Quiet.report.bind fun _ => ih
    · exact placeFiles_quiet.bind fun _ => ih

/-- Making bridges puts no questions. -/
lemma normalize_quiet {recursive : Bool} :
    Act.Quiet (normalize layout source dest recursive) := by
  unfold normalize
  refine Act.Quiet.look.bind fun sc => Act.Quiet.look.bind fun gs => ?_
  refine Act.Quiet.look.bind fun groups => placeGroups_quiet.bind fun _ => ?_
  exact Act.Quiet.report.bind fun _ => .pure

end Bridge

end Excerpt
