import Excerpt.Proofs.Extraction.Delivery
import Excerpt.Proofs.Path.Listing

/-!
# Copying the closure in order

In a file tree without links a path leads where its names say. So the copies of different files go
to different places, and none of these places lies above that of a copy made before. Each copy then
stays as it was made, and where a copy fails, all that comes later in path order is untouched.

`ChangesOnly` is the frame of a copy: what stands at a place, and directories on the way to it that
were missing. `Stage` says how far the copies have come, one file at a time.
-/

namespace Excerpt

open Store

namespace Assembly

variable {s t u : Store} {w v : World} {corpus output file other src dst : Path}
  {c o l k m names : Location} {files done todo : List Path} {a : List Component}
  {places places' : Location → Prop}

/-! ### Where copies belong -/

/-- Where the copy of a file belongs: its names beneath the corpus `c` are kept beneath `o`. -/
def BelongsAt (c o : Location) (file : Path) (l : Location) : Prop :=
  ∃ m, file.isAbsolute = true ∧ file.steps = (c ++ m).map .name ∧ l = o ++ m

/-- What lies above a name behind `front` leads to `front` or passes it. -/
lemma prefix_dropLast_cases {front : List Component}
    (h : a <+: (front ++ names.map Component.name).dropLast) :
    a <+: front ∨ ∃ m, m <+: names ∧ m ≠ names ∧ a = front ++ m.map Component.name := by
  by_cases hnames : names = []
  · subst hnames
    rw [List.map_nil, List.append_nil] at h
    exact Or.inl (h.trans (List.dropLast_prefix front))
  · rw [List.dropLast_append_of_ne_nil (by simpa using hnames), ← List.map_dropLast] at h
    rcases List.prefix_or_prefix_of_prefix h (List.prefix_append front _) with hshort | ⟨rest, rfl⟩
    · exact Or.inl hshort
    · have hrest := (List.prefix_append_right_inj front).mp h
      rw [List.prefix_iff_eq_take, ← List.map_take] at hrest
      have htake : names.dropLast.take rest.length <+: names.dropLast := List.take_prefix _ _
      refine Or.inr ⟨_, htake.trans (List.dropLast_prefix names), ?_, congrArg (front ++ ·) hrest⟩
      intro heq
      have hlength := htake.length_le
      rw [heq, List.length_dropLast] at hlength
      have hpos := List.length_pos_of_ne_nil hnames
      omega

/-- The copy of a file does not belong above the copy of a file that comes earlier. -/
lemma BelongsAt.not_prefix (hfile : BelongsAt c o file l) (hother : BelongsAt c o other k)
    (hbefore : file.before other = true) : ¬ k <+: l := by
  obtain ⟨m, habs, hsteps, rfl⟩ := hfile
  obtain ⟨m', habs', hsteps', rfl⟩ := hother
  intro hprefix
  obtain ⟨rest, rfl⟩ := (List.prefix_append_right_inj o).mp hprefix
  have hcomponents : file.components = other.components ++ rest.map .name := by
    rw [Path.components_eq, Path.components_eq, Path.lead_of_isAbsolute habs,
      Path.lead_of_isAbsolute habs', hsteps, hsteps']
    simp
  rw [Path.before, hcomponents] at hbefore
  nth_rewrite 2 [← List.append_nil other.components] at hbefore
  rw [Component.listBefore_append_left] at hbefore
  cases rest <;> cases hbefore

/-! ### Frames -/

/-- The stores differ at these places only, and by new directories on the way to them. -/
def ChangesOnly (places : Location → Prop) (s t : Store) : Prop :=
  ∀ l, t.get? l = s.get? l ∨ places l ∨
    (s.get? l = none ∧ t.get? l = some .dir ∧ ∃ k, places k ∧ l <+: k ∧ l ≠ k)

namespace ChangesOnly

lemma refl (s : Store) : ChangesOnly places s s := fun _ => Or.inl rfl

lemma mono (h : ChangesOnly places s t) (hplaces : ∀ l, places l → places' l) :
    ChangesOnly places' s t := by
  intro l
  rcases h l with heq | hl | ⟨hfree, hdir, k, hk, hprefix⟩
  · exact Or.inl heq
  · exact Or.inr (Or.inl (hplaces l hl))
  · exact Or.inr (Or.inr ⟨hfree, hdir, k, hplaces k hk, hprefix⟩)

lemma trans (h : ChangesOnly places s t) (h' : ChangesOnly places t u) :
    ChangesOnly places s u := by
  intro l
  rcases h' l with heq | hl | ⟨hfree, hdir, hway⟩
  · rw [heq]
    exact h l
  · exact Or.inr (Or.inl hl)
  · rcases h l with heq | hl | ⟨-, hdir', -⟩
    · exact Or.inr (Or.inr ⟨heq ▸ hfree, hdir, hway⟩)
    · exact Or.inr (Or.inl hl)
    · rw [hfree] at hdir'
      cases hdir'

lemma put {node : Node} (hl : l ≠ []) : ChangesOnly (· = l) s (s.put l node) := by
  intro m
  by_cases hm : m = l
  · exact Or.inr (Or.inl hm)
  · exact Or.inl (get?_put_of_ne hl hm)

/-- A directory was made on the way to `l`. -/
lemma makeDir (hfree : s.get? m = none) (hm : m <+: l) (hne : m ≠ l) :
    ChangesOnly (· = l) s (s.put m .dir) := by
  have hroot : m ≠ [] := by
    rintro rfl
    cases hfree
  intro n
  by_cases hn : n = m
  · subst hn
    exact Or.inr (Or.inr ⟨hfree, get?_put_self hroot, l, rfl, hm, hne⟩)
  · exact Or.inl (get?_put_of_ne hroot hn)

/-- What lies neither at one of the places nor above it is as it was. -/
lemma get?_eq (h : ChangesOnly places s t) (hl : ∀ k, places k → ¬ l <+: k) :
    t.get? l = s.get? l := by
  rcases h l with heq | hplace | ⟨-, -, k, hk, hprefix, -⟩
  · exact heq
  · exact absurd List.prefix_rfl (hl l hplace)
  · exact absurd hprefix (hl k hk)

end ChangesOnly

/-! ### File trees without links -/

/-- There are no links, and `output` is a directory. -/
structure Plain (output : Path) (o : Location) (s : Store) : Prop where
  wellFormed : s.WellFormed
  free : LinkFree s fun _ => True
  isAbsolute : output.isAbsolute = true
  found : s.find true output = .ok (o, .dir)

lemma stays_everywhere : Stays (fun _ => True) l a := by
  induction a generalizing l with
  | nil => trivial
  | cons step a ih => exact ⟨trivial, ih⟩

/-- Without links a walk goes where its steps say. -/
lemma eq_along_of_leads (hfree : LinkFree s fun _ => True) (hl : Leads s k a l) : l = along k a :=
  hfree.eq_along hl stays_everywhere

namespace Plain

lemma leads (h : Plain output o s) : Leads s [] output.steps o := by
  have hl := (leads_of_find h.wellFormed h.found rfl).1
  rwa [start_of_isAbsolute h.isAbsolute] at hl

lemma outputDir (h : Plain output o s) : s.get? o = some .dir := get?_of_find h.wellFormed h.found

lemma eq_append (h : Plain output o s) (hl : Leads s [] (output.steps ++ names.map .name) l) :
    l = o ++ names := by
  rw [eq_along_of_leads h.free hl, along_append, ← eq_along_of_leads h.free h.leads, along_names]

/-- Each part of the output's path leads to something. -/
lemma exists_of_prefix (h : Plain output o s) (ha : a <+: output.steps) :
    ∃ l, Leads s [] a l ∧ s.get? l ≠ none := by
  obtain ⟨rest, hrest⟩ := ha
  have hleads := h.leads
  rw [← hrest] at hleads
  obtain ⟨l, hl, hlast, hsome⟩ := hleads.split h.wellFormed (by simp)
  refine ⟨l, hl, ?_⟩
  by_cases hnil : rest = []
  · subst hnil
    cases hlast
    rw [h.outputDir]
    simp
  · exact hsome hnil

lemma changes (h : Plain output o s) {change : Change} (hlink : ∀ target p, change ≠ .link target p)
    (hc : Changes change s t) : Plain output o t where
  wellFormed := hc.wellFormed h.wellFormed
  free := by
    cases hc with
    | new hlands hdir hname hnone hmakes =>
      exact h.free.put (by simp) (hmakes.isLink hlink)
    | rewritten _ hfind =>
      refine h.free.put ?_ rfl
      rintro rfl
      cases get?_of_find h.wellFormed hfind
  isAbsolute := h.isAbsolute
  found := by
    obtain ⟨node, hfind, hnode⟩ := (hc.extends h.wellFormed).find h.found
    rw [hfind, Node.shape_eq_dir.mp hnode]

/-- A directory that is made above a destination is on the way to it. -/
lemma changesOnly_of_dir (h : Plain output o s) {above q : Path} (hdst : dst.isAbsolute = true)
    (hsteps : dst.steps = output.steps ++ names.map .name) (habove : dst.parent? = some above)
    (hover : Over above q) (hc : Changes (.dir q) s t) : ChangesOnly (· = o ++ names) s t := by
  cases hc with
  | @new d n node hlands _ _ hfree hmakes =>
    obtain ⟨hsteps', habs⟩ := Path.of_parent?_eq_some habove
    have hq : q.steps <+: dst.steps.dropLast := hsteps' ▸ hover.1
    have hleads : Leads s [] q.steps (d ++ [n]) := by
      have hl := hlands.1
      rwa [show (Change.dir q).path = q from rfl,
        start_of_isAbsolute ((hover.2.trans habs).trans hdst)] at hl
    rw [show node = .dir from hmakes]
    rcases prefix_dropLast_cases (hsteps ▸ hq) with hoq | ⟨m, hm, hne, hqsteps⟩
    · -- What leads to the output is there already.
      obtain ⟨l, hl, hsome⟩ := h.exists_of_prefix hoq
      rw [← hleads.unique hl] at hsome
      exact absurd hfree hsome
    · rw [hqsteps] at hleads
      have hl := h.eq_append hleads
      rw [hl] at hfree ⊢
      refine .makeDir hfree ((List.prefix_append_right_inj o).mpr hm) ?_
      intro heq
      exact hne (List.append_cancel_left heq)
  | rewritten he => cases he

lemma changesOnly_of_file (h : Plain output o s) (hdst : dst.isAbsolute = true)
    (hsteps : dst.steps = output.steps ++ names.map .name) (hc : Changes (.file dst) s t) :
    ChangesOnly (· = o ++ names) s t := by
  cases hc with
  | new hlands =>
    have hl := hlands.1
    rw [show (Change.file dst).path = dst from rfl, start_of_isAbsolute hdst, hsteps] at hl
    rw [h.eq_append hl]
    exact .put (by rw [← h.eq_append hl]; simp)
  | rewritten he hfind =>
    cases he
    have hroot : ∀ {m : Location} {old : Bytes} {mode : Nat} {stamp : Stamp},
        s.find true dst = .ok (m, .file old mode stamp) → m ≠ [] := by
      rintro m old mode stamp hm rfl
      cases get?_of_find h.wellFormed hm
    have hl := (leads_of_find h.wellFormed hfind rfl).1
    rw [start_of_isAbsolute hdst, hsteps] at hl
    rw [← h.eq_append hl]
    exact .put (hroot hfind)

/-- What a copy may do keeps the tree free of links, and changes nothing apart from the destination
and the way to it. -/
lemma of_runs (h : Plain output o s) (hdst : dst.isAbsolute = true)
    (hsteps : dst.steps = output.steps ++ names.map .name)
    (hruns : Runs (fun _ c => c = .file dst ∨
      ∃ above q, dst.parent? = some above ∧ c = .dir q ∧ Over above q) s t) :
    Plain output o t ∧ ChangesOnly (· = o ++ names) s t := by
  have hstep : ∀ x y change, x.WellFormed →
      Plain output o x ∧ ChangesOnly (· = o ++ names) s x →
      (change = .file dst ∨ ∃ above q, dst.parent? = some above ∧ change = .dir q ∧ Over above q) →
      Changes change x y → Plain output o y ∧ ChangesOnly (· = o ++ names) s y := by
    rintro x y change - ⟨hx, honly⟩ hmay hc
    rcases hmay with rfl | ⟨above, q, habove, rfl, hover⟩
    · exact ⟨hx.changes (by simp) hc, honly.trans (hx.changesOnly_of_file hdst hsteps hc)⟩
    · have hmade := hx.changesOnly_of_dir hdst hsteps habove hover hc
      exact ⟨hx.changes (by simp) hc, honly.trans hmade⟩
  exact hruns.invariant hstep h.wellFormed ⟨h, .refl s⟩

/-- A copy changes its destination and makes directories on the way, whether it succeeds or not. -/
lemma copyFile (h : Plain output o w.store) (hdst : dst.isAbsolute = true)
    (hsteps : dst.steps = output.steps ++ names.map .name) :
    Plain output o (copyFile src dst w).2.store ∧
      ChangesOnly (· = o ++ names) w.store (Assembly.copyFile src dst w).2.store ∧
      Extends w.store (Assembly.copyFile src dst w).2.store := by
  have hruns : Runs (fun _ c => c = .file dst ∨
      ∃ above q, dst.parent? = some above ∧ c = .dir q ∧ Over above q) w.store
      (Assembly.copyFile src dst w).2.store := by
    refine copyFile_obeys_above ?_ ?_ w h.wellFormed
    · intro above habove s q hq
      exact Or.inr ⟨above, q, habove, rfl, hq⟩
    · intro s
      exact Or.inl rfl
  obtain ⟨hplain, honly⟩ := h.of_runs hdst hsteps hruns
  exact ⟨hplain, honly, hruns.extends h.wellFormed⟩

/-- What lies outside of the output is as it was. -/
lemma get?_eq (h : Plain output o s) (honly : ChangesOnly places s t)
    (hplaces : ∀ k, places k → o <+: k) (hl : ¬ o <+: l) : t.get? l = s.get? l := by
  rcases honly l with heq | hplace | ⟨hfree, -, k, hk, hprefix, -⟩
  · exact heq
  · exact absurd (hplaces l hplace) hl
  · rcases List.prefix_or_prefix_of_prefix hprefix (hplaces k hk) with hlo | hol
    · have hdir := h.outputDir
      rcases h.wellFormed.get?_of_prefix (by rw [hdir]; simp) hlo with rfl | hdir'
      · exact absurd List.prefix_rfl hl
      · rw [hfree] at hdir'
        cases hdir'
    · exact absurd hol hl

/-- A path beneath a directory apart from the output leads to the same as before. -/
lemma find_eq (h : Plain output o s) (honly : ChangesOnly places s t)
    (hplaces : ∀ k, places k → o <+: k) (hapart : Extraction.Apart c o)
    (habs : src.isAbsolute = true) (hsteps : src.steps = (c ++ m).map .name) :
    t.find true src = s.find true src := by
  have hfree : LinkFree s (¬ o <+: ·) := fun n _ => h.free n trivial
  refine (hfree.find_eq (fun n hn => (h.get?_eq honly hplaces hn).symm) habs ?_ true).symm
  rw [hsteps, stays_names]
  intro front hfront _ ho
  rcases List.prefix_or_prefix_of_prefix (ho.trans hfront) (List.prefix_append c m) with hoc | hco
  · exact hapart.2 hoc
  · exact hapart.1 hco

/-- A copy that succeeds puts what the source is at its destination, with its permissions. -/
lemma copyFile_ok (h : Plain output o w.store) (hdst : dst.isAbsolute = true)
    (hsteps : dst.steps = output.steps ++ names.map .name) (hapart : Extraction.Apart c o)
    (hsrc : src.isAbsolute = true) (hsource : src.steps = (c ++ m).map .name)
    (hcopy : Assembly.copyFile src dst w = (.ok (), v)) :
    ∃ content mode stamp, w.store.find true src = .ok (c ++ m, .file content mode stamp) ∧
      v.store.find true dst =
        .ok (o ++ names, .file content (copiedMode content mode) stamp) := by
  obtain ⟨t, hcontent, hruns⟩ := of_copyFile_ok h.wellFormed hcopy
  obtain ⟨ht, honly⟩ := h.of_runs hdst hsteps (hruns.mono fun _ _ => Or.inr)
  obtain ⟨origin, l, content, mode, stamp, htransfers⟩ := copyContent_ok ht.wellFormed hcontent
  obtain ⟨mode', htarget⟩ := htransfers.target
  have horigin : origin = c ++ m := by
    have hl := (leads_of_find ht.wellFormed htransfers.source rfl).1
    rw [start_of_isAbsolute hsrc, hsource] at hl
    rw [eq_along_of_leads ht.free hl, along_names, List.nil_append]
  have hl : l = o ++ names := by
    have hl := leads_of_writeTarget ht.wellFormed htarget
    rw [start_of_isAbsolute hdst, hsteps] at hl
    exact ht.eq_append hl
  have hne : l ≠ origin := by
    rw [hl, horigin]
    intro heq
    rcases List.prefix_or_prefix_of_prefix (List.prefix_append c m)
      (heq ▸ List.prefix_append o names) with hco | hoc
    · exact hapart.1 hco
    · exact hapart.2 hoc
  obtain ⟨-, hv⟩ := htransfers.result hne
  refine ⟨content, mode, stamp, ?_, ?_⟩
  · rw [← h.find_eq honly (by rintro k rfl; exact List.prefix_append o names) hapart hsrc hsource,
      htransfers.source, horigin]
  · rw [hv, (find_of_writeTarget ht.wellFormed htarget).1, hl]

end Plain

/-! ### One file after the other -/

/-- The content, the permissions and the time of a file have come to where its copy belongs. -/
def Arrives (corpus output : Path) (c o : Location) (s t : Store) (file : Path) : Prop :=
  ∃ dst origin l content mode stamp, destination corpus output file = .ok dst ∧
    BelongsAt c o file l ∧ s.find true file = .ok (origin, .file content mode stamp) ∧
    t.find true dst = .ok (l, .file content (copiedMode content mode) stamp) ∧
    permissions (copiedMode content mode) = permissions mode

/-- How far the copies have come: the files `done` were copied, the copy of `last` was begun, and
nothing else happened. -/
structure Stage (corpus output : Path) (c o : Location) (done : List Path) (last : Option Path)
    (s t : Store) : Prop where
  arrived : ∀ file ∈ done, Arrives corpus output c o s t file
  only : ChangesOnly (fun l => ∃ file ∈ done ++ last.toList, BelongsAt c o file l) s t

/-- The copy of a later file leaves an earlier one as it is. -/
lemma Arrives.kept (h : Arrives corpus output c o s t other) (ht : Plain output o t)
    (hu : Plain output o u) (hext : Extends t u) (honly : ChangesOnly (· = l) t u)
    (hplace : BelongsAt c o file l) (hbefore : other.before file = true) :
    Arrives corpus output c o s u other := by
  obtain ⟨dst, origin, k, content, mode, stamp, hdst, hk, hsource, hfound, hmode⟩ := h
  refine ⟨dst, origin, k, content, mode, stamp, hdst, hk, hsource, ?_, hmode⟩
  have hnode := get?_of_find ht.wellFormed hfound
  apply hext.find_same hu.wellFormed hfound
  rcases honly k with heq | hkl | ⟨hnone, -⟩
  · rw [heq, hnode]
  · exact absurd (hkl ▸ List.prefix_rfl) (hk.not_prefix hplace hbefore)
  · rw [hnone] at hnode
    cases hnode

section Copies

variable (hs : Plain output o s) (hcorpus : corpus.isAbsolute = true)
  (hc : s.find true corpus = .ok (c, .dir)) (hapart : Extraction.Apart c o)

include hs hcorpus hc in
/-- A destination keeps the names that lead from the corpus to the file. -/
lemma of_destination (hparent : .parent ∉ file.steps)
    (hdst : destination corpus output file = .ok dst) :
    ∃ m, file.isAbsolute = true ∧ file.steps = (c ++ m).map .name ∧
      dst.isAbsolute = true ∧ dst.steps = output.steps ++ m.map .name := by
  unfold destination at hdst
  split at hdst
  · rename_i rel hrel
    cases hdst
    obtain ⟨habs, hsteps, hrelative⟩ := Path.of_strip?_eq_some hcorpus hrel
    rw [hsteps, List.mem_append, not_or] at hparent
    obtain ⟨k, hk, -⟩ := Path.exists_names (fun _ => Path.of_mem_steps) hparent.1
    obtain ⟨m, hm, -⟩ := Path.exists_names (fun _ => Path.of_mem_steps) hparent.2
    have hleads := (leads_of_find hs.wellFormed hc rfl).1
    rw [start_of_isAbsolute hcorpus] at hleads
    have hck : c = k := by
      rw [eq_along_of_leads hs.free hleads, hk, along_names, List.nil_append]
    refine ⟨m, habs, ?_, Path.isAbsolute_join_of_left hs.isAbsolute rel, ?_⟩
    · rw [hsteps, hk, hm, hck, List.map_append]
    · rw [Path.steps_join hrelative, hm]
  · cases hdst

include hs hcorpus hc hapart in
/-- The copy of one more file, as far as it goes. -/
lemma Stage.step {r : Except Failure Unit} (h : Stage corpus output c o done none s w.store)
    (hw : Plain output o w.store) (hafter : ∀ other ∈ done, other.before file = true)
    (hparent : .parent ∉ file.steps)
    (hcopy : copyFiles corpus output [file] w = (r, v)) :
    Plain output o v.store ∧ Stage corpus output c o done (some file) s v.store ∧
      (r = .ok () → Stage corpus output c o (done ++ [file]) none s v.store) := by
  cases hdst : destination corpus output file with
  | error e =>
    have hfail : copyFiles corpus output [file] w = (.error e, w) := by
      simp only [copyFiles, Act.run_bind, Act.run_look, hdst]
    rw [hfail] at hcopy
    obtain ⟨rfl, rfl⟩ := Prod.mk.inj hcopy
    refine ⟨hw, ⟨h.arrived, h.only.mono ?_⟩, ?_⟩
    · rintro l ⟨other, hother, hl⟩
      exact ⟨other, by simpa using Or.inl hother, hl⟩
    · intro hok
      cases hok
  | ok dst =>
    obtain ⟨m, habs, hsteps, hdstAbs, hdstSteps⟩ := of_destination hs hcorpus hc hparent hdst
    have hplace : BelongsAt c o file (o ++ m) := ⟨m, habs, hsteps, rfl⟩
    have hrun : copyFile file dst w = (r, v) := by
      simpa [copyFiles, Act.run_bind, hdst] using hcopy
    have hframe : Plain output o (copyFile file dst w).2.store ∧ _ :=
      hw.copyFile hdstAbs hdstSteps
    rw [hrun] at hframe
    obtain ⟨hv, honly, hext⟩ := hframe
    have harrived : ∀ other ∈ done, Arrives corpus output c o s v.store other := by
      intro other hother
      exact (h.arrived other hother).kept hw hv hext honly hplace (hafter other hother)
    have honly' : ChangesOnly (fun l => ∃ other ∈ done ++ [file], BelongsAt c o other l) s
        v.store := by
      refine (h.only.mono ?_).trans (honly.mono ?_)
      · rintro l ⟨other, hother, hl⟩
        exact ⟨other, by simpa using Or.inl hother, hl⟩
      · rintro l rfl
        exact ⟨file, by simp, hplace⟩
    refine ⟨hv, ⟨harrived, honly'⟩, ?_⟩
    rintro rfl
    refine ⟨?_, by simpa using honly'⟩
    intro other hother
    rcases List.mem_append.mp hother with hdone | hlast
    · exact harrived other hdone
    · obtain rfl := List.mem_singleton.mp hlast
      obtain ⟨content, mode, stamp, hsource, hfound⟩ :=
        hw.copyFile_ok hdstAbs hdstSteps hapart habs hsteps hrun
      refine ⟨dst, c ++ m, o ++ m, content, mode, stamp, hdst, hplace, ?_, hfound,
        permissions_copiedMode content mode⟩
      rw [← hs.find_eq h.only ?_ hapart habs hsteps, hsource]
      rintro k ⟨other, -, m', -, -, rfl⟩
      exact List.prefix_append o m'

include hs hcorpus hc hapart in
/-- Copies that succeed, one after the other. -/
lemma Stage.run (h : Stage corpus output c o done none s w.store) (hw : Plain output o w.store)
    (hordered : (done ++ todo).Pairwise fun p q => p.before q = true)
    (hparent : ∀ file ∈ todo, .parent ∉ file.steps)
    (hcopy : copyFiles corpus output todo w = (.ok (), v)) :
    Plain output o v.store ∧ Stage corpus output c o (done ++ todo) none s v.store := by
  induction todo generalizing done w with
  | nil =>
    cases hcopy
    rw [List.append_nil]
    exact ⟨hw, h⟩
  | cons file todo ih =>
    rw [← List.singleton_append, copyFiles_append] at hcopy
    obtain ⟨_, w₁, hfirst, hrest⟩ := Act.bind_eq_ok.mp hcopy
    have hafter : ∀ other ∈ done, other.before file = true := by
      intro other hother
      exact (List.pairwise_append.mp hordered).2.2 other hother file List.mem_cons_self
    obtain ⟨hw₁, -, hstage⟩ := h.step hs hcorpus hc hapart hw hafter
      (hparent file List.mem_cons_self) hfirst
    rw [← List.singleton_append, ← List.append_assoc] at hordered ⊢
    refine ih (hstage rfl) hw₁ hordered ?_ hrest
    intro other hother
    exact hparent other (List.mem_cons_of_mem file hother)

end Copies

/-- What belongs to files that come later is not touched by the copies before. -/
lemma Stage.untouched {last : Option Path} (h : Stage corpus output c o done last s t)
    (hafter : ∀ other ∈ done ++ last.toList, other.before file = true)
    (hplace : BelongsAt c o file l) : t.get? l = s.get? l := by
  apply h.only.get?_eq
  rintro k ⟨other, hother, hk⟩
  exact hk.not_prefix hplace (hafter other hother)

/-- In a file tree without links, the closure is copied in order and as far as it goes. A copy that
succeeds has brought each file, with permissions and time, to where it belongs, and has done nothing
else.
One that fails has done so at one file: those before it were copied, those after it were not begun,
and of its own only the destination and the way to it may have changed. -/
theorem copyClosure_inOrder {files : PathSet} (hs : w.store.WellFormed)
    (hfree : ∀ l target, w.store.get? l ≠ some (.link target))
    (hcorpus : corpus.isAbsolute = true) (houtput : output.isAbsolute = true)
    (hc : w.store.find true corpus = .ok (c, .dir)) (ho : w.store.find true output = .ok (o, .dir))
    (hapart : Extraction.Apart c o) (hordered : files.Ordered)
    (hparent : ∀ file ∈ files.toList, .parent ∉ file.components) :
    (∀ n v, copyClosure corpus output files w = (.ok n, v) →
      n = files.size ∧ Stage corpus output c o files.toList none w.store v.store) ∧
    ∀ e v, copyClosure corpus output files w = (.error e, v) → ∃ front file back u,
      files.toList = front ++ file :: back ∧ copyFiles corpus output front w = (.ok (), u) ∧
      copyFiles corpus output [file] u = (.error e, v) ∧
      Stage corpus output c o front (some file) w.store v.store ∧
      ∀ later ∈ back, ∀ l, BelongsAt c o later l → v.store.get? l = w.store.get? l := by
  have hplain : Plain output o w.store := ⟨hs, fun l _ => hfree l, houtput, ho⟩
  have hstart : Stage corpus output c o [] none w.store w.store := ⟨by simp, .refl _⟩
  have hsteps : ∀ file ∈ files.toList, .parent ∉ file.steps := by
    intro file hfile
    have hnone := hparent file hfile
    rw [Path.components_eq, List.mem_append, not_or] at hnone
    exact hnone.2
  constructor
  · intro n v hrun
    obtain ⟨_, w₁, hcopy, hn⟩ := Act.bind_eq_ok.mp hrun
    cases hn
    exact ⟨rfl, (hstart.run hplain hcorpus hc hapart hplain hordered hsteps hcopy).2⟩
  · intro e v hrun
    have hcopy : copyFiles corpus output files.toList w = (.error e, v) := by
      rw [copyClosure, Act.run_bind] at hrun
      rcases hfiles : copyFiles corpus output files.toList w with ⟨e' | _, w₁⟩
      · rw [hfiles] at hrun
        cases hrun
        rfl
      · rw [hfiles] at hrun
        cases hrun
    obtain ⟨front, file, back, u, hsplit, hfront, hfile⟩ := exists_of_copyFiles_error hcopy
    unfold PathSet.Ordered at hordered
    rw [hsplit] at hordered hsteps
    obtain ⟨hfirst, hlast, hcross⟩ := List.pairwise_append.mp hordered
    obtain ⟨hu, hstage⟩ := hstart.run hplain hcorpus hc hapart hplain hfirst
      (fun p hp => hsteps p (List.mem_append_left _ hp)) hfront
    obtain ⟨-, hbegun, -⟩ := hstage.step hplain hcorpus hc hapart hu
      (fun p hp => hcross p hp file List.mem_cons_self) (hsteps file (by simp)) hfile
    refine ⟨front, file, back, u, hsplit, hfront, hfile, hbegun, ?_⟩
    intro later hlater l hplace
    refine hbegun.untouched ?_ hplace
    intro other hother
    rcases List.mem_append.mp hother with hfront | hfile
    · exact hcross other hfront later (List.mem_cons_of_mem file hlater)
    · obtain rfl : other = file := by simpa using hfile
      exact List.rel_of_pairwise_cons hlast hlater

/-- A corpus with two files, and an output that holds an older copy of one of them. -/
def notesStore : Store where
  entries :=
    [(locationOf ["c"], .dir), (locationOf ["c", "a"], .file [97, 10] 0o640 ⟨5, 0⟩),
      (locationOf ["c", "d"], .dir), (locationOf ["c", "d", "b"], .file [98] 0o755 ⟨6, 0⟩),
      (locationOf ["o"], .dir), (locationOf ["o", "a"], .file [120] plainMode ⟨1, 0⟩),
      (locationOf ["o", "k"], .file [107] plainMode ⟨2, 0⟩)]
  cwd := []
  clock := ⟨9, 0⟩

def notesCorpus : Path := .ofText "/c".toList

def notesOutput : Path := .ofText "/o".toList

/-- The files of the corpus. -/
def notes : PathSet := ⟨[.ofText "/c/a".toList, .ofText "/c/d/b".toList]⟩

/-- The files of the corpus, and one between them that is not there. -/
def missingNotes : PathSet :=
  ⟨[.ofText "/c/a".toList, .ofText "/c/b".toList, .ofText "/c/d/b".toList]⟩

lemma run_notes :
    notesStore.WellFormed ∧ (∀ e ∈ notesStore.entries, e.2.isLink = false) ∧
      (notes.toList.Pairwise fun p q => p.before q = true) ∧
      (missingNotes.toList.Pairwise fun p q => p.before q = true) ∧
      (copyClosure notesCorpus notesOutput notes (.ofStore notesStore)).1 = .ok 2 ∧
      (copyClosure notesCorpus notesOutput missingNotes (.ofStore notesStore)).1 =
        .error (.copy (.ofText "/c/b".toList) (.ofText "/o/b".toList) .notFound) := by
  decide +kernel

theorem copyClosure_notes :
    notesStore.WellFormed ∧
      Stage notesCorpus notesOutput (locationOf ["c"]) (locationOf ["o"]) notes.toList none
        notesStore (copyClosure notesCorpus notesOutput notes (.ofStore notesStore)).2.store ∧
      ∃ front file back, missingNotes.toList = front ++ file :: back ∧
        Stage notesCorpus notesOutput (locationOf ["c"]) (locationOf ["o"]) front (some file)
          notesStore
          (copyClosure notesCorpus notesOutput missingNotes (.ofStore notesStore)).2.store := by
  obtain ⟨hs, hlinks, hordered, hordered', hrun, hfail⟩ := run_notes
  have hfree : ∀ l target, notesStore.get? l ≠ some (.link target) := by
    have hnone : LinkFree notesStore fun _ => True := linkFree_of_entries hlinks
    intro l
    exact hnone l trivial
  have hnotes := @copyClosure_inOrder (.ofStore notesStore) notesCorpus notesOutput
    (locationOf ["c"]) (locationOf ["o"]) notes hs hfree (by decide +kernel) (by decide +kernel)
    (by decide +kernel) (by decide +kernel) (by decide +kernel) hordered (by decide +kernel)
  have hmissing := @copyClosure_inOrder (.ofStore notesStore) notesCorpus notesOutput
    (locationOf ["c"]) (locationOf ["o"]) missingNotes hs hfree (by decide +kernel)
    (by decide +kernel) (by decide +kernel) (by decide +kernel) (by decide +kernel) hordered'
    (by decide +kernel)
  obtain ⟨-, hcopied⟩ := hnotes.1 2 _ (Act.run_eq_of_fst hrun)
  obtain ⟨front, file, back, u, hsplit, -, -, hstage, -⟩ :=
    hmissing.2 _ _ (Act.run_eq_of_fst hfail)
  exact ⟨hs, hcopied, front, file, back, hsplit, hstage⟩

end Assembly

end Excerpt
