import Excerpt.Proofs.Scratch
import Excerpt.Proofs.Store.Renaming
import Excerpt.Proofs.Walk.Files

/-!
# Two scratch directories

Two stores hold the same, in whatever order, until a scratch directory is made in each, in one place
but under different names. If neither name was in use before, then what is done in the one directory
and in the other has the same outcome, and both directories hold the same again.
-/

namespace Excerpt

open Store

/-! ### Stores in another order -/

/-- The names that a node mentions: those on the way that a link shows. -/
def Node.mentions : Node → List Bytes
  | .link target => segments target
  | _ => []

namespace Store

variable {n : Bytes} {s s' t : Store} {l m : Location} {c : List Component} {node : Node} {p : Path}

/-- Nothing in the store is called `n`, and no link mentions it. -/
def Unnamed (n : Bytes) (s : Store) : Prop := ∀ e ∈ s.entries, n ∉ e.1 ∧ n ∉ e.2.mentions

instance (n : Bytes) (s : Store) : Decidable (Unnamed n s) :=
  inferInstanceAs (Decidable (∀ e ∈ s.entries, n ∉ e.1 ∧ n ∉ e.2.mentions))

/-- The stores have the same entries, in any order. So they list the same names in each directory,
in any order. -/
structure Rearranged (s s' : Store) : Prop where
  entries : s'.entries.Perm s.entries
  cwd : s'.cwd = s.cwd
  clock : s'.clock = s.clock

namespace Unnamed

lemma notMem (h : Unnamed n s) (hl : s.get? l ≠ none) : n ∉ l := by
  rcases eq_or_ne l [] with rfl | hne
  · exact List.not_mem_nil
  · obtain ⟨node, hnode⟩ := Option.ne_none_iff_exists'.mp hl
    exact (h _ (mem_of_get? hne hnode)).1

lemma notMem_target (h : Unnamed n s) {target : Path} (hl : s.get? l = some (.link target)) :
    n ∉ segments target := by
  have hne : l ≠ [] := by
    rintro rfl
    cases hl
  exact (h _ (mem_of_get? hne hl)).2

/-- Steps to something there do not mention a name that is not in use. -/
lemma notMem_of_leads (h : Unnamed n s) (hl : Leads s l c m) (hm : s.get? m ≠ none) :
    .name n ∉ c := by
  induction hl with
  | here => exact List.not_mem_nil
  | free _ hfree => exact absurd hfree hm
  | @down l k node rest m hn _ _ ih =>
    rw [List.mem_cons, not_or]
    refine ⟨fun he => ?_, ih hm⟩
    obtain rfl := Component.name.inj he
    exact h.notMem (by rw [hn]; simp) (List.mem_append_right l List.mem_cons_self)
  | up _ _ ih =>
    rw [List.mem_cons, not_or]
    exact ⟨by simp, ih hm⟩
  | @jump l k target rest m hn _ ih =>
    rw [List.mem_cons, not_or]
    refine ⟨fun he => ?_, fun hmem => ih hm (List.mem_append_right _ hmem)⟩
    obtain rfl := Component.name.inj he
    exact h.notMem (by rw [hn]; simp) (List.mem_append_right l List.mem_cons_self)

end Unnamed

lemma mem_steps_of_mem_segments (hn : Path.IsName n) (h : n ∈ segments p) : .name n ∈ p.steps := by
  rw [← stepsOf_segments]
  exact List.mem_filterMap.mpr ⟨n, h, hn.component⟩

lemma mem_segments_of_mem_steps (h : .name n ∈ p.steps) : n ∈ segments p := by
  rw [← stepsOf_segments] at h
  obtain ⟨seg, hseg, hc⟩ := List.mem_filterMap.mp h
  rcases Path.segmentComponent?_eq_some hc with ⟨-, he⟩ | ⟨-, -, -, he⟩
  · cases he
  · rw [Component.name.inj he]
    exact hseg

/-- A path to something there does not mention a name that is not in use. -/
lemma Unnamed.notMem_of_find (h : Unnamed n s) (hn : Path.IsName n) (hs : s.WellFormed)
    (hf : s.find true p = .ok (l, node)) : n ∉ segments p := by
  obtain ⟨hl, hget⟩ := leads_of_find hs hf (isLink_of_find hs hf)
  exact fun hmem => h.notMem_of_leads hl (by rw [hget]; simp) (mem_steps_of_mem_segments hn hmem)

namespace Rearranged

lemma get?_eq (h : Rearranged s s') (hs : s.WellFormed) (l : Location) : s'.get? l = s.get? l := by
  rcases eq_or_ne l [] with rfl | hne
  · rfl
  · have hnodup : (s'.entries.map Prod.fst).Nodup :=
      (h.entries.map Prod.fst).nodup_iff.mpr hs.nodup
    cases hn : s.get? l with
    | none =>
      rw [get?_eq_none_iff] at hn ⊢
      exact ⟨hne, fun e he => hn.2 e (h.entries.mem_iff.mp he)⟩
    | some node =>
      rw [get?_of_ne_nil hne]
      exact lookup_eq_some_of_mem hnodup (h.entries.mem_iff.mpr (mem_of_get? hne hn))

lemma wellFormed (h : Rearranged s s') (hs : s.WellFormed) : s'.WellFormed := by
  have hmem : ∀ e ∈ s'.entries, e ∈ s.entries := fun e he => h.entries.mem_iff.mp he
  refine ⟨(h.entries.map Prod.fst).nodup_iff.mpr hs.nodup, fun e he => hs.nonempty e (hmem e he),
    fun e he => hs.names e (hmem e he), fun e he => hs.sound e (hmem e he), fun e he => ?_, ?_⟩
  · rw [h.get?_eq hs]
    exact hs.parents e (hmem e he)
  · rw [h.get?_eq hs, h.cwd]
    exact hs.cwd

/-- Stores in another order are looked up in the same way. -/
lemma agree (h : Rearranged s s') (hs : s.WellFormed) : Agree (fun _ => True) s s' :=
  ⟨fun l _ => h.get?_eq hs l, fun _ _ _ _ _ _ => trivial, h.cwd, fun _ _ => trivial, h.clock⟩

lemma unnamed (h : Rearranged s s') (hn : Unnamed n s) : Unnamed n s' :=
  fun e he => hn e (h.entries.mem_iff.mp he)

end Rearranged

end Store

/-! ### Directories made side by side -/

namespace Store

variable {S : Store → Store → Prop} {rel : Path → Path → Prop} {t t' : Store} {p p' : Path}

/-- In stores that are related by `S`, single directories are made alike at paths that are related
by `rel`, and where something is missing above them, what is above them is related, too. -/
structure MakesAlike (S : Store → Store → Prop) (rel : Path → Path → Prop) : Prop where
  ne_nil : ∀ t t' p p', S t t' → rel p p' → p.bytes ≠ [] ∧ p'.bytes ≠ []
  makeDir : ∀ t t' p p', S t t' → rel p p' → Alike S (t.makeDir p) (t'.makeDir p')
  isDir : ∀ t t' p p', S t t' → rel p p' → t'.isDir p' = t.isDir p
  above : ∀ t t' p p', S t t' → rel p p' → t.makeDir p = .error .notFound →
    ∃ q q', p.parent? = some q ∧ p'.parent? = some q' ∧ rel q q'

namespace MakesAlike

lemma ensureDir (hS : MakesAlike S rel) (h : S t t') (hp : rel p p') :
    Alike Eq (Store.ensureDir p t).1 (Store.ensureDir p' t').1 ∧
      S (Store.ensureDir p t).2 (Store.ensureDir p' t').2 := by
  have hmake := hS.makeDir t t' p p' h hp
  rw [Store.ensureDir, Store.ensureDir, hS.isDir t t' p p' h hp]
  generalize t.makeDir p = x at hmake
  generalize t'.makeDir p' = y at hmake
  cases hmake with
  | ok hu => exact ⟨.ok rfl, hu⟩
  | error =>
    simp only
    split
    · exact ⟨.ok rfl, h⟩
    · exact ⟨.error, h⟩

lemma makeDirsWithin (hS : MakesAlike S rel) (depth : Nat) (h : S t t') (hp : rel p p') :
    Alike Eq (Store.makeDirsWithin depth p t).1 (Store.makeDirsWithin depth p' t').1 ∧
      S (Store.makeDirsWithin depth p t).2 (Store.makeDirsWithin depth p' t').2 := by
  induction depth generalizing p p' t t' with
  | zero => exact ⟨.error, h⟩
  | succ depth ih =>
    obtain ⟨hne, hne'⟩ := hS.ne_nil t t' p p' h hp
    have hboth := (hS.makeDir t t' p p' h hp).eq_error_iff (e := .notFound)
    by_cases hmissing : t.makeDir p = .error .notFound
    · obtain ⟨q, q', hq, hq', habove⟩ := hS.above t t' p p' h hp hmissing
      rw [makeDirsWithin_of_missing hne hmissing hq,
        makeDirsWithin_of_missing hne' (hboth.mp hmissing) hq']
      obtain ⟨halike, hu⟩ := ih h habove
      generalize Store.makeDirsWithin depth q t = x at halike hu
      generalize Store.makeDirsWithin depth q' t' = y at halike hu
      obtain ⟨r, u⟩ := x
      obtain ⟨r', u'⟩ := y
      simp only at halike hu
      cases halike with
      | error => exact ⟨.error, hu⟩
      | ok => exact hS.ensureDir hu hp
    · rw [makeDirsWithin_of_ne hne hmissing, makeDirsWithin_of_ne hne' (mt hboth.mpr hmissing)]
      exact hS.ensureDir h hp

/-- Directories are made alike with those above them. -/
theorem makeDirs (hS : MakesAlike S rel) (h : S t t') (hp : rel p p')
    (hlength : p'.bytes.length = p.bytes.length) :
    Alike Eq (Store.makeDirs p t).1 (Store.makeDirs p' t').1 ∧
      S (Store.makeDirs p t).2 (Store.makeDirs p' t').2 := by
  rw [Store.makeDirs, Store.makeDirs, hlength]
  exact hS.makeDirsWithin _ h hp

end MakesAlike

end Store

/-! ### Two scratch directories -/

variable {s s' t t' u u' : Store} {tmp p : Path} {a b n : Bytes} {d l dirs names : Location}
  {node : Node}

/-- What a bridge shows: an absolute path that does not mention the scratch directory. -/
def IsBridgeTarget (a b : Bytes) (target : Path) : Prop :=
  target.isAbsolute = true ∧ Avoids a b (segments target)

/-- In the stores `t` and `t'` there are scratch directories in the directory `d`, called `a` and
`b`, with the same in them. -/
structure Twins (s s' : Store) (tmp : Path) (a b : Bytes) (d : Location) (t t' : Store) : Prop where
  exchangeable : Exchangeable a b
  tmp_avoids : Avoids a b (segments tmp)
  avoids : Avoids a b d
  unnamed : Unnamed a s ∧ Unnamed b s ∧ Unnamed a s' ∧ Unnamed b s'
  left : Scratch s (tmp.child a) (d ++ [a]) (IsBridgeTarget a b) t
  right : Scratch s' (tmp.child b) (d ++ [b]) (IsBridgeTarget a b) t'
  corresponds : Corresponds a b t t'

/-- What leads only through what the path of a target leads through is one, too. -/
lemma IsBridgeTarget.of_prefix {q : Path} (h : IsBridgeTarget a b p) (hab : Exchangeable a b)
    (habs : q.isAbsolute = p.isAbsolute) (hsteps : q.steps <+: p.steps) :
    IsBridgeTarget a b q := by
  have hmem : ∀ n, Path.IsName n → n ∈ segments q → n ∈ segments p := fun n hn hq =>
    mem_segments_of_mem_steps (hsteps.subset (mem_steps_of_mem_segments hn hq))
  exact ⟨habs.trans h.1, .of_notMem (fun hq => h.2.left (hmem a hab.left.isName hq))
    fun hq => h.2.right (hmem b hab.right.isName hq)⟩

namespace Twins

/-! ### Where the names are -/

/-- What mentions one of the names stands in the scratch directory. -/
lemma avoids_of_get? (h : Twins s s' tmp a b d t t') (hl : t.get? l ≠ none)
    (hout : ¬ d ++ [a] <+: l) : Avoids a b l := by
  rw [h.left.encloses.get?_of_not_prefix hout] at hl
  exact .of_notMem (h.unnamed.1.notMem hl) (h.unnamed.2.1.notMem hl)

lemma avoids_of_get?_right (h : Twins s s' tmp a b d t t') (hl : t'.get? l ≠ none)
    (hout : ¬ d ++ [b] <+: l) : Avoids a b l := by
  rw [h.right.encloses.get?_of_not_prefix hout] at hl
  exact .of_notMem (h.unnamed.2.2.1.notMem hl) (h.unnamed.2.2.2.notMem hl)

/-- Apart from the scratch directory the store is the one at the beginning. -/
lemma agree_left (h : Twins s s' tmp a b d t t') : Agree (fun n => n ≠ a ∧ n ≠ b) s t := by
  have hget : ∀ l, Avoids a b l → t.get? l = s.get? l := fun l hl =>
    h.left.encloses.get?_of_not_prefix fun hp => hl.left (hp.subset (by simp))
  refine ⟨hget, fun l target hl hn => ?_, h.left.cwd, ?_, h.left.clock⟩
  · exact (h.corresponds.targets l target ((hget l hl).trans hn)).1
  · rw [← h.left.cwd]
    exact h.corresponds.avoids_cwd

/-- Names lead straight on from the scratch directory if they do so in the place where it is. -/
lemma straight (h : Twins s s' tmp a b d t t') (hnames : ∀ n ∈ names, Path.IsName n)
    (hlink : ∀ front, front <+: names → front ≠ names → front ≠ [] →
      ∀ target, t.get? (d ++ [a] ++ front) ≠ some (.link target)) :
    ∀ l, Avoids a b l → Straight t (l ++ [a]) names := by
  intro l hl
  refine ⟨hnames, fun front hp hne target hn => ?_⟩
  by_cases hd : d ++ [a] <+: l ++ [a] ++ front
  · obtain ⟨rest, hrest⟩ := hd
    rw [List.append_assoc, List.append_assoc] at hrest
    obtain ⟨rfl, -⟩ := append_cons_unique h.avoids.left hl.left hrest
    rcases eq_or_ne front [] with rfl | hfront
    · rw [List.append_nil, h.left.isDir] at hn
      cases hn
    · exact hlink front hp hne hfront target hn
  · exact (h.avoids_of_get? (by rw [hn]; simp) hd).left (by simp)

/-! ### Paths into both directories -/

lemma matches_of_noLink (h : Twins s s' tmp a b d t t') (hnames : ∀ n ∈ names, Path.IsName n)
    (hlink : ∀ front, front <+: names → front ≠ names → front ≠ [] →
      ∀ target, t.get? (d ++ [a] ++ front) ≠ some (.link target)) :
    PathsMatch a b t (chain (tmp.child a) names) (chain (tmp.child b) names) :=
  .chain h.exchangeable h.tmp_avoids (h.straight hnames hlink)

lemma isName_of_isTreeDir (h : Scratch.IsTreeDir dirs) : ∀ n ∈ dirs, Path.IsName n := by
  obtain ⟨top, rest, rfl, htop, hrest⟩ := h
  refine List.forall_mem_cons.mpr ⟨?_, fun n hn => (hrest n hn).1⟩
  rcases htop with rfl | rfl
  · exact Scratch.isName_testsName
  · exact Scratch.isName_srcTestsName

lemma isName_of_mem_entry (hdirs : Scratch.IsTreeDir dirs) (hn : Path.IsName n) :
    ∀ m ∈ dirs ++ [n], Path.IsName m := by
  intro m hm
  rcases List.mem_append.mp hm with hm | hm
  · exact isName_of_isTreeDir hdirs m hm
  · exact List.mem_singleton.mp hm ▸ hn

/-- The scratch directories themselves. -/
lemma matches_self (h : Twins s s' tmp a b d t t') :
    PathsMatch a b t (tmp.child a) (tmp.child b) :=
  h.matches_of_noLink (fun _ hn => absurd hn List.not_mem_nil) fun _ hp hne =>
    absurd (List.prefix_nil.mp hp) hne

lemma matches_dirs (h : Twins s s' tmp a b d t t') (hdirs : Scratch.IsTreeDir dirs) :
    PathsMatch a b t (chain (tmp.child a) dirs) (chain (tmp.child b) dirs) :=
  h.matches_of_noLink (isName_of_isTreeDir hdirs) fun front hp _ hne target =>
    h.left.linkFree _ ⟨front, hdirs.of_prefix hp hne, rfl⟩ target

/-- Something in a directory of a tree. -/
lemma matches_entry (h : Twins s s' tmp a b d t t') (hdirs : Scratch.IsTreeDir dirs)
    (hn : Path.IsName n) :
    PathsMatch a b t (chain (tmp.child a) (dirs ++ [n])) (chain (tmp.child b) (dirs ++ [n])) := by
  refine h.matches_of_noLink (isName_of_mem_entry hdirs hn) fun front hp hne hfront target => ?_
  have hp' : front <+: dirs := (List.prefix_concat_iff.mp hp).resolve_left hne
  exact h.left.linkFree _ ⟨front, hdirs.of_prefix hp' hfront, rfl⟩ target

/-- Something directly in the scratch directory. -/
lemma matches_top (h : Twins s s' tmp a b d t t') (hn : Path.IsName n) :
    PathsMatch a b t ((tmp.child a).child n) ((tmp.child b).child n) := by
  have hnames : ∀ m ∈ [n], Path.IsName m := List.forall_mem_singleton.mpr hn
  refine h.matches_of_noLink hnames fun front hp hne hfront => ?_
  obtain ⟨m, rest, rfl⟩ := List.exists_cons_of_ne_nil hfront
  obtain ⟨rfl, hrest⟩ := List.cons_prefix_cons.mp hp
  exact absurd (by rw [List.prefix_nil.mp hrest]) hne

/-- Something that is there. -/
lemma matches_of_get? (h : Twins s s' tmp a b d t t')
    (hn : t.get? (d ++ [a] ++ names) ≠ none) :
    PathsMatch a b t (chain (tmp.child a) names) (chain (tmp.child b) names) := by
  refine h.matches_of_noLink (fun m hm => ?_) fun front hp hne _ target hlink => ?_
  · exact (h.left.wellFormed.isEntryName hn (List.mem_append_right _ hm)).isName
  · rcases h.left.wellFormed.get?_of_prefix hn ((List.prefix_append_right_inj _).mpr hp) with
      he | hdir
    · exact hne (List.append_cancel_left he)
    · rw [hdir] at hlink
      cases hlink

/-! ### Directories -/

/-- What is put into both directories. -/
lemma of_putAlike (h : Twins s s' tmp a b d t t') (hput : Corresponds.PutAlike a b t t' node u u')
    (htarget : ∀ target, node = .link target → IsBridgeTarget a b target)
    (hleft : Scratch s (tmp.child a) (d ++ [a]) (IsBridgeTarget a b) u)
    (hright : Scratch s' (tmp.child b) (d ++ [b]) (IsBridgeTarget a b) u') :
    Twins s s' tmp a b d u u' :=
  ⟨h.exchangeable, h.tmp_avoids, h.avoids, h.unnamed, hleft, hright,
    hput.corresponds h.corresponds fun target he => (htarget target he).symm⟩

/-- A chain of names starts where its path does. -/
lemma isAbsolute_chain_eq {p : Path} (hp : p.bytes ≠ []) (hnames : ∀ n ∈ names, Path.IsName n) :
    (chain p names).isAbsolute = p.isAbsolute := by
  induction names using List.reverseRecOn with
  | nil => rfl
  | append_singleton names n ih =>
    have hfront : ∀ m ∈ names, Path.IsName m := fun m hm => hnames m (List.mem_append_left _ hm)
    have hne := (start_chain (s := default) hp hfront).1
    rw [chain_concat, Path.child, Path.isAbsolute_join hne (hnames n (by simp)).isAbsolute,
      ih hfront]

lemma scratch_of_makeDir {good : Path → Prop} {dir : Path} {root : Location}
    (h : Scratch s dir root good t) (hdirs : Scratch.IsTreeDir dirs)
    (hmake : t.makeDir (chain dir dirs) = .ok u) : Scratch s dir root good u := by
  have hnames := isName_of_isTreeDir hdirs
  have hsteps : (chain dir dirs).steps <+: dir.steps ++ dirs.map .name :=
    ⟨[], by rw [List.append_nil, steps_chain _ hnames]⟩
  have hmay : Scratch.Permits dir (fun _ target => good target) t (.dir (chain dir dirs)) :=
    ⟨isAbsolute_chain_eq h.encloses.dir_ne_nil hnames, dirs, hdirs, hsteps⟩
  exact h.step (fun _ ht => ht) hmay (changes_of_makeDir h.wellFormed hmake)

/-- The scratch directory cannot be made again. -/
lemma makeDir_self {good : Path → Prop} {dir : Path} {root : Location}
    (h : Scratch s dir root good t) : t.makeDir dir = .error .alreadyExists := by
  obtain ⟨asDir, hlocate⟩ := locate_of_find h.encloses.found
  rw [Store.makeDir, hlocate]

lemma makeDir (h : Twins s s' tmp a b d t t') (hdirs : dirs = [] ∨ Scratch.IsTreeDir dirs) :
    Alike (Twins s s' tmp a b d) (t.makeDir (chain (tmp.child a) dirs))
      (t'.makeDir (chain (tmp.child b) dirs)) := by
  rcases hdirs with rfl | hdirs
  · rw [chain_nil, chain_nil, makeDir_self h.left, makeDir_self h.right]
    exact .error
  · have halike := h.corresponds.makeDir h.exchangeable (h.matches_dirs hdirs)
    generalize hx : t.makeDir (chain (tmp.child a) dirs) = x at halike
    generalize hy : t'.makeDir (chain (tmp.child b) dirs) = y at halike
    cases halike with
    | error => exact .error
    | ok hput =>
      exact .ok (h.of_putAlike hput (fun _ he => by cases he) (scratch_of_makeDir h.left hdirs hx)
        (scratch_of_makeDir h.right hdirs hy))

lemma isDir_dirs (h : Twins s s' tmp a b d t t') (hdirs : dirs = [] ∨ Scratch.IsTreeDir dirs) :
    t'.isDir (chain (tmp.child b) dirs) = t.isDir (chain (tmp.child a) dirs) := by
  rcases hdirs with rfl | hdirs
  · exact h.corresponds.isDir h.exchangeable h.matches_self
  · exact h.corresponds.isDir h.exchangeable (h.matches_dirs hdirs)

/-- The paths of a directory of the trees, or of the scratch directory itself. -/
def SameDir (tmp : Path) (a b : Bytes) (p p' : Path) : Prop :=
  ∃ dirs, (dirs = [] ∨ Scratch.IsTreeDir dirs) ∧ p = chain (tmp.child a) dirs ∧
    p' = chain (tmp.child b) dirs

lemma isName_of_sameDir (hdirs : dirs = [] ∨ Scratch.IsTreeDir dirs) :
    ∀ n ∈ dirs, Path.IsName n := by
  rcases hdirs with rfl | hdirs
  · simp
  · exact isName_of_isTreeDir hdirs

lemma makesAlike : MakesAlike (Twins s s' tmp a b d) (SameDir tmp a b) where
  ne_nil := by
    rintro t t' _ _ h ⟨dirs, hdirs, rfl, rfl⟩
    have hnames := isName_of_sameDir hdirs
    exact ⟨(start_chain (s := t) h.left.encloses.dir_ne_nil hnames).1,
      (start_chain (s := t) h.right.encloses.dir_ne_nil hnames).1⟩
  makeDir := by
    rintro t t' _ _ h ⟨dirs, hdirs, rfl, rfl⟩
    exact h.makeDir hdirs
  isDir := by
    rintro t t' _ _ h ⟨dirs, hdirs, rfl, rfl⟩
    exact h.isDir_dirs hdirs
  above := by
    rintro t t' _ _ h ⟨dirs, hdirs, rfl, rfl⟩ hmissing
    -- The scratch directory is there, so what is missing is above a directory of a tree.
    have hnil : dirs ≠ [] := by
      rintro rfl
      rw [chain_nil, makeDir_self h.left] at hmissing
      cases hmissing
    have htree := hdirs.resolve_left hnil
    obtain ⟨front, n, rfl⟩ := (List.eq_nil_or_concat' dirs).resolve_left hnil
    have hfront : front = [] ∨ Scratch.IsTreeDir front := by
      rcases eq_or_ne front [] with rfl | hne
      · exact Or.inl rfl
      · exact Or.inr (htree.of_prefix (List.prefix_append ..) hne)
    have hparent : ∀ c, Path.IsName c → (chain (tmp.child c) (front ++ [n])).parent? =
        some (chain (tmp.child c) front) := by
      intro c hc
      have hnames : ∀ m ∈ c :: front, Path.IsName m :=
        List.forall_mem_cons.mpr ⟨hc, isName_of_sameDir hfront⟩
      exact parent?_chain (p := tmp) hnames (List.cons_ne_nil c front)
        (isName_of_isTreeDir htree n (by simp))
    exact ⟨_, _, hparent a h.exchangeable.left.isName, hparent b h.exchangeable.right.isName,
      front, hfront, rfl, rfl⟩

/-- Directories of a tree are made alike in both scratch directories. -/
theorem makeDirs (h : Twins s s' tmp a b d t t') (hdirs : Scratch.IsTreeDir dirs) :
    Alike Eq (Store.makeDirs (chain (tmp.child a) dirs) t).1
        (Store.makeDirs (chain (tmp.child b) dirs) t').1 ∧
      Twins s s' tmp a b d (Store.makeDirs (chain (tmp.child a) dirs) t).2
        (Store.makeDirs (chain (tmp.child b) dirs) t').2 :=
  makesAlike.makeDirs h ⟨dirs, Or.inr hdirs, rfl, rfl⟩ (h.matches_dirs hdirs).length

/-- A directory of a tree that is there is made again with a slash behind its path. -/
lemma makeDirs_join_empty (h : Twins s s' tmp a b d t t') (hdirs : Scratch.IsTreeDir dirs)
    (hthere : t.isDir (chain (tmp.child a) dirs) = true) :
    Alike Eq (Store.makeDirs ((chain (tmp.child a) dirs).join Path.empty) t).1
        (Store.makeDirs ((chain (tmp.child b) dirs).join Path.empty) t').1 ∧
      (Store.makeDirs ((chain (tmp.child a) dirs).join Path.empty) t).2 = t ∧
      (Store.makeDirs ((chain (tmp.child b) dirs).join Path.empty) t').2 = t' := by
  have hnames := isName_of_isTreeDir hdirs
  have hthere' := h.corresponds.isDir h.exchangeable (h.matches_dirs hdirs)
  obtain ⟨l, hfind⟩ := exists_of_isDir hthere
  obtain ⟨l', hfind'⟩ := exists_of_isDir (hthere'.trans hthere)
  have hlength := ((h.matches_dirs hdirs).join_empty
    (start_chain (s := t) h.left.encloses.dir_ne_nil hnames).1
    (wantsDir_chain _ hnames hdirs.ne_nil)).length
  rw [makeDirs_join_empty_eq hfind, makeDirs_join_empty_eq hfind', hlength]
  refine ⟨?_, rfl, rfl⟩
  simp only
  split
  · exact .error
  · exact .ok rfl

/-! ### Links -/

lemma scratch_of_makeLink {good : Path → Prop} {dir target : Path} {root : Location}
    (h : Scratch s dir root good t) (hdirs : Scratch.IsTreeDir dirs) (hn : Path.IsName n)
    (hdot : Path.dot ∈ n) (htarget : good target)
    (hmake : t.makeLink target (chain dir (dirs ++ [n])) = .ok u) : Scratch s dir root good u := by
  have hnames := isName_of_mem_entry hdirs hn
  have hmay : Scratch.Permits dir (fun _ target => good target) t
      (.link target (chain dir (dirs ++ [n]))) :=
    ⟨htarget, isAbsolute_chain_eq h.encloses.dir_ne_nil hnames,
      wantsDir_chain _ hnames (List.concat_ne_nil n dirs), dirs, n, hdirs, hdot,
      steps_chain _ hnames⟩
  exact h.step (fun _ ht => ht) hmay (changes_of_makeLink h.wellFormed hmake)

/-- Bridges are made alike in both scratch directories. -/
theorem makeLink (h : Twins s s' tmp a b d t t') {target : Path} (hdirs : Scratch.IsTreeDir dirs)
    (hn : Path.IsName n) (hdot : Path.dot ∈ n) (htarget : IsBridgeTarget a b target) :
    Alike (Twins s s' tmp a b d) (t.makeLink target (chain (tmp.child a) (dirs ++ [n])))
      (t'.makeLink target (chain (tmp.child b) (dirs ++ [n]))) := by
  have halike := h.corresponds.makeLink h.exchangeable (h.matches_entry hdirs hn) target
  generalize hx : t.makeLink target (chain (tmp.child a) (dirs ++ [n])) = x at halike
  generalize hy : t'.makeLink target (chain (tmp.child b) (dirs ++ [n])) = y at halike
  cases halike with
  | error => exact .error
  | ok hput =>
    refine .ok (h.of_putAlike hput (fun target' he => ?_)
      (scratch_of_makeLink h.left hdirs hn hdot htarget hx)
      (scratch_of_makeLink h.right hdirs hn hdot htarget hy))
    obtain rfl := Node.link.inj he
    exact htarget

/-! ### Stubs -/

lemma isName_stubName : Path.IsName Scratch.stubName := ⟨by decide, by decide⟩

/-- Stubs are written alike. -/
theorem writeStub (h : Twins s s' tmp a b d t t') (content : Bytes) :
    Alike (Twins s s' tmp a b d) (t.write (Stub.file (tmp.child a)) content)
      (t'.write (Stub.file (tmp.child b)) content) := by
  have hmatch : PathsMatch a b t (Stub.file (tmp.child a)) (Stub.file (tmp.child b)) :=
    h.matches_top isName_stubName
  have halike := h.corresponds.write h.exchangeable h.left.wellFormed hmatch content
  generalize hx : t.write (Stub.file (tmp.child a)) content = x at halike
  generalize hy : t'.write (Stub.file (tmp.child b)) content = y at halike
  cases halike with
  | error => exact .error
  | ok hput =>
    obtain ⟨node, hfile, hput⟩ := hput
    obtain ⟨-, -, -, -, hleft⟩ := h.left.write_stub hx
    obtain ⟨-, -, -, -, hright⟩ := h.right.write_stub hy
    refine .ok (h.of_putAlike hput (fun target he => ?_) hleft hright)
    rw [he] at hfile
    cases hfile

/-- Stubs are removed alike. -/
theorem removeStub (h : Twins s s' tmp a b d t t') :
    Alike (Twins s s' tmp a b d) (t.removeFile (Stub.file (tmp.child a)))
      (t'.removeFile (Stub.file (tmp.child b))) := by
  have hmatch : PathsMatch a b t (Stub.file (tmp.child a)) (Stub.file (tmp.child b)) :=
    h.matches_top isName_stubName
  have halike := h.corresponds.removeFile h.exchangeable hmatch
  generalize hx : t.removeFile (Stub.file (tmp.child a)) = x at halike
  generalize hy : t'.removeFile (Stub.file (tmp.child b)) = y at halike
  cases halike with
  | error => exact .error
  | ok =>
    obtain ⟨rfl, hleft⟩ := h.left.removeFile_stub hx
    obtain ⟨rfl, hright⟩ := h.right.removeFile_stub hy
    have hstub : Renamed a b (d ++ [a] ++ [Scratch.stubName]) (d ++ [b] ++ [Scratch.stubName]) := by
      rw [List.append_assoc, List.append_assoc]
      exact .within h.avoids
    exact .ok ⟨h.exchangeable, h.tmp_avoids, h.avoids, h.unnamed, hleft, hright,
      h.corresponds.erase hstub (by simp)⟩

/-! ### Walks -/

/-- A walk from `source` lists nothing of the directory at `root`. -/
def WalksClear (t : Store) (root : Location) (limits : Walk.Limits) (source : Path) : Prop :=
  ∀ loc names, t.find true source = .ok (loc, .dir) → Walk.Passes limits Path.empty 0 names →
    Walk.HoldsFile t (loc ++ names) → ¬ root <+: loc ++ names

variable {limits : Walk.Limits} {source : Path} {c : Bytes} {root : Location}

/-- There is nothing to list. -/
lemma walksClear_of_dirs (h : ∀ names node, t.get? (root ++ names) = some node → node = .dir) :
    WalksClear t root limits source := by
  rintro loc names - - ⟨node, hnode, hfile⟩ ⟨rest, hrest⟩
  rw [← hrest] at hnode
  rw [h rest node hnode] at hfile
  cases hfile

/-- The walk lists only what is directly in a directory. -/
lemma walksClear_of_maxDepth (hroot : t.get? (d ++ [c]) = some .dir) (hmax : limits.maxDepth = some 1)
    (hloc : ∀ loc, t.find true source = .ok (loc, .dir) → c ∉ loc ∧ t.get? loc = some .dir) :
    WalksClear t (d ++ [c]) limits source := by
  rintro loc names hfind hpasses ⟨node, hnode, hfile⟩ hp
  obtain ⟨hc, hdir⟩ := hloc loc hfind
  have hnotDir : t.get? (loc ++ names) ≠ some .dir := by
    rw [hnode]
    rintro he
    rw [Option.some.inj he] at hfile
    cases hfile
  match names, hpasses with
  | [], _ => exact hnotDir (by rw [List.append_nil, hdir])
  | [n], _ =>
    rcases List.prefix_concat_iff.mp hp with he | hp
    · exact hnotDir (he ▸ hroot)
    · exact hc (hp.subset (by simp))
  | n :: m :: names, hpasses =>
    have hreach := hpasses.2.2.1
    rw [Walk.Limits.reaches, hmax] at hreach
    simp at hreach

/-- The walk does not come near the directory. -/
lemma walksClear_of_apart
    (hloc : ∀ loc, t.find true source = .ok (loc, .dir) → c ∉ loc ∧ ¬ loc <+: d ++ [c]) :
    WalksClear t (d ++ [c]) limits source := by
  rintro loc names hfind - - hp
  obtain ⟨hc, hapart⟩ := hloc loc hfind
  rcases List.prefix_or_prefix_of_prefix hp (List.prefix_append loc names) with h | h
  · exact hc (h.subset (by simp))
  · exact hapart h

/-- A walk that lists nothing of the scratch directories lists the same in both stores. -/
theorem files (h : Twins s s' tmp a b d t t') (hsource : Avoids a b (segments source))
    (hclear : WalksClear t (d ++ [a]) limits source)
    (hclear' : WalksClear t' (d ++ [b]) limits source) :
    Walk.files t' limits source = Walk.files t limits source ∧
      ∀ ps, Walk.files t limits source = .ok ps → ∀ p ∈ ps, ∃ names, p = chain source names ∧
        (∀ n ∈ names, IsEntryName n) ∧ Avoids a b names := by
  have hfind := h.corresponds.agree.find true hsource
  refine ⟨Walk.files_eq h.left.wellFormed h.right.wellFormed hfind
    fun loc names hloc _ hpasses => ⟨?_, ?_⟩, fun ps hps p hp => ?_⟩
  · rintro ⟨node, hnode, hfile⟩
    have hout := hclear' loc names (hfind.trans hloc) hpasses ⟨node, hnode, hfile⟩
    have havoids := h.avoids_of_get?_right (by rw [hnode]; simp) hout
    exact ⟨node, (h.corresponds.agree.get?_eq _ havoids).symm.trans hnode, hfile⟩
  · rintro ⟨node, hnode, hfile⟩
    have hout := hclear loc names hloc hpasses ⟨node, hnode, hfile⟩
    have havoids := h.avoids_of_get? (by rw [hnode]; simp) hout
    exact ⟨node, (h.corresponds.agree.get?_eq _ havoids).trans hnode, hfile⟩
  · obtain ⟨-, loc, names, hloc, -, rfl, hpasses, node, hnode, hfile⟩ :=
      ((Walk.mem_files_iff h.left.wellFormed hps).2 p).mp hp
    have hsome : t.get? (loc ++ names) ≠ none := by
      rw [hnode]
      simp
    have havoids := h.avoids_of_get? hsome (hclear loc names hloc hpasses ⟨node, hnode, hfile⟩)
    exact ⟨names, rfl, fun n hn => h.left.wellFormed.isEntryName hsome (List.mem_append_right _ hn),
      fun n hn => havoids n (List.mem_append_right _ hn)⟩

end Twins

end Excerpt
