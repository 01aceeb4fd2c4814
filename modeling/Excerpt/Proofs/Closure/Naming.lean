import Excerpt.Proofs.Closure.Asking

/-!
# An oracle that names a bridge

An oracle that looks for a link at one place in whatever directories there are in the place of the
scratch directory: its answers go with the name of the scratch directory, if that is alone there.
-/

namespace Excerpt

open Store

variable {s s' t : Store} {tmp : Path} {a b c n : Bytes} {d e l dirs : Location} {good : Path → Prop}

/-- The links called `names` in the directories in `tmp`. -/
def linksIn (tmp : Path) (names : Location) (t : Store) : Except Failure PathSet :=
  match t.list tmp with
  | .error fault => .error (.list tmp fault)
  | .ok dirs =>
    .ok (PathSet.ofList ((dirs.map fun c => chain (tmp.child c) names).filter t.isLink))

/-- The oracle that names, whatever it is asked, the links called `names` in the directories in
`tmp`. -/
def Oracle.namingLinks (tmp : Path) (names : Location) : Oracle := fun _ _ =>
  Act.look (linksIn tmp names)

lemma Oracle.namingLinks_answersBy (tmp : Path) (names : Location) :
    (namingLinks tmp names).AnswersBy fun _ _ => linksIn tmp names := fun _ _ _ => ⟨rfl, rfl, rfl⟩

/-- Where nothing was before there is the scratch directory only. -/
lemma Scratch.names_eq {dir : Path} (h : Scratch s dir (d ++ [c]) good t)
    (hempty : s.names d = []) : t.names d = [c] := by
  refine List.perm_singleton.mp ((List.perm_ext_iff_of_nodup (nodup_names h.wellFormed)
    (List.nodup_singleton c)).mpr fun m => ?_)
  rw [mem_names h.wellFormed, List.mem_singleton]
  constructor
  · rintro ⟨node, hnode⟩
    by_contra hne
    have hout : ¬ d ++ [c] <+: d ++ [m] := fun hp => by
      have he := hp.eq_of_length (by simp)
      exact hne (by simpa using he.symm)
    rw [h.encloses.get?_of_not_prefix hout] at hnode
    have hmem := (mem_names h.base).mpr ⟨node, hnode⟩
    rw [hempty] at hmem
    cases hmem
  · rintro rfl
    exact ⟨.dir, h.isDir⟩

/-- The link at a place of a tree is found there. -/
lemma Scratch.eq_of_find_link {dir target : Path} {root : Location} (h : Scratch s dir root good t)
    (hdirs : IsTreeDir dirs) (hn : Path.IsName n)
    (hfind : t.find false (chain dir (dirs ++ [n])) = .ok (l, .link target)) :
    l = root ++ (dirs ++ [n]) := by
  have hnames := Twins.isName_of_mem_entry hdirs hn
  obtain ⟨front, m, k, hsteps, hleads, rfl⟩ := of_find_link h.wellFormed hfind
  rw [steps_chain _ hnames, List.map_append, ← List.append_assoc] at hsteps
  obtain ⟨rfl, hlast⟩ := List.append_inj' hsteps rfl
  rw [List.map_singleton, List.singleton_inj, Component.name.injEq] at hlast
  rw [(start_chain h.encloses.dir_ne_nil hnames).2] at hleads
  rw [h.eq_of_leads_dirs hdirs (h.leads_of_append hleads), hlast, List.append_assoc]

/-- The scratch directories stand where their path says. -/
lemma Twins.eq_of_find {t' : Store} (h : Twins s s' tmp a b d t t') (htmp : tmp.isAbsolute = true)
    (hfind : s.find true tmp = .ok (e, .dir)) : d = e := by
  have hroot := h.left.leads
  have htmp' := (h.agree_left.find true h.tmp_avoids).trans hfind
  obtain ⟨he, -⟩ := leads_of_find h.left.wellFormed htmp' rfl
  rw [start_of_isAbsolute htmp] at he
  rw [start_of_isAbsolute (Path.isAbsolute_child htmp h.exchangeable.left.isName),
    Path.steps_child h.exchangeable.left.isName] at hroot
  obtain ⟨k, hk, hroot, -⟩ := hroot.split h.left.wellFormed (by simp)
  obtain rfl := he.unique hk
  by_cases hn : t.get? (e ++ [a]) = none
  · exact List.append_cancel_right
      (hroot.unique (.free (get?_of_find h.left.wellFormed htmp') hn))
  · have havoids : Avoids a b e := h.agree_left.uses_of_find h.tmp_avoids hfind
    by_contra hne
    have hout : ¬ d ++ [a] <+: e ++ [a] := by
      intro hp
      rcases List.prefix_concat_iff.mp hp with he | hp
      · exact hne (List.append_cancel_right he)
      · exact havoids.left (hp.subset (by simp))
    exact (h.avoids_of_get? hn hout).left (by simp)

lemma Twins.find_tmp {t' : Store} (h : Twins s s' tmp a b d t t')
    (hfind : s.find true tmp = .ok (d, .dir)) :
    t.find true tmp = .ok (d, .dir) ∧ t'.find true tmp = .ok (d, .dir) := by
  have hleft := (h.agree_left.find true h.tmp_avoids).trans hfind
  exact ⟨hleft, (h.corresponds.agree.find true h.tmp_avoids).trans hleft⟩

/-- Where nothing was before there is one candidate. -/
lemma Scratch.linksIn_eq (h : Scratch s (tmp.child c) (d ++ [c]) good t) (hempty : s.names d = [])
    (hfind : t.find true tmp = .ok (d, .dir)) (names : Location) :
    linksIn tmp names t =
      .ok (PathSet.ofList ([chain (tmp.child c) names].filter t.isLink)) := by
  rw [linksIn, Store.list, hfind]
  simp only [h.names_eq hempty, List.map_singleton]

lemma Store.Rearranged.names_eq_nil (h : Rearranged s s') (hs : s.WellFormed)
    (hempty : s.names e = []) : s'.names e = [] := by
  refine List.eq_nil_iff_forall_not_mem.mpr fun m hm => ?_
  obtain ⟨node, hnode⟩ := (mem_names (h.wellFormed hs)).mp hm
  rw [h.get?_eq hs] at hnode
  have hmem := (mem_names hs).mpr ⟨node, hnode⟩
  rw [hempty] at hmem
  cases hmem

/-- Links in a tree are bridges. -/
lemma Scratch.isBridge_of_isLink {dir : Path} {root : Location} (h : Scratch s dir root good t)
    (hdirs : IsTreeDir dirs) (hn : Path.IsName n)
    (hlink : t.isLink (chain dir (dirs ++ [n])) = true) :
    IsBridge t dir (chain dir (dirs ++ [n])) := by
  unfold Store.isLink ownNode? at hlink
  split at hlink
  · rename_i l node hfind
    cases node with
    | link target =>
      have hl := h.eq_of_find_link hdirs hn hfind
      exact ⟨root, dirs ++ [n], target, h.encloses.found, Twins.isName_of_mem_entry hdirs hn, rfl,
        hl ▸ hfind⟩
    | _ => cases hlink
  · cases hlink

/-- This oracle goes with the name of the scratch directory, if there is nothing beside it. -/
theorem linksIn_answersAlike (hs : s.WellFormed) (h : Rearranged s s') (htmp : tmp.isAbsolute = true)
    (hfind : s.find true tmp = .ok (e, .dir)) (hempty : s.names e = [])
    (hdirs : Scratch.IsTreeDir dirs) (hn : Path.IsName n) :
    AnswersAlike (fun _ _ => linksIn tmp (dirs ++ [n])) s s' tmp a b := by
  have hempty' := h.names_eq_nil hs hempty
  constructor
  · rintro q q' ⟨-, -, d, ht⟩
    obtain rfl := ht.eq_of_find htmp hfind
    obtain ⟨hleft, hright⟩ := ht.find_tmp hfind
    -- The candidate is a link in both stores or in neither.
    have hsame : q'.store.isLink (chain (tmp.child b) (dirs ++ [n])) =
        q.store.isLink (chain (tmp.child a) (dirs ++ [n])) := by
      rw [Store.isLink, Store.isLink,
        ht.corresponds.ownNode? ht.exchangeable (ht.matches_entry hdirs hn)]
    rw [ht.left.linksIn_eq hempty hleft, ht.right.linksIn_eq hempty' hright,
      List.filter_singleton, List.filter_singleton, hsame]
    refine .ok ?_
    cases q.store.isLink (chain (tmp.child a) (dirs ++ [n])) with
    | false => exact .of_avoids PathSet.ordered_empty fun _ hp => absurd hp List.not_mem_nil
    | true =>
      have hmoved : Path.Moved tmp a b (chain (tmp.child a) (dirs ++ [n]))
          (chain (tmp.child b) (dirs ++ [n])) := .inside (Twins.isName_of_mem_entry hdirs hn)
      refine ⟨⟨List.pairwise_singleton _ _, List.pairwise_singleton _ _⟩, fun p hp => ?_,
        fun p hp => ?_⟩
      · rw [List.mem_singleton.mp hp]
        exact ⟨_, List.mem_singleton_self _, hmoved⟩
      · rw [List.mem_singleton.mp hp]
        exact ⟨_, List.mem_singleton_self _, hmoved⟩
  · rintro q q' found ⟨-, -, d, ht⟩ hanswer p hp names - -
    obtain rfl := ht.eq_of_find htmp hfind
    rw [ht.left.linksIn_eq hempty (ht.find_tmp hfind).1, Except.ok.injEq] at hanswer
    subst hanswer
    obtain ⟨hp, hlink⟩ := List.mem_filter.mp (PathSet.mem_ofList hp)
    rw [List.mem_singleton.mp hp] at hlink ⊢
    exact ht.left.isBridge_of_isLink hdirs hn hlink

end Excerpt
