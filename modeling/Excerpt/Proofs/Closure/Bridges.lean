import Excerpt.Proofs.Scratch
import Excerpt.Resolve

/-!
# Where bridges lead

The corpus looks the same whether there is a scratch directory or not, as long as that is not in
the corpus. A path into one of the trees of bridges that leads to a file ends in a bridge, so
resolving it gives the target of that bridge.
-/

namespace Excerpt

open Store

/-- A path that leads to a regular file from wherever it is taken. -/
def LeadsToFile (t : Store) (p : Path) : Prop :=
  p.isAbsolute = true ∧ ∃ l node, t.find true p = .ok (l, node) ∧ node.isFile = true

namespace Scratch

variable {s t : Store} {dir p q : Path} {root c l m pre names : Location} {node : Node}
  {good : Path → Prop} {a : List Component}

/-! ### Outside -/

/-- Nothing has changed around a directory that the scratch directory is not in. -/
lemma get?_around (h : Scratch s dir root good t) (hc : s.get? c = some .dir)
    (hout : ¬ c <+: root) (hm : Around c m) : t.get? m = s.get? m := by
  have hnot : ¬ root <+: c := by
    intro hp
    rw [h.base.get?_eq_none_of_prefix h.free hp] at hc
    cases hc
  refine h.encloses.get?_of_not_prefix fun hp => ?_
  rcases hm with hm | hm
  · exact hnot (hp.trans hm)
  · exact (List.prefix_or_prefix_of_prefix hm hp).elim hout hnot

/-- Paths beneath such a directory lead where they led before. -/
lemma find_eq (h : Scratch s dir root good t) (hc : s.get? c = some .dir) (hout : ¬ c <+: root)
    (hfree : LinkFree s (c <+: ·)) (hp : GoesBeneath c p a) (follow : Bool) :
    t.find follow p = s.find follow p :=
  ((h.base.linkFree_around hc hfree).find_eq (fun _ hm => (h.get?_around hc hout hm).symm) hp.1
    hp.stays follow).symm

/-! ### Inside -/

/-- Behind the target of a bridge there is nothing. -/
lemma eq_nil_of_leads_target (ht : t.WellFormed) (hp : LeadsToFile t p)
    (hl : Leads t [] (p.steps ++ names.map .name) m) : names = [] := by
  obtain ⟨habs, l, node, hfind, hfile⟩ := hp
  have hlink : node.isLink = false := by
    cases node with
    | link => cases hfile
    | _ => rfl
  obtain ⟨hleads, hnode⟩ := leads_of_find ht hfind hlink
  rw [start_of_isAbsolute habs] at hleads
  obtain ⟨k, hk, hrest, -⟩ := hl.split ht (by simp)
  obtain rfl := hleads.unique hk
  have hnotdir : t.get? l ≠ some .dir := by
    rw [hnode]
    rintro ⟨⟩
    cases hfile
  have hnone : ∀ n, t.get? (l ++ [n]) = none := by
    intro n
    by_contra hn
    have hparent := ht.get?_dropLast hn
    rw [List.dropLast_concat] at hparent
    exact hnotdir hparent
  cases names with
  | nil => rfl
  | cons n names =>
    rw [List.map_cons] at hrest
    generalize names.map Component.name = b at hrest
    cases hrest with
    | free hdir => exact absurd hdir hnotdir
    | down hn => rw [hnone] at hn; cases hn
    | jump hn => rw [hnone] at hn; cases hn

/-- Names behind a directory of a tree lead to a directory of the tree, or the last of them is that
of a bridge. -/
lemma of_leads (h : Scratch s dir root good t)
    (hgood : ∀ target, good target → LeadsToFile t target) (hpre : pre = [] ∨ IsTreeDir pre)
    (hstub : ¬ [stubName] <+: pre ++ names) (hl : Leads t (root ++ pre) (names.map .name) m)
    (hm : t.get? m ≠ none) :
    t.get? m = some .dir ∨ ∃ dirs n, pre ++ names = dirs ++ [n] ∧
      (dirs = [] ∨ IsTreeDir dirs) ∧
      ∃ target, t.get? (root ++ (dirs ++ [n])) = some (.link target) ∧ good target := by
  induction names generalizing pre with
  | nil =>
    cases hl
    left
    rcases hpre with rfl | hpre
    · rw [List.append_nil, h.isDir]
    · obtain ⟨node, hnode⟩ := Option.ne_none_iff_exists'.mp hm
      cases h.holds pre node hpre.ne_nil hnode with
      | dir => exact hnode
      | bridge hdirs hdot => exact absurd hdot (hpre.dot_notMem hdirs.ne_nil)
      | stub => exact absurd hpre not_isTreeDir_stub
  | cons n names ih =>
    rw [List.map_cons] at hl
    have hnode : ∀ node, t.get? (root ++ pre ++ [n]) = some node →
        Holds good (pre ++ [n]) node := by
      intro node hn
      rw [List.append_assoc] at hn
      exact h.holds _ node (by simp) hn
    have hassoc : pre ++ n :: names = (pre ++ [n]) ++ names := by simp
    generalize hb : names.map Component.name = b at hl
    cases hl with
    | free _ hfree => exact absurd hfree hm
    | @down _ _ node _ _ hn hlink hl =>
      have hdir : IsTreeDir (pre ++ [n]) := by
        generalize hnames : pre ++ [n] = here at hnode
        cases hnode node hn with
        | dir hdir => exact hdir
        | bridge => cases hlink
        | stub =>
          rw [hassoc, hnames] at hstub
          exact absurd (List.prefix_append _ _) hstub
      rw [hassoc] at hstub ⊢
      exact ih (Or.inr hdir) hstub (by rwa [hb, ← List.append_assoc])
    | @jump _ _ target _ _ hn hl =>
      right
      have hbridge : good target := by
        generalize hnames : pre ++ [n] = here at hnode
        cases hnode _ hn with
        | bridge _ _ htarget => exact htarget
        | stub hfile => cases hfile
      have hfile := hgood target hbridge
      rw [if_pos hfile.1, ← hb] at hl
      obtain rfl := eq_nil_of_leads_target h.wellFormed hfile hl
      exact ⟨pre, n, rfl, hpre, target, by rwa [← List.append_assoc], hbridge⟩

/-- A path into a tree that leads to a file is that of a bridge. -/
theorem bridge_of_find (h : Scratch s dir root good t)
    (hgood : ∀ target, good target → LeadsToFile t target)
    (habs : q.isAbsolute = dir.isAbsolute) (hsteps : q.steps = dir.steps ++ names.map .name)
    (hstub : ¬ [stubName] <+: names) (hfind : t.find true q = .ok (l, node))
    (hnode : node ≠ .dir) :
    ∃ target, t.find false q = .ok (root ++ names, .link target) ∧ good target := by
  have ht := h.wellFormed
  have hstart : t.start q = t.start dir := by rw [start, start, habs]
  obtain ⟨hl, hget⟩ := leads_of_find ht hfind (isLink_of_find ht hfind)
  rw [hstart, hsteps] at hl
  have hl' := h.leads_of_append hl
  rcases h.of_leads hgood (Or.inl rfl) (by simpa using hstub) (by rwa [List.append_nil])
    (by rw [hget]; simp) with hdir | ⟨dirs, n, rfl, hdirs, target, hn, htarget⟩
  · rw [hget, Option.some.injEq] at hdir
    exact absurd hdir hnode
  · refine ⟨target, ?_, htarget⟩
    obtain ⟨l', node', hfind'⟩ := find_follow hfind
    have hnode' : node' ≠ .dir := by
      rintro rfl
      obtain ⟨hleads, hget'⟩ := leads_of_find ht hfind' rfl
      rw [hstart, hsteps] at hleads
      rw [hleads.unique hl, hget, Option.some.injEq] at hget'
      exact hnode hget'
    obtain ⟨front, last, d, hlast, hd, rfl⟩ := last_of_find ht hfind' hnode'
    rw [hsteps, List.map_append, ← List.append_assoc] at hlast
    obtain ⟨rfl, hone⟩ := List.append_inj' hlast rfl
    rw [List.map_singleton, List.singleton_inj, Component.name.injEq] at hone
    rw [hstart] at hd
    have hd' := h.leads_of_append hd
    have hroot : d = root ++ dirs := by
      rcases hdirs with rfl | hdirs
      · cases hd'
        rw [List.append_nil]
      · exact h.eq_of_leads_dirs hdirs hd'
    rw [hroot, ← hone, List.append_assoc] at hfind'
    have hget' := get?_of_find ht hfind'
    rw [hn, Option.some.injEq] at hget'
    rw [hfind', hget']

end Scratch

end Excerpt
