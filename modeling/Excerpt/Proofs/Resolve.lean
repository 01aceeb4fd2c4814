import Excerpt.Proofs.Store.Places
import Excerpt.Proofs.Trace.Entries
import Excerpt.Resolve

/-!
# Resolving a set of links

Resolving takes one link off each path, once. So a set is final afterwards if none of its links
points at a link that leads on, and of longer chains each resolution takes away one link. Paths that
lead to one file fall together where they come down to its canonical path.
-/

namespace Excerpt

namespace Path

variable {p q : Path}

/-- Only the empty path has no components. -/
lemma components_eq_nil_iff : p.components = [] ↔ p.bytes = [] := by
  constructor
  · intro h
    rw [components_eq, List.append_eq_nil_iff] at h
    obtain ⟨hlead, hsteps⟩ := h
    rcases splitLead_cases p.bytes with ⟨rest, -, hs⟩ | ⟨rest, -, -, hs⟩ | ⟨hslash, hdot, -⟩
    · simp [lead, hs, leadComponents] at hlead
    · simp [lead, hs, leadComponents, dot, slash] at hlead
    · by_contra hne
      rw [steps, bodyComponents_eq_takeWhile_append, List.append_eq_nil_iff] at hsteps
      have hfirst : segmentComponent? (p.bytes.takeWhile (· != slash)) = none := by
        simpa using hsteps.1
      obtain ⟨b, rest, hb⟩ := List.exists_cons_of_ne_nil hne
      have hbslash : b ≠ slash := by
        rintro rfl
        simp [hb] at hslash
      rcases segmentComponent?_eq_none hfirst with hnil | hone
      · simp [hb, hbslash] at hnil
      · rw [hb, List.takeWhile_cons_of_pos (by simpa using hbslash), List.cons.injEq] at hone
        obtain ⟨rfl, hrest⟩ := hone
        obtain ⟨hrestne, hhead⟩ := hdot rest hb
        obtain ⟨c, more, rfl⟩ := List.exists_cons_of_ne_nil hrestne
        by_cases hc : c = slash
        · simp [hc] at hhead
        · simp [hc] at hrest
  · intro h
    rw [components, h]
    rfl

/-- What is read relative to a path does not depend on the spelling of the path. -/
lemma same_join (hsame : p.same q = true) {t : Path} (ht : t.isAbsolute = false) :
    (p.join t).same (q.join t) = true := by
  have hbytes : p.bytes = [] ↔ q.bytes = [] := by
    rw [← components_eq_nil_iff, ← components_eq_nil_iff, same_eq_true.mp hsame]
  by_cases hp : p.bytes = []
  · have hpq : p.bytes = q.bytes := hp.trans (hbytes.mp hp).symm
    rw [join, join, hpq]
    exact same_refl _
  · obtain ⟨hlead, hsteps⟩ := same_iff.mp hsame
    rw [same_iff, lead_join hp ht, lead_join (hbytes.not.mp hp) ht, steps_join ht, steps_join ht,
      hlead, hsteps]
    exact ⟨rfl, rfl⟩

lemma fold_eq_of_same (h : p.same q = true) : p.fold = q.fold := by
  rw [fold, fold, same_eq_true.mp h]

end Path

namespace Store

variable {s : Store} {p p' q target : Path} {l l' : Location} {node node' : Node}
  {files : PathSet}

/-! ### One path -/

/-- The path is no link that leads to another path. -/
def IsSettled (s : Store) (p : Path) : Prop := (s.resolveLink p).same p = true

/-- The path is settled after its link was resolved, at most `n` times. -/
inductive SettlesIn (s : Store) : Nat → Path → Prop where
  | now {n : Nat} {p : Path} : s.IsSettled p → SettlesIn s n p
  | later {n : Nat} {p : Path} : SettlesIn s n (s.resolveLink p) → SettlesIn s (n + 1) p

lemma resolveLink_of_no_link (h : ∀ target, s.ownNode? p ≠ some (.link target)) :
    s.resolveLink p = p := by
  unfold resolveLink
  split
  · rename_i target hown
    exact absurd hown (h target)
  · rfl

lemma resolveLink_of_link (h : s.ownNode? p = some (.link target)) :
    s.resolveLink p = if target.isAbsolute then target
      else ((p.parent?.map (·.join target)).getD target).fold := by
  rw [resolveLink, h]
  cases p.parent? <;> rfl

lemma ownNode?_eq_some_iff : s.ownNode? p = some node ↔ ∃ l, s.find false p = .ok (l, node) := by
  unfold ownNode?
  constructor
  · intro h
    split at h
    · rename_i l found hfind
      cases h
      exact ⟨l, hfind⟩
    · cases h
  · rintro ⟨l, hfind⟩
    rw [hfind]

/-- A link has a parent, and what its target means does not depend on the spelling of either. -/
lemma same_resolveLink (hs : s.WellFormed) (hp : s.ownNode? p = some (.link target))
    (hq : s.ownNode? q = some (.link target)) (hsame : p.same q = true) :
    (s.resolveLink p).same (s.resolveLink q) = true := by
  rw [resolveLink_of_link hp, resolveLink_of_link hq]
  split
  · exact Path.same_refl target
  · rename_i hrelative
    have hsteps : ∀ {r : Path}, s.ownNode? r = some (.link target) → r.steps ≠ [] := by
      intro r hr
      obtain ⟨l, hfind⟩ := ownNode?_eq_some_iff.mp hr
      obtain ⟨front, n, d, hlast, -⟩ := of_find_link hs hfind
      simp [hlast]
    obtain ⟨above, habove⟩ := Path.exists_parent (hsteps hp)
    obtain ⟨above', habove'⟩ := Path.exists_parent (hsteps hq)
    have hparents : above.same above' = true := by
      rw [Path.same_eq_true, Path.components_of_parent? habove (hsteps hp),
        Path.components_of_parent? habove' (hsteps hq), Path.same_eq_true.mp hsame]
    rw [habove, habove', Option.map_some, Option.map_some, Option.getD_some, Option.getD_some,
      Path.fold_eq_of_same (Path.same_join hparents (by simpa using hrelative))]
    exact Path.same_refl _

/-- What comes of a settled path is settled, also if it is spelled differently. -/
lemma IsSettled.resolveLink (hs : s.WellFormed) (h : s.IsSettled p) :
    s.IsSettled (s.resolveLink p) := by
  by_cases hp : ∃ target, s.ownNode? p = some (.link target)
  · by_cases hq : ∃ target, s.ownNode? (s.resolveLink p) = some (.link target)
    · obtain ⟨target, hp⟩ := hp
      obtain ⟨target', hq⟩ := hq
      obtain ⟨l, hfind⟩ := ownNode?_eq_some_iff.mp hp
      obtain ⟨l', hfind'⟩ := ownNode?_eq_some_iff.mp hq
      -- Both spellings are of one link.
      obtain ⟨-, htargets⟩ := eq_of_find_same hs hfind hfind' h (by simp) (by simp)
      rw [htargets] at hq
      exact same_resolveLink hs hq hp h
    · rw [IsSettled, resolveLink_of_no_link (not_exists.mp hq)]
      exact Path.same_refl _
  · rwa [resolveLink_of_no_link (not_exists.mp hp)]

/-- Each resolution takes away one link. -/
lemma SettlesIn.resolveLink (hs : s.WellFormed) {n : Nat} (h : s.SettlesIn (n + 1) p) :
    s.SettlesIn n (s.resolveLink p) := by
  cases h with
  | now h => exact .now (h.resolveLink hs)
  | later h => exact h

lemma SettlesIn.isSettled (h : s.SettlesIn 0 p) : s.IsSettled p := by
  cases h with
  | now h => exact h

/-! ### Where links lead -/

/-- The path is direct itself, or it is a link with a direct target. -/
def ComesToFile (s : Store) (p : Path) : Prop :=
  s.IsDirect p ∨ ∃ target, s.ownNode? p = some (.link target) ∧ s.IsDirect target

lemma IsDirect.isAbsolute (h : s.IsDirect p) : p.isAbsolute = true := by
  obtain ⟨file, hfile, hsame⟩ := h
  obtain ⟨l, node, -, rfl⟩ := canonical_eq_ok_iff.mp hfile
  rw [← Path.isAbsolute_eq_of_lead (Path.same_iff.mp hsame).1]
  exact isAbsolute_pathOf l

/-- A link leads where its absolute target leads. -/
lemma canonical_target (hs : s.WellFormed) (hp : s.ownNode? p = some (.link target))
    (habs : target.isAbsolute = true) (hfind : s.find true p = .ok (l, node))
    (hfind' : s.find true target = .ok (l', node')) : l' = l := by
  obtain ⟨m, hlink⟩ := ownNode?_eq_some_iff.mp hp
  obtain ⟨front, n, d, hsteps, hfront, rfl⟩ := of_find_link hs hlink
  have hstart : s.get? (s.start p) ≠ none := by simp [hs.get?_start p]
  have hleads := (leads_of_find hs hfind (isLink_of_find hs hfind)).1
  have hleads' := (leads_of_find hs hfind' (isLink_of_find hs hfind')).1
  rw [start_of_isAbsolute habs] at hleads'
  rw [hsteps] at hleads
  obtain ⟨k, hk, hlast, -⟩ := hleads.split hs hstart
  obtain rfl := hfront.unique hk
  have hnode := get?_of_find hs hlink
  cases hlast with
  | free _ hfree => simp [hfree] at hnode
  | down hdown hnolink _ =>
    rw [hnode, Option.some.injEq] at hdown
    rw [← hdown] at hnolink
    cases hnolink
  | jump hjump hrest =>
    rw [hnode, Option.some.injEq, Node.link.injEq] at hjump
    obtain rfl := hjump
    rw [if_pos habs, List.append_nil] at hrest
    exact hleads'.unique hrest

/-- What comes to a file is resolved to a direct path of what it leads to. -/
lemma ComesToFile.resolveLink (hs : s.WellFormed) (h : s.ComesToFile p)
    (hfind : s.find true p = .ok (l, node)) :
    s.IsDirect (s.resolveLink p) ∧ s.canonical (s.resolveLink p) = .ok (pathOf l) := by
  rcases h with hdirect | ⟨target, hlink, hdirect⟩
  · rw [hdirect.resolveLink hs]
    exact ⟨hdirect, canonical_eq_ok_iff.mpr ⟨l, node, hfind, rfl⟩⟩
  · rw [resolveLink_of_link hlink, if_pos hdirect.isAbsolute]
    have habs := hdirect.isAbsolute
    refine ⟨hdirect, ?_⟩
    obtain ⟨file, hfile, -⟩ := hdirect
    obtain ⟨l', node', hfind', rfl⟩ := canonical_eq_ok_iff.mp hfile
    rw [hfile, canonical_target hs hlink habs hfind hfind']

/-! ### Sets -/

/-- What resolving a set gives, where its links settle after `n + 1` times. -/
structure Resolution (s : Store) (n : Nat) (files resolved : PathSet) : Prop where
  /-- There is one entry for each path that an element is resolved to. -/
  ordered : resolved.Ordered
  /-- The entries are what the elements are resolved to. -/
  entries : ∀ q, resolved.contains q = true ↔
    ∃ p ∈ files.toList, (s.resolveLink p).same q = true
  /-- Each entry has one link less. -/
  settles : ∀ q ∈ resolved.toList, s.SettlesIn n q
  /-- Without links that lead on, resolving again changes nothing. -/
  final : n = 0 → ∀ q, (s.resolveLinks resolved).contains q = resolved.contains q
  /-- Whatever comes to one file falls together in a direct path of this file. -/
  places : ∀ p ∈ files.toList, ∀ p' ∈ files.toList, s.ComesToFile p → s.ComesToFile p' →
    ∀ l node, s.find true p = .ok (l, node) → s.find true p' = .ok (l, node) →
    (s.resolveLink p).same (s.resolveLink p') = true ∧ s.IsDirect (s.resolveLink p) ∧
      s.canonical (s.resolveLink p) = .ok (pathOf l)

lemma of_mem_resolveLinks {q : Path} (h : q ∈ (s.resolveLinks files).toList) :
    ∃ p ∈ files.toList, s.resolveLink p = q := by
  rcases PathSet.mem_insertAll h with h | h
  · cases h
  · exact List.mem_map.mp h

/-- A set of settled paths is the same after resolving. -/
lemma contains_resolveLinks_of_settled (h : ∀ p ∈ files.toList, s.IsSettled p) (q : Path) :
    (s.resolveLinks files).contains q = files.contains q := by
  rw [Bool.eq_iff_iff, contains_resolveLinks, PathSet.contains_iff]
  constructor
  · rintro ⟨p, hp, hq⟩
    have hsame := h p hp
    rw [IsSettled, Path.same_comm] at hsame
    exact ⟨p, hp, Path.same_trans hsame hq⟩
  · rintro ⟨p, hp, hq⟩
    exact ⟨p, hp, Path.same_trans (h p hp) hq⟩

/-- Resolving takes one link off each path of a set. If none of them is a link to a link that leads
on, the result is final, and all that comes to one file has become one path. -/
theorem resolveLinks_settles (hs : s.WellFormed) {n : Nat}
    (h : ∀ p ∈ files.toList, s.SettlesIn (n + 1) p) :
    s.Resolution n files (s.resolveLinks files) := by
  have hsettles : ∀ q ∈ (s.resolveLinks files).toList, s.SettlesIn n q := by
    intro q hq
    obtain ⟨p, hp, rfl⟩ := of_mem_resolveLinks hq
    exact (h p hp).resolveLink hs
  constructor
  · exact PathSet.ordered_empty.insertAll _
  · intro q
    exact contains_resolveLinks
  · exact hsettles
  · rintro rfl q
    apply contains_resolveLinks_of_settled
    intro p hp
    exact (hsettles p hp).isSettled
  · intro p hp p' hp' hcomes hcomes' l node hfind hfind'
    obtain ⟨hdirect, hplace⟩ := hcomes.resolveLink hs hfind
    obtain ⟨hdirect', hplace'⟩ := hcomes'.resolveLink hs hfind'
    exact ⟨hdirect.same hdirect' (hplace.trans hplace'.symm), hdirect, hplace⟩

/-! ### A link to a link -/

/-- A file, a link to it and a link to this link. -/
def chainStore : Store where
  entries :=
    [(locationOf ["w"], .dir),
      (locationOf ["w", "f"], .file [] 0o644 ⟨0, 0⟩),
      (locationOf ["w", "b"], .link (.ofText "/w/f".toList)),
      (locationOf ["w", "a"], .link (.ofText "b".toList))]
  cwd := []
  clock := ⟨1, 0⟩

/-- A file and the link to it become one entry, which is final. -/
theorem resolveLinks_bridge :
    chainStore.WellFormed ∧
      chainStore.resolveLinks ⟨[.ofText "/w/b".toList, .ofText "/w/f".toList]⟩ =
        ⟨[.ofText "/w/f".toList]⟩ ∧
      chainStore.Resolution 0 ⟨[.ofText "/w/b".toList, .ofText "/w/f".toList]⟩
        ⟨[.ofText "/w/f".toList]⟩ := by
  have hs : chainStore.WellFormed := by decide +kernel
  have hresolved : chainStore.resolveLinks ⟨[.ofText "/w/b".toList, .ofText "/w/f".toList]⟩ =
      ⟨[.ofText "/w/f".toList]⟩ := by decide +kernel
  have hfile : chainStore.IsSettled (.ofText "/w/f".toList) := by
    unfold IsSettled
    decide +kernel
  have hlink : chainStore.resolveLink (.ofText "/w/b".toList) = .ofText "/w/f".toList := by
    decide +kernel
  have h : ∀ p ∈ (⟨[.ofText "/w/b".toList, .ofText "/w/f".toList]⟩ : PathSet).toList,
      chainStore.SettlesIn (0 + 1) p := by
    simp only [List.mem_cons, List.not_mem_nil, or_false]
    rintro p (rfl | rfl)
    · apply SettlesIn.later
      rw [hlink]
      exact .now hfile
    · exact .now hfile
  have hresolution := resolveLinks_settles hs h
  rw [hresolved] at hresolution
  exact ⟨hs, hresolved, hresolution⟩

/-- The link to the link is resolved to a link, so that the file has two entries, and resolving once
more gives another set. -/
theorem resolveLinks_stops_at_link :
    chainStore.WellFormed ∧
      chainStore.resolveLinks ⟨[.ofText "/w/a".toList, .ofText "/w/f".toList]⟩ =
        ⟨[.ofText "/w/b".toList, .ofText "/w/f".toList]⟩ ∧
      chainStore.ownNode? (.ofText "/w/b".toList) = some (.link (.ofText "/w/f".toList)) ∧
      ¬ chainStore.IsSettled (.ofText "/w/b".toList) ∧
      chainStore.resolveLinks ⟨[.ofText "/w/b".toList, .ofText "/w/f".toList]⟩ =
        ⟨[.ofText "/w/f".toList]⟩ := by
  unfold IsSettled
  decide +kernel

end Store

end Excerpt
