import Excerpt.Proofs.Store.Missing
import Excerpt.Proofs.Store.Regions
import Excerpt.Proofs.Walk.Files
import Excerpt.Resolve

/-!
# What can be reached

From a location, names and links lead to other places. What can be reached in this way is all that
paths beneath the location depend on: a store that was extended elsewhere is looked up, listed and
walked there as it was before.
-/

namespace Excerpt

namespace Store

/-- The places that can be reached from `c`: by names, whether something is called so or not, and
through links, to where they lead and to where they miss. -/
inductive Reachable (s : Store) (c : Location) : Location → Prop where
  | self : Reachable s c c
  | beneath {l n} : Reachable s c l → Reachable s c (l ++ [n])
  | leads {l n target m} : Reachable s c (l ++ [n]) → s.get? (l ++ [n]) = some (.link target) →
      Leads s (if target.isAbsolute then [] else l) target.steps m → s.get? m ≠ none →
      Reachable s c m
  | misses {l n target q} : Reachable s c (l ++ [n]) → s.get? (l ++ [n]) = some (.link target) →
      Misses s true (if target.isAbsolute then [] else l) target.steps q → Reachable s c q

/-- Each of the steps leads from `c` to a place that can be reached. -/
def Roams (s : Store) (c : Location) (a : List Component) : Prop :=
  ∀ b m, b <+: a → Leads s c b m → s.get? m ≠ none → Reachable s c m

/-- The path goes to `c` by name, and from there only to what can be reached. -/
def KeepsTo (s : Store) (c : Location) (p : Path) : Prop :=
  p.isAbsolute = true ∧ ∃ a, p.steps = c.map .name ++ a ∧ Roams s c a

variable {s t u : Store} {c l m q : Location} {n : Bytes} {a b : List Component} {node : Node}
  {follow : Bool} {p : Path}

/-! ### Reaching places -/

lemma Reachable.append (h : Reachable s c l) (names : Location) : Reachable s c (l ++ names) := by
  induction names generalizing l with
  | nil => rwa [List.append_nil]
  | cons n names ih => simpa using ih h.beneath

/-- Where no link beneath `c` leads, nothing but what lies beneath `c` can be reached. -/
lemma LinkFree.of_reachable (h : LinkFree s (c <+: ·)) (hl : Reachable s c l) : c <+: l := by
  induction hl with
  | self => exact List.prefix_rfl
  | beneath _ ih => exact ih.trans (List.prefix_append ..)
  | leads _ hn _ _ ih => exact absurd hn (h _ ih _)
  | misses _ hn _ ih => exact absurd hn (h _ ih _)

/-- The names of a directory lead to it. -/
lemma WellFormed.leads_names (hs : s.WellFormed) (hc : s.get? c = some .dir) :
    Leads s [] (c.map .name) c := by
  induction c using List.reverseRecOn with
  | nil => exact .here
  | append_singleton c n ih =>
    have habove := hs.get?_of_concat (n := n) (by rw [hc]; simp)
    rw [List.map_append]
    exact (ih habove).trans (by rw [habove]; simp) (.down hc rfl .here)

/-! ### Roaming -/

namespace Roams

lemma nil : Roams s c [] := by
  intro b m hb hm _
  rw [List.prefix_nil.mp hb] at hm
  cases hm
  exact .self

lemma of_prefix (h : Roams s c b) (hp : a <+: b) : Roams s c a :=
  fun _ m hb => h _ m (hb.trans hp)

/-- One more step that does not climb. -/
lemma concat (hs : s.WellFormed) (hc : s.get? c = some .dir) (h : Roams s c a) {step : Component}
    (hstep : step ≠ .parent) : Roams s c (a ++ [step]) := by
  intro b m hb hm hne
  rcases List.prefix_concat_iff.mp hb with rfl | hb
  · obtain ⟨k, hk, hlast, hthere⟩ := hm.split hs (by rw [hc]; simp)
    have hreach := h a k List.prefix_rfl hk (hthere (by simp))
    cases hlast with
    | free => exact hreach.beneath
    | down _ _ hm =>
      cases hm
      exact hreach.beneath
    | up => exact absurd rfl hstep
    | jump hn hm =>
      rw [List.append_nil] at hm
      exact .leads hreach.beneath hn hm hne
  · exact h b m hb hm hne

lemma append (hs : s.WellFormed) (hc : s.get? c = some .dir) (h : Roams s c a)
    (hb : .parent ∉ b) : Roams s c (a ++ b) := by
  induction b using List.reverseRecOn with
  | nil => rwa [List.append_nil]
  | append_singleton b step ih =>
    rw [List.mem_append, not_or, List.mem_singleton] at hb
    rw [← List.append_assoc]
    exact (ih hb.1).concat hs hc (Ne.symm hb.2)

/-- What is missed can be reached. -/
lemma reachable_of_misses (hs : s.WellFormed) (hc : s.get? c = some .dir) (h : Roams s c a)
    (hq : Misses s follow c a q) : Reachable s c q := by
  induction a using List.reverseRecOn generalizing follow with
  | nil => cases hq
  | append_singleton a step ih =>
    rcases hq.split hs hc with hq | ⟨m, hm, hdir, hq⟩
    · exact ih (h.of_prefix (List.prefix_append ..)) hq
    · have hreach := h a m (List.prefix_append ..) hm (by rw [hdir]; simp)
      cases hq with
      | here => exact hreach.beneath
      | down _ hq => cases hq
      | up hq => cases hq
      | jump hn _ hq =>
        rw [List.append_nil] at hq
        exact .misses hreach.beneath hn hq.following

end Roams

namespace KeepsTo

/-- The location itself. -/
lemma of_steps_eq (hp : p.isAbsolute = true) (hsteps : p.steps = c.map .name) : KeepsTo s c p :=
  ⟨hp, [], by rw [hsteps, List.append_nil], .nil⟩

/-- Steps that do not climb do not lead away. -/
lemma append (hs : s.WellFormed) (hc : s.get? c = some .dir) (h : KeepsTo s c p) {q : Path}
    (hq : q.isAbsolute = true) (hsteps : q.steps = p.steps ++ b) (hb : .parent ∉ b) :
    KeepsTo s c q := by
  obtain ⟨-, a, ha, hroams⟩ := h
  exact ⟨hq, a ++ b, by rw [hsteps, ha, List.append_assoc], hroams.append hs hc hb⟩

lemma child (hs : s.WellFormed) (hc : s.get? c = some .dir) (h : KeepsTo s c p)
    (hn : Path.IsName n) : KeepsTo s c (p.child n) :=
  h.append hs hc (Path.isAbsolute_child h.1 hn) (Path.steps_child hn) (by simp)

lemma chain (hs : s.WellFormed) (hc : s.get? c = some .dir) (h : KeepsTo s c p) {names : Location}
    (hnames : ∀ n ∈ names, Path.IsName n) : KeepsTo s c (chain p names) :=
  h.append hs hc (isAbsolute_chain h.1 hnames) (steps_chain p hnames) (by simp)

/-- Without links, a path that stays beneath the location keeps to it. -/
lemma of_goesBeneath (hfree : LinkFree s (c <+: ·)) (h : GoesBeneath c p a) : KeepsTo s c p := by
  obtain ⟨hp, hsteps, hstays⟩ := h
  refine ⟨hp, a, hsteps, fun b m hb hm _ => ?_⟩
  have hfront := hstays.of_prefix hb
  obtain ⟨names, hnames⟩ := hfront.along List.prefix_rfl
  rw [hfree.eq_along hm hfront, ← hnames]
  exact Reachable.self.append names

/-- What is on the way of a path that keeps to what can be reached does so, if it comes that far. -/
lemma of_prefix (h : KeepsTo s c p) {q : Path} (hq : q.isAbsolute = true)
    (hinitial : c.map .name <+: q.steps) (hsteps : q.steps <+: p.steps) : KeepsTo s c q := by
  obtain ⟨-, a, ha, hroams⟩ := h
  obtain ⟨b, hb⟩ := hinitial
  refine ⟨hq, b, hb.symm, hroams.of_prefix ?_⟩
  rw [← hb, ha] at hsteps
  exact (List.prefix_append_right_inj _).mp hsteps

/-- It depends on the steps only. -/
lemma of_same (h : KeepsTo s c p) {q : Path} (hq : p.same q = true) : KeepsTo s c q := by
  obtain ⟨hlead, hsteps⟩ := Path.same_iff.mp hq
  obtain ⟨hp, a, ha, hroams⟩ := h
  exact ⟨(Path.isAbsolute_eq_of_lead hlead).symm.trans hp, a, by rw [← hsteps, ha], hroams⟩

lemma start (h : KeepsTo s c p) : s.start p = [] := start_of_isAbsolute h.1

/-- What such a path misses can be reached. -/
lemma reachable_of_misses (hs : s.WellFormed) (hc : s.get? c = some .dir) (h : KeepsTo s c p)
    (hq : Misses s follow (s.start p) p.steps q) : Reachable s c q := by
  rw [h.start] at hq
  obtain ⟨-, a, ha, hroams⟩ := h
  rw [ha] at hq
  refine hroams.reachable_of_misses hs hc (hq.of_append hs rfl (hs.leads_names hc) ?_)
  rw [hc]
  simp

/-- A place that the last name of such a path has can be reached. -/
lemma reachable_of_last (hs : s.WellFormed) (hc : s.get? c = some .dir) (h : KeepsTo s c p)
    {front : List Component} {d : Location} (hsteps : p.steps = front ++ [.name n])
    (hfront : Leads s [] front d) (hd : s.get? d = some .dir) : Reachable s c (d ++ [n]) := by
  obtain ⟨-, a, ha, hroams⟩ := h
  rw [ha] at hsteps
  rcases List.eq_nil_or_concat a with rfl | ⟨a, step, rfl⟩
  · obtain rfl | ⟨c, m, rfl⟩ : c = [] ∨ ∃ d m, c = d ++ [m] := by
      simpa only [List.concat_eq_append] using List.eq_nil_or_concat c
    · simp at hsteps
    · rw [List.append_nil, List.map_append] at hsteps
      obtain ⟨rfl, hn⟩ := List.append_inj' hsteps rfl
      rw [List.map_singleton, List.singleton_inj, Component.name.injEq] at hn
      have habove := hs.get?_of_concat (n := m) (by rw [hc]; simp)
      rw [hfront.unique (hs.leads_names habove), ← hn]
      exact .self
  · rw [List.concat_eq_append, ← List.append_assoc] at hsteps
    obtain ⟨rfl, -⟩ := List.append_inj' hsteps rfl
    obtain ⟨k, hk, hd', -⟩ := hfront.split hs (by simp)
    obtain rfl := (hs.leads_names hc).unique hk
    exact (hroams a d (by simp) hd' (by rw [hd]; simp)).beneath

/-- What such a path leads to can be reached. -/
lemma reachable_of_find (hs : s.WellFormed) (hc : s.get? c = some .dir) (h : KeepsTo s c p)
    (hf : s.find follow p = .ok (l, node)) : Reachable s c l := by
  have hnode := get?_of_find hs hf
  cases hlink : node.isLink with
  | true =>
    obtain ⟨target, rfl⟩ : ∃ target, node = .link target := by
      cases node with
      | link target => exact ⟨target, rfl⟩
      | _ => cases hlink
    obtain ⟨front, n, d, hsteps, hfront, rfl⟩ := of_find_link hs hf
    rw [h.start] at hfront
    have hd := hs.get?_of_concat (n := n) (by rw [hnode]; simp)
    exact h.reachable_of_last hs hc hsteps hfront hd
  | false =>
    obtain ⟨hleads, -⟩ := leads_of_find hs hf hlink
    rw [h.start] at hleads
    obtain ⟨-, a, ha, hroams⟩ := h
    rw [ha] at hleads
    obtain ⟨k, hk, hm, -⟩ := hleads.split hs (by simp)
    obtain rfl := (hs.leads_names hc).unique hk
    exact hroams a l List.prefix_rfl hm (by rw [hnode]; simp)

end KeepsTo

/-! ### Elsewhere extended -/

/-- The store `t` has everything that is in `s`, and what it has more is out of reach from the
directory at `c`. -/
structure Undisturbed (s : Store) (c : Location) (t : Store) : Prop where
  base : s.WellFormed
  corpusDir : s.get? c = some .dir
  wellFormed : t.WellFormed
  ext : Extends s t
  get?_eq : ∀ l, Reachable s c l → t.get? l = s.get? l

namespace Undisturbed

/-- Paths that keep to what can be reached are looked up as before. -/
theorem find_eq (h : Undisturbed s c t) (hp : KeepsTo s c p) (follow : Bool) :
    t.find follow p = s.find follow p := by
  have hfollows : Follows (follow || wantsDir p) (segments p) true := ⟨fun _ => rfl, Or.inl rfl⟩
  refine h.ext.find_of_free h.base h.wellFormed hfollows ?_ ?_
  · intro q hq
    rw [h.get?_eq q (hp.reachable_of_misses h.base h.corpusDir hq)]
    exact hq.free
  · intro l node hf
    rw [h.get?_eq l (hp.reachable_of_find h.base h.corpusDir hf)]
    exact get?_of_find h.base hf

lemma isDir_eq (h : Undisturbed s c t) (hp : KeepsTo s c p) : t.isDir p = s.isDir p := by
  rw [isDir, isDir, node?, node?, h.find_eq hp]

lemma read_eq (h : Undisturbed s c t) (hp : KeepsTo s c p) : t.read p = s.read p := by
  rw [read, read, h.find_eq hp]

lemma resolveLink_eq (h : Undisturbed s c t) (hp : KeepsTo s c p) :
    t.resolveLink p = s.resolveLink p := by
  rw [resolveLink, resolveLink, ownNode?, ownNode?, h.find_eq hp]

/-- Beneath such a path everything is as before. -/
lemma get?_append_eq (h : Undisturbed s c t) (hp : KeepsTo s c p) {names : Location}
    (hf : s.find follow p = .ok (l, node)) : t.get? (l ++ names) = s.get? (l ++ names) :=
  h.get?_eq _ ((hp.reachable_of_find h.base h.corpusDir hf).append names)

/-- Walks come to the same. -/
lemma entries_eq (h : Undisturbed s c t) (hp : KeepsTo s c p) (limits : Walk.Limits) :
    Walk.entries t limits p = Walk.entries s limits p :=
  Walk.entries_eq h.base h.wellFormed (h.find_eq hp true) fun _ _ hf => h.get?_append_eq hp hf

end Undisturbed

end Store

end Excerpt
