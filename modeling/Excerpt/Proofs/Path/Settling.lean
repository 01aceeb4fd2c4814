import Excerpt.Proofs.Path.Folding
import Excerpt.Proofs.Path.Trimming
import Excerpt.Proofs.Store.Making
import Excerpt.Proofs.Store.Parents

/-!
# What folding leaves

Steps come down to a number of climbs and the names behind them, and they spell the same place as
these. Folding a path leaves the names, but not the climbs: a `..` that was kept is taken for a name
by the next one, so that of the climbs at the front only one is left or none.
-/

namespace Excerpt

namespace Path

open Store (move along)

variable {p q : Path} {n : Bytes} {c : Component} {a : List Component} {abs : Bool}

instance (p : Path) : Decidable p.IsTrimmed := inferInstanceAs (Decidable (_ = _))

/-! ### Climbs and names -/

/-- How often steps climb above their start, and the names that are left behind that. -/
structure Settled where
  climbs : Nat
  names : List Bytes
  deriving DecidableEq, Repr

namespace Settled

variable {x : Settled}

/-- One more step. -/
def step (x : Settled) : Component → Settled
  | .name n => { x with names := x.names ++ [n] }
  | .parent =>
    if x.names = [] then { x with climbs := x.climbs + 1 } else { x with names := x.names.dropLast }
  | _ => x

/-- The steps that folding leaves. -/
def steps (x : Settled) : List Component :=
  List.replicate (x.climbs % 2) .parent ++ x.names.map .name

/-- The place that is spelled from `l`; above the root there is nothing. -/
def place (x : Settled) (l : Location) : Location := l.take (l.length - x.climbs) ++ x.names

lemma move_place (x : Settled) (l : Location) (c : Component) :
    move (x.place l) c = (x.step c).place l := by
  cases c with
  | name n => simp [move, place, step]
  | parent =>
    by_cases hnames : x.names = []
    · have hup : (l.take (l.length - x.climbs)).dropLast = l.take (l.length - (x.climbs + 1)) := by
        rw [List.dropLast_eq_take, List.length_take, List.take_take]
        congr 1
        omega
      simp [move, place, step, hnames, hup]
    · simp [move, place, step, hnames, List.dropLast_append_of_ne_nil hnames]
  | root => rfl
  | current => rfl

/-- A name that is left was one of the steps. -/
lemma mem_names_step (h : n ∈ (x.step c).names) : n ∈ x.names ∨ c = .name n := by
  cases c with
  | name m =>
    simp only [step, List.mem_append, List.mem_singleton] at h
    exact h.imp_right fun hn => by rw [hn]
  | parent =>
    simp only [step] at h
    split_ifs at h
    · exact Or.inl h
    · exact Or.inl (List.dropLast_subset _ h)
  | root => exact Or.inl h
  | current => exact Or.inl h

lemma steps_step_name (x : Settled) (n : Bytes) : (x.step (.name n)).steps = x.steps ++ [.name n] := by
  simp [steps, step]

/-- A climb takes away what folding has left so far. -/
lemma steps_step_parent (h : x.steps ≠ []) : (x.step .parent).steps = x.steps.dropLast := by
  by_cases hnames : x.names = []
  · have hodd : x.climbs % 2 = 1 := by
      by_contra hne
      have heven : x.climbs % 2 = 0 := by omega
      simp [steps, hnames, heven] at h
    have heven : (x.climbs + 1) % 2 = 0 := by omega
    simp [steps, step, hnames, hodd, heven]
  · simp [steps, step, hnames, List.map_dropLast, List.dropLast_append_of_ne_nil]

/-- Without anything to take away, the climb is kept. -/
lemma steps_step_parent_of_nil (h : x.steps = []) : (x.step .parent).steps = [.parent] := by
  obtain ⟨hclimbs, hnames⟩ := List.append_eq_nil_iff.mp h
  have heven : x.climbs % 2 = 0 := by simpa using hclimbs
  have hodd : (x.climbs + 1) % 2 = 1 := by omega
  have hnil : x.names = [] := by simpa using hnames
  simp [steps, step, hnil, hodd]

/-- No climb that is needed is lost: there is at most one, or those that are left reach the root from
`l` as well. -/
def KeepsClimbs (x : Settled) (l : Location) : Prop := x.climbs ≤ 1 ∨ l.length ≤ x.climbs % 2

instance (x : Settled) (l : Location) : Decidable (x.KeepsClimbs l) :=
  inferInstanceAs (Decidable (_ ∨ _))

lemma keepsClimbs_step_name {l : Location} :
    (x.step (.name n)).KeepsClimbs l ↔ x.KeepsClimbs l := Iff.rfl

lemma along_steps (x : Settled) (l : Location) :
    along l x.steps = l.take (l.length - x.climbs % 2) ++ x.names := by
  rw [steps, Store.along_append, Store.along_names]
  rcases Nat.mod_two_eq_zero_or_one x.climbs with hparity | hparity
  · simp [hparity, along]
  · simp [hparity, along, move, List.dropLast_eq_take]

/-- What folding leaves spells the same place, unless a climb is lost. -/
lemma KeepsClimbs.along_steps {l : Location} (h : x.KeepsClimbs l) : along l x.steps = x.place l := by
  have hfewer : l.length - x.climbs % 2 = l.length - x.climbs := by
    rcases h with h | h <;> omega
  rw [Settled.along_steps, place, hfewer]

end Settled

/-- What steps come down to. -/
def settle (a : List Component) : Settled := a.foldl Settled.step ⟨0, []⟩

@[simp] lemma settle_concat (a : List Component) (c : Component) :
    settle (a ++ [c]) = (settle a).step c := by
  simp [settle]

/-- Steps spell the place of what they come down to. -/
lemma along_eq_place (l : Location) (a : List Component) : along l a = (settle a).place l := by
  induction a using List.reverseRecOn with
  | nil => simp [along, settle, Settled.place]
  | append_singleton a c ih =>
    rw [settle_concat, ← Settled.move_place, ← ih, Store.along_append]
    rfl

lemma mem_of_mem_settle (h : n ∈ (settle a).names) : .name n ∈ a := by
  induction a using List.reverseRecOn with
  | nil => cases h
  | append_singleton a c ih =>
    rw [settle_concat] at h
    rcases Settled.mem_names_step h with hn | rfl
    · exact List.mem_append_left _ (ih hn)
    · simp

/-! ### Folding -/

lemma bytes_ne_nil_of_steps (h : p.steps ≠ []) : p.bytes ≠ [] := by
  intro hnil
  rw [steps, hnil] at h
  exact h rfl

lemma isName_of_mem_steps (h : .name n ∈ p.steps) : IsName n := by
  rcases of_mem_steps h with hc | ⟨m, hc, hm⟩
  · cases hc
  · cases hc
    exact hm

/-- A spelling of what folding leaves. -/
structure Spells (abs : Bool) (x : Settled) (p : Path) : Prop where
  lead : p.lead = if abs then [.root] else []
  steps : p.steps = x.steps
  trimmed : p.steps ≠ [] → p.IsTrimmed

lemma Spells.isAbsolute {x : Settled} (h : Spells abs x p) : p.isAbsolute = abs := by
  cases abs with
  | true => exact isAbsolute_eq_of_lead (q := ⟨[slash]⟩) h.lead
  | false => exact isAbsolute_eq_of_lead (q := empty) h.lead

lemma parent?_eq_dir (h : p.steps ≠ []) : p.parent? = some p.dir := by
  obtain ⟨q, hq⟩ := exists_parent h
  rw [dir, hq, Option.getD_some]

lemma lead_of_parent? (h : p.parent? = some q) (hp : p.steps ≠ []) : q.lead = p.lead := by
  have hcomponents := components_of_parent? h hp
  rw [components_eq, components_eq, (of_parent?_eq_some h).1,
    List.dropLast_append_of_ne_nil hp] at hcomponents
  exact List.append_cancel_right hcomponents

/-- A path without steps has no parent, unless it is a dot. -/
lemma parent?_eq_none (hsteps : p.steps = []) (hlead : p.lead ≠ [.current]) : p.parent? = none := by
  have hbody : trimBack (splitLead p.bytes).2 = [] := by
    by_contra hne
    apply bodyComponents_ne_nil hne
    rw [bodyComponents_body, hsteps]
  have hdot : (splitLead p.bytes).1 ≠ [dot] := by
    intro hdot
    apply hlead
    rw [lead, hdot]
    rfl
  rw [parent?, if_pos hbody, if_neg hdot]

lemma Spells.name {x : Settled} (h : Spells abs x p) (hn : IsName n) :
    Spells abs (x.step (.name n)) (p.join ⟨n⟩) := by
  have hsteps := steps_child (p := p) hn
  have hcomponents := components_child p hn
  constructor
  · rw [components_eq, components_eq, hsteps, ← List.append_assoc] at hcomponents
    rw [← h.lead]
    exact List.append_cancel_right (List.append_cancel_right hcomponents)
  · rw [Settled.steps_step_name, ← h.steps]
    exact hsteps
  · intro _
    exact IsTrimmed.join (trimBack_append [] hn) hn.ne_nil hn.isAbsolute

lemma Spells.parent {x : Settled} (h : Spells abs x p) :
    Spells abs (x.step .parent) (foldStep p .parent) := by
  by_cases hnil : p.steps = []
  · have hlead : p.lead ≠ [.current] := by
      rw [h.lead]
      cases abs <;> simp
    have hstep : foldStep p .parent = p.join ⟨[dot, dot]⟩ := by
      simp only [foldStep, pop, parent?_eq_none hnil hlead]
      rfl
    have hsteps : (p.join ⟨[dot, dot]⟩).steps = [.parent] := by
      rw [steps_join (by decide), hnil]
      rfl
    rw [hstep]
    constructor
    · rw [← h.lead]
      by_cases hp : p.bytes = []
      · have hjoin : p.join ⟨[dot, dot]⟩ = ⟨[dot, dot]⟩ := by simp [join, hp]
        rw [hjoin, Path.lead, Path.lead, hp]
        rfl
      · exact lead_join hp (by decide)
    · rw [hsteps, Settled.steps_step_parent_of_nil]
      rw [← h.steps, hnil]
    · intro _
      exact IsTrimmed.join (by decide) (by decide) (by decide)
  · obtain ⟨q, hq⟩ := exists_parent hnil
    have hstep : foldStep p .parent = q := by simp only [foldStep, pop, hq]
    rw [hstep]
    constructor
    · rw [lead_of_parent? hq hnil, h.lead]
    · rw [(of_parent?_eq_some hq).1, h.steps, Settled.steps_step_parent]
      rwa [← h.steps]
    · exact isTrimmed_parent hq

lemma Spells.foldl (h : Spells abs (settle []) p)
    (ha : ∀ c ∈ a, c = .parent ∨ ∃ n, c = .name n ∧ IsName n) :
    Spells abs (settle a) (a.foldl foldStep p) := by
  induction a using List.reverseRecOn with
  | nil => exact h
  | append_singleton a c ih =>
    have hfront := ih fun d hd => ha d (List.mem_append_left _ hd)
    rw [settle_concat, List.foldl_append, List.foldl_cons, List.foldl_nil]
    rcases ha c (by simp) with rfl | ⟨n, rfl, hn⟩
    · exact hfront.parent
    · exact hfront.name hn

/-- Folding leaves what the steps come down to. -/
theorem spells_fold (p : Path) : Spells p.isAbsolute (settle p.steps) p.fold := by
  have hfold : p.fold = p.steps.foldl foldStep (if p.isAbsolute then ⟨[slash]⟩ else empty) := by
    rw [fold, components_eq, List.foldl_append]
    cases habs : p.isAbsolute with
    | true =>
      rw [lead_of_isAbsolute habs]
      rfl
    | false => rcases lead_of_not_isAbsolute habs with hlead | hlead <;> rw [hlead] <;> rfl
  rw [hfold]
  refine Spells.foldl ?_ fun c hc => of_mem_steps hc
  cases p.isAbsolute with
  | true => exact ⟨rfl, rfl, fun hne => absurd rfl hne⟩
  | false => exact ⟨rfl, rfl, fun hne => absurd rfl hne⟩

end Path

end Excerpt
