import Excerpt.Proofs.Path.Operations
import Excerpt.Proofs.Store.Regions

/-!
# Folding paths

Folding goes over the components of a path and lets `..` take the last name away. As long as the
steps do not climb above some place, folding stays beneath that place.
-/

namespace Excerpt

namespace Path

open Store (Inside)

/-- A spelling of the location `l`. -/
def Reaches (p : Path) (l : Location) : Prop := p.isAbsolute = true ∧ p.steps = l.map .name

lemma Reaches.down {p : Path} {l : Location} {n : Bytes} (h : p.Reaches l) (hn : IsName n) :
    (foldStep p (.name n)).Reaches (l ++ [n]) := by
  refine ⟨isAbsolute_child h.1 hn, ?_⟩
  rw [List.map_append, ← h.2]
  exact steps_child hn

lemma Reaches.up {p : Path} {l : Location} {n : Bytes} (h : p.Reaches (l ++ [n])) :
    (foldStep p .parent).Reaches l := by
  obtain ⟨hp, hsteps⟩ := h
  obtain ⟨q, hq⟩ := exists_parent (p := p) (by rw [hsteps]; simp)
  have hpop : p.pop = (q, true) := by rw [pop, hq]
  have hstep : foldStep p .parent = q := by simp only [foldStep, hpop]
  obtain ⟨hqsteps, hqabs⟩ := of_parent?_eq_some hq
  rw [hstep]
  refine ⟨hqabs.trans hp, ?_⟩
  rw [hqsteps, hsteps, List.map_append, List.map_singleton, List.dropLast_concat]

/-- While the steps do not climb, folding goes where they are spelled. The induction is on the
steps, with the names `below` that folding can still take away. -/
lemma Reaches.foldl {p : Path} {l below : Location} {a : List Component}
    (h : p.Reaches (l ++ below)) (ha : ∀ c ∈ a, c = .parent ∨ ∃ n, c = .name n ∧ IsName n)
    (hinside : Inside below.length a) :
    (a.foldl foldStep p).Reaches (Store.along (l ++ below) a) := by
  induction a generalizing p below with
  | nil => exact h
  | cons c a ih =>
    have hrest : ∀ c ∈ a, c = .parent ∨ ∃ n, c = .name n ∧ IsName n :=
      fun c hc => ha c (List.mem_cons_of_mem _ hc)
    rcases ha c List.mem_cons_self with rfl | ⟨n, rfl, hn⟩
    · rcases List.eq_nil_or_concat below with rfl | ⟨front, x, rfl⟩
      · cases hinside
      · rw [List.concat_eq_append] at h hinside ⊢
        rw [← List.append_assoc] at h
        rw [List.length_append, List.length_singleton] at hinside
        have hgoal := ih h.up hrest hinside
        have hup : (l ++ (front ++ [x])).dropLast = l ++ front := by
          rw [← List.append_assoc, List.dropLast_concat]
        rwa [← hup] at hgoal
    · have hdown := h.down hn
      rw [List.append_assoc] at hdown
      have hgoal := ih hdown hrest (by rw [List.length_append]; exact hinside)
      rwa [← List.append_assoc] at hgoal

lemma fold_eq_foldl {p : Path} (hp : p.isAbsolute = true) :
    p.fold = p.steps.foldl foldStep ⟨[slash]⟩ := by
  rw [fold, components_eq, lead_of_isAbsolute hp]
  rfl

/-- Folding a path that does not climb above an absolute base without `..` stays beneath it. -/
lemma startsWith_fold {p base : Path} (hbase : base.isAbsolute = true)
    (hparent : .parent ∉ base.steps) (h : p.startsWith base = true)
    (hinside : Inside 0 (p.steps.drop base.steps.length)) : p.fold.startsWith base = true := by
  obtain ⟨hp, hinitial⟩ := (startsWith_iff hbase).mp h
  obtain ⟨names, hnames, -⟩ := exists_names (fun c hc => of_mem_steps hc) hparent
  set rest := p.steps.drop base.steps.length
  have hsteps : p.steps = names.map .name ++ rest := by
    rw [← hnames]
    exact (List.prefix_iff_eq_append.mp hinitial).symm
  have hmem : ∀ c ∈ names.map .name ++ rest, c = .parent ∨ ∃ n, c = .name n ∧ IsName n := by
    rw [← hsteps]
    exact fun c hc => of_mem_steps hc
  have hroot : (⟨[slash]⟩ : Path).Reaches ([] ++ []) := ⟨rfl, rfl⟩
  have hthere := hroot.foldl (fun c hc => hmem c (List.mem_append_left _ hc))
    (Store.inside_names 0 names)
  rw [List.append_nil, Store.along_names, List.nil_append, ← List.append_nil names] at hthere
  obtain ⟨below, hbelow⟩ := hinside.exists_along []
  have hgoal := hthere.foldl (fun c hc => hmem c (List.mem_append_right _ hc)) hinside
  rw [hbelow names, List.append_nil, ← List.foldl_append, ← hsteps, ← fold_eq_foldl hp] at hgoal
  rw [startsWith_iff hbase, hgoal.2, hnames, List.map_append]
  exact ⟨hgoal.1, List.prefix_append _ _⟩

end Path

end Excerpt
