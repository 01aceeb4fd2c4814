import Excerpt.Proofs.Actions
import Excerpt.Proofs.Store.Renaming

/-!
# Two runs side by side

Two actions run in lockstep from two worlds if they put related questions and either both fail, or
both succeed and end with related results in related stores. This is built up along the sequencing
of actions, so that two runs of one program are compared step by step.
-/

namespace Excerpt

namespace Act

open Store (Alike)

variable {α β α' β' : Type}

/-- Both fail, for whatever reasons, or both succeed with related results. -/
inductive EndAlike {ε α β : Type} (R : α → β → Prop) : Except ε α → Except ε β → Prop where
  | ok {x : α} {y : β} : R x y → EndAlike R (.ok x) (.ok y)
  | error {e e' : ε} : EndAlike R (.error e) (.error e')

/-- Two runs put related questions, and either both fail, or both succeed with related results and
related stores. -/
structure Lockstep (S : Store → Store → Prop) (Q : Question → Question → Prop)
    (R : α → α' → Prop) (x : Act α) (y : Act α') (w w' : World) : Prop where
  questions : List.Forall₂ Q (x w).2.questions (y w').2.questions
  ends : (∃ e e', (x w).1 = .error e ∧ (y w').1 = .error e') ∨
    ∃ r r', (x w).1 = .ok r ∧ (y w').1 = .ok r' ∧ R r r' ∧ S (x w).2.store (y w').2.store

namespace Lockstep

variable {S S' : Store → Store → Prop} {Q : Question → Question → Prop} {R : α → α' → Prop}
  {R' : β → β' → Prop} {x : Act α} {y : Act α'} {f : α → Act β} {g : α' → Act β'} {w w' : World}

lemma endAlike (h : Lockstep S Q R x y w w') : EndAlike R (x w).1 (y w').1 := by
  obtain ⟨-, ⟨e, e', hx, hy⟩ | ⟨r, r', hx, hy, hr, -⟩⟩ := h
  · rw [hx, hy]
    exact .error
  · rw [hx, hy]
    exact .ok hr

lemma pure {r : α} {r' : α'} (hQ : List.Forall₂ Q w.questions w'.questions)
    (hS : S w.store w'.store) (hR : R r r') :
    Lockstep S Q R (Pure.pure r : Act α) (Pure.pure r' : Act α') w w' :=
  ⟨hQ, Or.inr ⟨r, r', rfl, rfl, hR, hS⟩⟩

lemma mono {R₂ : α → α' → Prop} (h : Lockstep S Q R x y w w')
    (hS : ∀ s s', S s s' → S' s s') (hR : ∀ r r', R r r' → R₂ r r') :
    Lockstep S' Q R₂ x y w w' := by
  refine ⟨h.questions, h.ends.imp_right ?_⟩
  rintro ⟨r, r', hx, hy, hr, hs⟩
  exact ⟨r, r', hx, hy, hR r r' hr, hS _ _ hs⟩

/-- One step after the other. -/
lemma bind (h : Lockstep S Q R x y w w')
    (hf : ∀ r r' v v', x w = (.ok r, v) → y w' = (.ok r', v') → R r r' → S v.store v'.store →
      List.Forall₂ Q v.questions v'.questions → Lockstep S' Q R' (f r) (g r') v v') :
    Lockstep S' Q R' (x >>= f) (y >>= g) w w' := by
  obtain ⟨hquestions, ⟨e, e', hx, hy⟩ | ⟨r, r', hx, hy, hr, hs⟩⟩ := h
  · have hxf : (x >>= f) w = (.error e, (x w).2) := by
      rw [run_bind, run_eq_of_fst hx]
    have hyg : (y >>= g) w' = (.error e', (y w').2) := by
      rw [run_bind, run_eq_of_fst hy]
    refine ⟨?_, Or.inl ⟨e, e', ?_, ?_⟩⟩ <;> simp only [hxf, hyg]
    exact hquestions
  · have hxf : (x >>= f) w = f r (x w).2 := by
      rw [run_bind, run_eq_of_fst hx]
    have hyg : (y >>= g) w' = g r' (y w').2 := by
      rw [run_bind, run_eq_of_fst hy]
    obtain ⟨hquestions', hends⟩ :=
      hf r r' _ _ (run_eq_of_fst hx) (run_eq_of_fst hy) hr hs hquestions
    exact ⟨by rw [hxf, hyg]; exact hquestions', by rw [hxf, hyg]; exact hends⟩

/-- Both look, and see the same or fail in the same way. -/
lemma look_bind {f₀ g₀ : Store → Except Failure α} {f : α → Act β} {g : α → Act β'}
    (hQ : List.Forall₂ Q w.questions w'.questions) (hsame : g₀ w'.store = f₀ w.store)
    (hf : ∀ r, f₀ w.store = .ok r → Lockstep S Q R' (f r) (g r) w w') :
    Lockstep S Q R' (look f₀ >>= f) (look g₀ >>= g) w w' := by
  cases hr : f₀ w.store with
  | error e =>
    have hx : (look f₀ >>= f) w = (.error e, w) := by rw [run_bind, run_look, hr]
    have hy : (look g₀ >>= g) w' = (.error e, w') := by rw [run_bind, run_look, hsame, hr]
    refine ⟨?_, Or.inl ⟨e, e, ?_, ?_⟩⟩ <;> simp only [hx, hy]
    exact hQ
  | ok r =>
    obtain ⟨hquestions, hends⟩ := hf r hr
    have hx : (look f₀ >>= f) w = f r w := by rw [run_bind, run_look, hr]
    have hy : (look g₀ >>= g) w' = g r w' := by rw [run_bind, run_look, hsame, hr]
    exact ⟨by rw [hx, hy]; exact hquestions, by rw [hx, hy]; exact hends⟩

/-- What is reported is not compared. -/
lemma report {level level' : Log.Level} {target target' message message' : String}
    {fields fields' : List Log.Field} (hQ : List.Forall₂ Q w.questions w'.questions)
    (hS : S w.store w'.store) :
    Lockstep S Q (fun _ _ => True) (Act.report level target message fields)
      (Act.report level' target' message' fields') w w' :=
  ⟨hQ, Or.inr ⟨(), (), rfl, rfl, trivial, hS⟩⟩

lemma edit {why why' : Fault → Failure} {e : Edit α} {e' : Edit α'}
    (hQ : List.Forall₂ Q w.questions w'.questions) (h : Alike R (e w.store).1 (e' w'.store).1)
    (hS : ∀ r, (e w.store).1 = .ok r → S (e w.store).2 (e' w'.store).2) :
    Lockstep S Q R (Act.edit why e) (Act.edit why' e') w w' := by
  unfold Act.edit
  rcases hx : e w.store with ⟨r, s⟩
  rcases hy : e' w'.store with ⟨r', s'⟩
  rw [hx, hy] at h hS
  cases h with
  | @error fault =>
    refine ⟨?_, Or.inl ⟨why fault, why' fault, ?_, ?_⟩⟩ <;> simp only [hx, hy]
    exact hQ
  | @ok r r' hr =>
    refine ⟨?_, Or.inr ⟨r, r', ?_, ?_, hr, ?_⟩⟩ <;> simp only [hx, hy]
    · exact hQ
    · exact hS r rfl

/-- Both change the store in one step. -/
lemma change {why why' : Fault → Failure} {f g : Store → Except Fault Store}
    (hQ : List.Forall₂ Q w.questions w'.questions) (h : Alike S (f w.store) (g w'.store)) :
    Lockstep S Q (fun _ _ => True) (Act.change why f) (Act.change why' g) w w' := by
  generalize hx : f w.store = x at h
  generalize hy : g w'.store = y at h
  cases h with
  | @error fault =>
    have hstep : Store.step f w.store = (.error fault, w.store) := by rw [Store.step, hx]
    have hstep' : Store.step g w'.store = (.error fault, w'.store) := by rw [Store.step, hy]
    refine edit hQ (by rw [hstep, hstep']; exact .error) fun r hr => ?_
    rw [hstep] at hr
    cases hr
  | @ok s s' hs =>
    have hstep : Store.step f w.store = (.ok (), s) := by rw [Store.step, hx]
    have hstep' : Store.step g w'.store = (.ok (), s') := by rw [Store.step, hy]
    refine edit hQ (by rw [hstep, hstep']; exact .ok trivial) fun _ _ => ?_
    rw [hstep, hstep']
    exact hs

lemma noteQuestion {entries entries' roots roots' : List Path}
    (hQ : List.Forall₂ Q w.questions w'.questions) (hS : S w.store w'.store)
    (h : Q ⟨entries, roots, w.store⟩ ⟨entries', roots', w'.store⟩) :
    Lockstep S Q (fun _ _ => True) (Act.noteQuestion entries roots)
      (Act.noteQuestion entries' roots') w w' :=
  ⟨List.rel_append hQ (.cons h .nil), Or.inr ⟨(), (), rfl, rfl, trivial, hS⟩⟩

/-- Two actions run in lockstep in two directories that are made for them. -/
lemma within {why why' : Fault → Failure} {dir dir' : Path}
    (hQ : List.Forall₂ Q w.questions w'.questions)
    (hmake : EndAlike S' (w.store.makeDir dir) (w'.store.makeDir dir'))
    (ha : ∀ u u', w.store.makeDir dir = .ok u → w'.store.makeDir dir' = .ok u' → S' u u' →
      Lockstep (fun _ _ => True) Q R x y { w with store := u } { w' with store := u' }) :
    Lockstep (fun _ _ => True) Q R (Act.within why dir x) (Act.within why' dir' y) w w' := by
  unfold Act.within
  generalize hu : w.store.makeDir dir = u at hmake ha
  generalize hu' : w'.store.makeDir dir' = u' at hmake ha
  cases hmake with
  | error =>
    exact ⟨by simp only [hu, hu']; exact hQ,
      Or.inl (by simp only [hu, hu']; exact ⟨_, _, rfl, rfl⟩)⟩
  | ok hs =>
    obtain ⟨hquestions, hends⟩ := ha _ _ rfl rfl hs
    refine ⟨by simp only [hu, hu']; exact hquestions, ?_⟩
    simp only [hu, hu']
    refine hends.imp_right ?_
    rintro ⟨r, r', hx, hy, hr, -⟩
    exact ⟨r, r', hx, hy, hr, trivial⟩

end Lockstep

end Act

end Excerpt
