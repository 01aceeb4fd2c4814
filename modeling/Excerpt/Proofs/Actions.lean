import Excerpt.Act
import Excerpt.Proofs.Store.Changes

/-!
# What actions do to the store

An action reads if it leaves the store as it is, and it obeys permissions if the store runs only
through changes that they permit, however the action ends. Both are built up along the sequencing
of actions.
-/

namespace Excerpt

namespace Act

variable {α β : Type} {may may' : Store → Store.Change → Prop}

/-! ### Running -/

lemma run_bind (a : Act α) (f : α → Act β) (w : World) :
    (a >>= f) w = match a w with
      | (.ok x, w') => f x w'
      | (.error e, w') => (.error e, w') := by
  change (ExceptT.bindCont f (a w).1) (a w).2 = _
  rcases a w with ⟨_ | _, _⟩ <;> rfl

@[simp] lemma run_pure (x : α) (w : World) : (pure x : Act α) w = (.ok x, w) := rfl

@[simp] lemma run_throw (e : Failure) (w : World) : (throw e : Act α) w = (.error e, w) := rfl

@[simp] lemma run_look (f : Store → Except Failure α) (w : World) :
    look f w = (f w.store, w) := rfl

/-- A sequence that succeeds is two actions that succeed. -/
lemma bind_eq_ok {a : Act α} {f : α → Act β} {w w' : World} {y : β} :
    (a >>= f) w = (.ok y, w') ↔ ∃ x v, a w = (.ok x, v) ∧ f x v = (.ok y, w') := by
  rw [run_bind]
  constructor
  · intro h
    split at h
    · rename_i x v ha
      exact ⟨x, v, ha, h⟩
    · cases h
  · rintro ⟨x, v, ha, hf⟩
    rw [ha]
    exact hf

/-- A look that is followed by something leaves the world as it is. -/
lemma look_bind_eq_ok {f : Store → Except Failure α} {g : α → Act β} {w w' : World} {y : β} :
    (look f >>= g) w = (.ok y, w') ↔ ∃ x, f w.store = .ok x ∧ g x w = (.ok y, w') := by
  rw [bind_eq_ok]
  constructor
  · rintro ⟨x, v, hlook, hrest⟩
    obtain ⟨hx, rfl⟩ := Prod.mk.inj hlook
    exact ⟨x, hx, hrest⟩
  · rintro ⟨x, hx, hrest⟩
    exact ⟨x, w, by rw [run_look, hx], hrest⟩

lemma run_eq_of_fst {a : Act α} {w : World} {x : Except Failure α} (h : (a w).1 = x) :
    a w = (x, (a w).2) :=
  Prod.ext h rfl

/-- What holds behind the first action and is kept by the second one holds behind both, also where
the first one fails. -/
lemma holds_bind {P : World → Prop} {a : Act α} {f : α → Act β} {w : World} (ha : P (a w).2)
    (hf : ∀ x v, P v → P (f x v).2) : P ((a >>= f) w).2 := by
  rw [run_bind]
  split
  · rename_i x v hrun
    rw [hrun] at ha
    exact hf x v ha
  · rename_i hrun
    rwa [hrun] at ha

/-! ### Actions that read -/

/-- The action leaves every well-formed store as it is. -/
def Reads (a : Act α) : Prop := ∀ w : World, w.store.WellFormed → (a w).2.store = w.store

lemma Reads.pure {x : α} : Reads (Pure.pure x : Act α) := fun _ _ => rfl

lemma Reads.throw {e : Failure} : Reads (MonadExcept.throw e : Act α) := fun _ _ => rfl

lemma Reads.look {f : Store → Except Failure α} : Reads (look f) := fun _ _ => rfl

lemma Reads.report {level : Log.Level} {target message : String} {fields : List Log.Field} :
    Reads (report level target message fields) := fun _ _ => rfl

lemma Reads.noteQuestion {entries roots : List Path} : Reads (noteQuestion entries roots) :=
  fun _ _ => rfl

lemma Reads.bind {a : Act α} {f : α → Act β} (ha : Reads a) (hf : ∀ x, Reads (f x)) :
    Reads (a >>= f) :=
  fun w hw => holds_bind (P := fun v => v.store = w.store) (ha w hw)
    fun x v hv => (hf x v (hv ▸ hw)).trans hv

lemma Reads.eq_of_run {a : Act α} {w v : World} {x : Except Failure α} (ha : Reads a)
    (hw : w.store.WellFormed) (h : a w = (x, v)) : v.store = w.store := by
  have hstore := ha w hw
  rwa [h] at hstore

/-- What stands behind a failure is not run. -/
lemma Reads.throw_bind {e : Failure} {f : α → Act β} :
    Reads ((MonadExcept.throw e : Act α) >>= f) := fun _ _ => rfl

/-! ### Actions that succeed -/

lemma edit_eq_ok {why : Fault → Failure} {e : Edit α} {w v : World} {x : α} :
    edit why e w = (.ok x, v) ↔ ∃ s, e w.store = (.ok x, s) ∧ v = { w with store := s } := by
  unfold edit
  constructor
  · intro h
    split at h
    · rename_i y s he
      cases h
      exact ⟨s, he, rfl⟩
    · cases h
  · rintro ⟨s, he, rfl⟩
    rw [he]

lemma change_eq_ok {why : Fault → Failure} {f : Store → Except Fault Store} {w v : World} :
    change why f w = (.ok (), v) ↔ ∃ s, f w.store = .ok s ∧ v = { w with store := s } := by
  unfold change
  rw [edit_eq_ok]
  unfold Store.step
  constructor
  · rintro ⟨s, hs, rfl⟩
    split at hs
    · rename_i hf
      cases hs
      exact ⟨s, hf, rfl⟩
    · cases hs
  · rintro ⟨s, hs, rfl⟩
    exact ⟨s, by rw [hs], rfl⟩

/-! ### Actions that ask nothing -/

/-- The action puts no question to an oracle. -/
def Quiet (a : Act α) : Prop := ∀ w : World, (a w).2.questions = w.questions

lemma Quiet.pure {x : α} : Quiet (Pure.pure x : Act α) := fun _ => rfl

lemma Quiet.look {f : Store → Except Failure α} : Quiet (look f) := fun _ => rfl

lemma Quiet.report {level : Log.Level} {target message : String} {fields : List Log.Field} :
    Quiet (report level target message fields) := fun _ => rfl

lemma Quiet.edit {why : Fault → Failure} {e : Edit α} : Quiet (edit why e) := by
  intro w
  unfold Act.edit
  split <;> rfl

lemma Quiet.bind {a : Act α} {f : α → Act β} (ha : Quiet a) (hf : ∀ x, Quiet (f x)) :
    Quiet (a >>= f) :=
  fun w => holds_bind (P := fun v => v.questions = w.questions) (ha w)
    fun x v hv => (hf x v).trans hv

lemma Quiet.eq_of_run {a : Act α} {w v : World} {x : Except Failure α} (ha : Quiet a)
    (h : a w = (x, v)) : v.questions = w.questions := by
  have hquestions := ha w
  rwa [h] at hquestions

/-! ### Actions with a fixed answer -/

/-- The action succeeds with this answer, whatever the world is. -/
def Answers (a : Act α) (x : α) : Prop := ∀ w : World, (a w).1 = .ok x

lemma Answers.pure {x : α} : Answers (Pure.pure x : Act α) x := fun _ => rfl

lemma Answers.report {level : Log.Level} {target message : String} {fields : List Log.Field} :
    Answers (report level target message fields) () := fun _ => rfl

lemma Answers.bind {a : Act α} {f : α → Act β} {x : α} {y : β} (ha : Answers a x)
    (hf : Answers (f x) y) : Answers (a >>= f) y := by
  intro w
  rw [run_bind, run_eq_of_fst (ha w)]
  exact hf _

/-- Taking a directory away does not change how an action ended. -/
lemma fst_within {why : Fault → Failure} {dir : Path} {a : Act α} {w : World} :
    (within why dir a w).1 = match w.store.makeDir dir with
      | .error fault => .error (why fault)
      | .ok s => (a { w with store := s }).1 := by
  unfold within
  cases w.store.makeDir dir <;> rfl

/-! ### Actions that change the store -/

/-- The action changes well-formed stores only as permitted. -/
def Obeys (may : Store → Store.Change → Prop) (a : Act α) : Prop :=
  ∀ w : World, w.store.WellFormed → Store.Runs may w.store (a w).2.store

lemma Reads.obeys {a : Act α} (h : Reads a) : Obeys may a := by
  intro w hw
  rw [h w hw]
  exact .refl _

lemma Obeys.mono {a : Act α} (hmay : ∀ s c, may s c → may' s c) (h : Obeys may a) :
    Obeys may' a :=
  fun w hw => (h w hw).mono hmay

lemma Obeys.of_run {a : Act α} {w v : World} {x : Except Failure α} (ha : Obeys may a)
    (hw : w.store.WellFormed) (h : a w = (x, v)) : Store.Runs may w.store v.store := by
  have hrun := ha w hw
  rwa [h] at hrun

lemma Obeys.bind {a : Act α} {f : α → Act β} (ha : Obeys may a) (hf : ∀ x, Obeys may (f x)) :
    Obeys may (a >>= f) :=
  fun w hw => holds_bind (P := fun v => Store.Runs may w.store v.store) (ha w hw)
    fun x v hv => hv.trans (hf x v (hv.wellFormed hw))

/-- What follows a look may depend on what was seen. -/
lemma Obeys.look_bind {f : Store → Except Failure α} {g : α → Act β}
    (h : ∀ (w : World) (x : α), w.store.WellFormed → f w.store = .ok x →
      Store.Runs may w.store (g x w).2.store) : Obeys may (Act.look f >>= g) := by
  intro w hw
  rw [run_bind, run_look]
  cases hf : f w.store with
  | error => exact .refl _
  | ok x => exact h w x hw hf

/-- What was seen may be used for as long as the store only grows. -/
lemma Obeys.look_bind_extends {f : Store → Except Failure α} {g : α → Act β}
    (h : ∀ (s : Store) (x : α), s.WellFormed → f s = .ok x →
      Obeys (fun t c => Store.Extends s t → may t c) (g x)) : Obeys may (Act.look f >>= g) :=
  .look_bind fun w x hw hx => (h w.store x hw hx w hw).of_extends hw

lemma Obeys.edit {why : Fault → Failure} {e : Edit α}
    (h : ∀ s : Store, s.WellFormed → Store.Runs may s (e s).2) : Obeys may (edit why e) := by
  intro w hw
  have hrun := h w.store hw
  unfold Act.edit
  split <;> rename_i he <;> rw [he] at hrun <;> exact hrun

lemma Obeys.makeDirs {why : Fault → Failure} {p : Path}
    (h : ∀ s q, Store.Over p q → may s (.dir q)) : Obeys may (Act.edit why (Store.makeDirs p)) :=
  .edit fun _ hs => (Store.runs_makeDirs hs p).mono fun s _ ⟨q, hc, hq⟩ => hc ▸ h s q hq

/-- A change in one step. -/
lemma Obeys.change {why : Fault → Failure} {f : Store → Except Fault Store}
    (h : ∀ s t : Store, s.WellFormed → f s = .ok t → Store.Runs may s t) :
    Obeys may (change why f) := by
  refine .edit fun s hs => ?_
  unfold Store.step
  split
  · rename_i hf
    exact h _ _ hs hf
  · exact .refl _

/-! ### Invariants -/

/-- The action keeps an invariant of the store. -/
def Keeps (inv : Store → Prop) (a : Act α) : Prop := ∀ w : World, inv w.store → inv (a w).2.store

variable {inv : Store → Prop}

lemma Keeps.bind {a : Act α} {f : α → Act β} (ha : Keeps inv a) (hf : ∀ x, Keeps inv (f x)) :
    Keeps inv (a >>= f) :=
  fun w hw => holds_bind (P := fun v => inv v.store) (ha w hw) hf

lemma Keeps.pure {x : α} : Keeps inv (Pure.pure x : Act α) := fun _ h => h

lemma Keeps.report {level : Log.Level} {target message : String} {fields : List Log.Field} :
    Keeps inv (report level target message fields) := fun _ h => h

lemma Reads.keeps {a : Act α} (h : Reads a) (hinv : ∀ s, inv s → s.WellFormed) : Keeps inv a := by
  intro w hw
  rw [h w (hinv _ hw)]
  exact hw

/-- Where permitted runs keep an invariant, so does an action that obeys. -/
lemma Obeys.keeps {a : Act α} (h : Obeys may a) (hinv : ∀ s, inv s → s.WellFormed)
    (hrun : ∀ s t, inv s → Store.Runs may s t → inv t) : Keeps inv a :=
  fun w hw => hrun _ _ hw (h w (hinv _ hw))

lemma Keeps.change {why : Fault → Failure} {f : Store → Except Fault Store}
    (h : ∀ s t : Store, inv s → f s = .ok t → inv t) : Keeps inv (change why f) := by
  intro w hw
  unfold Act.change Act.edit Store.step
  cases hf : f w.store with
  | error => exact hw
  | ok t => exact h _ _ hw hf

/-! ### Failures -/

/-- However the action ends, an invariant of the store holds, and a failure is one of those that
`excuse` names. -/
structure Upholds (inv : Store → Prop) (excuse : Failure → Prop) (a : Act α) (w : World) : Prop where
  keeps : inv (a w).2.store
  fails : ∀ failure, (a w).1 = .error failure → excuse failure

variable {excuse : Failure → Prop} {w : World}

lemma Upholds.pure {x : α} (hw : inv w.store) : Upholds inv excuse (Pure.pure x : Act α) w :=
  ⟨hw, fun _ h => by cases h⟩

lemma Upholds.report {level : Log.Level} {target message : String} {fields : List Log.Field}
    (hw : inv w.store) : Upholds inv excuse (report level target message fields) w :=
  ⟨hw, fun _ h => by cases h⟩

lemma Upholds.bind {a : Act α} {f : α → Act β} (ha : Upholds inv excuse a w)
    (hf : ∀ x v, a w = (.ok x, v) → inv v.store → Upholds inv excuse (f x) v) :
    Upholds inv excuse (a >>= f) w := by
  obtain ⟨hkeeps, hfails⟩ := ha
  constructor
  · rw [run_bind]
    split
    · rename_i x v hrun
      rw [hrun] at hkeeps
      exact (hf x v hrun hkeeps).keeps
    · rename_i hrun
      rw [hrun] at hkeeps
      exact hkeeps
  · intro failure h
    rw [run_bind] at h
    split at h
    · rename_i x v hrun
      rw [hrun] at hkeeps
      exact (hf x v hrun hkeeps).fails failure h
    · rename_i hrun
      rw [hrun] at hfails
      cases h
      exact hfails failure rfl

/-- What was seen is known afterwards. -/
lemma Upholds.look_bind {f : Store → Except Failure α} {g : α → Act β} (hw : inv w.store)
    (hfails : ∀ failure, f w.store = .error failure → excuse failure)
    (hg : ∀ x, f w.store = .ok x → Upholds inv excuse (g x) w) :
    Upholds inv excuse (look f >>= g) w := by
  refine .bind ⟨hw, hfails⟩ fun x v hrun _ => ?_
  rw [run_look, Prod.mk.injEq] at hrun
  exact hrun.2 ▸ hg x hrun.1

lemma Upholds.edit {why : Fault → Failure} {e : Edit α} (hinv : inv (e w.store).2)
    (hfails : ∀ fault, (e w.store).1 = .error fault → excuse (why fault)) :
    Upholds inv excuse (edit why e) w := by
  cases hrun : e w.store with
  | mk r s =>
    rw [hrun] at hinv hfails
    cases r with
    | ok x =>
      have hedit : Act.edit why e w = (.ok x, { w with store := s }) := by rw [Act.edit, hrun]
      exact ⟨hedit ▸ hinv, fun failure h => by rw [hedit] at h; cases h⟩
    | error fault =>
      have hedit : Act.edit why e w = (.error (why fault), { w with store := s }) := by
        rw [Act.edit, hrun]
      refine ⟨hedit ▸ hinv, fun failure h => ?_⟩
      rw [hedit] at h
      cases h
      exact hfails fault rfl

/-- A change in one step, which does nothing when it is refused. -/
lemma Upholds.change {why : Fault → Failure} {f : Store → Except Fault Store} (hw : inv w.store)
    (hinv : ∀ t, f w.store = .ok t → inv t)
    (hfails : ∀ fault, f w.store = .error fault → excuse (why fault)) :
    Upholds inv excuse (change why f) w := by
  cases hf : f w.store with
  | ok t =>
    have hstep : Store.step f w.store = (.ok (), t) := by rw [Store.step, hf]
    exact .edit (hstep ▸ hinv t hf) fun fault h => by rw [hstep] at h; cases h
  | error fault =>
    have hstep : Store.step f w.store = (.error fault, w.store) := by rw [Store.step, hf]
    refine .edit (hstep ▸ hw) fun fault' h => ?_
    rw [hstep] at h
    cases h
    exact hfails fault hf

end Act

end Excerpt
