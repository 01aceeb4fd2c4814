import Mathlib.Data.Option.Basic
import Excerpt.Proofs.Pattern.Building
import Excerpt.Proofs.Pattern.Tokens

/-!
# Reading a pattern for texts and for lines

A pattern is read twice: as it stands, and inside a group with `^` and `$` about lines. Both readings
go through the same states, token by token, apart from the conditions of `^` and `$` and from the
group around the second one. So the second pattern is the first one with conditions about lines in
place of some about the text.
-/

namespace Excerpt

namespace Pattern

/-! ### Conditions about lines -/

/-- The second condition is the first one, or the one about lines in place of one about the text. -/
inductive Look.Widens : Look → Look → Prop where
  | refl (l : Look) : Widens l l
  | lineStart : Widens .textStart .lineStart
  | crlfLineStart : Widens .textStart .crlfLineStart
  | lineEnd : Widens .textEnd .lineEnd
  | crlfLineEnd : Widens .textEnd .crlfLineEnd

/-- The second switches are the first ones, but `^` and `$` may be about lines in them only. -/
def Flags.Widens (flags flags' : Flags) : Prop :=
  ∃ m, flags' = flags.lines m ∧ (flags.multiLine = true → m = true)

/-- The second pattern is the first one with conditions about lines in place of some about the
text. -/
abbrev Widens : Pattern → Pattern → Prop := Recast Look.Widens Eq

variable {flags flags' : Flags} {t t' rest rest' u u' : Text} {c : Char} {p p' : Pattern}
  {r r' s s' : Reading} {outer : List OpenGroup}

lemma Widens.refl (p : Pattern) : p.Widens p := Recast.refl Look.Widens.refl (fun _ => rfl) p

lemma Flags.Widens.caret (h : flags.Widens flags') : (caret flags).Widens (caret flags') := by
  obtain ⟨m, rfl, hm⟩ := h
  obtain ⟨_, multiLine, _, _, _, crlf, _⟩ := flags
  cases m <;> cases multiLine <;> cases crlf <;> first | constructor | simp at hm

lemma Flags.Widens.dollar (h : flags.Widens flags') : (dollar flags).Widens (dollar flags') := by
  obtain ⟨m, rfl, hm⟩ := h
  obtain ⟨_, multiLine, _, _, _, crlf, _⟩ := flags
  cases m <;> cases multiLine <;> cases crlf <;> first | constructor | simp at hm

lemma Flags.Widens.assign (h : flags.Widens flags') {on : Bool} {set : Flags}
    (hset : flags.assign? on c = some set) :
    ∃ set', flags'.assign? on c = some set' ∧ set.Widens set' := by
  obtain ⟨m, rfl, hm⟩ := h
  unfold Flags.assign? at hset ⊢
  split at hset
  all_goals cases hset
  all_goals first
    | exact ⟨_, rfl, on, rfl, id⟩
    | exact ⟨_, rfl, m, rfl, hm⟩

/-! ### States of reading -/

/-- The second open group is the first one read with switches about lines. -/
structure OpenGroup.Widens (g g' : OpenGroup) : Prop where
  pieces : List.Forall₂ (Option.Rel Pattern.Widens) g.pieces g'.pieces
  done : List.Forall₂ Pattern.Widens g.done g'.done
  flags : g.flags.Widens g'.flags
  index : g'.index = g.index

/-- The second state is the first one read with switches about lines and inside further groups. -/
structure Reading.Widens (outer : List OpenGroup) (r r' : Reading) : Prop where
  pieces : List.Forall₂ (Option.Rel Pattern.Widens) r.pieces r'.pieces
  done : List.Forall₂ Pattern.Widens r.done r'.done
  flags : r.flags.Widens r'.flags
  groups : ∃ inner, r'.groups = inner ++ outer ∧ List.Forall₂ OpenGroup.Widens r.groups inner
  nextGroup : r'.nextGroup = r.nextGroup
  names : r'.names = r.names

lemma filterMap_widens {ps ps' : List (Option Pattern)}
    (h : List.Forall₂ (Option.Rel Widens) ps ps') :
    List.Forall₂ Widens (ps.filterMap id) (ps'.filterMap id) := by
  induction h with
  | nil => exact .nil
  | cons hp _ ih =>
    cases hp with
    | some hp => exact .cons hp ih
    | none => exact ih

namespace Reading.Widens

lemma branch (h : Widens outer r r') : r.branch.Widens r'.branch :=
  Recast.inOrder (filterMap_widens (List.rel_reverse h.pieces))

lemma body (h : Widens outer r r') : r.body.Widens r'.body :=
  Recast.oneOf (List.rel_append h.done (.cons h.branch .nil))

lemma push (h : Widens outer r r') (hp : p.Widens p') : Widens outer (r.push p) (r'.push p') :=
  { h with pieces := .cons (.some hp) h.pieces }

lemma «open» (h : Widens outer r r') (index : Option Nat) (hflags : flags.Widens flags') :
    Widens outer (r.open index flags) (r'.open index flags') where
  pieces := .nil
  done := .nil
  flags := hflags
  groups := by
    obtain ⟨inner, hinner, hgroups⟩ := h.groups
    refine ⟨⟨r'.pieces, r'.done, r'.flags, index⟩ :: inner, ?_, .cons ?_ hgroups⟩
    · rw [Reading.open, hinner]
      rfl
    · exact ⟨h.pieces, h.done, h.flags, rfl⟩
  nextGroup := by
    simp only [Reading.open, h.nextGroup]
  names := h.names

end Reading.Widens

/-- Where reading goes on from the first state, it goes on from the second one alike. -/
def GoesOn (outer : List OpenGroup) (x y : Option (Reading × Text)) : Prop :=
  ∀ s rest, x = some (s, rest) →
    ∃ s' rest', y = some (s', rest') ∧ Reading.Widens outer s s' ∧ Closes rest rest'

namespace GoesOn

variable {x y x' y' : Option (Reading × Text)} {α γ : Type}

lemma none : GoesOn outer Option.none y := by
  intro s rest h
  cases h

lemma some (h : Reading.Widens outer s s') (ht : Closes t t') :
    GoesOn outer (some (s, t)) (some (s', t')) := by
  intro _ _ heq
  cases heq
  exact ⟨s', t', rfl, h, ht⟩

lemma ite {P : Prop} [Decidable P] (h : GoesOn outer x y) (h' : GoesOn outer x' y') :
    GoesOn outer (if P then x else x') (if P then y else y') := by
  split_ifs
  · exact h
  · exact h'

lemma mapValue (o : Option γ) {f g : γ → Reading} (hfg : ∀ c, Reading.Widens outer (f c) (g c))
    (ht : Closes t t') :
    GoesOn outer (o.map fun c => (f c, t)) (o.map fun c => (g c, t')) := by
  cases o with
  | none => exact none
  | some c => exact some (hfg c) ht

lemma mapReading {o o' : Option Reading} (h : ∀ s, o = .some s → ∃ s', o' = .some s' ∧
    Reading.Widens outer s s') (ht : Closes t t') :
    GoesOn outer (o.map (·, t)) (o'.map (·, t')) := by
  intro s rest heq
  obtain ⟨s, hs, heq⟩ := Option.map_eq_some_iff.mp heq
  cases heq
  obtain ⟨s', hs', hwidens⟩ := h _ hs
  exact ⟨s', t', by rw [hs']; rfl, hwidens, ht⟩

end GoesOn

/-! ### Closing and repeating -/

lemma Reading.Widens.leave (h : Reading.Widens outer r r') (hs : r.leave? = some s) :
    ∃ s', r'.leave? = some s' ∧ Reading.Widens outer s s' := by
  obtain ⟨inner, hinner, hgroups⟩ := h.groups
  unfold Reading.leave? at hs ⊢
  rw [hinner]
  generalize r.groups = groups at hs hgroups
  cases hgroups with
  | nil => cases hs
  | @cons g g' groups inner hg hgroups =>
    cases hs
    refine ⟨_, rfl, ?_⟩
    refine ⟨.cons (.some ?_) hg.pieces, hg.done, hg.flags, ⟨inner, rfl, hgroups⟩, h.nextGroup, h.names⟩
    rw [hg.index]
    cases g.index with
    | none => exact h.body
    | some index => exact h.body.group index

lemma Reading.Widens.repeatLast (h : Reading.Widens outer r r') (lazy : Bool) (lo : Nat)
    (hi : Option Nat) (hs : r.repeatLast? lazy lo hi = some s) :
    ∃ s', r'.repeatLast? lazy lo hi = some s' ∧ Reading.Widens outer s s' := by
  have hpieces := h.pieces
  obtain ⟨m, hflags, -⟩ := h.flags
  unfold Reading.repeatLast? at hs ⊢
  generalize hr : r.pieces = pieces at hs hpieces
  generalize hr' : r'.pieces = pieces' at hpieces
  cases hpieces with
  | nil => cases hs
  | cons hp hpieces =>
    cases hp with
    | none => cases hs
    | @some p p' hp =>
      cases hs
      refine ⟨_, rfl, { h with pieces := .cons (.some ?_) hpieces }⟩
      have hgreed : r'.flags.swapGreed = r.flags.swapGreed := by
        rw [hflags]
        rfl
      rw [hgreed]
      exact hp.repeat _ lo hi

/-! ### Counts -/

lemma lazyMark_closes (h : Closes t t') :
    (lazyMark t').1 = (lazyMark t).1 ∧ Closes (lazyMark t).2 (lazyMark t').2 := by
  cases t with
  | nil =>
    rcases h with rfl | rfl
    · exact ⟨rfl, Or.inl rfl⟩
    · exact ⟨rfl, Or.inr rfl⟩
  | cons c t =>
    have hwhole := h
    obtain ⟨u, rfl, hu⟩ := h.exists_cons
    by_cases hc : c = '?'
    · subst hc
      exact ⟨rfl, hu⟩
    · have hnot : ∀ u : Text, lazyMark (c :: u) = (false, c :: u) := by
        intro u
        unfold lazyMark
        split
        · rename_i heq
          cases heq
          exact absurd rfl hc
        · rfl
      rw [hnot, hnot]
      exact ⟨rfl, hwhole⟩

lemma Closes.trimStart (h : Closes t t') : Closes (Text.trimStart t) (Text.trimStart t') :=
  h.dropWhile (by decide)

lemma count?_agree {m : Bool} (h : Closes t t') :
    Agree (count? flags t) (count? (flags.lines m) t') := by
  have hlines : count? (flags.lines m) t' = count? flags t' := rfl
  have hskip := h.trimStart.skip flags
  rw [hlines, count?, count?]
  simp only
  generalize skip flags (Text.trimStart t) = u at hskip ⊢
  generalize skip flags (Text.trimStart t') = u' at hskip ⊢
  have hcount : (Char.isDigit ')' || flags.spaced && Text.isBlank ')') = false := by
    cases flags.spaced <;> decide
  have hbehind := (hskip.dropWhile (p := fun c => c.isDigit || flags.spaced && Text.isBlank c)
    hcount).trimStart.skip flags
  rw [hskip.takeWhile_eq hcount]
  exact Agree.ite (Agree.some _ hbehind) (Agree.ite (Agree.some _ hbehind) Agree.none)

/-- The bounds of a repetition, apart from what follows. -/
def bounds? (flags : Flags) (t : Text) : Option ((Nat × Option Nat) × Text) :=
  (counts? flags t).map fun found => ((found.1, found.2.1), found.2.2)

/-- Reads the upper bound of a repetition, where there is one, and the closing brace. -/
def upperBound? (flags : Flags) (lo : Option Nat) (t : Text) : Option (Nat × Option Nat × Text) := do
  let (hi, t) ← count? flags t
  let lo ← lo
  let hi ← hi
  match t with
  | '\x7d' :: rest => if lo ≤ hi then return (lo, some hi, rest) else none
  | _ => none

lemma upperBound?_agree {m : Bool} (h : Closes t t') (lo : Option Nat) :
    Agree ((upperBound? flags lo t).map fun found => ((found.1, found.2.1), found.2.2))
      ((upperBound? (flags.lines m) lo t').map fun found => ((found.1, found.2.1), found.2.2)) := by
  simp only [upperBound?, Option.bind_eq_bind, Option.map_bind]
  refine (count?_agree h).bind fun hi u u' hu => ?_
  cases lo with
  | none => exact Agree.none
  | some lo =>
    cases hi with
    | none => exact Agree.none
    | some hi =>
      cases u with
      | nil => exact Agree.none
      | cons c more =>
        obtain ⟨more', rfl, hmore⟩ := hu.exists_cons
        by_cases hclose : c = '\x7d'
        · subst hclose
          simp only [Function.comp_apply, Option.bind_some]
          split_ifs
          · exact Agree.some _ hmore
          · exact Agree.none
        · simp only [Function.comp_apply, Option.bind_some, List.cons.injEq, hclose, false_and, imp_false,
            not_false_eq_true, implies_true]
          exact Agree.none

lemma bounds?_agree {m : Bool} (h : Closes t t') :
    Agree (bounds? flags t) (bounds? (flags.lines m) t') := by
  simp only [bounds?, counts?, Option.bind_eq_bind, Option.map_bind]
  refine (count?_agree (h.skip flags)).bind fun lo u u' hu => ?_
  cases u with
  | nil => exact Agree.none
  | cons c more =>
    obtain ⟨more', rfl, hmore⟩ := hu.exists_cons
    by_cases hclose : c = '\x7d'
    · subst hclose
      cases lo with
      | none => exact Agree.none
      | some lo => exact Agree.some _ hmore
    · by_cases hcomma : c = ','
      · subst hcomma
        simp only [Function.comp_apply, skip_lines]
        have hskip := hmore.skip flags
        generalize skip flags more = v at hskip ⊢
        generalize skip flags more' = v' at hskip ⊢
        have hupper : Agree ((upperBound? flags lo v).map _) ((upperBound? (flags.lines m) lo v').map _) :=
          upperBound?_agree hskip lo
        cases v with
        | nil =>
          rcases hskip with rfl | rfl
          · exact hupper
          · exact hupper
        | cons d after =>
          obtain ⟨after', rfl, hafter⟩ := hskip.exists_cons
          by_cases hbrace : d = '\x7d'
          · subst hbrace
            cases lo with
            | none => exact Agree.none
            | some lo => exact Agree.some _ hafter
          · simp only [List.cons.injEq, hbrace, false_and, imp_false, not_false_eq_true, implies_true]
            exact hupper
      · simp only [Function.comp_apply, List.cons.injEq, hclose, hcomma, false_and, imp_false, not_false_eq_true,
          implies_true]
        exact Agree.none

lemma counts?_closes {m : Bool} {lo : Nat} {hi : Option Nat} (h : Closes t t')
    (hread : counts? flags t = some (lo, hi, rest)) :
    ∃ rest', counts? (flags.lines m) t' = some (lo, hi, rest') ∧ Closes rest rest' := by
  obtain ⟨rest', hbounds, hrest⟩ := bounds?_agree (m := m) h (lo, hi) rest (by rw [bounds?, hread]; rfl)
  obtain ⟨⟨lo', hi', more⟩, hread', heq⟩ := Option.map_eq_some_iff.mp hbounds
  cases heq
  exact ⟨_, hread', hrest⟩

/-! ### Groups -/

lemma groupName?_agree (h : Closes t t') : Agree (groupName? t) (groupName? t') := by
  rw [groupName?, groupName?]
  rcases hd : t.dropWhile (· ≠ '>') with _ | ⟨d, rest⟩
  · cases t.takeWhile (· ≠ '>') with
    | nil => exact Agree.none
    | cons c more => exact Agree.none
  · obtain ⟨htake, rest', hd', hrest⟩ := h.of_dropWhile hd
    rw [htake, hd']
    cases t.takeWhile (· ≠ '>') with
    | nil => exact Agree.none
    | cons c more => exact Agree.ite (Agree.some _ hrest) Agree.none

lemma readFlags_widens (hflags : flags.Widens flags') (h : Closes t t') {seen seen' : Text}
    {set : Flags} (hread : readFlags flags seen t = some (set, seen', rest)) :
    ∃ set' rest', readFlags flags' seen t' = some (set', seen', rest') ∧ set.Widens set' ∧
      Closes rest rest' := by
  induction t generalizing flags flags' seen t' with
  | nil => cases hread
  | cons c t ih =>
    have hwhole := h
    obtain ⟨u, rfl, hu⟩ := h.exists_cons
    rw [readFlags] at hread ⊢
    by_cases hend : c = ':' ∨ c = ')'
    · rw [if_pos hend] at hread ⊢
      split_ifs at hread ⊢
      cases hread
      exact ⟨_, _, rfl, hflags, hwhole⟩
    · rw [if_neg hend] at hread ⊢
      split_ifs at hread ⊢
      · exact ih hflags hu hread
      · rcases hassign : flags.assign? (!seen.contains '-') c with _ | set₁
        · rw [hassign] at hread
          cases hread
        · obtain ⟨set₁', hassign', hset₁⟩ := hflags.assign hassign
          rw [hassign] at hread
          rw [hassign']
          exact ih hset₁ hu hread

/-- A group with a name is entered alike. -/
lemma Reading.Widens.named (h : Reading.Widens outer r r') (ht : Closes t t') : GoesOn outer
    (match groupName? t with
      | none => none
      | some (name, rest) =>
        if r.names.contains name then none
        else some ({ r.open (some r.nextGroup) r.flags with names := name :: r.names }, rest))
    (match groupName? t' with
      | none => none
      | some (name, rest) =>
        if r'.names.contains name then none
        else some ({ r'.open (some r'.nextGroup) r'.flags with names := name :: r'.names }, rest)) := by
  rcases hx : groupName? t with _ | ⟨name, rest⟩
  · exact GoesOn.none
  · obtain ⟨rest', hy, hrest⟩ := groupName?_agree ht name rest hx
    rw [hy]
    simp only [h.names, h.nextGroup]
    have hopen := h.open (some r.nextGroup) h.flags
    exact GoesOn.ite GoesOn.none (GoesOn.some { hopen with names := rfl } hrest)

/-- Switches are set alike. -/
lemma Reading.Widens.switches (h : Reading.Widens outer r r') (ht : Closes t t') : GoesOn outer
    (match readFlags r.flags [] t with
      | some (flags, _, ':' :: rest) => some (r.open none flags, rest)
      | some (flags, seen, ')' :: rest) =>
        if seen.isEmpty then none
        else some ({ r with flags := flags, pieces := none :: r.pieces }, rest)
      | _ => none)
    (match readFlags r'.flags [] t' with
      | some (flags, _, ':' :: rest) => some (r'.open none flags, rest)
      | some (flags, seen, ')' :: rest) =>
        if seen.isEmpty then none
        else some ({ r' with flags := flags, pieces := none :: r'.pieces }, rest)
      | _ => none) := by
  rcases hx : readFlags r.flags [] t with _ | ⟨set, seen, rest⟩
  · exact GoesOn.none
  · obtain ⟨set', rest', hy, hset, hrest⟩ := readFlags_widens h.flags ht hx
    rw [hy]
    cases rest with
    | nil => exact GoesOn.none
    | cons c rest =>
      obtain ⟨rest', rfl, hbehind⟩ := hrest.exists_cons
      by_cases hcolon : c = ':'
      · subst hcolon
        exact GoesOn.some (h.open none hset) hbehind
      · by_cases hclose : c = ')'
        · subst hclose
          refine GoesOn.ite GoesOn.none (GoesOn.some ?_ hbehind)
          exact { h with pieces := .cons .none h.pieces, flags := hset }
        · intro s more heq
          split at heq
          · rename_i heq'
            cases heq'
            exact absurd rfl hcolon
          · rename_i heq'
            cases heq'
            exact absurd rfl hclose
          · cases heq

/-- A group that captures, without a name, is entered alike. -/
lemma Reading.Widens.capture (h : Reading.Widens outer r r') (hu : Closes u u') : GoesOn outer
    (some (r.open (some r.nextGroup) r.flags, u)) (some (r'.open (some r'.nextGroup) r'.flags, u')) := by
  rw [h.nextGroup]
  exact GoesOn.some (h.open _ h.flags) hu

section

variable {v v' : Text}

/-- What follows `(?<` is a name or a condition that is not supported. -/
lemma Reading.Widens.enter_angle (h : Reading.Widens outer r r') (hv : Closes v v')
    (ht : skip r.flags t = '?' :: '<' :: v) (ht' : skip r'.flags t' = '?' :: '<' :: v') :
    GoesOn outer (r.enter? t) (r'.enter? t') := by
  unfold Reading.enter?
  rw [ht, ht']
  have hnamed := h.named hv
  cases v with
  | nil => exact GoesOn.none
  | cons e w =>
    obtain ⟨w', rfl, -⟩ := hv.exists_cons
    by_cases hequal : e = '='
    · subst hequal
      exact GoesOn.none
    · by_cases hbang : e = '!'
      · subst hbang
        exact GoesOn.none
      · simp only [List.cons.injEq, hequal, hbang, false_and, imp_false, not_false_eq_true,
          implies_true]
        exact hnamed

/-- What follows `(?P` is a name in angles, or `P` is read as a switch. -/
lemma Reading.Widens.enter_letter (h : Reading.Widens outer r r') (hv : Closes v v')
    (ht : skip r.flags t = '?' :: 'P' :: v) (ht' : skip r'.flags t' = '?' :: 'P' :: v') :
    GoesOn outer (r.enter? t) (r'.enter? t') := by
  unfold Reading.enter?
  rw [ht, ht']
  have hswitches := h.switches (hv.cons 'P')
  cases v with
  | nil =>
    rcases hv with rfl | rfl
    · exact hswitches
    · exact hswitches
  | cons e w =>
    obtain ⟨w', rfl, hw⟩ := hv.exists_cons
    by_cases hangle : e = '<'
    · subst hangle
      exact h.named hw
    · simp only [List.cons.injEq, Char.reduceEq, hangle, false_and, and_false, imp_false,
        not_false_eq_true, implies_true]
      exact hswitches

/-- What follows `(?` is read alike. -/
lemma Reading.Widens.enter_mark (h : Reading.Widens outer r r') (hu : Closes u u')
    (ht : skip r.flags t = '?' :: u) (ht' : skip r'.flags t' = '?' :: u') :
    GoesOn outer (r.enter? t) (r'.enter? t') := by
  cases u with
  | nil =>
    unfold Reading.enter?
    rw [ht]
    exact GoesOn.none
  | cons d v =>
    have hswitches := h.switches hu
    obtain ⟨v', rfl, hv⟩ := hu.exists_cons
    by_cases hangle : d = '<'
    · subst hangle
      exact h.enter_angle hv ht ht'
    · by_cases hname : d = 'P'
      · subst hname
        exact h.enter_letter hv ht ht'
      · unfold Reading.enter?
        rw [ht, ht']
        by_cases hequal : d = '='
        · subst hequal
          exact GoesOn.none
        · by_cases hbang : d = '!'
          · subst hbang
            exact GoesOn.none
          · simp only [List.cons.injEq, hequal, hbang, hangle, hname, false_and, imp_false,
              not_false_eq_true, implies_true]
            exact hswitches

end

/-- What follows an opening parenthesis is read alike. -/
lemma Reading.Widens.enter (h : Reading.Widens outer r r') (ht : Closes t t') :
    GoesOn outer (r.enter? t) (r'.enter? t') := by
  obtain ⟨m, hflags, -⟩ := h.flags
  have hskip := ht.skip r.flags
  have hlines : skip r'.flags t' = skip r.flags t' := by rw [hflags, skip_lines]
  rcases hu : skip r.flags t with _ | ⟨c, u⟩
  · unfold Reading.enter?
    rw [hlines, hu]
    rw [hu] at hskip
    rcases hskip with hu' | hu' <;> rw [hu']
    · exact h.capture (Or.inl rfl)
    · exact h.capture (Or.inr rfl)
  · rw [hu] at hskip
    obtain ⟨u', hu', hrest⟩ := hskip.exists_cons
    rw [← hlines] at hu'
    by_cases hmark : c = '?'
    · subst hmark
      exact h.enter_mark hrest hu hu'
    · unfold Reading.enter?
      rw [hu, hu']
      simp only [List.cons.injEq, hmark, false_and, imp_false, not_false_eq_true, implies_true]
      exact h.capture (hrest.cons c)

/-! ### Tokens -/

/-- A repetition of the last piece, with its lazy mark, is read alike. -/
lemma Reading.Widens.repeated (h : Reading.Widens outer r r') (ht : Closes t t') (lo : Nat)
    (hi : Option Nat) :
    GoesOn outer ((r.repeatLast? (lazyMark t).1 lo hi).map (·, (lazyMark t).2))
      ((r'.repeatLast? (lazyMark t').1 lo hi).map (·, (lazyMark t').2)) := by
  obtain ⟨hlazy, hrest⟩ := lazyMark_closes ht
  rw [hlazy]
  exact GoesOn.mapReading (fun s hs => h.repeatLast _ lo hi hs) hrest

/-- What one token does, it does alike with switches about lines and a parenthesis behind. -/
theorem Reading.Widens.token (h : Reading.Widens outer r r') (ht : Closes t t') (c : Char) :
    GoesOn outer (r.token? c t) (r'.token? c t') := by
  obtain ⟨m, hflags, -⟩ := h.flags
  -- The switches about lines are not looked at, apart from `^` and `$`.
  have hpush : ∀ (p : Pattern) {u u' : Text}, Closes u u' →
      GoesOn outer (some (r.push p, u)) (some (r'.push p, u')) :=
    fun p _ _ hu => GoesOn.some (h.push (Widens.refl p)) hu
  have hlook : ∀ {l l' : Look}, l.Widens l' →
      GoesOn outer (some (r.push (look l), t)) (some (r'.push (look l'), t')) :=
    fun hl => GoesOn.some (h.push (.look hl)) ht
  have hvalue : ∀ (o o' : Option Pattern) {u u' : Text}, o' = o → Closes u u' →
      GoesOn outer (o.map fun p => (r.push p, u)) (o'.map fun p => (r'.push p, u')) := by
    intro o o' u u' ho hu
    rw [ho]
    exact GoesOn.mapValue o (fun p => h.push (Widens.refl p)) hu
  unfold Reading.token?
  refine GoesOn.ite (h.enter ht) (GoesOn.ite (GoesOn.mapReading (fun s hs => h.leave hs) ht)
    (GoesOn.ite ?bar (GoesOn.ite ?bracket (GoesOn.ite (h.repeated ht 0 (some 1)) (GoesOn.ite
      (h.repeated ht 0 none) (GoesOn.ite (h.repeated ht 1 none) (GoesOn.ite ?brace (GoesOn.ite ?escape
        (GoesOn.ite ?dot (GoesOn.ite (hlook h.flags.caret) (GoesOn.ite (hlook h.flags.dollar)
          ?plain)))))))))))
  case bar =>
    exact GoesOn.some { h with pieces := .nil, done := List.rel_append h.done (.cons h.branch .nil) } ht
  case bracket =>
    rcases hx : bracketClass r.flags t with _ | ⟨s, rest⟩
    · exact GoesOn.none
    · obtain ⟨rest', hy, hrest⟩ := bracketClass_agree (m := m) ht s rest hx
      rw [hflags, hy]
      exact hpush (set s) hrest
  case brace =>
    rcases hx : counts? r.flags t with _ | ⟨lo, hi, rest⟩
    · exact GoesOn.none
    · obtain ⟨rest', hy, hrest⟩ := counts?_closes (m := m) ht hx
      rw [hflags, hy]
      exact h.repeated (hrest.skip r.flags) lo hi
  case escape =>
    rcases hx : escape r.flags t with _ | ⟨a, rest⟩
    · exact GoesOn.none
    · obtain ⟨rest', hy, hrest⟩ := escape_agree (m := m) ht a rest hx
      rw [hflags, hy]
      exact hvalue _ _ rfl hrest
  case dot =>
    rw [hflags]
    exact hvalue _ _ rfl ht
  case plain =>
    rw [hflags]
    exact hvalue _ _ rfl ht

/-! ### Whole patterns -/

/-- At the end of the text a pattern is the body of its state, outside of all groups. -/
lemma readAll_nil {fuel : Nat} : readAll (fuel + 1) r [] = some p ↔ r.groups = [] ∧ r.body = p := by
  rw [readAll, skip_nil]
  cases r.groups <;> simp

lemma token?_close (t : Text) : r.token? ')' t = r.leave?.map (·, t) := rfl

/-- Leaving the only group, which does not capture, the pattern is that of the group. -/
lemma body_of_leave {fuel : Nat} (hr : r.groups = [⟨[], [], flags, none⟩]) (hs : r.leave? = some s)
    (h : readAll fuel s [] = some p) : r.body = p := by
  rw [Reading.leave?, hr] at hs
  cases hs
  obtain _ | fuel := fuel
  · cases h
  have hbody := (readAll_nil.mp h).2
  rw [← hbody]
  exact ((congrArg (fun p => oneOf [p]) (inOrder_singleton r.body)).trans (oneOf_oneOf _)).symm

/-- What is read in the end: the second pattern is the first one with conditions about lines, if
what it stands in is at most one group that does not capture. -/
theorem readAll_widens {fuel fuel' : Nat} {q : Pattern} (h : Reading.Widens outer r r')
    (ht : Closes t t') (houter : outer = [] ∨ ∃ flags, outer = [⟨[], [], flags, none⟩])
    (hp : readAll fuel r t = some p) (hq : readAll fuel' r' t' = some q) : p.Widens q := by
  induction fuel generalizing fuel' r r' t t' with
  | zero => cases hp
  | succ fuel ih =>
    obtain _ | fuel' := fuel'
    · cases hq
    have hskip := ht.skip r.flags
    obtain ⟨m, hflags, -⟩ := h.flags
    rw [readAll] at hp hq
    rw [hflags, skip_lines] at hq
    generalize skip r.flags t = u at hskip hp
    generalize skip r.flags t' = u' at hskip hq
    cases u with
    | nil =>
      simp only at hp
      split_ifs at hp with hempty
      cases hp
      obtain ⟨inner, hinner, hgroups⟩ := h.groups
      rw [List.isEmpty_iff.mp hempty] at hgroups
      cases hgroups
      rw [List.nil_append] at hinner
      rcases houter with rfl | ⟨flags, rfl⟩
      · rcases hskip with rfl | rfl
        · simp only [hinner, List.isEmpty_nil, if_true] at hq
          cases hq
          exact h.body
        · simp [token?_close, Reading.leave?, hinner] at hq
      · rcases hskip with rfl | rfl
        · simp [hinner] at hq
        · simp only [List.nil_append, token?_close] at hq
          rcases hs : r'.leave? with _ | s'
          · rw [hs] at hq
            cases hq
          · rw [hs] at hq
            rw [← body_of_leave hinner hs hq]
            exact h.body
    | cons c rest =>
      obtain ⟨rest', rfl, hrest⟩ := hskip.exists_cons
      simp only at hp hq
      rcases hx : r.token? c rest with _ | ⟨s, more⟩
      · rw [hx] at hp
        cases hp
      · obtain ⟨s', more', hy, hs, hmore⟩ := h.token hrest c s more hx
        rw [hx] at hp
        rw [hy] at hq
        exact ih hs hmore hp hq

/-- The group around a pattern is opened with no more than its three characters. -/
lemma readAll_group {fuel : Nat} (flags : Flags) (hspaced : flags.spaced = false) :
    readAll (fuel + 1) ⟨[], [], flags, [], 1, []⟩ ('(' :: '?' :: ':' :: t) =
      readAll fuel ⟨[], [], flags, [⟨[], [], flags, none⟩], 1, []⟩ t := by
  obtain ⟨_, _, _, _, _, _, spaced⟩ := flags
  cases hspaced
  rfl

/-- A pattern that is read for lines is the pattern that is read for texts, with `^` and `$` about
lines; it makes no difference whether it stands in a group that does not capture. -/
theorem widens_of_parse {q : Pattern} (hp : parse? false t = some p)
    (hq : parse? true t = some q ∨ parse? true ("(?:".toList ++ t ++ [')']) = some q) :
    p.Widens q := by
  have hstart : ∀ outer, Reading.Widens outer ⟨[], [], Flags.initial false, [], 1, []⟩
      ⟨[], [], Flags.initial true, outer, 1, []⟩ :=
    fun outer => ⟨.nil, .nil, ⟨true, rfl, fun _ => rfl⟩, ⟨[], rfl, .nil⟩, rfl, rfl⟩
  rcases hq with hq | hq
  · exact readAll_widens (hstart []) (Closes.refl t) (Or.inl rfl) hp hq
  · have hgroup : "(?:".toList ++ t ++ [')'] = '(' :: '?' :: ':' :: (t ++ [')']) := rfl
    rw [parse?, hgroup, readAll_group _ rfl] at hq
    exact readAll_widens (hstart _) (Or.inr rfl) (Or.inr ⟨_, rfl⟩) hp hq

end Pattern

end Excerpt
