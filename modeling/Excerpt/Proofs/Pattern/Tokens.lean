import Mathlib.Data.List.TakeWhile
import Mathlib.Tactic.Common
import Excerpt.Pattern.Parser

/-!
# Reading with a parenthesis behind

What is read of a text is read of the text with a closing parenthesis behind it, and the parenthesis
is still behind what is left. Only a comment at the end takes the parenthesis with it: then nothing
is left of either text. Besides, whether `^` and `$` are about lines makes no difference to classes
and escapes.

There is one lemma for each reading function, up to the bracketed classes.
-/

namespace Excerpt

namespace Pattern

variable {α β γ : Type} {t t' u u' : Text} {c : Char} {flags : Flags} {m : Bool}

/-! ### A parenthesis behind a text -/

/-- A text that is cut at a character is cut there whatever follows. -/
lemma splits_append {p : Char → Bool} (hd : t.dropWhile p = c :: u) (v : Text) :
    (t ++ v).takeWhile p = t.takeWhile p ∧ (t ++ v).dropWhile p = c :: (u ++ v) := by
  have hlength := congrArg List.length (List.takeWhile_append_dropWhile (p := p) (l := t))
  rw [hd, List.length_append, List.length_cons] at hlength
  constructor
  · rw [List.takeWhile_append, if_neg (by omega)]
  · rw [List.dropWhile_append, hd]
    rfl

/-- The second text is the first one, or the first one with a closing parenthesis behind it. -/
def Closes (t t' : Text) : Prop := t' = t ∨ t' = t ++ [')']

namespace Closes

lemma refl (t : Text) : Closes t t := Or.inl rfl

lemma cons (c : Char) (h : Closes t t') : Closes (c :: t) (c :: t') := by
  rcases h with rfl | rfl
  · exact Or.inl rfl
  · exact Or.inr rfl

lemma exists_cons (h : Closes (c :: t) t') : ∃ u, t' = c :: u ∧ Closes t u := by
  rcases h with rfl | rfl
  · exact ⟨t, rfl, Or.inl rfl⟩
  · exact ⟨t ++ [')'], rfl, Or.inr rfl⟩

lemma length_le (h : Closes t t') : t.length ≤ t'.length := by
  rcases h with rfl | rfl <;> simp

/-- What a parenthesis ends is the same with a parenthesis behind it. -/
lemma takeWhile_eq {p : Char → Bool} (h : Closes t t') (hp : p ')' = false) :
    t'.takeWhile p = t.takeWhile p := by
  rcases h with rfl | rfl
  · rfl
  · induction t with
    | nil => simp [hp]
    | cons c t ih => cases hc : p c <;> simp [hc, ih]

lemma dropWhile {p : Char → Bool} (h : Closes t t') (hp : p ')' = false) :
    Closes (t.dropWhile p) (t'.dropWhile p) := by
  rcases h with rfl | rfl
  · exact refl _
  · induction t with
    | nil => simp [hp, Closes]
    | cons c t ih =>
      cases hc : p c
      · simp [hc, Closes]
      · simpa [hc] using ih

/-- What ends within the text ends there with a parenthesis behind it as well. -/
lemma of_dropWhile {p : Char → Bool} (h : Closes t t') (hd : t.dropWhile p = c :: u) :
    t'.takeWhile p = t.takeWhile p ∧ ∃ u', t'.dropWhile p = c :: u' ∧ Closes u u' := by
  rcases h with rfl | rfl
  · exact ⟨rfl, u, hd, refl u⟩
  · obtain ⟨htake, hdrop⟩ := splits_append hd [')']
    exact ⟨htake, _, hdrop, Or.inr rfl⟩

end Closes

/-- What is read of the first text is read of the second one, and what follows corresponds. -/
def Agree (x y : Option (α × Text)) : Prop :=
  ∀ (a : α) (rest : Text), x = some (a, rest) → ∃ rest', y = some (a, rest') ∧ Closes rest rest'

namespace Agree

variable {x y : Option (α × Text)} {a : α}

lemma none : Agree Option.none y := by
  intro a rest h
  cases h

lemma some (a : α) (h : Closes t t') : Agree (some (a, t)) (some (a, t')) := by
  intro b rest heq
  cases heq
  exact ⟨t', rfl, h⟩

lemma bind {f g : α × Text → Option (β × Text)} (h : Agree x y)
    (hfg : ∀ a rest rest', Closes rest rest' → Agree (f (a, rest)) (g (a, rest'))) :
    Agree (x.bind f) (y.bind g) := by
  intro b rest heq
  obtain ⟨⟨a, more⟩, hx, hf⟩ := Option.bind_eq_some_iff.mp heq
  obtain ⟨more', hy, hmore⟩ := h a more hx
  obtain ⟨rest', hg, hrest⟩ := hfg a more more' hmore b rest hf
  exact ⟨rest', by rw [hy]; exact hg, hrest⟩

/-- A value that does not depend on the text. -/
lemma bindValue (o : Option γ) {f g : γ → Option (β × Text)} (h : ∀ c, Agree (f c) (g c)) :
    Agree (o.bind f) (o.bind g) := by
  cases o with
  | none => exact none
  | some c => exact h c

lemma ite {P : Prop} [Decidable P] {x' y' : Option (α × Text)} (h : Agree x y)
    (h' : Agree x' y') : Agree (if P then x else x') (if P then y else y') := by
  split_ifs
  · exact h
  · exact h'

end Agree

/-! ### Blanks and comments -/

/-- The switches with `^` and `$` about lines, or not. -/
def Flags.lines (m : Bool) (flags : Flags) : Flags := { flags with multiLine := m }

@[simp] lemma Flags.lines_spaced : (flags.lines m).spaced = flags.spaced := rfl

@[simp] lemma Flags.lines_unicode : (flags.lines m).unicode = flags.unicode := rfl

/-- A comment at the end takes the parenthesis with it. -/
lemma dropSpace_closes (t : Text) : Closes (dropSpace t) (dropSpace (t ++ [')'])) ∧
    Closes (dropSpace.dropComment t) (dropSpace.dropComment (t ++ [')'])) := by
  induction t with
  | nil => exact ⟨Or.inr rfl, Or.inl rfl⟩
  | cons c t ih =>
    constructor
    · rw [List.cons_append, dropSpace, dropSpace]
      split_ifs
      · exact ih.1
      · exact ih.2
      · exact Or.inr rfl
    · rw [List.cons_append, dropSpace.dropComment, dropSpace.dropComment]
      split_ifs
      · exact ih.1
      · exact ih.2

@[simp] lemma skip_nil (flags : Flags) : skip flags [] = [] := by
  rw [skip]
  split_ifs
  · rfl
  · rfl

@[simp] lemma skip_lines (t : Text) : skip (flags.lines m) t = skip flags t := rfl

lemma Closes.skip (h : Closes t t') (flags : Flags) : Closes (skip flags t) (skip flags t') := by
  rw [Pattern.skip, Pattern.skip]
  split_ifs
  · rcases h with rfl | rfl
    · exact refl _
    · exact (dropSpace_closes t).1
  · exact h

/-! ### Codes -/

lemma hexDigits_agree (h : Closes t t') (count value : Nat) :
    Agree (hexDigits flags count value t) (hexDigits (flags.lines m) count value t') := by
  induction count generalizing value t t' with
  | zero => exact Agree.some value h
  | succ count ih =>
    cases t with
    | nil => exact Agree.none
    | cons c rest =>
      obtain ⟨rest', rfl, hrest⟩ := h.exists_cons
      exact Agree.bindValue _ fun d => ih (hrest.skip flags) _

lemma hexBrace_agree {fuel fuel' : Nat} (h : Closes t t') (hfuel : fuel ≤ fuel')
    (count value : Nat) :
    Agree (hexBrace flags fuel count value t) (hexBrace (flags.lines m) fuel' count value t') := by
  induction fuel generalizing fuel' count value t t' with
  | zero => exact Agree.none
  | succ fuel ih =>
    obtain ⟨fuel', rfl⟩ : ∃ k, fuel' = k + 1 := ⟨fuel' - 1, by omega⟩
    cases t with
    | nil => exact Agree.none
    | cons c rest =>
      obtain ⟨rest', rfl, hrest⟩ := h.exists_cons
      rw [hexBrace, hexBrace]
      split_ifs
      · exact Agree.none
      · exact Agree.some value (hrest.skip flags)
      · exact Agree.bindValue _ fun d => ih (hrest.skip flags) (by omega) _ _

lemma hexCode_agree (h : Closes t t') (digits : Nat) :
    Agree (hexCode flags digits t) (hexCode (flags.lines m) digits t') := by
  have hskip := h.skip flags
  rw [hexCode, hexCode, skip_lines]
  generalize skip flags t = u at hskip ⊢
  generalize skip flags t' = u' at hskip ⊢
  cases u with
  | nil => exact Agree.none
  | cons c rest =>
    obtain ⟨rest', rfl, hrest⟩ := hskip.exists_cons
    by_cases hc : c = '\x7b'
    · subst hc
      refine (hexBrace_agree (hrest.skip flags) ?_ 0 0).bind fun n more more' hmore => ?_
      · have := hrest.length_le
        omega
      · exact Agree.bindValue _ fun a => Agree.some _ hmore
    · simp only [List.cons.injEq, hc, false_and, imp_false, not_false_eq_true, implies_true]
      refine (hexDigits_agree hskip digits 0).bind fun n more more' hmore => ?_
      simp only
      split_ifs
      · exact Agree.some _ hmore
      · exact Agree.bindValue _ fun a => Agree.some _ hmore

/-! ### Named classes -/

lemma propertyClass_agree (h : Closes t t') (negated : Bool) :
    Agree (propertyClass flags negated t) (propertyClass (flags.lines m) negated t') := by
  have hlines : propertyClass (flags.lines m) negated t' = propertyClass flags negated t' := rfl
  have hskip := h.skip flags
  rw [hlines, propertyClass, propertyClass]
  generalize skip flags t = u at hskip ⊢
  generalize skip flags t' = u' at hskip ⊢
  cases u with
  | nil => exact Agree.none
  | cons c rest =>
    obtain ⟨rest', rfl, hrest⟩ := hskip.exists_cons
    by_cases hc : c = '\x7b'
    · subst hc
      simp only
      rcases hd : rest.dropWhile (fun c => decide (c ≠ '\x7d')) with _ | ⟨d, after⟩
      · exact Agree.none
      · obtain ⟨htake, after', hd', hafter⟩ := hrest.of_dropWhile hd
        rw [htake, hd']
        simp only
        rcases Text.cutAt? "!=".toList _ with _ | ⟨key, value⟩
        · exact Agree.bindValue _ fun s => Agree.some _ hafter
        · exact Agree.bindValue _ fun s => Agree.some _ hafter
    · simp only
      split_ifs
      · exact Agree.none
      · exact Agree.bindValue _ fun s => Agree.some _ (hrest.skip flags)

lemma afterStart?_append_close {piece : Text} (hpiece : ')' ∉ piece) (t : Text) :
    Text.afterStart? piece (t ++ [')']) = (Text.afterStart? piece t).map (· ++ [')']) := by
  unfold Text.afterStart?
  induction piece generalizing t with
  | nil => simp
  | cons p piece ih =>
    rw [List.mem_cons, not_or] at hpiece
    cases t with
    | nil => simp [Ne.symm hpiece.1]
    | cons c t =>
      specialize ih hpiece.2 t
      by_cases hpc : p = c
      · simpa [hpc] using ih
      · simp [hpc]

/-- Reads the name of an ASCII class with the colon and the bracket behind it. -/
def className? (negated : Bool) (t : Text) : Option (CharSet × Bool × Text) :=
  (Text.afterStart? ":]".toList (t.dropWhile (· ≠ ':'))).bind fun rest =>
    (asciiClasses.find? (·.1.toList == t.takeWhile (· ≠ ':'))).map fun entry =>
      (⟨entry.2⟩, negated, rest)

lemma className?_append_close (negated : Bool) (t : Text) : className? negated (t ++ [')']) =
    (className? negated t).map fun found => (found.1, found.2.1, found.2.2 ++ [')']) := by
  have hclose : ')' ∉ ":]".toList := by decide
  rw [className?, className?]
  rcases hd : t.dropWhile (· ≠ ':') with _ | ⟨d, after⟩
  · have hdrop : (t ++ [')']).dropWhile (· ≠ ':') = [] := by
      rw [List.dropWhile_append, hd]
      rfl
    rw [hdrop]
    rfl
  · obtain ⟨htake, hdrop⟩ := splits_append hd [')']
    rw [htake, hdrop, ← List.cons_append, afterStart?_append_close hclose]
    rcases Text.afterStart? ":]".toList (d :: after) with _ | more
    · rfl
    · rcases asciiClasses.find? _ with _ | entry
      · rfl
      · rfl

lemma asciiClass?_eq (t : Text) : asciiClass? t = (Text.afterStart? [':'] t).bind fun u =>
    if u.head? = some '^' then className? true u.tail else className? false u := by
  have hname : ∀ negated u, className? negated u =
      (Text.afterStart? ":]".toList (u.dropWhile (· ≠ ':'))).bind fun rest =>
        (asciiClasses.find? (·.1.toList == u.takeWhile (· ≠ ':'))).bind fun entry =>
          some (⟨entry.2⟩, negated, rest) := by
    intro negated u
    simp only [className?, Option.map_eq_bind]
    rfl
  rw [asciiClass?]
  rcases Text.afterStart? [':'] t with _ | u
  · rfl
  · simp only [Option.bind_eq_bind, Option.bind_some, hname]
    split
    · rfl
    · rename_i hnot
      rw [if_neg]
      · rfl
      · intro hhead
        obtain ⟨rest, rfl⟩ := List.head?_eq_some_iff.mp hhead
        exact hnot rest rfl

/-- No name of a class ends at a parenthesis. -/
lemma asciiClass?_append_close (t : Text) : asciiClass? (t ++ [')']) =
    (asciiClass? t).map fun found => (found.1, found.2.1, found.2.2 ++ [')']) := by
  rw [asciiClass?_eq, asciiClass?_eq, afterStart?_append_close (by decide)]
  rcases Text.afterStart? [':'] t with _ | u
  · rfl
  · cases u with
    | nil => rfl
    | cons c u =>
      have hhead : (c :: u ++ [')']).head? = (c :: u).head? := rfl
      simp only [Option.map_some, Option.bind_some]
      by_cases hc : (c :: u).head? = some '^'
      · rw [if_pos hc, if_pos (hhead.trans hc)]
        exact className?_append_close true u
      · rw [if_neg hc, if_neg (hhead ▸ hc)]
        exact className?_append_close false (c :: u)

lemma asciiClass?_closes (h : Closes t t') : asciiClass? t = none ∧ asciiClass? t' = none ∨
    ∃ s negated u u', asciiClass? t = some (s, negated, u) ∧ asciiClass? t' = some (s, negated, u') ∧
      Closes u u' := by
  rcases hx : asciiClass? t with _ | ⟨s, negated, u⟩
  · refine Or.inl ⟨rfl, ?_⟩
    rcases h with rfl | rfl
    · exact hx
    · rw [asciiClass?_append_close, hx]
      rfl
  · refine Or.inr ⟨s, negated, u, ?_⟩
    rcases h with rfl | rfl
    · exact ⟨u, rfl, hx, Closes.refl u⟩
    · exact ⟨u ++ [')'], rfl, by rw [asciiClass?_append_close, hx]; rfl, Or.inr rfl⟩

/-! ### Escapes -/

lemma wordEdge?_agree (h : Closes t t') :
    Agree (wordEdge? flags t) (wordEdge? (flags.lines m) t') := by
  have hlines : wordEdge? (flags.lines m) t' = wordEdge? flags t' := rfl
  rw [hlines]
  cases t with
  | nil =>
    rcases h with rfl | rfl
    · exact Agree.some _ (Closes.refl _)
    · exact Agree.some _ (Or.inr rfl)
  | cons c rest =>
    have hwhole := h
    obtain ⟨rest', rfl, hrest⟩ := h.exists_cons
    by_cases hc : c = '\x7b'
    · subst hc
      have hskip := hrest.skip flags
      simp only [wordEdge?]
      generalize skip flags rest = u at hskip ⊢
      generalize skip flags rest' = u' at hskip ⊢
      cases u with
      | nil => exact Agree.none
      | cons d more =>
        obtain ⟨more', rfl, hmore⟩ := hskip.exists_cons
        refine Agree.ite (Agree.some _ hwhole) ?_
        generalize (fun c : Char => c.isAlpha || c == '-' || flags.spaced && Text.isBlank c) = isPart
        rcases hd : (d :: more).dropWhile isPart with _ | ⟨e, after⟩
        · exact Agree.none
        · obtain ⟨htake, after', hd', hafter⟩ := hskip.of_dropWhile hd
          rw [htake, hd']
          by_cases he : e = '\x7d'
          · subst he
            exact Agree.ite (Agree.some _ hafter) (Agree.ite (Agree.some _ hafter)
              (Agree.ite (Agree.some _ hafter) (Agree.ite (Agree.some _ hafter) Agree.none)))
          · split
            · rename_i heq
              cases heq
              exact absurd rfl he
            · exact Agree.none
    · have hnone : ∀ rest : Text, wordEdge? flags (c :: rest) = some (none, c :: rest) := by
        intro rest
        unfold wordEdge?
        split
        · simp_all
        · rfl
      rw [hnone, hnone]
      exact Agree.some _ hwhole

/-- An escape ends before the parenthesis. -/
theorem escape_agree (h : Closes t t') : Agree (escape flags t) (escape (flags.lines m) t') := by
  cases t with
  | nil => exact Agree.none
  | cons c rest =>
    obtain ⟨rest', rfl, hrest⟩ := h.exists_cons
    have hsome : ∀ a : Atom, Agree (some (a, rest)) (some (a, rest')) := fun a => Agree.some a hrest
    rw [escape, escape]
    refine Agree.ite (hexCode_agree hrest 2) (Agree.ite (hexCode_agree hrest 4)
      (Agree.ite (hexCode_agree hrest 8) (Agree.ite
        (Agree.ite (propertyClass_agree hrest _) Agree.none) ?_)))
    refine Agree.ite (hsome _) (Agree.ite (hsome _) (Agree.ite (hsome _) (Agree.ite (hsome _)
      (Agree.ite (hsome _) (Agree.ite (hsome _) (Agree.ite (hsome _) (Agree.ite (hsome _) ?_)))))))
    refine Agree.ite ?_ ?_
    · rcases hx : wordEdge? flags rest with _ | ⟨edge, more⟩
      · exact Agree.none
      · obtain ⟨more', hy, hmore⟩ := wordEdge?_agree (m := m) hrest edge more hx
        rw [hy]
        exact Agree.some _ hmore
    rcases controlEscape? c with _ | d
    · exact Agree.none
    · exact hsome _

/-! ### Bracketed classes -/

lemma hyphens_agree {fuel fuel' : Nat} (h : Closes t t') (hfuel : fuel ≤ fuel') (negated : Bool)
    (s : CharSet) : Agree (openClass.hyphens flags fuel negated s t)
      (openClass.hyphens (flags.lines m) fuel' negated s t') := by
  induction fuel generalizing fuel' s t t' with
  | zero => exact Agree.none
  | succ fuel ih =>
    obtain ⟨fuel', rfl⟩ : ∃ k, fuel' = k + 1 := ⟨fuel' - 1, by omega⟩
    cases t with
    | nil => exact Agree.none
    | cons c rest =>
      have hwhole := h
      obtain ⟨rest', rfl, hrest⟩ := h.exists_cons
      have hskip := hrest.skip flags
      rw [openClass.hyphens, openClass.hyphens, skip_lines]
      refine Agree.ite (ih hskip (by omega) _) (Agree.ite ?_ (Agree.some _ hwhole))
      generalize skip flags rest = u at hskip ⊢
      generalize skip flags rest' = u' at hskip ⊢
      cases u with
      | nil => exact Agree.none
      | cons d more =>
        have hbehind := hskip
        obtain ⟨more', rfl, -⟩ := hskip.exists_cons
        exact Agree.some _ hbehind

lemma openClass_agree (h : Closes t t') :
    Agree (openClass flags t) (openClass (flags.lines m) t') := by
  have hskip := h.skip flags
  have hopen : ∀ negated {u u' : Text}, Closes u u' →
      Agree (openClass.hyphens flags (u.length + 1) negated CharSet.empty u)
        (openClass.hyphens (flags.lines m) (u'.length + 1) negated CharSet.empty u') := by
    intro negated u u' hu
    have hlength := hu.length_le
    exact hyphens_agree hu (by omega) negated _
  rw [openClass, openClass, skip_lines]
  generalize skip flags t = u at hskip ⊢
  generalize skip flags t' = u' at hskip ⊢
  cases u with
  | nil => exact Agree.none
  | cons c rest =>
    have hwhole := hskip
    obtain ⟨rest', rfl, hrest⟩ := hskip.exists_cons
    by_cases hc : c = '^'
    · subst hc
      exact hopen true (hrest.skip flags)
    · simp only [List.cons.injEq, hc, false_and, imp_false, not_false_eq_true, implies_true]
      exact hopen false hwhole

lemma classAtom_agree (h : Closes t t') :
    Agree (classAtom flags t) (classAtom (flags.lines m) t') := by
  cases t with
  | nil => exact Agree.none
  | cons c rest =>
    obtain ⟨rest', rfl, hrest⟩ := h.exists_cons
    exact Agree.ite (escape_agree hrest) (Agree.some _ hrest)

/-- A character or a set inside brackets that starts no range. -/
lemma classAlone_agree (first : Atom) (h : Closes t t') : Agree
    (match first with
      | .set s negated => (finishSet? flags negated s).map (·, t)
      | first => (first.char? flags).map fun c => (CharSet.singleton c, t))
    (match first with
      | .set s negated => (finishSet? (flags.lines m) negated s).map (·, t')
      | first => (first.char? (flags.lines m)).map fun c => (CharSet.singleton c, t')) := by
  have hvalue : ∀ (γ : Type) (o : Option γ) (f : γ → CharSet),
      Agree (o.map fun c => (f c, t)) (o.map fun c => (f c, t')) := by
    intro γ o f
    cases o with
    | none => exact Agree.none
    | some c => exact Agree.some _ h
  cases first with
  | set s negated => exact hvalue _ (finishSet? flags negated s) id
  | _ => exact hvalue _ (Atom.char? flags _) CharSet.singleton

lemma classItem_agree (h : Closes t t') :
    Agree (classItem flags t) (classItem (flags.lines m) t') := by
  rw [classItem, classItem]
  refine (classAtom_agree h).bind fun first u u' hu => ?_
  have hskip := hu.skip flags
  simp only [skip_lines]
  generalize skip flags u = v at hskip ⊢
  generalize skip flags u' = v' at hskip ⊢
  cases v with
  | nil => exact Agree.none
  | cons c rest =>
    have hwhole := hskip
    obtain ⟨rest', rfl, hrest⟩ := hskip.exists_cons
    by_cases hc : c = '-'
    · subst hc
      have hbehind := hrest.skip flags
      simp only
      generalize skip flags rest = w at hbehind ⊢
      generalize skip flags rest' = w' at hbehind ⊢
      cases w with
      | nil => exact Agree.none
      | cons d more =>
        have hrange := hbehind
        obtain ⟨more', rfl, -⟩ := hbehind.exists_cons
        by_cases hclose : d = ']'
        · subst hclose
          exact classAlone_agree first hwhole
        · by_cases hhyphen : d = '-'
          · subst hhyphen
            exact classAlone_agree first hwhole
          · simp only [List.cons.injEq, hclose, hhyphen, false_and, imp_false, not_false_eq_true,
              implies_true]
            refine (classAtom_agree hrange).bind fun second v v' hv => ?_
            refine Agree.bindValue _ fun lo => Agree.bindValue _ fun hi => ?_
            exact Agree.ite (Agree.some _ hv) Agree.none
    · simp only [List.cons.injEq, hc, false_and, imp_false, not_false_eq_true, implies_true]
      exact classAlone_agree first hwhole

/-- An operator character alone is no item, since the class does not end. -/
lemma classItem_singleton (c : Char) : classItem flags [c] = none := by
  by_cases hc : c = '\\'
  · subst hc
    rfl
  · have hatom : classAtom flags [c] = some (.char c, []) := if_neg hc
    simp only [classItem, hatom, Option.bind_eq_bind, Option.bind_some, skip_nil]

/-- Reading of a class goes on alike behind what was read. -/
theorem classFrom_agree {fuel fuel' : Nat} (h : Closes t t') (hfuel : fuel ≤ fuel')
    (outer : List OpenClass) (o : OpenClass) :
    Agree (classFrom flags fuel outer o t) (classFrom (flags.lines m) fuel' outer o t') := by
  induction fuel generalizing fuel' outer o t t' with
  | zero => exact Agree.none
  | succ fuel ih =>
    obtain ⟨fuel', rfl⟩ : ∃ k, fuel' = k + 1 := ⟨fuel' - 1, by omega⟩
    have hle : fuel ≤ fuel' := by omega
    have hskip := h.skip flags
    rw [classFrom, classFrom, skip_lines]
    generalize skip flags t = u at hskip ⊢
    generalize skip flags t' = u' at hskip ⊢
    cases u with
    | nil => exact Agree.none
    | cons c rest =>
      have hwhole := hskip
      obtain ⟨rest', rfl, hrest⟩ := hskip.exists_cons
      by_cases hclose : c = ']'
      · subst hclose
        have hfinish : finishSet? (flags.lines m) o.negated (o.value (flags.lines m)) =
          finishSet? flags o.negated (o.value flags) := rfl
        simp only [hfinish]
        rcases finishSet? flags o.negated (o.value flags) with _ | s
        · exact Agree.none
        · cases outer with
          | nil => exact Agree.some _ hrest
          | cons p outer => exact ih hrest hle outer _
      · by_cases hopen : c = '['
        · subst hopen
          rcases asciiClass?_closes hrest with ⟨hnone, hnone'⟩ | ⟨s, negated, v, v', hsome, hsome', hv⟩
          · simp only [hnone, hnone']
            rcases hx : openClass flags rest with _ | ⟨inner, more⟩
            · exact Agree.none
            · obtain ⟨more', hy, hmore⟩ := openClass_agree (m := m) hrest inner more hx
              rw [hy]
              exact ih hmore hle (o :: outer) inner
          · have hfinish : finishSet? (flags.lines m) negated s = finishSet? flags negated s := rfl
            simp only [hsome, hsome', hfinish]
            rcases finishSet? flags negated s with _ | s
            · exact Agree.none
            · exact ih hv hle outer _
        · cases rest with
          | nil =>
            simp only [List.cons.injEq, hclose, hopen, false_and, imp_false, not_false_eq_true,
              implies_true, classItem_singleton]
            exact Agree.none
          | cons d more =>
            obtain ⟨more', rfl, hmore⟩ := hrest.exists_cons
            by_cases hand : c = '&' ∧ d = '&'
            · obtain ⟨rfl, rfl⟩ := hand
              exact ih hmore hle outer _
            · by_cases hdiff : c = '-' ∧ d = '-'
              · obtain ⟨rfl, rfl⟩ := hdiff
                exact ih hmore hle outer _
              · by_cases hsymm : c = '~' ∧ d = '~'
                · obtain ⟨rfl, rfl⟩ := hsymm
                  exact ih hmore hle outer _
                · simp only [List.cons.injEq, ← and_assoc, hclose, hopen, hand, hdiff, hsymm, false_and,
                    imp_false, not_false_eq_true, implies_true]
                  rcases hx : classItem flags (c :: d :: more) with _ | ⟨s, behind⟩
                  · exact Agree.none
                  · obtain ⟨behind', hy, hbehind⟩ := classItem_agree (m := m) hwhole s behind hx
                    rw [hy]
                    exact ih hbehind hle outer _

/-- A bracketed class ends before the parenthesis. -/
theorem bracketClass_agree (h : Closes t t') :
    Agree (bracketClass flags t) (bracketClass (flags.lines m) t') := by
  rw [bracketClass, bracketClass]
  rcases hx : openClass flags t with _ | ⟨o, rest⟩
  · exact Agree.none
  · obtain ⟨rest', hy, hrest⟩ := openClass_agree (m := m) h o rest hx
    have hlength := hrest.length_le
    rw [hy]
    exact classFrom_agree hrest (by omega) [] o

end Pattern

end Excerpt
