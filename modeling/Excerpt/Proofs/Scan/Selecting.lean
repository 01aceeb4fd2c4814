import Excerpt.Proofs.Pattern.Categories
import Excerpt.Proofs.Pattern.Narrowing
import Excerpt.Proofs.Pattern.Reading
import Excerpt.Proofs.Scan

/-!
# Selected lines

A scanner first selects lines and then takes captures from them, with two forms of its pattern. The
form that selects sees a line as it stands in the file: newlines around it, and the carriage returns
that end it. The form that captures sees the line by itself. Whatever holds for the second form at a
position holds for the first one there, but for the conditions that ask for the end of a line right
where carriage returns follow. So no line from which something is captured is passed over if the
pattern has no such condition or the line does not end so.
-/

namespace Excerpt

open Utf8 (encode)

namespace Pattern

variable {L : Look → Look → Prop} {C : CharSet → CharSet → Prop} {l l' : Look} {p q : Pattern}
  {spot spot' : Spot} {alone returned : Bool}

/-! ### Conditions of a pattern -/

/-- Whether a condition of the pattern is of some kind. -/
def anyLook (kind : Look → Bool) : Pattern → Bool
  | look l => kind l
  | empty | set _ | mark _ => false
  | seq a b | alt a b => a.anyLook kind || b.anyLook kind
  | opt _ r | plus _ r | loop _ r => r.anyLook kind

/-- Whether a condition does not hold in front of a carriage return. -/
def Look.isLineEnd : Look → Bool
  | .textEnd | .lineEnd => true
  | _ => false

/-- Whether a condition of the pattern does not hold in front of a carriage return. -/
def hasLineEnd (p : Pattern) : Bool := p.anyLook Look.isLineEnd

lemma hasTextEdge_eq (p : Pattern) : p.hasTextEdge = p.anyLook Look.isTextEdge := by
  induction p with
  | empty | set | mark | look => rfl
  | seq _ _ iha ihb | alt _ _ iha ihb => rw [hasTextEdge, anyLook, iha, ihb]
  | opt _ _ ih | plus _ _ ih | loop _ _ ih => rw [hasTextEdge, anyLook, ih]

lemma Recast.of_anyLook (h : Recast L C p q) {P : Prop} {kind : Look → Bool}
    (hq : P → q.anyLook kind = false) :
    Recast (fun l l' => L l l' ∧ (P → kind l' = false)) C p q := by
  induction h with
  | empty => exact .empty
  | set hs => exact .set hs
  | look hl => exact .look ⟨hl, hq⟩
  | mark slot => exact .mark slot
  | seq _ _ iha ihb =>
    simp only [anyLook, Bool.or_eq_false_iff] at hq
    exact .seq (iha fun hP => (hq hP).1) (ihb fun hP => (hq hP).2)
  | alt _ _ iha ihb =>
    simp only [anyLook, Bool.or_eq_false_iff] at hq
    exact .alt (iha fun hP => (hq hP).1) (ihb fun hP => (hq hP).2)
  | opt greedy _ ih => exact .opt greedy (ih hq)
  | plus greedy _ ih => exact .plus greedy (ih hq)
  | loop greedy _ ih => exact .loop greedy (ih hq)

/-! ### Positions of a line -/

/-- The condition of the second pattern at a position of a line that stands `alone` or has newlines
around it, and `returned` says whether carriage returns end it. -/
def Look.WidensFor (alone returned : Bool) (l l' : Look) : Prop :=
  l.Widens l' ∧ (alone = false → l'.isTextEdge = false) ∧ (returned = true → l'.isLineEnd = false)

/-- The first position is in a line by itself, the second one is the same in the line as it is
searched. -/
structure Spot.InLine (alone returned : Bool) (spot spot' : Spot) : Prop where
  before : spot'.before = spot.before ∨
    spot.before = none ∧ spot'.before = some (.char '\n') ∧ alone = false
  after : spot'.after = spot.after ∨ spot.after = none ∧
    (spot'.after = some (.char '\n') ∧ alone = false ∨
      spot'.after = some (.char '\r') ∧ returned = true)
  before_ne : spot.before ≠ some (.char '\n')
  after_ne : spot.after ≠ some (.char '\n')
  last : spot.before = some (.char '\r') → spot.after ≠ none

lemma isWord_control {c : Char} (hc : c.toNat < 32) (ascii : Bool) :
    isWord ascii (some (.char c)) = false := by
  cases ascii with
  | true =>
    have hwords : CharSet.StartsAt 32 asciiWordChars.ranges := by
      intro r hr
      simp only [asciiWordChars, List.mem_cons, List.not_mem_nil, or_false] at hr
      rcases hr with rfl | rfl | rfl | rfl <;> omega
    exact hwords.inRanges hc
  | false =>
    rw [isWord, if_neg Bool.false_ne_true]
    exact CharSet.wordChars_contains hc

lemma Spot.InLine.isWord_eq (h : spot.InLine alone returned spot') (ascii : Bool) :
    isWord ascii spot'.before = isWord ascii spot.before ∧
      isWord ascii spot'.after = isWord ascii spot.after := by
  have hnewline := isWord_control (c := '\n') (by decide) ascii
  have hreturn := isWord_control (c := '\r') (by decide) ascii
  constructor
  · rcases h.before with he | ⟨he, he', -⟩
    · rw [he]
    · rw [he, he', hnewline]
      rfl
  · rcases h.after with he | ⟨he, ⟨he', -⟩ | ⟨he', -⟩⟩
    · rw [he]
    · rw [he, he', hnewline]
      rfl
    · rw [he, he', hreturn]
      rfl

lemma Spot.InLine.isBad_eq (h : spot.InLine alone returned spot') :
    isBad spot'.before = isBad spot.before ∧ isBad spot'.after = isBad spot.after := by
  constructor
  · rcases h.before with he | ⟨he, he', -⟩
    · rw [he]
    · rw [he, he']
      rfl
  · rcases h.after with he | ⟨he, ⟨he', -⟩ | ⟨he', -⟩⟩
    · rw [he]
    · rw [he, he']
      rfl
    · rw [he, he']
      rfl

/-- What holds at a position of a line by itself holds there in the line as it is searched. -/
theorem Look.WidensFor.holds (h : l.WidensFor alone returned l')
    (hspot : spot.InLine alone returned spot') (hl : l.holds spot = true) :
    l'.holds spot' = true := by
  obtain ⟨hwidens, hedge, hend⟩ := h
  have hword := hspot.isWord_eq
  have hbad := hspot.isBad_eq
  obtain ⟨hbefore, hafter, hfirst, hnext, hlast⟩ := hspot
  obtain ⟨b, a⟩ := spot
  obtain ⟨b', a'⟩ := spot'
  simp only at hbefore hafter hfirst hnext hlast hword hbad
  cases hwidens with
  | refl =>
    cases l with
    | word edge ascii =>
      simpa only [Look.holds, WordEdge.holds, (hword ascii).1, (hword ascii).2, hbad.1, hbad.2] using hl
    | _ => simp only [Look.holds, Look.isTextEdge, Look.isLineEnd] at *; grind
  | _ => simp only [Look.holds, Look.isTextEdge, Look.isLineEnd] at *; grind

variable {next behind : Option Symbol} {tail : List Symbol} {line : Text} {x : Char}

/-- What follows the line as it is searched: nothing, a newline, or the carriage returns that end
it. -/
def EndsIn (alone returned : Bool) (after : Option Symbol) : Prop :=
  after = none ∨ after = some (.char '\n') ∧ alone = false ∨
    after = some (.char '\r') ∧ returned = true

lemma EndsIn.inLine (h : EndsIn alone returned (tail.head?.or next)) {before before' : Option Symbol}
    (hbefore : before' = before ∨ before = none ∧ before' = some (.char '\n') ∧ alone = false)
    (hnewline : before ≠ some (.char '\n')) (hreturn : before ≠ some (.char '\r')) :
    Spot.InLine alone returned ⟨before, none⟩ ⟨before', tail.head?.or next⟩ where
  before := hbefore
  after := h.imp id fun h => ⟨rfl, h⟩
  before_ne := hnewline
  after_ne := nofun
  last := fun he => absurd he hreturn

/-- Behind a character of a line, conditions hold in the line as it is searched as well. -/
lemma carries_behind (h : EndsIn alone returned (tail.head?.or next)) (hx : x ≠ '\n')
    (hline : '\n' ∉ line) (hlast : (x :: line).getLast? ≠ some '\r') :
    Carries (Look.WidensFor alone returned) none next tail (some (.char x)) (some (.char x))
      (line.map .char) := by
  have hbefore : some (Symbol.char x) ≠ some (.char '\n') := by simpa using hx
  induction line generalizing x with
  | nil =>
    have hreturn : some (Symbol.char x) ≠ some (.char '\r') := by simpa using hlast
    exact fun l l' hl => hl.holds (h.inLine (Or.inl rfl) hbefore hreturn)
  | cons y line ih =>
    rw [List.mem_cons, not_or] at hline
    have hy : some (Symbol.char y) ≠ some (.char '\n') := by simpa using Ne.symm hline.1
    refine ⟨fun l l' hl => hl.holds ⟨Or.inl rfl, Or.inl rfl, hbefore, hy, nofun⟩, ?_⟩
    exact ih (Ne.symm hline.1) hline.2 (by simpa using hlast) hy

/-- Conditions that hold in a line by itself hold in the line as it is searched. -/
lemma carries_line (h : EndsIn alone returned (tail.head?.or next))
    (hbehind : behind = none ∨ behind = some (.char '\n') ∧ alone = false)
    (hline : '\n' ∉ line) (hlast : line.getLast? ≠ some '\r') :
    Carries (Look.WidensFor alone returned) none next tail none behind (line.map .char) := by
  have hbefore : behind = none ∨ (none : Option Symbol) = none ∧
      behind = some (.char '\n') ∧ alone = false := hbehind.imp id fun h => ⟨rfl, h⟩
  cases line with
  | nil => exact fun l l' hl => hl.holds (h.inLine hbefore nofun nofun)
  | cons x line =>
    rw [List.mem_cons, not_or] at hline
    have hx : some (Symbol.char x) ≠ some (.char '\n') := by simpa using Ne.symm hline.1
    exact ⟨fun l l' hl => hl.holds ⟨hbefore, Or.inl rfl, nofun, hx, nofun⟩,
      carries_behind h (Ne.symm hline.1) hline.2 hlast⟩

end Pattern

/-! ### Scanners -/

namespace Scanner

open Pattern

variable {sc : Scanner} {pattern t line v : Text}

/-- The pattern that selects lines is the one that captures, with conditions about lines and without
newlines. -/
lemma recast_of_ofText (h : ofText? pattern = some sc) :
    Recast Look.Widens NarrowsTo sc.capture sc.select ∧ sc.alone = sc.select.hasTextEdge := by
  obtain ⟨select, hselect, h⟩ := Option.bind_eq_some_iff.mp h
  obtain ⟨capture, hcapture, h⟩ := Option.bind_eq_some_iff.mp h
  cases h
  obtain ⟨q, hq, hnarrow⟩ := Option.bind_eq_some_iff.mp hselect
  have hread : parse? true pattern = some q ∨
      parse? true ("(?:".toList ++ pattern ++ [')']) = some q := by
    split at hq
    · exact Or.inl hq
    · exact Or.inr hq
  refine ⟨?_, rfl⟩
  refine ((widens_of_parse hcapture hread).trans (recast_of_withoutNewline hnarrow)).mono ?_ ?_
  · rintro l l' ⟨k, hk, rfl⟩
    exact hk
  · rintro s s' ⟨u, rfl, hu⟩
    exact hu

/-- The conditions of a line by itself and of the line as it is searched. -/
lemma recast_widensFor {returned : Bool} (h : ofText? pattern = some sc)
    (hend : returned = true → sc.select.hasLineEnd = false) :
    Recast (Look.WidensFor sc.alone returned) NarrowsTo sc.capture sc.select := by
  obtain ⟨hrecast, halone⟩ := recast_of_ofText h
  rw [hasTextEdge_eq] at halone
  have hedge : sc.alone = false → sc.select.anyLook Look.isTextEdge = false :=
    fun he => halone.symm.trans he
  refine ((hrecast.of_anyLook hedge).of_anyLook hend).mono ?_ fun _ _ h => h
  rintro l l' ⟨⟨hwidens, hedge⟩, hend⟩
  exact ⟨hwidens, hedge, hend⟩

lemma exists_dropped (p : Char → Bool) (t : Text) :
    ∃ tail, t = Text.dropEndWhile p t ++ tail ∧ ∀ c ∈ tail, p c = true := by
  refine ⟨(t.reverse.takeWhile p).reverse, ?_, ?_⟩
  · rw [Text.dropEndWhile, ← List.reverse_append, List.takeWhile_append_dropWhile,
      List.reverse_reverse]
  · intro c hc
    exact List.mem_takeWhile_imp (List.mem_reverse.mp hc)

lemma getLast?_dropEndWhile {p : Char → Bool} {c : Char} (hc : p c = true) (t : Text) :
    (Text.dropEndWhile p t).getLast? ≠ some c := by
  intro h
  rw [Text.dropEndWhile, List.getLast?_reverse] at h
  have hnot := List.head?_dropWhile_not p t.reverse
  rw [h] at hnot
  exact absurd hc (by simpa using hnot)

/-- A line from which something is captured is selected, if no condition of the pattern asks for its
end in front of a carriage return. -/
lemma selects_of_capturesIn (hsc : ofText? pattern = some sc) (hline : '\n' ∉ line)
    (hend : sc.select.hasLineEnd = false ∨ line.getLast? ≠ some '\r')
    (h : sc.capturesIn (Text.dropEndWhile (fun c => c == '\r' || c == '\n') line) ≠ [])
    (terminated : Bool) : sc.selects (encode line) terminated = true := by
  obtain ⟨v, hv⟩ := List.exists_mem_of_ne_nil _ h
  obtain ⟨m, hm, -⟩ := List.mem_filterMap.mp hv
  have hfound := completesIn_of_mem_matchesIn hm
  have hlast := getLast?_dropEndWhile (p := fun c => c == '\r' || c == '\n') (c := '\r') rfl line
  obtain ⟨tail, heq, htail⟩ := exists_dropped (fun c => c == '\r' || c == '\n') line
  generalize Text.dropEndWhile (fun c => c == '\r' || c == '\n') line = short at heq hfound hlast
  subst heq
  rw [List.mem_append, not_or] at hline
  have hreturn : ∀ c ∈ tail, c = '\r' := by
    intro c hc
    have hne : c ≠ '\n' := fun he => hline.2 (he ▸ hc)
    simpa [hne] using htail c hc
  have hends : (!tail.isEmpty) = true → sc.select.hasLineEnd = false := by
    intro hne
    refine hend.resolve_right fun hnot => hnot ?_
    have hne' : tail ≠ [] := by simpa using hne
    rw [List.getLast?_append_of_ne_nil _ hne', List.getLast?_eq_some_getLast hne',
      hreturn _ (List.getLast_mem hne')]
  have hafter : EndsIn sc.alone (!tail.isEmpty) ((tail.map Symbol.char).head?.or
      (if !sc.alone && terminated then some (.char '\n') else none)) := by
    cases tail with
    | nil =>
      cases sc.alone <;> cases terminated <;> simp [EndsIn]
    | cons c tail => simp [EndsIn, hreturn c List.mem_cons_self]
  have hbehind : (if sc.alone then none else some (Symbol.char '\n')) = none ∨
      (if sc.alone then none else some (Symbol.char '\n')) = some (.char '\n') ∧
        sc.alone = false := by
    cases sc.alone <;> simp
  rw [selects, Utf8.symbols_encode, occursIn, search_isSome_iff, List.map_append]
  refine hfound.recast (recast_widensFor hsc hends) (P := (· ≠ '\n')) (fun _ _ hs => hs) ?_
    (carries_line hafter hbehind hline.1 hlast)
  rintro c hc rfl
  obtain ⟨d, hd, he⟩ := List.mem_map.mp hc
  cases he
  exact hline.1 hd

/-- Leaving out what contributes nothing changes nothing. -/
lemma flatMap_filter {α β γ : Type} {p : α → Bool} {f : α → β} {g : β → List γ} {as : List α}
    (h : ∀ a ∈ as, g (f a) ≠ [] → p a = true) :
    ((as.filter p).map f).flatMap g = (as.map f).flatMap g := by
  induction as with
  | nil => rfl
  | cons a as ih =>
    have hrest := ih fun b hb => h b (List.mem_cons_of_mem _ hb)
    cases hp : p a with
    | true => simp [hp, hrest]
    | false =>
      have hnone : g (f a) = [] := by
        by_contra hne
        exact absurd (h a List.mem_cons_self hne) (by simp [hp])
      simp [hp, hrest, hnone]

/-- What is captured in a file is captured in the lines of its text, in their order. -/
lemma captures_eq (hsc : ofText? pattern = some sc) (ht : '\x00' ∉ t)
    (hend : ∀ l ∈ Text.cutLines '\n' t.withoutMark,
      sc.select.hasLineEnd = false ∨ l.1.getLast? ≠ some '\r') :
    sc.captures (encode t) = (textLines t).flatMap sc.capturesIn := by
  rw [captures, selectedLines, cutLines_searched ht, flatMap_filter]
  · simp only [textLines, List.map_map, Function.comp_def, lineText_encode]
  · intro l hl hne
    obtain ⟨l, hmem, rfl⟩ := List.mem_map.mp hl
    rw [lineText_encode] at hne
    exact selects_of_capturesIn hsc (newline_notMem_of_cutLines hmem) (hend l hmem) hne l.2

end Scanner

end Excerpt
