import Excerpt.Proofs.Pattern.Building
import Excerpt.Proofs.Pattern.Preference

/-!
# Ways through sequences

One equation for each kind of piece that a sequence can start with: a condition, a mark, a character
of a set, a word, and greedy repetitions of the characters of a set. Where what follows a repetition
cannot start with one of its characters, or succeeds behind all of them, the repetition takes the
longest run.
-/

namespace Excerpt

namespace Pattern

variable {a b p q : Pattern} {l : Look} {s : CharSet} {slot index : Nat} {marks : Marks}
  {here : Cursor} {spot : Spot} {next behind : Option Symbol} {subject rest : List Symbol}
  {c : Char} {t v w : Text}

/-! ### Putting sequences together -/

/-- What a sequence can do first when its first part starts with a move. -/
def Move.followedBy (spot : Spot) (b : Pattern) : Move → List Move
  | .done slots => (b.front spot).map (Move.after slots)
  | .step slots s rest => [.step slots s (andThen rest b)]

lemma front_seq (a b : Pattern) (spot : Spot) :
    (seq a b).front spot = (a.front spot).flatMap (Move.followedBy spot b) := rfl

@[simp] lemma Move.after_nil (m : Move) : m.after [] = m := by cases m <;> rfl

lemma front_seq_empty (a : Pattern) (spot : Spot) : (seq a empty).front spot = a.front spot := by
  have hmove : Move.followedBy spot empty = fun m => [m] := by
    funext m
    cases m with
    | done slots => simp [Move.followedBy, front, Move.after]
    | step slots s rest => rw [Move.followedBy, andThen_empty]
  rw [front_seq, hmove, List.flatMap_singleton']

lemma front_andThen (a b : Pattern) (spot : Spot) :
    (andThen a b).front spot = (seq a b).front spot := by
  by_cases ha : a = empty
  · subst ha
    have hafter : Move.after [] = id := funext Move.after_nil
    rw [front_seq, front, List.flatMap_singleton, Move.followedBy, hafter, List.map_id]
    rfl
  by_cases hb : b = empty
  · rw [hb, andThen_empty, front_seq_empty]
  · rw [andThen_of_ne ha hb]

/-- A way depends on what the pattern can do first. -/
lemma firstWay_congr (h : ∀ spot, a.front spot = b.front spot) :
    firstWay next subject ⟨a, marks⟩ behind index =
      firstWay next subject ⟨b, marks⟩ behind index := by
  rw [firstWay_eq, firstWay_eq, h]

lemma firstWay_andThen : firstWay next subject ⟨andThen a b, marks⟩ behind index =
    firstWay next subject ⟨seq a b, marks⟩ behind index := firstWay_congr (front_andThen a b)

/-- A pattern by itself is one that nothing follows. -/
lemma firstWay_alone : firstWay next subject ⟨a, marks⟩ behind index =
    firstWay next subject ⟨seq a empty, marks⟩ behind index :=
  firstWay_congr fun spot => (front_seq_empty a spot).symm

lemma record_append (here : Cursor) (slots more : List Nat) (marks : Marks) :
    record here (slots ++ more) marks = record here more (record here slots marks) :=
  List.foldl_append

/-- Marks before a move are recorded before its own. -/
lemma outcome_after (slots : List Nat) (follow : CharSet × Thread → Option Match) (m : Move) :
    (m.after slots).outcome here marks follow =
      m.outcome here (record here slots marks) follow := by
  cases m <;> simp only [Move.after, Move.outcome, record_append]

lemma findSome?_after (slots : List Nat) (follow : CharSet × Thread → Option Match)
    (moves : List Move) :
    (moves.map (Move.after slots)).findSome? (Move.outcome here marks follow) =
      moves.findSome? (Move.outcome here (record here slots marks) follow) := by
  rw [List.findSome?_map]
  exact congrFun (congrArg _ (funext (outcome_after slots follow))) moves

lemma findSome?_followedBy_after (slots : List Nat) (follow : CharSet × Thread → Option Match)
    (m : Move) : ((m.after slots).followedBy spot b).findSome? (Move.outcome here marks follow) =
      (m.followedBy spot b).findSome? (Move.outcome here (record here slots marks) follow) := by
  cases m with
  | done more => rw [Move.after, Move.followedBy, Move.followedBy, findSome?_after, findSome?_after,
      record_append]
  | step more s rest =>
    rw [Move.after, Move.followedBy, Move.followedBy, List.findSome?_singleton,
      List.findSome?_singleton, Move.outcome, Move.outcome, record_append]

lemma findSome?_flatMap {α β γ : Type} (f : α → List β) (g : β → Option γ) (as : List α) :
    (as.flatMap f).findSome? g = as.findSome? fun a => (f a).findSome? g := by
  simp only [← List.head?_filterMap, List.filterMap_flatMap, List.head?_flatMap]

/-- The first moves of a sequence lead to the same in other parentheses if what their steps go on
with does. -/
lemma findSome?_assoc {follow : CharSet × Thread → Option Match}
    (h : ∀ s rest marks, follow (s, ⟨andThen (andThen rest b) q, marks⟩) =
      follow (s, ⟨andThen rest (seq b q), marks⟩)) :
    ((seq (seq a b) q).front spot).findSome? (Move.outcome here marks follow) =
      ((seq a (seq b q)).front spot).findSome? (Move.outcome here marks follow) := by
  rw [front_seq, front_seq a b, front_seq a (seq b q), List.flatMap_assoc, findSome?_flatMap,
    findSome?_flatMap]
  congr 1
  funext m
  cases m with
  | done slots =>
    simp only [Move.followedBy]
    rw [List.flatMap_map, findSome?_flatMap, findSome?_after, front_seq, findSome?_flatMap]
    congr 1
    funext m
    exact findSome?_followedBy_after slots follow m
  | step slots s rest =>
    simp only [Move.followedBy, List.flatMap_singleton, List.findSome?_singleton, Move.outcome, h]

/-- Sequences may be put into other parentheses. -/
lemma firstWay_assoc (hb : b ≠ empty) (hq : q ≠ empty) :
    firstWay next subject ⟨seq (seq a b) q, marks⟩ behind index =
      firstWay next subject ⟨seq a (seq b q), marks⟩ behind index := by
  induction subject generalizing a marks behind index with
  | nil => rw [firstWay_eq, firstWay_eq, findSome?_assoc fun _ _ _ => rfl]
  | cons symbol more ih =>
    -- What the steps go on with differs in its parentheses only, and has a symbol less before it.
    rw [firstWay_eq, firstWay_eq, findSome?_assoc]
    intro s rest marks
    have hrest : firstWay next more ⟨andThen (andThen rest b) q, marks⟩ (some symbol) (index + 1) =
        firstWay next more ⟨andThen rest (seq b q), marks⟩ (some symbol) (index + 1) := by
      by_cases hempty : rest = empty
      · rw [hempty]
        exact congrArg (firstWay next more ⟨·, marks⟩ _ _) (andThen_of_ne hb hq)
      · rw [andThen_of_ne hempty hb, firstWay_andThen, firstWay_andThen, ih]
    simp only [followStep, hrest]

/-! ### Conditions and marks -/

lemma firstWay_empty : firstWay next subject ⟨empty, marks⟩ behind index =
    some (finish ⟨index, subject⟩ marks) := by
  rw [firstWay_eq]
  rfl

/-- A mark is recorded at the position. -/
lemma firstWay_mark : firstWay next subject ⟨seq (mark slot) q, marks⟩ behind index =
    firstWay next subject ⟨q, record ⟨index, subject⟩ [slot] marks⟩ behind index := by
  rw [firstWay_eq, firstWay_eq, front_seq_mark, findSome?_after]

lemma firstWay_look : firstWay next subject ⟨seq (look l) q, marks⟩ behind index =
    if l.holds ⟨behind, subject.head?.or next⟩ then firstWay next subject ⟨q, marks⟩ behind index
    else none := by
  rw [firstWay_eq, firstWay_eq, front_seq, front]
  split
  · rw [List.flatMap_singleton, Move.followedBy, findSome?_after]
    rfl
  · rfl

/-- A group records where it starts, and then where it ends. -/
lemma firstWay_group (hq : q ≠ empty) :
    firstWay next subject ⟨seq (group slot a) q, marks⟩ behind index =
      firstWay next subject ⟨seq a (seq (mark (2 * slot + 1)) q),
        record ⟨index, subject⟩ [2 * slot] marks⟩ behind index := by
  rw [group, firstWay_assoc (by simp) hq, firstWay_mark, firstWay_assoc (by simp) hq]

/-! ### Characters -/

lemma firstWay_set_nil : firstWay next [] ⟨seq (set s) q, marks⟩ behind index = none := by
  rw [firstWay_eq, front_seq, front]
  rfl

lemma firstWay_set_cons : firstWay next (.char c :: rest) ⟨seq (set s) q, marks⟩ behind index =
    if s.contains c then firstWay next rest ⟨q, marks⟩ (some (.char c)) (index + 1) else none := by
  rw [firstWay_eq, front_seq, front]
  simp [Move.followedBy, Move.outcome, followStep, takes, record, andThen]

/-- The symbol in front of a position behind a text. -/
def behindText (behind : Option Symbol) (t : Text) : Option Symbol :=
  t.foldl (fun _ c => some (.char c)) behind

/-- A word, and then something else. -/
def spell (w : Text) (q : Pattern) : Pattern := w.foldr (fun c q => seq (set (.singleton c)) q) q

lemma contains_singleton {d : Char} : (CharSet.singleton c).contains d = true ↔ d = c := by
  have hle : c.toNat ≤ d.toNat ∧ d.toNat ≤ c.toNat ↔ d = c := by
    rw [← Char.toNat_inj]
    omega
  simpa [CharSet.singleton, CharSet.contains, CharSet.inRanges] using hle

lemma firstWay_spell_append :
    firstWay next ((w ++ v).map .char) ⟨spell w q, marks⟩ behind index =
      firstWay next (v.map .char) ⟨q, marks⟩ (behindText behind w) (index + w.length) := by
  induction w generalizing behind index with
  | nil => rfl
  | cons c w ih =>
    rw [spell, List.foldr_cons, List.cons_append, List.map_cons, firstWay_set_cons,
      if_pos (contains_singleton.mpr rfl)]
    exact ih.trans (by rw [List.length_cons, Nat.add_right_comm, Nat.add_assoc]; rfl)

lemma firstWay_spell_eq_none (h : ¬ w <+: t) :
    firstWay next (t.map .char) ⟨spell w q, marks⟩ behind index = none := by
  induction w generalizing t behind index with
  | nil => exact absurd t.nil_prefix h
  | cons c w ih =>
    cases t with
    | nil => exact firstWay_set_nil
    | cons d t =>
      rw [spell, List.foldr_cons, List.map_cons, firstWay_set_cons]
      split
      · rename_i hd
        rw [contains_singleton.mp hd] at h
        exact ih fun hw => h (List.cons_prefix_cons.mpr ⟨rfl, hw⟩)
      · rfl

/-! ### Repetitions -/

lemma front_seq_loop (s : CharSet) (q : Pattern) (spot : Spot) :
    (seq (loop true (set s)) q).front spot =
      .step [] s (andThen (loop true (set s)) q) :: q.front spot := by
  have hafter : Move.after [] = id := funext Move.after_nil
  have hloop : (loop true (set s)).front spot = [.step [] s (loop true (set s)), .done []] := rfl
  rw [front_seq, hloop, List.flatMap_cons, List.flatMap_singleton]
  simp only [Move.followedBy, hafter, List.map_id, List.singleton_append]

lemma firstWay_loop_nil : firstWay next [] ⟨seq (loop true (set s)) q, marks⟩ behind index =
    firstWay next [] ⟨q, marks⟩ behind index := by
  rw [firstWay_eq, firstWay_eq, front_seq_loop]
  rfl

/-- A repetition prefers one more character to none. -/
lemma firstWay_loop_cons :
    firstWay next (.char c :: rest) ⟨seq (loop true (set s)) q, marks⟩ behind index =
      (if s.contains c then
        firstWay next rest ⟨seq (loop true (set s)) q, marks⟩ (some (.char c)) (index + 1)
      else none).or (firstWay next (.char c :: rest) ⟨q, marks⟩ behind index) := by
  rw [firstWay_eq, firstWay_eq next _ ⟨q, marks⟩, front_seq_loop, List.findSome?_cons]
  simp only [Move.outcome, followStep, takes, record, List.foldl_nil, firstWay_andThen]
  split <;> simp_all

/-- One or more characters are a first one and any number of others. -/
lemma firstWay_plus : firstWay next subject ⟨seq (plus true (set s)) q, marks⟩ behind index =
    firstWay next subject ⟨seq (set s) (seq (loop true (set s)) q), marks⟩ behind index := by
  have hfront : ∀ spot, (seq (plus true (set s)) q).front spot =
      [.step [] s (andThen (loop true (set s)) q)] := fun _ => rfl
  have hfront' : ∀ spot, (seq (set s) (seq (loop true (set s)) q)).front spot =
      [.step [] s (seq (loop true (set s)) q)] := fun _ => rfl
  rw [firstWay_eq, firstWay_eq, hfront, hfront', List.findSome?_singleton, List.findSome?_singleton]
  cases subject with
  | nil => rfl
  | cons => simp only [Move.outcome, followStep, firstWay_andThen]

/-- Nothing that starts with a character of the set can complete. -/
def FailsAt (s : CharSet) (q : Pattern) : Prop :=
  ∀ {next c rest marks behind index}, s.contains c = true →
    firstWay next (.char c :: rest) ⟨q, marks⟩ behind index = none

lemma failsAt_set {s' : CharSet} (h : ∀ c, s.contains c = true → s'.contains c = false) :
    FailsAt s (seq (set s') q) := by
  intro next c rest marks behind index hc
  rw [firstWay_set_cons, if_neg (by rw [h c hc]; exact Bool.false_ne_true)]

lemma failsAt_plus {s' : CharSet} (h : ∀ c, s.contains c = true → s'.contains c = false) :
    FailsAt s (seq (plus true (set s')) q) := by
  intro next c rest marks behind index hc
  rw [firstWay_plus, failsAt_set h hc]

lemma FailsAt.alone (h : FailsAt s (seq q empty)) : FailsAt s q := by
  intro next c rest marks behind index hc
  rw [firstWay_alone, h hc]

lemma FailsAt.mark (h : FailsAt s q) : FailsAt s (seq (mark slot) q) := by
  intro next c rest marks behind index hc
  rw [firstWay_mark, h hc]

lemma FailsAt.loop {s' : CharSet} (h : FailsAt s q)
    (hs : ∀ c, s.contains c = true → s'.contains c = false) :
    FailsAt s (seq (loop true (set s')) q) := by
  intro next c rest marks behind index hc
  rw [firstWay_loop_cons, if_neg (by rw [hs c hc]; exact Bool.false_ne_true), h hc]
  rfl

/-- A repetition takes the longest run of characters, if what follows it succeeds there or fails
within. -/
lemma firstWay_loop (h : FailsAt s q ∨
      (firstWay next ((t.dropWhile s.contains).map .char) ⟨q, marks⟩
        (behindText behind (t.takeWhile s.contains))
        (index + (t.takeWhile s.contains).length)).isSome = true) :
    firstWay next (t.map .char) ⟨seq (loop true (set s)) q, marks⟩ behind index =
      firstWay next ((t.dropWhile s.contains).map .char) ⟨q, marks⟩
        (behindText behind (t.takeWhile s.contains))
        (index + (t.takeWhile s.contains).length) := by
  induction t generalizing behind index with
  | nil => exact firstWay_loop_nil
  | cons c t ih =>
    rw [List.map_cons, firstWay_loop_cons]
    by_cases hc : s.contains c = true
    · rw [List.dropWhile_cons_of_pos hc, List.takeWhile_cons_of_pos hc, List.length_cons] at h ⊢
      rw [← Nat.add_assoc, Nat.add_right_comm] at h ⊢
      rw [if_pos hc, ih h]
      rcases h with h | h
      · rw [h hc, Option.or_none]
        rfl
      · exact Option.or_of_isSome h
    · rw [if_neg hc, List.dropWhile_cons_of_neg hc, List.takeWhile_cons_of_neg hc]
      rfl

/-- A repetition may stop behind any number of characters. -/
lemma firstWay_loop_isSome_iff :
    (firstWay next (t.map .char) ⟨seq (loop true (set s)) q, marks⟩ behind index).isSome = true ↔
      ∃ u v, t = u ++ v ∧ (∀ c ∈ u, s.contains c = true) ∧
        (firstWay next (v.map .char) ⟨q, marks⟩ (behindText behind u)
          (index + u.length)).isSome = true := by
  induction t generalizing behind index with
  | nil =>
    rw [List.map_nil, firstWay_loop_nil]
    constructor
    · exact fun h => ⟨[], [], rfl, by simp, h⟩
    · rintro ⟨u, v, huv, -, h⟩
      obtain ⟨rfl, rfl⟩ := List.append_eq_nil_iff.mp huv.symm
      exact h
  | cons c t ih =>
    rw [List.map_cons, firstWay_loop_cons, Option.isSome_or, Bool.or_eq_true]
    constructor
    · rintro (h | h)
      · split at h
        · rename_i hc
          obtain ⟨u, v, rfl, hu, hv⟩ := ih.mp h
          refine ⟨c :: u, v, rfl, by simpa [hc] using hu, ?_⟩
          rwa [List.length_cons, Nat.add_comm u.length, ← Nat.add_assoc]
        · cases h
      · exact ⟨[], c :: t, rfl, by simp, h⟩
    · rintro ⟨u, v, huv, hu, hv⟩
      cases u with
      | nil =>
        cases huv
        exact Or.inr hv
      | cons d u =>
        cases huv
        rw [if_pos (hu c List.mem_cons_self)]
        refine Or.inl (ih.mpr ⟨u, v, rfl, fun d hd => hu d (List.mem_cons_of_mem _ hd), ?_⟩)
        rwa [List.length_cons, Nat.add_comm u.length, ← Nat.add_assoc] at hv

/-! ### Groups of a match -/

lemma textBetween_append {stop : List Symbol} :
    textBetween ⟨index, (t ++ v).map .char⟩ ⟨index + t.length, stop⟩ = t := by
  have htake : ((t ++ v).map Symbol.char).take t.length = t.map .char := by
    rw [List.map_append, List.take_left' (List.length_map _)]
  rw [textBetween, Nat.add_sub_cancel_left, htake, List.filterMap_map]
  exact List.filterMap_some

/-- A group that starts in front of a text and ends behind it holds the text. -/
lemma group?_finish {stop : Cursor} {rest : List Symbol} (hslot : slot ≠ 0) :
    (finish stop (record ⟨index + t.length, rest⟩ [2 * slot + 1]
      (record ⟨index, (t ++ v).map .char⟩ [2 * slot] marks))).group? slot = some t := by
  have hopen : 2 * slot ≠ 2 * slot + 1 := by omega
  rw [Match.group?, if_neg hslot, finish]
  simp only [record, List.foldl_cons, List.foldl_nil]
  rw [lookup_record_one, if_neg hopen, lookup_record_one, if_pos rfl, lookup_record_one, if_pos rfl]
  exact congrArg some textBetween_append

/-! ### Leftmost matches -/

/-- A pattern that asks for the start of the text matches nowhere else. -/
lemma leftmost_textStart {symbol : Symbol} :
    leftmost next (andThen (mark slot) (seq (look .textStart) q)) subject (some symbol) index =
      none := by
  have hnone : ∀ symbol index subject, firstWay next subject
      ⟨andThen (mark slot) (seq (look .textStart) q), []⟩ (some symbol) index = none := by
    intro symbol index subject
    rw [firstWay_andThen, firstWay_mark, firstWay_look]
    rfl
  induction subject generalizing symbol index with
  | nil => exact hnone symbol index []
  | cons symbol' rest ih => rw [leftmost, hnone, ih, Option.none_or]

lemma leftmost_isSome_iff : (leftmost next p (t.map .char) behind index).isSome = true ↔
    ∃ u v, t = u ++ v ∧ (firstWay next (v.map .char) ⟨p, []⟩ (behindText behind u)
      (index + u.length)).isSome = true := by
  induction t generalizing behind index with
  | nil =>
    constructor
    · exact fun h => ⟨[], [], rfl, h⟩
    · rintro ⟨u, v, huv, h⟩
      obtain ⟨rfl, rfl⟩ := List.append_eq_nil_iff.mp huv.symm
      exact h
  | cons c t ih =>
    rw [List.map_cons, leftmost, Option.isSome_or, Bool.or_eq_true, ih]
    constructor
    · rintro (h | ⟨u, v, rfl, h⟩)
      · exact ⟨[], c :: t, rfl, h⟩
      · refine ⟨c :: u, v, rfl, ?_⟩
        rwa [List.length_cons, Nat.add_comm u.length, ← Nat.add_assoc]
    · rintro ⟨u, v, huv, h⟩
      cases u with
      | nil =>
        cases huv
        exact Or.inl h
      | cons d u =>
        cases huv
        refine Or.inr ⟨u, v, rfl, ?_⟩
        rwa [List.length_cons, Nat.add_comm u.length, ← Nat.add_assoc] at h

end Pattern

end Excerpt
