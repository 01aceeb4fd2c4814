import Excerpt.Proofs.Pattern.Sequences
import Excerpt.Proofs.Scan.Selecting
import Excerpt.Proofs.Store.WellFormed
import Excerpt.Proofs.Text.Pieces
import Excerpt.Script

/-!
# Candidates of launcher scripts

With the settings that nobody changed, the candidates of a script come from the first line that
calls the runtime: its runs of letters, digits and four signs are looked at one by one, and each
gives what it has from the first character that a name can start with, if a dot is inside. The
search for names walks over the line with all its ways at once, yet it never goes back: a run that
gives nothing gives nothing from a later character either, and a run that gives something is used
up.
-/

namespace Excerpt

open Utf8 (encode)
open Store (locationOf plainMode)

namespace Script

variable {line run r t name : Text} {c : Char} {index : Nat} {behind : Option Symbol}

/-! ### Names in a line -/

/-- The characters that a name can start with. -/
def isStart (c : Char) : Bool := c.isAlpha || c == '_' || c == '$'

/-- The characters of a name before its first dot. -/
def isInner (c : Char) : Bool := isStart c || c.isDigit || c == '-'

/-- The characters of a name. -/
def isDotted (c : Char) : Bool := isInner c || c == '.'

/-- The maximal runs of characters of names. -/
def runs (line : Text) : List Text := (Text.splitOn (!isDotted ·) line).filter (!·.isEmpty)

/-- What a run has from the first character that a name can start with, if there is a dot behind
that character and the first such dot is not the last character of the run. -/
def candidate? (run : Text) : Option Text :=
  let tail := run.dropWhile (!isStart ·)
  if 2 ≤ (tail.dropWhile (· != '.')).length then some tail else none

/-- The candidates of a line, in the order of its runs. -/
def lineCandidates (line : Text) : List Text := (runs line).filterMap candidate?

/-- The candidates of the first line of a text that calls the runtime. -/
def launched (t : Text) : List Text :=
  match (Text.splitOn (· == '\n') t).find? (Text.hasPiece "bin/java".toList) with
  | none => []
  | some line => lineCandidates line

lemma isInner_of_isStart (h : isStart c = true) : isInner c = true := by simp [isInner, h]

lemma isDotted_of_isInner (h : isInner c = true) : isDotted c = true := by simp [isDotted, h]

lemma ne_dot_of_isInner (h : isInner c = true) : c ≠ '.' := by
  rintro rfl
  exact absurd h (by decide)

lemma isInner_or_eq_dot (h : isDotted c = true) : isInner c = true ∨ c = '.' := by
  simpa [isDotted] using h

lemma candidate?_cons_of_start (hc : isStart c = true) : candidate? (c :: run) =
    if 2 ≤ (run.dropWhile (· != '.')).length then some (c :: run) else none := by
  have hdot : (c != '.') = true := by simpa using ne_dot_of_isInner (isInner_of_isStart hc)
  rw [candidate?, List.dropWhile_cons_of_neg (by simp [hc])]
  simp only [List.dropWhile_cons_of_pos (p := (· != '.')) hdot]

lemma candidate?_cons_of_not_start (hc : isStart c = false) :
    candidate? (c :: run) = candidate? run := by
  rw [candidate?, candidate?, List.dropWhile_cons_of_pos (by simp [hc])]

/-- A candidate is the end of its run. -/
lemma isSuffix_of_candidate? (h : candidate? run = some name) : name <:+ run ∧ name ≠ [] := by
  simp only [candidate?, Option.ite_none_right_eq_some, Option.some.injEq] at h
  obtain ⟨hlong, rfl⟩ := h
  refine ⟨List.dropWhile_suffix _, fun hnil => ?_⟩
  rw [hnil] at hlong
  cases hlong

lemma length_dropWhile_append_le {p : Char → Bool} (front rest : Text) :
    (rest.dropWhile p).length ≤ ((front ++ rest).dropWhile p).length := by
  have hle : (rest.dropWhile p).length ≤ rest.length := (List.dropWhile_suffix p).length_le
  rw [List.dropWhile_append]
  split
  · exact Nat.le_refl _
  · rw [List.length_append]
    omega

/-- What has no candidate from its first character has none from a later one. -/
lemma candidate?_eq_none_of_cons (h : candidate? (c :: run) = none) : candidate? run = none := by
  by_cases hc : isStart c = true
  · rw [candidate?_cons_of_start hc, ite_eq_right_iff] at h
    have hshort : ¬ 2 ≤ (run.dropWhile (· != '.')).length := fun hlong => by cases h hlong
    have hle := length_dropWhile_append_le (p := (· != '.')) (run.takeWhile (!isStart ·))
      (run.dropWhile (!isStart ·))
    rw [List.takeWhile_append_dropWhile] at hle
    rw [candidate?, if_neg fun hlong => hshort (Nat.le_trans hlong hle)]
  · rwa [candidate?_cons_of_not_start (by simpa using hc)] at h

lemma lineCandidates_eq (line : Text) :
    lineCandidates line = (Text.splitOn (!isDotted ·) line).filterMap candidate? := by
  rw [lineCandidates, runs, List.filterMap_filter]
  congr 1
  funext run
  cases run <;> rfl

/-! ### The patterns of the settings -/

/-- The first characters of names, as a set. -/
def startSet : CharSet := ⟨[(36, 36), (65, 90), (95, 95), (97, 122)]⟩

/-- The characters of names before the first dot, as a set. -/
def innerSet : CharSet := ⟨[(36, 36), (45, 45), (48, 57), (65, 90), (95, 95), (97, 122)]⟩

/-- The characters of names, as a set. -/
def dottedSet : CharSet := ⟨[(36, 36), (45, 46), (48, 57), (65, 90), (95, 95), (97, 122)]⟩

/-- The characters that lines consist of. -/
def lineSet : CharSet := ⟨[(0, 9), (11, 55295), (57344, 1114111)]⟩

lemma startSet_contains (c : Char) : startSet.contains c = isStart c := by
  have heq : ∀ d : Char, c = d ↔ c.toNat = d.toNat := fun d => Char.toNat_inj.symm
  have halpha : c.isAlpha = (c.isUpper || c.isLower) := rfl
  have hupper : c.isUpper = decide (65 ≤ c.val ∧ c.val ≤ 90) := rfl
  have hlower : c.isLower = (decide (97 ≤ c.val) && decide (c.val ≤ 122)) := rfl
  rw [Bool.eq_iff_iff]
  simp [startSet, CharSet.contains, CharSet.inRanges, isStart, halpha, hupper, hlower, heq,
    UInt32.le_iff_toNat_le]
  omega

lemma innerSet_contains (c : Char) : innerSet.contains c = isInner c := by
  have heq : ∀ d : Char, c = d ↔ c.toNat = d.toNat := fun d => Char.toNat_inj.symm
  rw [isInner, ← startSet_contains, Bool.eq_iff_iff]
  simp [innerSet, startSet, CharSet.contains, CharSet.inRanges, Char.isDigit, heq,
    UInt32.le_iff_toNat_le]
  omega

lemma dottedSet_contains (c : Char) : dottedSet.contains c = isDotted c := by
  have heq : ∀ d : Char, c = d ↔ c.toNat = d.toNat := fun d => Char.toNat_inj.symm
  rw [isDotted, ← innerSet_contains, Bool.eq_iff_iff]
  simp [dottedSet, innerSet, CharSet.contains, CharSet.inRanges, heq]
  omega

lemma lineSet_contains (hc : c ≠ '\n') : lineSet.contains c = true := by
  have hne : c.toNat ≠ 10 := fun he => hc (Char.toNat_inj.mp he)
  have hvalid := Utf8.toNat_lt c
  simp [lineSet, CharSet.contains, CharSet.inRanges]
  omega

open Pattern (firstWay leftmost spell behindText startSlot)

/-- The pattern of launcher lines. -/
def launcherPattern : Pattern :=
  .seq (.look .lineStart) (.seq (.loop true (.set lineSet))
    (spell "bin/java".toList (.seq (.loop true (.set lineSet)) (.look .lineEnd))))

/-- The pattern of names. -/
def namePattern : Pattern :=
  .seq (.set startSet) (.seq (.loop true (.set innerSet))
    (.seq (.set (.singleton '.')) (.plus true (.set dottedSet))))

lemma scannerOf_launcherPattern : ∃ sc, scannerOf ScriptSettings.default.launcherPattern = .ok sc ∧
    sc.select = launcherPattern ∧ sc.alone = false := by
  have hread : (Scanner.ofText? ScriptSettings.default.launcherPattern).map
      (fun sc => (sc.select, sc.alone)) = some (launcherPattern, false) := by decide +kernel
  obtain ⟨sc, hsc, heq⟩ := Option.map_eq_some_iff.mp hread
  exact ⟨sc, by rw [scannerOf, hsc], congrArg Prod.fst heq, congrArg Prod.snd heq⟩

lemma scannerOf_classPattern : ∃ sc, scannerOf ScriptSettings.default.classPattern = .ok sc ∧
    sc.capture = namePattern := by
  have hread : (Scanner.ofText? ScriptSettings.default.classPattern).map (·.capture) =
      some namePattern := by decide +kernel
  obtain ⟨sc, hsc, heq⟩ := Option.map_eq_some_iff.mp hread
  exact ⟨sc, by rw [scannerOf, hsc], heq⟩

/-! ### Launcher lines -/

/-- A line is selected if it calls the runtime. -/
lemma selects_launcher {sc : Scanner} (hselect : sc.select = launcherPattern)
    (halone : sc.alone = false) (hline : '\n' ∉ line) (terminated : Bool) :
    sc.selects (encode line) terminated = Text.hasPiece "bin/java".toList line := by
  have hset : ∀ c ∈ line, lineSet.contains c = true := by
    intro c hc
    refine lineSet_contains ?_
    rintro rfl
    exact hline hc
  rw [Bool.eq_iff_iff, Text.hasPiece_iff, Scanner.selects, Utf8.symbols_encode, Pattern.occursIn,
    Pattern.search_eq_leftmost, hselect, halone]
  simp only [Bool.not_false, Bool.true_and, Bool.false_eq_true, if_false]
  have hnext : ∀ behind : Option Symbol, Pattern.Look.lineEnd.holds
      ⟨behind, if terminated then some (.char '\n') else none⟩ = true := by
    intro behind
    cases terminated <;> rfl
  generalize (if terminated then some (Symbol.char '\n') else none) = next at hnext
  rw [Pattern.leftmost_isSome_iff]
  simp only [Pattern.firstWay_andThen, Pattern.firstWay_mark, launcherPattern,
    Pattern.firstWay_look]
  constructor
  · rintro ⟨u, v, rfl, h⟩
    split at h
    · obtain ⟨u', v', rfl, -, h⟩ := Pattern.firstWay_loop_isSome_iff.mp h
      have hword : "bin/java".toList <+: v' := by
        by_contra hnot
        rw [Pattern.firstWay_spell_eq_none hnot] at h
        cases h
      obtain ⟨w, rfl⟩ := hword
      exact ⟨u ++ u', w, by simp⟩
    · cases h
  · rintro ⟨u, w, rfl⟩
    refine ⟨[], _, rfl, ?_⟩
    rw [if_pos (by rfl), Pattern.firstWay_loop_isSome_iff]
    refine ⟨u, "bin/java".toList ++ w, by simp, fun c hc => hset c (by simp [hc]), ?_⟩
    rw [Pattern.firstWay_spell_append, Pattern.firstWay_loop_isSome_iff]
    refine ⟨w, [], by simp, fun c hc => hset c (by simp [hc]), ?_⟩
    rw [Pattern.firstWay_alone, Pattern.firstWay_look, if_pos, Pattern.firstWay_empty]
    · rfl
    · exact hnext _

/-- The first launcher line of a file, without the carriage returns at its end. -/
lemma firstLine?_launcher {sc : Scanner} (hselect : sc.select = launcherPattern)
    (halone : sc.alone = false) (hnul : '\x00' ∉ t) (hmark : t.head? ≠ some '\uFEFF') :
    sc.firstLine? (encode t) =
      ((Text.splitOn (· == '\n') t).find? (Text.hasPiece "bin/java".toList)).map
        (Text.dropEndWhile fun c => c == '\r' || c == '\n') := by
  have hempty : Option.guard (Text.hasPiece "bin/java".toList) [] = none := by decide
  have hlines : (Text.splitOn (· == '\n') t).find? (Text.hasPiece "bin/java".toList) =
      ((Text.cutLines '\n' t).map (·.1)).find? (Text.hasPiece "bin/java".toList) := by
    rw [List.find?_eq_findSome?_guard, Scanner.findSome?_splitOn hempty, ← List.findSome?_map,
      ← List.find?_eq_findSome?_guard]
  have hselects : ∀ l ∈ Text.cutLines '\n' t,
      sc.selects (encode l.1) l.2 = Text.hasPiece "bin/java".toList l.1 := fun l hl =>
    selects_launcher hselect halone (Scanner.newline_notMem_of_cutLines hl) l.2
  rw [Scanner.firstLine?, Scanner.selectedLines, Scanner.cutLines_searched hnul,
    Scanner.withoutMark_of_head? hmark, hlines, List.head?_map, List.filter_map, List.head?_map,
    List.find?_map, List.head?_filter]
  have hfind : (Text.cutLines '\n' t).find?
      ((fun l => sc.selects l.1 l.2) ∘ fun l => (encode l.1, l.2)) =
        (Text.cutLines '\n' t).find? (Text.hasPiece "bin/java".toList ∘ fun l => l.1) := by
    rw [← List.head?_filter, ← List.head?_filter]
    exact congrArg List.head? (List.filter_congr hselects)
  rw [hfind, Option.map_map, Option.map_map]
  congr 1
  funext l
  exact Scanner.lineText_encode l.1

/-! ### Names -/

/-- The match of a name that the rest of the line follows. -/
def nameMatch (index : Nat) (name rest : Text) : Pattern.Match :=
  let start : Pattern.Cursor := ⟨index, (name ++ rest).map .char⟩
  ⟨start, ⟨index + name.length, rest.map .char⟩, [(startSlot, start)]⟩

/-- A run, and what is behind it: nothing or a character that is none of a name. -/
structure IsRun (run rest : Text) : Prop where
  dotted : ∀ c ∈ run, isDotted c = true
  behind : ∀ c ∈ rest.head?, isDotted c = false

lemma IsRun.of_cons (h : IsRun (c :: run) t) : IsRun run t :=
  ⟨fun d hd => h.dotted d (List.mem_cons_of_mem _ hd), h.behind⟩

/-- A run starts with characters of a name without dots, and goes on with a dot if it goes on. -/
lemma exists_inner_front (h : ∀ c ∈ run, isDotted c = true) :
    ∃ front, (∀ c ∈ front, isInner c = true) ∧
      (run = front ∨ ∃ more, run = front ++ '.' :: more) := by
  induction run with
  | nil => exact ⟨[], by simp, Or.inl rfl⟩
  | cons c run ih =>
    obtain ⟨hc, hrun⟩ := List.forall_mem_cons.mp h
    rcases isInner_or_eq_dot hc with hinner | rfl
    · obtain ⟨front, hfront, heq⟩ := ih hrun
      refine ⟨c :: front, List.forall_mem_cons.mpr ⟨hinner, hfront⟩, ?_⟩
      rcases heq with rfl | ⟨more, rfl⟩
      · exact Or.inl rfl
      · exact Or.inr ⟨more, rfl⟩
    · exact ⟨[], by simp, Or.inr ⟨run, rfl⟩⟩

lemma dropWhile_ne_dot {front : Text} (h : ∀ c ∈ front, isInner c = true) (rest : Text) :
    (front ++ rest).dropWhile (· != '.') = rest.dropWhile (· != '.') := by
  refine List.dropWhile_append_of_pos fun c hc => ?_
  rw [bne_iff_ne]
  exact ne_dot_of_isInner (h c hc)

lemma firstWay_name_of_not_start (hc : isStart c = false) : firstWay none ((c :: t).map .char)
    ⟨Pattern.andThen (.mark startSlot) namePattern, []⟩ behind index = none := by
  rw [Pattern.firstWay_andThen, Pattern.firstWay_mark, namePattern, List.map_cons,
    Pattern.firstWay_set_cons, startSet_contains, hc]
  rfl

/-- The end of a name is the rest of its run, which must not be empty. -/
lemma firstWay_dotted {marks : Pattern.Marks} (h : IsRun run t) :
    firstWay none ((run ++ t).map .char) ⟨.plus true (.set dottedSet), marks⟩ behind index =
      if run = [] then none
      else some (Pattern.finish ⟨index + run.length, t.map .char⟩ marks) := by
  have hdotted : dottedSet.contains = isDotted := funext dottedSet_contains
  rw [Pattern.firstWay_alone, Pattern.firstWay_plus]
  cases run with
  | nil =>
    rw [if_pos rfl, List.nil_append]
    cases t with
    | nil => exact Pattern.firstWay_set_nil
    | cons d t => rw [List.map_cons, Pattern.firstWay_set_cons, hdotted, h.behind d rfl]; rfl
  | cons c run =>
    obtain ⟨hc, hrun⟩ := List.forall_mem_cons.mp h.dotted
    rw [if_neg (List.cons_ne_nil c run), List.cons_append, List.map_cons,
      Pattern.firstWay_set_cons, hdotted, if_pos hc,
      Pattern.firstWay_loop (Or.inr (by rw [Pattern.firstWay_empty]; rfl)), hdotted,
      Text.takeWhile_append_of_stop hrun h.behind, Text.dropWhile_append_of_stop hrun h.behind,
      Pattern.firstWay_empty, List.length_cons, Nat.add_right_comm]
    rfl

/-- Where a run can be the start of a name, it matches to its end or not at all. -/
lemma firstWay_name_of_start (hc : isStart c = true) (h : IsRun (c :: run) t) :
    firstWay none ((c :: run ++ t).map .char)
        ⟨Pattern.andThen (.mark startSlot) namePattern, []⟩ behind index =
      if 2 ≤ (run.dropWhile (· != '.')).length then some (nameMatch index (c :: run) t)
      else none := by
  have hdot : ∀ {d}, d ≠ '.' → ¬ (CharSet.singleton '.').contains d = true := fun hd he =>
    hd (Pattern.contains_singleton.mp he)
  have hfails : Pattern.FailsAt innerSet
      (.seq (.set (.singleton '.')) (.plus true (.set dottedSet))) := by
    refine Pattern.failsAt_set fun d hd => ?_
    rw [innerSet_contains] at hd
    exact Bool.not_eq_true _ ▸ hdot (ne_dot_of_isInner hd)
  have hinner : innerSet.contains = isInner := funext innerSet_contains
  rw [Pattern.firstWay_andThen, Pattern.firstWay_mark, namePattern, List.cons_append, List.map_cons,
    Pattern.firstWay_set_cons, startSet_contains, if_pos hc, Pattern.firstWay_loop (Or.inl hfails),
    hinner]
  obtain ⟨front, hfront, rfl | ⟨more, rfl⟩⟩ := exists_inner_front h.of_cons.dotted
  · -- There is no dot: the run ends, and what follows it is none either.
    have hrun : run.dropWhile (· != '.') = [] := by simpa using dropWhile_ne_dot hfront []
    rw [List.dropWhile_append_of_pos hfront, hrun, if_neg (by simp)]
    cases t with
    | nil => exact Pattern.firstWay_set_nil
    | cons d t =>
      have hd : isDotted d = false := h.behind d rfl
      have hnot : ¬ isInner d = true := fun he => by simp [isDotted_of_isInner he] at hd
      have hne : d ≠ '.' := by
        rintro rfl
        cases hd
      rw [List.dropWhile_cons_of_neg hnot, List.map_cons, Pattern.firstWay_set_cons,
        if_neg (hdot hne)]
  · -- The dot is the first one, and the rest of the run follows.
    have hrun : (front ++ '.' :: more).dropWhile (· != '.') = '.' :: more :=
      dropWhile_ne_dot hfront _
    have hmore : IsRun more t :=
      ⟨fun d hd => h.dotted d (by simp [hd]), h.behind⟩
    have hstop : isInner '.' = false := by decide
    rw [hrun, List.append_assoc, List.dropWhile_append_of_pos hfront, List.cons_append,
      List.dropWhile_cons_of_neg (by simp [hstop]), List.takeWhile_append_of_pos hfront,
      List.takeWhile_cons_of_neg (by simp [hstop]), List.map_cons, Pattern.firstWay_set_cons,
      if_pos (Pattern.contains_singleton.mpr rfl), firstWay_dotted hmore]
    cases more with
    | nil => rfl
    | cons e more =>
      rw [if_neg (List.cons_ne_nil e more), if_pos (by simp)]
      have hlength : index + 1 + (front ++ []).length + 1 + (e :: more).length =
          index + (c :: (front ++ '.' :: e :: more)).length := by
        simp only [List.length_append, List.length_cons, List.length_nil]
        omega
      have hsubject : Symbol.char c :: (front ++ '.' :: (e :: more ++ t)).map Symbol.char =
          (c :: (front ++ '.' :: e :: more) ++ t).map Symbol.char := by simp
      rw [hlength, hsubject]
      rfl

/-- A search from the start of a run finds its candidate, or goes on behind the run. -/
lemma leftmost_run (h : IsRun run t) :
    let p := Pattern.andThen (.mark startSlot) namePattern
    (∃ name i, candidate? run = some name ∧
      leftmost none p ((run ++ t).map .char) behind index = some (nameMatch i name t)) ∨
    candidate? run = none ∧ leftmost none p ((run ++ t).map .char) behind index =
      leftmost none p (t.map .char) (behindText behind run) (index + run.length) := by
  intro p
  induction run generalizing behind index with
  | nil => exact Or.inr ⟨rfl, rfl⟩
  | cons c run ih =>
    have hstep : leftmost none p ((c :: run ++ t).map .char) behind index =
        (firstWay none ((c :: run ++ t).map .char) ⟨p, []⟩ behind index).or
          (leftmost none p ((run ++ t).map .char) (some (.char c)) (index + 1)) := rfl
    have hlength : index + (c :: run).length = index + 1 + run.length := by
      rw [List.length_cons, ← Nat.add_assoc, Nat.add_right_comm]
    rw [hstep, hlength]
    by_cases hc : isStart c = true
    · rw [firstWay_name_of_start hc h, candidate?_cons_of_start hc]
      split
      · exact Or.inl ⟨_, index, rfl, rfl⟩
      · rename_i hshort
        have hnone : candidate? run = none :=
          candidate?_eq_none_of_cons ((candidate?_cons_of_start hc).trans (if_neg hshort))
        rcases ih h.of_cons with ⟨name, i, hname, -⟩ | ⟨-, heq⟩
        · rw [hnone] at hname
          cases hname
        · exact Or.inr ⟨rfl, heq⟩
    · have hc : isStart c = false := by simpa using hc
      rw [List.cons_append, firstWay_name_of_not_start hc, candidate?_cons_of_not_start hc,
        Option.none_or]
      exact ih h.of_cons

lemma isRun_takeWhile (line : Text) :
    IsRun (line.takeWhile isDotted) (line.dropWhile isDotted) := by
  constructor
  · exact fun c hc => List.mem_takeWhile_imp hc
  · exact Text.head?_dropWhile_eq_false line

/-- The candidates of a line are that of its first run and those of what follows. -/
lemma filterMap_splitOn (h : IsRun run t) :
    (Text.splitOn (!isDotted ·) (run ++ t)).filterMap candidate? =
      (candidate? run).toList ++ (Text.splitOn (!isDotted ·) t).filterMap candidate? := by
  have hrun : Text.splitOn (!isDotted ·) run = [run] :=
    Text.splitOn_of_forall fun c hc => by rw [h.dotted c hc]; rfl
  have hsingle : [run].filterMap candidate? = (candidate? run).toList := by
    cases hname : candidate? run <;> simp [hname]
  cases t with
  | nil =>
    rw [List.append_nil, hrun, hsingle]
    exact (List.append_nil _).symm
  | cons sep t =>
    have hsep : (!isDotted sep) = true := by rw [h.behind sep rfl]; rfl
    rw [Text.splitOn_append_cons (p := (!isDotted ·)) hsep,
      Text.splitOn_cons_of_pos (p := (!isDotted ·)) hsep, hrun, List.filterMap_append, hsingle]
    rfl

/-- A search in a line finds the candidate of the first run that has one. -/
lemma leftmost_line (line : Text) (behind : Option Symbol) (index : Nat) :
    let p := Pattern.andThen (.mark startSlot) namePattern
    leftmost none p (line.map .char) behind index = none ∧
        (Text.splitOn (!isDotted ·) line).filterMap candidate? = [] ∨
      ∃ i name rest, leftmost none p (line.map .char) behind index = some (nameMatch i name rest) ∧
        (Text.splitOn (!isDotted ·) line).filterMap candidate? =
          name :: (Text.splitOn (!isDotted ·) rest).filterMap candidate? ∧
        name ≠ [] ∧ rest.length < line.length := by
  intro p
  -- By induction on the length: a run without a candidate is passed as a whole, with what ends it.
  induction hn : line.length using Nat.strong_induction_on generalizing line behind index with
  | _ n ih =>
  have hrun := isRun_takeWhile line
  have hline : line = line.takeWhile isDotted ++ line.dropWhile isDotted :=
    List.takeWhile_append_dropWhile.symm
  generalize line.takeWhile isDotted = run at hrun hline
  generalize line.dropWhile isDotted = t at hrun hline
  subst hline hn
  rw [filterMap_splitOn hrun]
  rcases leftmost_run hrun with ⟨name, i, hname, heq⟩ | ⟨hnone, heq⟩
  · obtain ⟨hsuffix, hne⟩ := isSuffix_of_candidate? hname
    have hpos : 0 < run.length := Nat.lt_of_lt_of_le (List.length_pos_iff.mpr hne) hsuffix.length_le
    refine Or.inr ⟨i, name, t, heq, by rw [hname]; rfl, hne, ?_⟩
    rw [List.length_append]
    omega
  · rw [heq, hnone, Option.toList_none, List.nil_append]
    cases t with
    | nil =>
      refine Or.inl ⟨?_, rfl⟩
      rw [List.map_nil, leftmost, Pattern.firstWay_andThen, Pattern.firstWay_mark]
      exact Pattern.firstWay_set_nil
    | cons sep t =>
      have hsep : isDotted sep = false := hrun.behind sep rfl
      have hstart : isStart sep = false := by
        by_contra h
        have hdotted := isDotted_of_isInner (isInner_of_isStart (by simpa using h))
        rw [hsep] at hdotted
        cases hdotted
      rw [Text.splitOn_cons_of_pos (by simp [hsep]), List.map_cons, leftmost, ← List.map_cons,
        firstWay_name_of_not_start hstart, Option.none_or]
      have hlt : t.length < (run ++ sep :: t).length := by
        rw [List.length_append, List.length_cons]
        omega
      rcases ih _ hlt t (some (.char sep)) (index + run.length + 1) rfl with
        ⟨hleft, hnil⟩ | ⟨i, name, rest, hleft, hmap, hne, hrest⟩
      · exact Or.inl ⟨hleft, hnil⟩
      · exact Or.inr ⟨i, name, rest, hleft, hmap, hne, Nat.lt_trans hrest hlt⟩

lemma group?_nameMatch : (nameMatch index name t).group? 0 = some name := by
  rw [Pattern.Match.group?, if_pos rfl, nameMatch]
  exact congrArg some Pattern.textBetween_append

/-- The successive matches in a line are its candidates: each match uses up its run. -/
lemma texts_matchesFrom {fuel : Nat} {last : Option Nat} (hfuel : line.length < fuel) :
    (namePattern.matchesFrom fuel last behind ⟨index, line.map .char⟩).filterMap (·.group? 0) =
      (Text.splitOn (!isDotted ·) line).filterMap candidate? := by
  -- A match is never empty, so there is always more fuel than text.
  induction fuel generalizing line last behind index with
  | zero => cases hfuel
  | succ fuel ih =>
    rw [Pattern.matchesFrom]
    simp only [Pattern.search_eq_leftmost]
    rcases leftmost_line line behind index with ⟨heq, hnil⟩ | ⟨i, name, rest, heq, hmap, hne, hlt⟩
    · rw [heq, hnil]
      rfl
    · have hlength : 0 < name.length := List.length_pos_iff.mpr hne
      have hmoves : ¬ ((nameMatch i name rest).start.index = (nameMatch i name rest).stop.index ∧
          last = some (nameMatch i name rest).stop.index) := by
        simp only [nameMatch]
        omega
      rw [heq, hmap]
      simp only [if_neg hmoves]
      rw [List.filterMap_cons, group?_nameMatch]
      exact congrArg _ (ih (by omega))

lemma capturesIn_class {sc : Scanner} (hcapture : sc.capture = namePattern) (line : Text) :
    sc.capturesIn line = lineCandidates line := by
  have hgroup : sc.groupIndex = 0 := by
    rw [Scanner.groupIndex, hcapture]
    rfl
  rw [Scanner.capturesIn, hgroup, hcapture, Pattern.matchesIn, lineCandidates_eq]
  refine texts_matchesFrom ?_
  rw [List.length_map]
  omega

/-- Carriage returns at the end of a line do not matter. -/
lemma lineCandidates_dropEnd (line : Text) :
    lineCandidates (Text.dropEndWhile (fun c => c == '\r' || c == '\n') line) =
      lineCandidates line := by
  obtain ⟨tail, heq, htail⟩ := Scanner.exists_dropped (fun c => c == '\r' || c == '\n') line
  have hcut : ∀ c ∈ tail, (!isDotted c) = true := by
    intro c hc
    rcases (by simpa using htail c hc : c = '\r' ∨ c = '\n') with rfl | rfl <;> rfl
  generalize Text.dropEndWhile _ line = short at heq ⊢
  subst heq
  rw [lineCandidates_eq, lineCandidates_eq]
  cases tail with
  | nil => rw [List.append_nil]
  | cons c tail =>
    have hnone : (Text.splitOn (!isDotted ·) tail).filterMap candidate? = [] := by
      rw [List.filterMap_eq_nil_iff]
      intro piece hpiece
      have hempty : piece = [] := by
        refine List.eq_nil_iff_forall_not_mem.mpr fun d hd => ?_
        obtain ⟨hmem, hnot⟩ := Text.of_mem_splitOn hpiece d hd
        rw [hcut d (List.mem_cons_of_mem _ hmem)] at hnot
        cases hnot
      rw [hempty]
      rfl
    rw [Text.splitOn_append_cons (p := (!isDotted ·)) (hcut c List.mem_cons_self),
      List.filterMap_append, hnone, List.append_nil]

/-! ### Stubs -/

lemma splitOn_flatMap_newline {ls : List Text} (h : ∀ l ∈ ls, '\n' ∉ l) :
    Text.splitOn (· == '\n') (ls.flatMap (· ++ ['\n'])) = ls ++ [[]] := by
  induction ls with
  | nil => rfl
  | cons l ls ih =>
    obtain ⟨hl, hls⟩ := List.forall_mem_cons.mp h
    rw [List.flatMap_cons, List.append_assoc, List.singleton_append,
      Text.splitOn_append_cons (p := (· == '\n')) (by rfl), Text.splitOn_of_notMem hl, ih hls]
    rfl

lemma cutLines_flatMap_newline {ls : List Text} (h : ∀ l ∈ ls, '\n' ∉ l) :
    Text.cutLines '\n' (ls.flatMap (· ++ ['\n'])) = ls.map (·, true) := by
  rw [Text.cutLines, splitOn_flatMap_newline h, List.reverse_append]
  simp

/-- The lines of the unit that needs a name. -/
def unitLines (name : Text) : List Text :=
  ["import ".toList ++ name ++ ";".toList, "class DummyExtractorClass \x7b".toList,
    name ++ " field;".toList, "\x7d".toList]

lemma cutLines_source (h : '\n' ∉ name) :
    Text.cutLines '\n' (Stub.source name) = (unitLines name).map (·, true) := by
  have hsource : Stub.source name = "import ".toList ++ name ++ ";\nclass ".toList ++
      Stub.className ++ " \x7b\n".toList ++ name ++ " field;\n\x7d\n".toList := rfl
  have hclass : ∀ rest, ";\nclass ".toList ++ (Stub.className ++ (" \x7b\n".toList ++ rest)) =
      ";".toList ++ (['\n'] ++ ("class DummyExtractorClass \x7b".toList ++ (['\n'] ++ rest))) := by
    have hword : ";\nclass ".toList ++ Stub.className ++ " \x7b\n".toList =
        ";".toList ++ ['\n'] ++ "class DummyExtractorClass \x7b".toList ++ ['\n'] := by decide
    intro rest
    simpa only [List.append_assoc] using congrArg (· ++ rest) hword
  have hfield : " field;\n\x7d\n".toList =
      " field;".toList ++ (['\n'] ++ ("\x7d".toList ++ ['\n'])) := by decide
  have hlines : Stub.source name = (unitLines name).flatMap (· ++ ['\n']) := by
    rw [hsource, hfield]
    simp only [unitLines, List.flatMap_cons, List.flatMap_nil, List.append_assoc, List.append_nil,
      hclass]
  have hnone : ∀ l ∈ unitLines name, '\n' ∉ l := by
    simp only [unitLines, List.forall_mem_cons, List.mem_append, not_or, List.not_mem_nil,
      false_implies, implies_true, and_true]
    exact ⟨⟨⟨by decide, h⟩, by decide⟩, by decide, ⟨h, by decide⟩, by decide⟩
  rw [hlines, cutLines_flatMap_newline hnone]

lemma isDotted_of_mem_lineCandidates (h : name ∈ lineCandidates line) (hc : c ∈ name) :
    isDotted c = true := by
  rw [lineCandidates_eq] at h
  obtain ⟨run, hrun, hname⟩ := List.mem_filterMap.mp h
  obtain ⟨-, hdotted⟩ := Text.of_mem_splitOn hrun c ((isSuffix_of_candidate? hname).1.subset hc)
  simpa using hdotted

/-- With the settings that nobody changed, the candidates of a script are those of its first line
that calls the runtime: one at most from each run of characters of names, and each is written with
these characters only. So the unit that needs a candidate has the candidate in its two places, and
no line more than the four that it is made of. -/
theorem candidates_default {s : Store} {script : Path} (hread : s.read script = .ok (encode t))
    (hnul : '\x00' ∉ t) (hmark : t.head? ≠ some '\uFEFF') :
    ∃ sc, scanners ScriptSettings.default = .ok sc ∧
      candidates s sc script = .ok (launched t) ∧
      ∀ name ∈ launched t, (∀ c ∈ name, isDotted c = true) ∧
        Text.cutLines '\n' (Stub.source name) = (unitLines name).map (·, true) := by
  obtain ⟨launcher, hlauncher, hselect, halone⟩ := scannerOf_launcherPattern
  obtain ⟨className, hclass, hcapture⟩ := scannerOf_classPattern
  refine ⟨⟨launcher, className⟩, ?_, ?_, ?_⟩
  · rw [scanners, hlauncher, hclass]
    rfl
  · rw [candidates, hread]
    simp only [candidatesIn, firstLine?_launcher hselect halone hnul hmark, launched]
    cases (Text.splitOn (· == '\n') t).find? (Text.hasPiece "bin/java".toList) with
    | none => rfl
    | some line => simp only [Option.map_some, capturesIn_class hcapture, lineCandidates_dropEnd]
  · intro name hname
    have hchars : ∀ c ∈ name, isDotted c = true := by
      intro c hc
      rw [launched] at hname
      split at hname
      · cases hname
      · exact isDotted_of_mem_lineCandidates hname hc
    have hnewline : '\n' ∉ name := fun hmem => absurd (hchars _ hmem) (by decide)
    exact ⟨hchars, cutLines_source hnewline⟩

/-- A script with two launcher lines; the runs of the first one start and end in many ways. -/
def launcherText : Text :=
  "java x.Y\n$R/bin/java -cp 9.a.jar com.acme.Main -1.2 a. ..b.C$D q..\r\nbin/java z.Z\n".toList

/-- A store with this script. -/
def launcherStore : Store where
  entries := [(locationOf ["t.ksh"], .file (encode launcherText) plainMode ⟨0, 0⟩)]
  cwd := []
  clock := ⟨1, 0⟩

theorem candidates_launcherStore :
    launcherStore.read (.ofText "/t.ksh".toList) = .ok (encode launcherText) ∧
      '\x00' ∉ launcherText ∧ launcherText.head? ≠ some '\uFEFF' ∧
      ∃ sc, scanners ScriptSettings.default = .ok sc ∧
        candidates launcherStore sc (.ofText "/t.ksh".toList) =
          .ok ["a.jar".toList, "com.acme.Main".toList, "b.C$D".toList, "q..".toList] := by
  have hread : launcherStore.read (.ofText "/t.ksh".toList) = .ok (encode launcherText) := by
    decide +kernel
  have hnul : '\x00' ∉ launcherText := by decide +kernel
  have hmark : launcherText.head? ≠ some '\uFEFF' := by decide +kernel
  have hnames : launched launcherText =
      ["a.jar".toList, "com.acme.Main".toList, "b.C$D".toList, "q..".toList] := by decide +kernel
  obtain ⟨sc, hsc, hcandidates, -⟩ := candidates_default hread hnul hmark
  exact ⟨hread, hnul, hmark, sc, hsc, hcandidates.trans (congrArg _ hnames)⟩

end Script

end Excerpt
