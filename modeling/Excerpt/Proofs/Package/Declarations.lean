import Excerpt.Proofs.Package
import Excerpt.Proofs.Path.Beneath
import Excerpt.Proofs.Pattern.Sequences
import Excerpt.Proofs.Scan.Selecting
import Excerpt.Proofs.Store.WellFormed
import Excerpt.Store.Edit

/-!
# Package declarations

The package of a file is what the first of its lines declares that declares one at all. A line that
declares a package has blanks, the word, blanks, the name, blanks and a semicolon; since no
character can be part of two neighbours among these, there is one way at most to read a line. So
the search for the pattern, which prefers long repetitions, never has to give a character back.
-/

namespace Excerpt

open Utf8 (encode)
open Store (locationOf plainMode)

namespace Package

open Pattern (firstWay leftmost behindText startSlot FailsAt)

variable {line body t n m : Text} {index : Nat} {behind : Option Symbol} {marks : Pattern.Marks}

/-! ### Lines that declare a package -/

/-- The line declares the package `n`. -/
def Declares (line n : Text) : Prop :=
  ∃ before gap after rest, line = before ++ "package".toList ++ gap ++ n ++ after ++ ';' :: rest ∧
    (∀ c ∈ before, Text.isBlank c = true) ∧ (gap ≠ [] ∧ ∀ c ∈ gap, Text.isBlank c = true) ∧
    (n ≠ [] ∧ ∀ c ∈ n, nameChars.contains c = true) ∧ ∀ c ∈ after, Text.isBlank c = true

/-- The name that a text starts with, if a semicolon follows it behind blanks. -/
def nameBefore? (body : Text) : Option Text :=
  let name := body.takeWhile nameChars.contains
  if name = [] then none
  else if (Text.trimStart (body.dropWhile nameChars.contains)).head? = some ';' then some name
  else none

/-- The package that a line declares. -/
def declared? (line : Text) : Option Text :=
  (Text.afterStart? "package".toList (Text.trimStart line)).bind fun rest =>
    if rest.head?.any Text.isBlank then nameBefore? (Text.trimStart rest) else none

/-- The blank characters, as a set. -/
def blankSet : CharSet := ⟨Text.blankRanges⟩

lemma blankSet_contains (c : Char) : blankSet.contains c = Text.isBlank c := by
  rw [Bool.eq_iff_iff]
  simp [blankSet, CharSet.contains, CharSet.inRanges, Text.isBlank, Text.blankRanges]
  omega

lemma not_isBlank_of_name {c : Char} (h : nameChars.contains c = true) :
    Text.isBlank c = false := by
  rw [← Bool.not_eq_true]
  simp [nameChars, CharSet.contains, CharSet.inRanges, Text.isBlank, Text.blankRanges] at h ⊢
  omega

lemma ne_semicolon_of_name {c : Char} (h : nameChars.contains c = true) : c ≠ ';' := by
  rintro rfl
  exact absurd h (by decide)

lemma declared?_complete (h : Declares line n) : declared? line = some n := by
  obtain ⟨before, gap, after, rest, rfl, hbefore, ⟨hgap, hgaps⟩, ⟨hn, hname⟩, hafter⟩ := h
  obtain ⟨g, gap, rfl⟩ := List.exists_cons_of_ne_nil hgap
  have hg : Text.isBlank g = true := hgaps g List.mem_cons_self
  have htrim : Text.trimStart (after ++ ';' :: rest) = ';' :: rest :=
    Text.dropWhile_append_of_stop hafter (by rintro c ⟨⟩; rfl)
  have hafterName : ∀ c ∈ (after ++ ';' :: rest).head?, nameChars.contains c = false := by
    intro c hc
    rw [← Bool.not_eq_true]
    intro hcontains
    cases after with
    | nil =>
      cases hc
      exact ne_semicolon_of_name hcontains rfl
    | cons d after =>
      cases hc
      have hblank := hafter c List.mem_cons_self
      rw [not_isBlank_of_name hcontains] at hblank
      cases hblank
  have hafterGap : ∀ c ∈ (n ++ (after ++ ';' :: rest)).head?, Text.isBlank c = false := by
    obtain ⟨d, n, rfl⟩ := List.exists_cons_of_ne_nil hn
    rintro c ⟨⟩
    exact not_isBlank_of_name (hname _ List.mem_cons_self)
  have hbody : Text.trimStart (g :: gap ++ (n ++ (after ++ ';' :: rest))) =
      n ++ (after ++ ';' :: rest) := Text.dropWhile_append_of_stop hgaps hafterGap
  have hline :
      Text.trimStart (before ++ ("package".toList ++ (g :: gap ++ (n ++ (after ++ ';' :: rest))))) =
        "package".toList ++ (g :: gap ++ (n ++ (after ++ ';' :: rest))) :=
    Text.dropWhile_append_of_stop hbefore (by rintro c ⟨⟩; rfl)
  simp only [List.append_assoc]
  rw [declared?, hline, Text.afterStart?_append, Option.bind_some, if_pos (by simp [hg]), hbody,
    nameBefore?, Text.takeWhile_append_of_stop hname hafterName,
    Text.dropWhile_append_of_stop hname hafterName, if_neg hn, htrim, if_pos (by rfl)]

lemma exists_trimmed (t : Text) :
    ∃ front, t = front ++ Text.trimStart t ∧ ∀ c ∈ front, Text.isBlank c = true :=
  ⟨t.takeWhile Text.isBlank, List.takeWhile_append_dropWhile.symm, fun _ => List.mem_takeWhile_imp⟩

lemma of_nameBefore?_eq_some (h : nameBefore? body = some n) :
    ∃ after rest, body = n ++ after ++ ';' :: rest ∧
      (n ≠ [] ∧ ∀ c ∈ n, nameChars.contains c = true) ∧ ∀ c ∈ after, Text.isBlank c = true := by
  rw [nameBefore?] at h
  split at h
  · cases h
  · rename_i hn
    split at h
    · rename_i hsemicolon
      cases h
      obtain ⟨rest, hrest⟩ := List.head?_eq_some_iff.mp hsemicolon
      obtain ⟨after, hafter, hblank⟩ := exists_trimmed (body.dropWhile nameChars.contains)
      refine ⟨after, rest, ?_, ⟨hn, fun c hc => List.mem_takeWhile_imp hc⟩, hblank⟩
      rw [← hrest, List.append_assoc, ← hafter, List.takeWhile_append_dropWhile]
    · cases h

lemma declared?_sound (h : declared? line = some n) : Declares line n := by
  obtain ⟨rest, hword, h⟩ := Option.bind_eq_some_iff.mp h
  split at h
  · rename_i hfirst
    obtain ⟨g, rest, hg⟩ : ∃ g more, rest = g :: more := by
      cases rest with
      | nil => cases hfirst
      | cons g more => exact ⟨g, more, rfl⟩
    subst hg
    have hg : Text.isBlank g = true := by simpa using hfirst
    rw [Text.trimStart, List.dropWhile_cons_of_pos hg] at h
    obtain ⟨before, hbefore, hblanks⟩ := exists_trimmed line
    obtain ⟨gap, hgap, hgaps⟩ := exists_trimmed rest
    obtain ⟨after, more, hbody, hname, hafter⟩ := of_nameBefore?_eq_some h
    refine ⟨before, g :: gap, after, more, ?_, hblanks,
      ⟨List.cons_ne_nil g gap, List.forall_mem_cons.mpr ⟨hg, hgaps⟩⟩, hname, hafter⟩
    rw [Text.trimStart, hbody] at hgap
    rw [hbefore, Text.of_afterStart?_eq_some hword, hgap]
    simp only [List.append_assoc, List.cons_append]
  · cases h

/-- A line declares what reading it from the front finds. -/
lemma declared?_eq_some_iff : declared? line = some n ↔ Declares line n :=
  ⟨declared?_sound, declared?_complete⟩

lemma declared?_eq_none_iff : declared? line = none ↔ ∀ n, ¬ Declares line n := by
  simp only [← declared?_eq_some_iff, Option.eq_none_iff_forall_ne_some, ne_eq]

/-! ### The pattern -/

/-- The pattern of what follows the word and the first blank. -/
def namePattern : Pattern :=
  .seq (.group 1 (.plus true (.set nameChars)))
    (.seq (.loop true (.set blankSet)) (.set (.singleton ';')))

/-- The pattern of package declarations. -/
def linePattern : Pattern :=
  .seq (.look .textStart) (.seq (.loop true (.set blankSet))
    (Pattern.spell "package".toList (.seq (.plus true (.set blankSet)) namePattern)))

lemma singleton_semicolon {c : Char} (hc : c ≠ ';') :
    (CharSet.singleton ';').contains c = false := by
  rw [← Bool.not_eq_true]
  exact fun h => hc (Pattern.contains_singleton.mp h)

lemma failsAt_blank_semicolon : FailsAt blankSet (.set (.singleton ';')) := by
  refine FailsAt.alone (Pattern.failsAt_set fun c hc => singleton_semicolon ?_)
  rintro rfl
  exact absurd hc (by decide)

lemma failsAt_name_end :
    FailsAt nameChars
      (.seq (.mark 3) (.seq (.loop true (.set blankSet)) (.set (.singleton ';')))) := by
  refine FailsAt.mark (FailsAt.loop (FailsAt.alone (Pattern.failsAt_set fun c hc => ?_)) ?_)
  · exact singleton_semicolon (ne_semicolon_of_name hc)
  · intro c hc
    rw [blankSet_contains, not_isBlank_of_name hc]

lemma failsAt_blank_name : FailsAt blankSet namePattern := by
  intro next c rest marks behind index hc
  rw [namePattern, Pattern.firstWay_group (by simp)]
  refine Pattern.failsAt_plus (fun d hd => ?_) hc
  rw [← Bool.not_eq_true]
  intro hname
  rw [blankSet_contains, not_isBlank_of_name hname] at hd
  cases hd

lemma failsAt_blank_word {q : Pattern} : FailsAt blankSet (Pattern.spell "package".toList q) := by
  have hp : ∀ c, blankSet.contains c = true → (CharSet.singleton 'p').contains c = false := by
    intro c hc
    rw [← Bool.not_eq_true]
    intro hp
    rw [Pattern.contains_singleton.mp hp] at hc
    exact absurd hc (by decide)
  intro next c rest marks behind index hc
  exact Pattern.failsAt_set hp hc

/-- What follows a name: blanks and a semicolon. -/
lemma firstWay_semicolon : firstWay none (t.map .char)
      ⟨.seq (.loop true (.set blankSet)) (.set (.singleton ';')), marks⟩ behind index =
    if (Text.trimStart t).head? = some ';' then
      some (Pattern.finish ⟨index + (t.takeWhile Text.isBlank).length + 1,
        ((Text.trimStart t).drop 1).map .char⟩ marks)
    else none := by
  have hblank : blankSet.contains = Text.isBlank := funext blankSet_contains
  rw [Pattern.firstWay_loop (Or.inl failsAt_blank_semicolon), hblank, ← Text.trimStart,
    Pattern.firstWay_alone]
  cases Text.trimStart t with
  | nil => exact Pattern.firstWay_set_nil
  | cons c rest =>
    rw [List.map_cons, Pattern.firstWay_set_cons]
    by_cases hc : c = ';'
    · subst hc
      rw [if_pos (by rfl), if_pos (by rfl), Pattern.firstWay_empty]
      rfl
    · rw [singleton_semicolon hc, if_neg Bool.false_ne_true, if_neg (by simpa using hc)]

/-- The group of the pattern holds the name that is read from the front. -/
lemma firstWay_namePattern (marks : Pattern.Marks) :
    (firstWay none (body.map .char) ⟨namePattern, marks⟩ behind index).map (·.group? 1) =
      (nameBefore? body).map some := by
  rw [namePattern, Pattern.firstWay_group (by simp), Pattern.firstWay_plus, nameBefore?]
  cases body with
  | nil =>
    rw [List.map_nil, Pattern.firstWay_set_nil]
    rfl
  | cons c body =>
    rw [List.map_cons, Pattern.firstWay_set_cons]
    by_cases hc : nameChars.contains c = true
    · have hsubject : Symbol.char c :: body.map Symbol.char = (c ::
          body.takeWhile nameChars.contains ++ body.dropWhile nameChars.contains).map .char := by
        rw [List.cons_append, List.takeWhile_append_dropWhile, List.map_cons]
      have hindex : index + 1 + (body.takeWhile nameChars.contains).length =
          index + (c :: body.takeWhile nameChars.contains).length := by
        rw [List.length_cons]
        omega
      rw [if_pos hc, Pattern.firstWay_loop (Or.inl failsAt_name_end), Pattern.firstWay_mark,
        firstWay_semicolon, List.takeWhile_cons_of_pos hc, List.dropWhile_cons_of_pos hc]
      simp only [if_neg (List.cons_ne_nil c _)]
      split
      · rw [Option.map_some, Option.map_some, hsubject, hindex,
          Pattern.group?_finish Nat.one_ne_zero]
      · rfl
    · rw [if_neg hc, List.takeWhile_cons_of_neg hc]
      rfl

/-- At the start of a line the pattern finds what reading the line from the front finds. -/
lemma firstWay_linePattern (line : Text) :
    (firstWay none (line.map .char) ⟨Pattern.andThen (.mark startSlot) linePattern, []⟩
      none 0).map (·.group? 1) = (declared? line).map some := by
  have hblank : blankSet.contains = Text.isBlank := funext blankSet_contains
  rw [Pattern.firstWay_andThen, Pattern.firstWay_mark, linePattern, Pattern.firstWay_look,
    if_pos (by rfl), Pattern.firstWay_loop (Or.inl failsAt_blank_word), hblank, ← Text.trimStart,
    declared?]
  cases hword : Text.afterStart? "package".toList (Text.trimStart line) with
  | none =>
    rw [Pattern.firstWay_spell_eq_none, Option.bind_none]
    · rfl
    · intro hprefix
      rw [Text.afterStart?, if_pos (List.isPrefixOf_iff_prefix.mpr hprefix)] at hword
      cases hword
  | some rest =>
    rw [Text.of_afterStart?_eq_some hword, Pattern.firstWay_spell_append, Pattern.firstWay_plus,
      Option.bind_some]
    cases rest with
    | nil =>
      rw [List.map_nil, Pattern.firstWay_set_nil]
      rfl
    | cons g rest =>
      rw [List.map_cons, Pattern.firstWay_set_cons, blankSet_contains, List.head?_cons,
        Option.any_some]
      split
      · rename_i hg
        rw [Pattern.firstWay_loop (Or.inl failsAt_blank_name), hblank, firstWay_namePattern,
          Text.trimStart, List.dropWhile_cons_of_pos hg]
      · rfl

/-- The scanner for package declarations, in the form that captures. -/
lemma exists_scanner : ∃ sc, scanner = .ok sc ∧ Scanner.ofText? declaration = some sc ∧
    sc.capture = linePattern ∧ sc.select.hasLineEnd = false := by
  have hread : (Scanner.ofText? declaration).map (fun sc => (sc.capture, sc.select.hasLineEnd)) =
      some (linePattern, false) := by decide +kernel
  obtain ⟨sc, hsc, heq⟩ := Option.map_eq_some_iff.mp hread
  exact ⟨sc, by rw [scanner, hsc], hsc, congrArg Prod.fst heq, congrArg Prod.snd heq⟩

/-- The first capture in a line is the package that the line declares. -/
lemma head?_capturesIn {sc : Scanner} (hcapture : sc.capture = linePattern) (line : Text) :
    (sc.capturesIn line).head? = declared? line := by
  have hgroup : sc.groupIndex = 1 := by
    rw [Scanner.groupIndex, hcapture]
    rfl
  have hsearch : linePattern.search none none 0 (line.map .char) = firstWay none (line.map .char)
      ⟨Pattern.andThen (.mark startSlot) linePattern, []⟩ none 0 := by
    rw [Pattern.search_eq_leftmost]
    cases line with
    | nil => rfl
    | cons c line =>
      rw [List.map_cons, leftmost, linePattern, Pattern.leftmost_textStart, Option.or_none]
  have hfound := firstWay_linePattern line
  rw [Scanner.capturesIn, hgroup, hcapture, Pattern.matchesIn, Pattern.matchesFrom]
  simp only [hsearch]
  cases hway : firstWay none (line.map .char)
      ⟨Pattern.andThen (.mark startSlot) linePattern, []⟩ none 0 with
  | none =>
    rw [hway, Option.map_none] at hfound
    exact (Option.map_eq_none_iff.mp hfound.symm).symm
  | some found =>
    rw [hway, Option.map_some] at hfound
    obtain ⟨n, hn, hcaptured⟩ := Option.map_eq_some_iff.mp hfound.symm
    have hmoves : ¬ (found.start.index = found.stop.index ∧ none = some found.stop.index) := by
      rintro ⟨-, h⟩
      cases h
    simp only [if_neg hmoves]
    rw [List.filterMap_cons, ← hcaptured, hn]
    rfl

/-! ### Files -/

/-- Carriage returns at the end of a line do not matter. -/
lemma declared?_dropEnd (line : Text) :
    declared? (Text.dropEndWhile (fun c => c == '\r' || c == '\n') line) = declared? line := by
  refine Option.ext fun n => ?_
  rw [declared?_eq_some_iff, declared?_eq_some_iff]
  constructor
  · rintro ⟨before, gap, after, rest, hline, hparts⟩
    obtain ⟨tail, htail, -⟩ := Scanner.exists_dropped (fun c => c == '\r' || c == '\n') line
    refine ⟨before, gap, after, rest ++ tail, ?_, hparts⟩
    rw [htail, hline]
    simp only [List.append_assoc, List.cons_append]
  · rintro ⟨before, gap, after, rest, hline, hparts⟩
    refine ⟨before, gap, after, Text.dropEndWhile (fun c => c == '\r' || c == '\n') rest, ?_,
      hparts⟩
    rw [hline, Text.dropEndWhile_append_cons (by rfl)]

lemma firstCapture?_eq {sc : Scanner} (hsc : Scanner.ofText? declaration = some sc)
    (hcapture : sc.capture = linePattern) (hend : sc.select.hasLineEnd = false)
    (hnul : '\x00' ∉ t) (hmark : t.head? ≠ some '\uFEFF') :
    sc.firstCapture? (encode t) = (Text.splitOn (· == '\n') t).findSome? declared? := by
  rw [Scanner.firstCapture?, Scanner.captures_eq hsc hnul fun _ _ => Or.inl hend,
    Scanner.findSome?_splitOn (by rfl), List.head?_flatMap, Scanner.textLines,
    Scanner.withoutMark_of_head? hmark, List.findSome?_map]
  congr 1
  funext l
  exact (head?_capturesIn hcapture _).trans (declared?_dropEnd l.1)

/-! ### Directories -/

lemma lead_foldl_joinText {ts : List Text} (h : ∀ t ∈ ts, '/' ∉ t) {p : Path} (hp : p.bytes ≠ []) :
    (ts.foldl Path.joinText p).lead = p.lead := by
  induction ts generalizing p with
  | nil => rfl
  | cons t ts ih =>
    obtain ⟨ht, hts⟩ := List.forall_mem_cons.mp h
    have hrelative := Path.isAbsolute_ofText ht
    have hjoin : (p.joinText t).bytes ≠ [] := Path.join_bytes_ne_nil hp hrelative
    rw [List.foldl_cons, ih hts hjoin]
    exact Path.lead_join hp hrelative

lemma lead_ofText (hslash : '/' ∉ t) (hdot : '.' ∉ t) : (Path.ofText t).lead = [] := by
  rw [Path.lead]
  rcases Path.splitLead_cases (Path.ofText t).bytes with ⟨rest, hb, -⟩ | ⟨rest, hb, -⟩ | ⟨-, -, hs⟩
  · have hmem : Path.slash ∈ (Path.ofText t).bytes := hb ▸ List.mem_cons_self
    exact absurd hmem (Path.slash_notMem_encode hslash)
  · have hmem : Path.dot ∈ (Path.ofText t).bytes := hb ▸ List.mem_cons_self
    exact absurd hmem (Path.dot_notMem_encode hdot)
  · rw [hs]
    rfl

/-- The directory of a package is the list of its segments. -/
lemma components_relativeDir (hname : ∀ c ∈ n, nameChars.contains c = true) :
    (relativeDir n).components = (segments n).map fun seg => .name (encode seg) := by
  have hlead : (relativeDir n).lead = [] := by
    have hslash := slash_notMem_segments hname
    rw [relativeDir]
    cases hsegs : segments n with
    | nil => rfl
    | cons seg segs =>
      rw [hsegs] at hslash
      obtain ⟨hseg, hsegsSlash⟩ := List.forall_mem_cons.mp hslash
      obtain ⟨hne, hdot, -⟩ := of_mem_segments hname (hsegs ▸ List.mem_cons_self)
      have hfirst : Path.empty.joinText seg = Path.ofText seg := by
        rw [Path.joinText, Path.join]
        split <;> rfl
      have hbytes : (Path.ofText seg).bytes ≠ [] := fun he => hne (Utf8.encode_eq_nil.mp he)
      rw [List.foldl_cons, hfirst, lead_foldl_joinText hsegsSlash hbytes, lead_ofText hseg hdot]
  rw [Path.components_eq, hlead, List.nil_append, steps_relativeDir hname, dirs, List.map_map]
  rfl

/-- The package of a file is what the first line declares that declares one, and the directory of a
package is the list of its non-empty pieces between dots. A line declares one package at most, and
the lines are the pieces between newlines, so nothing is declared across them. -/
theorem ofFile_eq_some_iff {s : Store} {file : Path} (hread : s.read file = .ok (encode t))
    (hnul : '\x00' ∉ t) (hmark : t.head? ≠ some '\uFEFF') :
    ∃ sc, scanner = .ok sc ∧
      (∀ n, ofFile s sc file = .ok (some n) ↔
        ∃ before line after, Text.splitOn (· == '\n') t = before ++ line :: after ∧
          Declares line n ∧ ∀ l ∈ before, ∀ m, ¬ Declares l m) ∧
      (ofFile s sc file = .ok none ↔ ∀ line ∈ Text.splitOn (· == '\n') t, ∀ n, ¬ Declares line n) ∧
      (∀ line ∈ Text.splitOn (· == '\n') t, '\n' ∉ line) ∧
      (∀ line n m, Declares line n → Declares line m → n = m) ∧
      ∀ line n, Declares line n →
        ((relativeDir n).components = ((Text.splitOn (· == '.') n).filter (!·.isEmpty)).map
          fun seg => .name (encode seg)) ∧
        ∀ seg ∈ Text.splitOn (· == '.') n, '.' ∉ seg ∧ '/' ∉ seg := by
  obtain ⟨sc, hscanner, hsc, hcapture, hend⟩ := exists_scanner
  have hfile : ofFile s sc file = .ok ((Text.splitOn (· == '\n') t).findSome? declared?) := by
    rw [ofFile, hread]
    exact congrArg _ (firstCapture?_eq hsc hcapture hend hnul hmark)
  refine ⟨sc, hscanner, ?_, ?_, ?_, ?_, ?_⟩
  · intro n
    rw [hfile, Except.ok.injEq, List.findSome?_eq_some_iff]
    simp only [declared?_eq_some_iff, declared?_eq_none_iff]
  · rw [hfile, Except.ok.injEq, List.findSome?_eq_none_iff]
    simp only [declared?_eq_none_iff]
  · intro line hline hmem
    obtain ⟨-, hcut⟩ := Text.of_mem_splitOn hline _ hmem
    cases hcut
  · intro line n m hn hm
    rw [← declared?_eq_some_iff] at hn hm
    exact Option.some.inj (hn.symm.trans hm)
  · rintro line n ⟨-, -, -, -, -, -, -, ⟨-, hname⟩, -⟩
    refine ⟨components_relativeDir hname, fun seg hseg => ⟨fun hdot => ?_, fun hslash => ?_⟩⟩
    · obtain ⟨-, hcut⟩ := Text.of_mem_splitOn hseg _ hdot
      cases hcut
    · exact not_slash_of_mem (hname _ (Text.of_mem_splitOn hseg _ hslash).1) rfl

/-- A source file whose first two mentions of a package declare none: one stands behind other
characters, the other goes on in the next line. -/
def nearMissText : Text :=
  "/* package x; */\r\npackage\u00A0\n y;\n\u3000package  a..b-c$.d_1\t ;*\r\npackage z;\n".toList

/-- A store with this file. -/
def nearMissStore : Store where
  entries := [(locationOf ["U.java"], .file (encode nearMissText) plainMode ⟨0, 0⟩)]
  cwd := []
  clock := ⟨1, 0⟩

theorem ofFile_nearMissStore :
    nearMissStore.read (.ofText "/U.java".toList) = .ok (encode nearMissText) ∧
      '\x00' ∉ nearMissText ∧ nearMissText.head? ≠ some '\uFEFF' ∧
      ∃ sc, scanner = .ok sc ∧
        ofFile nearMissStore sc (.ofText "/U.java".toList) = .ok (some "a..b-c$.d_1".toList) ∧
        (relativeDir "a..b-c$.d_1".toList).components =
          [.name (encode "a".toList), .name (encode "b-c$".toList),
            .name (encode "d_1".toList)] := by
  have hread : nearMissStore.read (.ofText "/U.java".toList) = .ok (encode nearMissText) := by
    decide +kernel
  have hnul : '\x00' ∉ nearMissText := by decide +kernel
  have hmark : nearMissText.head? ≠ some '\uFEFF' := by decide +kernel
  have hline : Declares "\u3000package  a..b-c$.d_1\t ;*\r".toList "a..b-c$.d_1".toList :=
    declared?_sound (by decide +kernel)
  have hbefore : ∀ l ∈ ["/* package x; */\r".toList, "package\u00A0".toList, " y;".toList],
      ∀ m, ¬ Declares l m := by
    simp only [← declared?_eq_none_iff]
    decide +kernel
  obtain ⟨sc, hsc, hsome, -, -, -, hdir⟩ := ofFile_eq_some_iff hread hnul hmark
  have hlines : Text.splitOn (· == '\n') nearMissText =
      ["/* package x; */\r".toList, "package\u00A0".toList, " y;".toList] ++
        "\u3000package  a..b-c$.d_1\t ;*\r".toList :: ["package z;".toList, []] := by decide +kernel
  exact ⟨hread, hnul, hmark, sc, hsc, (hsome _).mpr ⟨_, _, _, hlines, hline, hbefore⟩,
    (hdir _ _ hline).1.trans (by decide +kernel)⟩

end Package

end Excerpt
