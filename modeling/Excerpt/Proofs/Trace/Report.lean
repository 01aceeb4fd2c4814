import Excerpt.Proofs.Text.Encoding
import Excerpt.Trace.Monitor

/-!
# The search path that a compiler reports

A compiler prints the directories in which it searches for sources into one line, with commas
between them and no escaping. So each directory is read back on its own, as the pieces between its
commas without the blanks around them; a directory comes back unchanged exactly if it is
*listable*: a text without commas that neither starts nor ends with a blank.

A monitor keeps what the last such line says, and `unclaimed_report` says what it complains about.
-/

namespace Excerpt

namespace Text

/-! ### Trimmed texts -/

lemma trimEnd_isPrefix (t : Text) : trimEnd t <+: t := by
  have hsuffix := List.dropWhile_suffix isBlank (l := t.reverse)
  rw [trimEnd, dropEndWhile, ← List.reverse_suffix, List.reverse_reverse]
  exact hsuffix

lemma dropWhile_of_head? {p : Char → Bool} {t : Text} (h : ∀ c ∈ t.head?, p c = false) :
    t.dropWhile p = t := by
  cases t with
  | nil => rfl
  | cons c t => exact List.dropWhile_cons_of_neg (by simp [h c rfl])

/-- Trimming leaves nothing to trim. -/
lemma trim_trim (t : Text) : trim (trim t) = trim t := by
  have hstart : trimStart (trim t) = trim t := by
    apply dropWhile_of_head?
    intro c hc
    obtain ⟨more, hmore⟩ := trimEnd_isPrefix (trimStart t)
    apply head?_dropWhile_eq_false (p := isBlank) t c
    rw [← trimStart, ← hmore, List.head?_append, ← trim, Option.mem_def.mp hc]
    rfl
  have hend : trimEnd (trim t) = trim t := by
    have hidem := dropWhile_of_head? (head?_dropWhile_eq_false (p := isBlank) (trimStart t).reverse)
    rw [trim, trimEnd, trimEnd, dropEndWhile, dropEndWhile, List.reverse_reverse, hidem]
  rw [trim, hstart, hend]

lemma mem_of_mem_trim {c : Char} {t : Text} (h : c ∈ trim t) : c ∈ t :=
  (List.dropWhile_suffix isBlank).subset ((trimEnd_isPrefix _).subset h)

lemma trim_cons_blank {c : Char} (hc : isBlank c = true) (t : Text) : trim (c :: t) = trim t := by
  rw [trim, trimStart, List.dropWhile_cons_of_pos hc, trim, trimStart]

end Text

namespace TraceEvent

variable {t u : Text} {dirs : List Path}

/-! ### The printer -/

/-- The line in which a compiler says where it searches for sources. -/
def sourcePathLine (dirs : List Path) : Text :=
  '[' :: (sourcePathWords ++ ' ' :: Text.join [','] (dirs.map Path.display)) ++ [']']

/-! ### The reader -/

/-- A list is read on both sides of a comma. -/
lemma splitEntries_append_comma (t u : Text) :
    splitEntries (t ++ ',' :: u) = splitEntries t ++ splitEntries u := by
  rw [splitEntries, Text.splitOn_append_cons (by rfl)]
  simp [splitEntries]

/-- A blank in front of a list does not matter. -/
lemma splitEntries_cons_blank {c : Char} (hc : Text.isBlank c = true) (t : Text) :
    splitEntries (c :: t) = splitEntries t := by
  have hcomma : (c == ',') = false := by
    rw [beq_eq_false_iff_ne]
    rintro rfl
    exact absurd hc (by decide)
  obtain ⟨piece, rest, hsplit, hcons⟩ := Text.splitOn_cons_of_neg (p := (· == ',')) hcomma t
  rw [splitEntries, splitEntries, hsplit, hcons]
  simp [Text.trim_cons_blank hc]

/-- Joined lists are read one after the other. -/
lemma splitEntries_join (ts : List Text) :
    splitEntries (Text.join [','] ts) = ts.flatMap splitEntries := by
  induction ts with
  | nil => rfl
  | cons t ts ih =>
    cases ts with
    | nil => simp [Text.join]
    | cons u ts =>
      rw [Text.join, List.append_assoc, List.singleton_append, splitEntries_append_comma, ih]
      · rfl
      · simp

/-- The line with the search path is read as the pieces of each of its directories. -/
lemma parse_sourcePathLine (dirs : List Path) : parse (sourcePathLine dirs) =
    .sourcePath (dirs.flatMap fun p => splitEntries p.display) := by
  set body := sourcePathWords ++ ' ' :: Text.join [','] (dirs.map Path.display) with hbody
  have hinner : (Text.afterStart? ['['] ('[' :: body ++ [']'])).bind (Text.beforeEnd? [']']) =
      some body := by
    have hfront := Text.afterStart?_append ['['] (body ++ [']'])
    rw [List.singleton_append] at hfront
    rw [List.cons_append, hfront]
    exact Text.beforeEnd?_append body [']']
  have hother : ∀ words ∈ [parsingWords, loadingWords], Text.afterStart? words body = none := by
    simp only [List.mem_cons, List.not_mem_nil, or_false]
    rintro words (rfl | rfl) <;> rfl
  have hwords : Text.afterStart? sourcePathWords body =
      some (' ' :: Text.join [','] (dirs.map Path.display)) := Text.afterStart?_append _ _
  rw [parse, sourcePathLine, Text.trim_of_ends (by decide) (by decide), hinner]
  simp only [ofBody, hother parsingWords (by simp), hother loadingWords (by simp), hwords]
  rw [splitEntries_cons_blank (by decide), splitEntries_join, List.flatMap_map]

end TraceEvent

/-! ### Listable paths -/

/-- The path can stand in a list without escaping: it is a text without commas and without blanks
at its ends. -/
structure Path.IsListable (p : Path) : Prop where
  spelled : Path.ofText p.display = p
  noComma : ',' ∉ p.display
  trimmed : Text.trim p.display = p.display
  ne_nil : p.display ≠ []

namespace TraceEvent

/-- Exactly the listable paths are read back. -/
lemma splitEntries_display_iff {p : Path} : splitEntries p.display = [p] ↔ p.IsListable := by
  constructor
  · intro h
    obtain ⟨u, hu, rfl⟩ := List.map_eq_singleton_iff.mp h
    have hdisplay : (Path.ofText u).display = u := Utf8.lossy_encode u
    obtain ⟨hmem, hne⟩ := List.mem_filter.mp (hu ▸ List.mem_singleton_self u)
    obtain ⟨piece, hpiece, rfl⟩ := List.mem_map.mp hmem
    refine ⟨by rw [hdisplay], ?_, ?_, ?_⟩
    · rw [hdisplay]
      intro hcomma
      exact absurd (Text.of_mem_splitOn hpiece _ (Text.mem_of_mem_trim hcomma)).2 (by decide)
    · rw [hdisplay, Text.trim_trim]
    · rw [hdisplay]
      simpa using hne
  · rintro ⟨hspelled, hcomma, htrimmed, hne⟩
    have hsplit : Text.splitOn (· == ',') p.display = [p.display] := Text.splitOn_of_notMem hcomma
    simp [splitEntries, hsplit, htrimmed, hne, hspelled]

end TraceEvent

/-! ### What a monitor complains about -/

namespace Monitor

open TraceEvent

variable {w : Watch} {m : Monitor} {e : TraceEvent} {es : List TraceEvent}

/-- Only a line with the search path changes what is kept of it. -/
lemma reported_observe (h : ∀ entries, e ≠ .sourcePath entries) :
    (observe w m e).reported = m.reported := by
  unfold observe
  split
  · exact absurd rfl (h _)
  · cases addition? w e <;> rfl

lemma reported_foldl_observe (h : ∀ e ∈ es, ∀ entries, e ≠ .sourcePath entries) :
    (es.foldl (observe w) m).reported = m.reported := by
  induction es generalizing m with
  | nil => rfl
  | cons e es ih =>
    rw [List.foldl_cons, ih fun d hd => h d (List.mem_cons_of_mem _ hd),
      reported_observe (h e List.mem_cons_self)]

/-- What the last line with a search path says is kept. -/
lemma reported_observeTrace {trace line : Text} {front back : List Text} {entries : List Path}
    (hlines : Text.lines trace = front ++ line :: back) (hline : parse line = .sourcePath entries)
    (hback : ∀ line ∈ back, ∀ entries, parse line ≠ .sourcePath entries) :
    (observeTrace w m trace).reported = entries := by
  rw [observeTrace, hlines, List.map_append, List.foldl_append, List.map_cons, List.foldl_cons,
    reported_foldl_observe, hline]
  · rfl
  · intro e he
    obtain ⟨later, hlater, rfl⟩ := List.mem_map.mp he
    exact hback later hlater

/-- If the last search path in a trace lists some directories, a monitor complains about those
pieces of them that no root covers. So it does not complain if the roots are listed and all of them
are listable, and it does complain about a listable directory that no root covers. -/
theorem unclaimed_report {trace : Text} {front back : List Text} {dirs : List Path}
    (hlines : Text.lines trace = front ++ sourcePathLine dirs :: back)
    (hback : ∀ line ∈ back, ∀ entries, parse line ≠ .sourcePath entries) :
    unclaimed w (observeTrace w m trace) = (dirs.flatMap fun p => splitEntries p.display).filter
        (!FileObject.isUnder w.roots ·) ∧
      (dirs = w.roots → (∀ root ∈ w.roots, root.IsListable) →
        unclaimed w (observeTrace w m trace) = []) ∧
      ∀ p ∈ dirs, p.IsListable → (∀ root ∈ w.roots, p.startsWith root = false) →
        p ∈ unclaimed w (observeTrace w m trace) := by
  have hunclaimed : unclaimed w (observeTrace w m trace) =
      (dirs.flatMap fun p => splitEntries p.display).filter (!FileObject.isUnder w.roots ·) := by
    rw [unclaimed, reported_observeTrace hlines (parse_sourcePathLine dirs) hback]
  refine ⟨hunclaimed, ?_, ?_⟩
  · rintro rfl hroots
    rw [hunclaimed, List.filter_eq_nil_iff]
    intro p hp
    obtain ⟨root, hroot, hpiece⟩ := List.mem_flatMap.mp hp
    rw [splitEntries_display_iff.mpr (hroots root hroot), List.mem_singleton] at hpiece
    subst hpiece
    have hunder : FileObject.isUnder w.roots p = true :=
      List.any_eq_true.mpr ⟨p, hroot, List.isPrefixOf_iff_prefix.mpr List.prefix_rfl⟩
    simp [hunder]
  · intro p hp hlistable hroots
    rw [hunclaimed, List.mem_filter]
    constructor
    · refine List.mem_flatMap.mpr ⟨p, hp, ?_⟩
      rw [splitEntries_display_iff.mpr hlistable]
      exact List.mem_singleton_self p
    · have hunder : FileObject.isUnder w.roots p = false :=
        List.any_eq_false.mpr fun root hroot => by simp [hroots root hroot]
      simp [hunder]

/-- A watch for the files beneath two directories. -/
def twoRoots : Watch where
  roots := [.ofText "/c/src".toList, .ofText "/tmp/my tests".toList]
  entries := []
  sourceExt := "java".toList

/-- A trace with two search paths for sources, of which the second lists `dirs`, and then one for
classes. -/
def reportTrace (dirs : List Path) : Text :=
  "[search path for source files: /c/old]\n".toList ++ sourcePathLine dirs ++
    "\n[search path for class files: /c/classes]\n".toList

/-- A faithful report of two roots gives no complaint, and a directory in the place of a root
does. -/
theorem unclaimed_twoRoots :
    unclaimed twoRoots (observeTrace twoRoots start (reportTrace twoRoots.roots)) = [] ∧
      Path.ofText "/real/src".toList ∈ unclaimed twoRoots
        (observeTrace twoRoots start (reportTrace [.ofText "/real/src".toList])) := by
  have hback : ∀ line ∈ ["[search path for class files: /c/classes]".toList], ∀ entries,
      parse line ≠ .sourcePath entries := by
    intro line hline entries
    have hparse : parse "[search path for class files: /c/classes]".toList =
        .classPath [.ofText "/c/classes".toList] := by decide +kernel
    rw [List.mem_singleton.mp hline, hparse]
    exact TraceEvent.noConfusion
  constructor
  · have hlines : Text.lines (reportTrace twoRoots.roots) =
        ["[search path for source files: /c/old]".toList] ++ sourcePathLine twoRoots.roots ::
          ["[search path for class files: /c/classes]".toList] := by decide +kernel
    refine (unclaimed_report hlines hback).2.1 rfl ?_
    simp only [twoRoots, List.mem_cons, List.not_mem_nil, or_false, forall_eq_or_imp, forall_eq]
    exact ⟨⟨by decide +kernel, by decide +kernel, by decide +kernel, by decide +kernel⟩,
      ⟨by decide +kernel, by decide +kernel, by decide +kernel, by decide +kernel⟩⟩
  · have hlines : Text.lines (reportTrace [.ofText "/real/src".toList]) =
        ["[search path for source files: /c/old]".toList] ++
          sourcePathLine [.ofText "/real/src".toList] ::
          ["[search path for class files: /c/classes]".toList] := by decide +kernel
    refine (unclaimed_report hlines hback).2.2 _ (List.mem_singleton_self _) ?_ ?_
    · exact ⟨by decide +kernel, by decide +kernel, by decide +kernel, by decide +kernel⟩
    · decide +kernel

/-- A root with a comma in its name is complained about although it is reported faithfully. -/
theorem unclaimed_comma_root :
    unclaimed ⟨[.ofText "/c/a,b".toList], [], "java".toList⟩
      (observeTrace ⟨[.ofText "/c/a,b".toList], [], "java".toList⟩ start
        (sourcePathLine [.ofText "/c/a,b".toList] ++ ['\n'])) ≠ [] := by
  decide +kernel

end Monitor

end Excerpt
