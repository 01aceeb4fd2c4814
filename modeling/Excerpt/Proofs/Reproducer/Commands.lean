import Excerpt.Proofs.Reproducer
import Excerpt.Proofs.Shell

/-!
# The commands of the script

The values of the script stand in three kinds of places: in comments, in single quotes and in double
quotes. Each kind has its own characters that end it or keep a meaning in it. `tokens_render` reads
the script as the shell does: where no value has such a character, every value is taken as it is,
and the commands are the same for all values. A value is put in without escaping, so one that has
such a character can change them: `tokens_render_quote` is about options with a single quote.
-/

namespace Excerpt

namespace Reproducer

open Shell (Token ReadsAs)

variable {test test' : Text} {v v' : Values}

/-! ### Lines of the script -/

/-- A word with an assignment of a text in single quotes. -/
def assignment (name : String) (value : Text) : Token :=
  .word (name.toList.map .plain ++ value.map .quoted)

/-- A text in double quotes that is a word. -/
def doubleQuoted (t : Text) : Token := .word (t.map .quoted)

/-- The line for the export of the options, or a comment that there are none. -/
def exportTokens (options : Option Text) : List Token :=
  match options with
  | some o => [.plain "export".toList, assignment "JAVA_TOOL_OPTIONS=" o]
  | none => [.comment " no JAVA_TOOL_OPTIONS found in runtime of this tool".toList]

/-- The last line of the script. -/
def hint : String :=
  "echo \"  \\$\x7bJAVA_HOME\x7d/bin/java -cp classes <main class from the test description>\""

/-- The lines of the script, each with its tokens. -/
def lines (test : Text) (v : Values) : List (Text × List Token) :=
  [("#!/bin/sh".toList, [.comment "!/bin/sh".toList]),
   ("# Reproducer for ".toList ++ test, [.comment (" Reproducer for ".toList ++ test)]),
   ("# Extracted: ".toList ++ v.date, [.comment (" Extracted: ".toList ++ v.date)]),
   ("# Jenkins: ".toList ++ orMissing v.jenkinsUrl "JENKINS_URL",
    [.comment (" Jenkins: ".toList ++ orMissing v.jenkinsUrl "JENKINS_URL")]),
   ("# Job: ".toList ++ orMissing v.jobName "JOB_NAME",
    [.comment (" Job: ".toList ++ orMissing v.jobName "JOB_NAME")]),
   ("# Build: ".toList ++ orMissing v.buildId "BUILD_ID",
    [.comment (" Build: ".toList ++ orMissing v.buildId "BUILD_ID")]),
   ("set -e".toList, [.plain "set".toList, .plain "-e".toList]),
   ("".toList, []),
   ("cd \"$(dirname \"$0\")\"".toList,
    [.plain "cd".toList, .word [.expansion true "$(dirname \"$0\")".toList]]),
   ("".toList, []),
   ("JAVA_TOOL_OPTIONS_AT_EXTRACTION".toList ++ Slot.value test v .assigned,
    [assignment "JAVA_TOOL_OPTIONS_AT_EXTRACTION=" (v.javaToolOptions.getD [])]),
   (Slot.value test v .exported, exportTokens v.javaToolOptions),
   ("".toList, []),
   ("make classes".toList, [.plain "make".toList, .plain "classes".toList]),
   ("".toList, []),
   ("if [ -d src/share ] ; then".toList,
    [.plain "if".toList, .plain "[".toList, .plain "-d".toList, .plain "src/share".toList,
     .plain "]".toList, .operator ';', .plain "then".toList]),
   ("  make natives".toList, [.plain "make".toList, .plain "natives".toList]),
   ("  LD_LIBRARY_PATH=\"$(pwd)/lib$\x7bLD_LIBRARY_PATH:+:$LD_LIBRARY_PATH\x7d\"".toList,
    [.word ("LD_LIBRARY_PATH=".toList.map .plain ++ [.expansion true "$(pwd)".toList] ++
      "/lib".toList.map .quoted ++
      [.expansion true "$\x7bLD_LIBRARY_PATH:+:$LD_LIBRARY_PATH\x7d".toList])]),
   ("  export LD_LIBRARY_PATH".toList, [.plain "export".toList, .plain "LD_LIBRARY_PATH".toList]),
   ("fi".toList, [.plain "fi".toList]),
   ("".toList, []),
   ("echo \"classes built for ".toList ++ test ++ "; run the test with:\"".toList,
    [.plain "echo".toList,
     doubleQuoted ("classes built for ".toList ++ test ++ "; run the test with:".toList)]),
   (hint.toList,
    [.plain "echo".toList,
     doubleQuoted ("  $\x7bJAVA_HOME\x7d/bin/java -cp classes ".toList ++
       "<main class from the test description>".toList)])]

lemma weave_value (test : Text) (v : Values) :
    weave (Slot.value test v) = (lines test v).flatMap fun l => l.1 ++ ['\n'] := by
  have hopening : opening = "#!/bin/sh".toList ++ (['\n'] ++ "# Reproducer for ".toList) := by
    decide
  have hdate : "\n# Extracted: ".toList = ['\n'] ++ "# Extracted: ".toList := by decide
  have hjenkins : "\n# Jenkins: ".toList = ['\n'] ++ "# Jenkins: ".toList := by decide
  have hjob : "\n# Job: ".toList = ['\n'] ++ "# Job: ".toList := by decide
  have hbuild : "\n# Build: ".toList = ['\n'] ++ "# Build: ".toList := by decide
  rw [weave, layout, lines, hopening, hdate, hjenkins, hjob, hbuild]
  simp only [textOfLines, List.flatMap_cons, List.flatMap_nil, List.append_assoc, List.append_nil]
  rfl

/-! ### Values that stay data -/

/-- No value spells a placeholder that is filled later, and none has a character that ends or means
something where it is put: newlines end comments, four characters have a meaning in double quotes,
and single quotes end at a single quote. -/
structure Harmless (test : Text) (v : Values) : Prop where
  placeholders : ∀ k : Slot, ∀ j ∈ k.later, ¬ j.piece <:+: k.value test v
  test : ∀ c ∈ test, c ≠ '\n' ∧ c ∉ Shell.doubleChars
  date : '\n' ∉ v.date
  jenkinsUrl : ∀ t ∈ v.jenkinsUrl, '\n' ∉ t
  jobName : ∀ t ∈ v.jobName, '\n' ∉ t
  buildId : ∀ t ∈ v.buildId, '\n' ∉ t
  options : ∀ o ∈ v.javaToolOptions, '\x27' ∉ o

instance (line : Text) (ts : List Token) : Decidable (ReadsAs line ts) :=
  inferInstanceAs (Decidable (_ = _))

/-- A value in a comment stays in it. -/
lemma readsAs_comment_append (words : Text) {value : Text} (hwords : '\n' ∉ words)
    (h : '\n' ∉ value) :
    ReadsAs ('#' :: (words ++ value)) [.comment (words ++ value)] :=
  Shell.readsAs_comment fun hmem => (List.mem_append.mp hmem).elim hwords h

lemma newline_notMem_orMissing {value : Option Text} (name : String)
    (hname : '\n' ∉ name.toList) (h : ∀ t ∈ value, '\n' ∉ t) : '\n' ∉ orMissing value name := by
  cases value with
  | none =>
    intro hmem
    exact (List.mem_append.mp hmem).elim (by decide) hname
  | some t => exact h t rfl

lemma readsAs_assigned (h : ∀ o ∈ v.javaToolOptions, '\x27' ∉ o) :
    ReadsAs ("JAVA_TOOL_OPTIONS_AT_EXTRACTION".toList ++ Slot.value test v .assigned)
      [assignment "JAVA_TOOL_OPTIONS_AT_EXTRACTION=" (v.javaToolOptions.getD [])] := by
  cases ho : v.javaToolOptions with
  | none =>
    simp only [Slot.value, ho]
    decide +kernel
  | some o =>
    have hname : "JAVA_TOOL_OPTIONS_AT_EXTRACTION=".toList =
        "JAVA_TOOL_OPTIONS_AT_EXTRACTION".toList ++ ['='] := by decide +kernel
    have hword : Shell.start.run "JAVA_TOOL_OPTIONS_AT_EXTRACTION=".toList = ([], ⟨.outside,
        some ("JAVA_TOOL_OPTIONS_AT_EXTRACTION=".toList.map .plain).reverse, []⟩) := by
      decide +kernel
    have hread := Shell.readsAs_assignment hword (h o ho)
    rw [hname, List.append_assoc, List.singleton_append, ← hname] at hread
    simp only [Slot.value, ho]
    exact hread

lemma readsAs_exported (h : ∀ o ∈ v.javaToolOptions, '\x27' ∉ o) :
    ReadsAs (Slot.value test v .exported) (exportTokens v.javaToolOptions) := by
  cases ho : v.javaToolOptions with
  | none =>
    simp only [Slot.value, ho]
    decide +kernel
  | some o =>
    have hline : "export JAVA_TOOL_OPTIONS=".toList =
        "export ".toList ++ "JAVA_TOOL_OPTIONS=".toList := by decide +kernel
    have hexport : Shell.start.run "export ".toList = ([.plain "export".toList], Shell.start) := by
      decide +kernel
    have hword : Shell.start.run "JAVA_TOOL_OPTIONS=".toList = ([], ⟨.outside,
        some ("JAVA_TOOL_OPTIONS=".toList.map .plain).reverse, []⟩) := by decide +kernel
    have hread := ReadsAs.append hexport (Shell.readsAs_assignment hword (h o ho))
    rw [← List.append_assoc, ← hline] at hread
    simp only [Slot.value, ho]
    exact hread

lemma readsAs_echo (h : ∀ c ∈ test, c ∉ Shell.doubleChars) :
    ReadsAs ("echo \"classes built for ".toList ++ test ++ "; run the test with:\"".toList)
      [.plain "echo".toList,
        doubleQuoted ("classes built for ".toList ++ test ++ "; run the test with:".toList)] := by
  have hbefore : "echo \"classes built for ".toList =
      "echo ".toList ++ '\x22' :: "classes built for ".toList := by decide +kernel
  have hbehind : "; run the test with:\"".toList =
      "; run the test with:".toList ++ ['\x22'] := by decide +kernel
  have hecho : Shell.start.run "echo ".toList = ([.plain "echo".toList], Shell.start) := by
    decide +kernel
  have hwords : ∀ c ∈ "classes built for ".toList ++ "; run the test with:".toList,
      c ∉ Shell.doubleChars := by simp [Shell.doubleChars]
  have hquoted : ∀ c ∈ "classes built for ".toList ++ test ++ "; run the test with:".toList,
      c ∉ Shell.doubleChars := by
    intro c hc
    simp only [List.mem_append] at hc hwords
    rcases hc with (hc | hc) | hc
    · exact hwords c (Or.inl hc)
    · exact h c hc
    · exact hwords c (Or.inr hc)
  have hread := ReadsAs.append hecho (Shell.readsAs_double hquoted)
  rw [hbefore, hbehind]
  simp only [List.append_assoc, List.cons_append] at hread ⊢
  exact hread

/-- Each line of the script is read as its tokens. -/
lemma readsAs_lines (h : Harmless test v) : ∀ l ∈ lines test v, ReadsAs l.1 l.2 := by
  have htest : '\n' ∉ test := fun hmem => (h.test _ hmem).1 rfl
  have hurl := newline_notMem_orMissing "JENKINS_URL" (by decide) h.jenkinsUrl
  have hjob := newline_notMem_orMissing "JOB_NAME" (by decide) h.jobName
  have hbuild := newline_notMem_orMissing "BUILD_ID" (by decide) h.buildId
  rw [lines]
  simp only [List.forall_mem_cons]
  refine ⟨?_, readsAs_comment_append " Reproducer for ".toList (by decide) htest,
    readsAs_comment_append " Extracted: ".toList (by decide) h.date,
    readsAs_comment_append " Jenkins: ".toList (by decide) hurl,
    readsAs_comment_append " Job: ".toList (by decide) hjob,
    readsAs_comment_append " Build: ".toList (by decide) hbuild,
    ?_, ?_, ?_, ?_, readsAs_assigned h.options, readsAs_exported h.options,
    ?_, ?_, ?_, ?_, ?_, ?_, ?_, ?_, ?_, readsAs_echo fun c hc => (h.test c hc).2,
    ?_, List.forall_mem_nil _⟩
  -- The other lines have no value in them.
  all_goals decide +kernel

/-! ### The script -/

/-- The tokens of the script. -/
def scriptTokens (test : Text) (v : Values) : List Token :=
  (lines test v).flatMap fun l => l.2 ++ [.operator '\n']

lemma render_eq_lines (h : ∀ k : Slot, ∀ j ∈ k.later, ¬ j.piece <:+: k.value test v) :
    render test v = (lines test v).flatMap fun l => l.1 ++ ['\n'] := by
  have hheld : Slot.held (Slot.value test v) = Slot.value test v := by
    funext k
    exact Slot.fill_of_notInfix (h k)
  rw [render_eq_weave, hheld, weave_value]

lemma tokens_render_of_harmless (h : Harmless test v) :
    Shell.tokens (render test v) = some (scriptTokens test v) := by
  rw [render_eq_lines h.placeholders, Shell.tokens_lines (readsAs_lines h), scriptTokens]

@[simp] lemma shape_assignment (name : String) (value : Text) :
    (assignment name value).shape = .plain name.toList := by
  simp [assignment, Token.shape, Token.plain, List.filter_map, Function.comp_def]

@[simp] lemma shape_doubleQuoted (t : Text) : (doubleQuoted t).shape = .word [] := by
  simp [doubleQuoted, Token.shape]

@[simp] lemma shape_comment (t : Text) : (Token.comment t).shape = .comment [] := rfl

/-- The tokens without the values: only whether there are options matters. -/
lemma shape_scriptTokens (h : v'.javaToolOptions.isSome = v.javaToolOptions.isSome) :
    (scriptTokens test' v').map Token.shape = (scriptTokens test v).map Token.shape := by
  have hexported : (exportTokens v'.javaToolOptions).map Token.shape =
      (exportTokens v.javaToolOptions).map Token.shape := by
    cases ho : v.javaToolOptions <;> cases ho' : v'.javaToolOptions
    · rfl
    · simp [ho, ho'] at h
    · simp [ho, ho'] at h
    · simp only [exportTokens, List.map_cons, shape_assignment]
  simp only [scriptTokens, List.map_flatMap, List.map_append]
  rw [lines, lines]
  simp only [List.flatMap_cons, hexported, List.map_cons, shape_assignment, shape_doubleQuoted,
    shape_comment]

/-- The script is read as its tokens, each value as it is: the two places of the options are one
word each, the comments end with their lines and the message is one word that names the test. So the
commands are the same for all values; only whether there are options matters. -/
theorem tokens_render (h : Harmless test v) :
    Shell.tokens (render test v) = some (scriptTokens test v) ∧
      ∀ test' v', Harmless test' v' → v'.javaToolOptions.isSome = v.javaToolOptions.isSome →
        (Shell.tokens (render test' v')).map (·.map Token.shape) =
          (Shell.tokens (render test v)).map (·.map Token.shape) := by
  refine ⟨tokens_render_of_harmless h, ?_⟩
  intro test' v' h' hoptions
  rw [tokens_render_of_harmless h, tokens_render_of_harmless h', Option.map_some, Option.map_some,
    shape_scriptTokens hoptions]

/-- Options with a dollar sign, double quotes and blanks are taken as they are, and read as the same
commands as other options. -/
theorem tokens_render_dollar :
    Shell.tokens (render "api/T".toList
        ⟨"D".toList, some "http://h/".toList, none, none, some "-Da=$b \"c d\"".toList⟩) =
      some (scriptTokens "api/T".toList
        ⟨"D".toList, some "http://h/".toList, none, none, some "-Da=$b \"c d\"".toList⟩) ∧
    (Shell.tokens (render "U".toList
        ⟨"E".toList, none, none, none, some "-ea".toList⟩)).map (·.map Token.shape) =
      (Shell.tokens (render "api/T".toList
        ⟨"D".toList, some "http://h/".toList, none, none,
          some "-Da=$b \"c d\"".toList⟩)).map (·.map Token.shape) := by
  have hplain : Harmless "api/T".toList
      ⟨"D".toList, some "http://h/".toList, none, none, some "-Da=$b \"c d\"".toList⟩ := by
    refine ⟨?_, by simp [Shell.doubleChars], by decide, by decide, by decide, by decide, by decide⟩
    intro k j _
    apply Slot.not_piece_isInfix
    cases k <;> decide
  have hother : Harmless "U".toList ⟨"E".toList, none, none, none, some "-ea".toList⟩ := by
    refine ⟨?_, by simp [Shell.doubleChars], by decide, by decide, by decide, by decide, by decide⟩
    intro k j _
    apply Slot.not_piece_isInfix
    cases k <;> decide
  obtain ⟨htokens, hsame⟩ := tokens_render hplain
  exact ⟨htokens, hsame _ _ hother rfl⟩

/-- Options with a single quote end the quoting: the export is no command of its own any more, but
part of the word that is assigned before. -/
theorem tokens_render_quote :
    (∀ k : Slot, ∀ j : Slot, ¬ j.piece <:+:
        k.value "api/T".toList ⟨"D".toList, none, none, none, some "it\x27s".toList⟩) ∧
      Shell.tokens (render "api/T".toList
          ⟨"D".toList, none, none, none, some "it\x27s".toList⟩) ≠
        some (scriptTokens "api/T".toList
          ⟨"D".toList, none, none, none, some "it\x27s".toList⟩) ∧
      (Shell.tokens (render "api/T".toList
          ⟨"D".toList, none, none, none, some "it\x27s".toList⟩)).map (·.map Token.shape) ≠
        (Shell.tokens (render "api/T".toList
          ⟨"D".toList, none, none, none, some "its".toList⟩)).map (·.map Token.shape) := by
  have hplain : ∀ k j : Slot, ¬ j.piece <:+:
      k.value "api/T".toList ⟨"D".toList, none, none, none, some "it\x27s".toList⟩ := by
    intro k
    apply Slot.not_piece_isInfix
    cases k <;> decide
  have hits : ∀ k j : Slot, ¬ j.piece <:+:
      k.value "api/T".toList ⟨"D".toList, none, none, none, some "its".toList⟩ := by
    intro k
    apply Slot.not_piece_isInfix
    cases k <;> decide
  rw [render_eq_lines fun k j _ => hplain k j, render_eq_lines fun k j _ => hits k j]
  refine ⟨hplain, ?_, ?_⟩
  all_goals decide +kernel

end Reproducer

end Excerpt
