import Excerpt.Reproducer
import Excerpt.Proofs.Text.Pieces

/-!
# What the script is filled with

The template is words with slots between them. Replacing a slot's placeholder in the whole script
replaces it in what each slot holds so far, and nowhere else. So the script is the template with all
slots filled in one pass, but a slot that is filled early holds its value with the placeholders of
the later slots replaced in it; where no value spells such a placeholder, it holds the value.
-/

namespace Excerpt

namespace Reproducer

/-! ### Slots -/

/-- A slot of the script. -/
inductive Slot
  | test
  | date
  | jenkinsUrl
  | jobName
  | buildId
  | assigned
  | exported
  deriving DecidableEq, Repr

variable {a : Slot → Text} {j k : Slot}

namespace Slot

/-- The slots, in the order in which they are filled. -/
def all : List Slot := [.test, .date, .jenkinsUrl, .jobName, .buildId, .assigned, .exported]

@[simp] lemma mem_all (k : Slot) : k ∈ all := by cases k <;> decide

/-- What stands for a slot in the template. -/
def piece : Slot → Text
  | .test => placeholder "TEST"
  | .date => placeholder "DATE"
  | .jenkinsUrl => placeholder "JENKINS_URL"
  | .jobName => placeholder "JOB_NAME"
  | .buildId => placeholder "BUILD_ID"
  | .assigned => '=' :: placeholder "JAVA_TOOL_OPTIONS"
  | .exported => '#' :: placeholder "JAVA_TOOL_OPTIONS"

/-- What a slot is filled with. -/
def value (test : Text) (v : Values) : Slot → Text
  | .test => test
  | .date => v.date
  | .jenkinsUrl => orMissing v.jenkinsUrl "JENKINS_URL"
  | .jobName => orMissing v.jobName "JOB_NAME"
  | .buildId => orMissing v.buildId "BUILD_ID"
  | .assigned =>
    match v.javaToolOptions with
    | some o => '=' :: (['\x27'] ++ o ++ ['\x27'])
    | none => ['=']
  | .exported =>
    match v.javaToolOptions with
    | some o => "export JAVA_TOOL_OPTIONS=".toList ++ (['\x27'] ++ o ++ ['\x27'])
    | none => "# no JAVA_TOOL_OPTIONS found in runtime of this tool".toList

/-- The slots that are filled after this one. -/
def later (k : Slot) : List Slot := (all.dropWhile (· != k)).tail

/-- The placeholders of some slots replaced by values, one after the other. -/
def fill (a : Slot → Text) (slots : List Slot) (t : Text) : Text :=
  slots.foldl (fun t k => Text.replace k.piece (a k) t) t

/-- What is in a slot in the end: its value, in which the later slots have been filled as well. -/
def held (a : Slot → Text) (k : Slot) : Text := fill a k.later (a k)

/-- The slots with what is to be put into them. -/
def table (a : Slot → Text) : List (Text × Text) := all.map fun k => (k.piece, a k)

@[simp] lemma fill_nil (t : Text) : fill a [] t = t := rfl

@[simp] lemma fill_cons (slots : List Slot) (t : Text) :
    fill a (k :: slots) t = fill a slots (Text.replace k.piece (a k) t) := rfl

lemma piece_ne_nil (k : Slot) : k.piece ≠ [] := by cases k <;> simp [piece, placeholder]

/-- No placeholder is spelled by another one. -/
lemma piece_isInfix_piece : j.piece <:+: k.piece ↔ j = k := by
  have hall : ∀ j ∈ all, ∀ k ∈ all, (j.piece <:+: k.piece ↔ j = k) := by decide +kernel
  exact hall j (mem_all j) k (mem_all k)

/-- A text without braces spells no placeholder. -/
lemma not_piece_isInfix {t : Text} (h : '\x7b' ∉ t) (j : Slot) : ¬ j.piece <:+: t := by
  intro hspelled
  apply h
  apply hspelled.subset
  cases j <;> simp [piece, placeholder]

lemma replace_piece (j k : Slot) (new : Text) :
    Text.replace j.piece new k.piece = if j = k then new else k.piece := by
  split_ifs with h
  · rw [h, Text.replace_self (piece_ne_nil k)]
  · exact Text.replace_of_notInfix (piece_isInfix_piece.not.mpr h) new

/-- The slots before this one leave its placeholder as it is. -/
lemma fill_piece (a : Slot → Text) (k : Slot) : fill a all k.piece = held a k := by
  cases k <;> simp [all, replace_piece, held, later]

lemma fill_of_notInfix {slots : List Slot} {t : Text} (h : ∀ k ∈ slots, ¬ k.piece <:+: t) :
    fill a slots t = t := by
  induction slots with
  | nil => rfl
  | cons k slots ih =>
    simp only [List.mem_cons, forall_eq_or_imp] at h
    rw [fill_cons, Text.replace_of_notInfix h.1, ih h.2]

/-- A table puts what it has for a slot in the place of the slot's placeholder. -/
lemma substitute_piece (a : Slot → Text) (k : Slot) : Text.substitute (table a) k.piece = a k := by
  have hfind : ∀ k ∈ all, all.find? (·.piece.isPrefixOf k.piece) = some k := by decide +kernel
  have hentry : (table a).find? (·.1.isPrefixOf ((k.piece, a k).1 ++ [])) = some (k.piece, a k) := by
    rw [table, List.find?_map, List.append_nil]
    simpa using ⟨k, hfind k (mem_all k), rfl, rfl⟩
  simpa using Text.substitute_of_find (piece_ne_nil k) hentry

end Slot

/-! ### The template -/

/-- The words in front of the first slot. -/
def opening : Text := "#!/bin/sh\n# Reproducer for ".toList

/-- The slots in the order of the script, each with the words behind it. -/
def layout : List (Slot × Text) :=
  [(.test, "\n# Extracted: ".toList),
   (.date, "\n# Jenkins: ".toList),
   (.jenkinsUrl, "\n# Job: ".toList),
   (.jobName, "\n# Build: ".toList),
   (.buildId, textOfLines ["", "set -e", "", "cd \"$(dirname \"$0\")\"", ""] ++
     "JAVA_TOOL_OPTIONS_AT_EXTRACTION".toList),
   (.assigned, ['\n']),
   (.exported, textOfLines
     ["",
      "",
      "make classes",
      "",
      "if [ -d src/share ] ; then",
      "  make natives",
      "  LD_LIBRARY_PATH=\"$(pwd)/lib$\x7bLD_LIBRARY_PATH:+:$LD_LIBRARY_PATH\x7d\"",
      "  export LD_LIBRARY_PATH",
      "fi",
      ""] ++ "echo \"classes built for ".toList),
   (.test, textOfLines
     ["; run the test with:\"",
      "echo \"  \\$\x7bJAVA_HOME\x7d/bin/java -cp classes <main class from the test description>\""])]

/-- The script when each slot holds some text. -/
def weave (a : Slot → Text) : Text := opening ++ layout.flatMap fun part => a part.1 ++ part.2

lemma template_eq_weave : template = weave Slot.piece := by decide +kernel

/-- The words have no placeholder in them and end in the beginning of none. -/
lemma not_isInfix_words {words : Text} (h : words = opening ∨ ∃ k, (k, words) ∈ layout) (j : Slot) :
    ¬ j.piece <:+: words ∧ ∀ u ∈ j.piece.inits, u ≠ [] → ¬ u <:+ words := by
  have hall : ∀ words ∈ opening :: layout.map Prod.snd, ∀ j ∈ Slot.all,
      ¬ j.piece <:+: words ∧ ∀ u ∈ j.piece.inits, u ≠ [] → ¬ u <:+ words := by decide +kernel
  refine hall words ?_ j (Slot.mem_all j)
  simpa using h

/-- The words behind a slot start with a character that no placeholder has. -/
lemma exists_words_eq_cons {words : Text} (h : (k, words) ∈ layout) :
    ∃ c more, words = c :: more ∧ ∀ j : Slot, c ∉ j.piece := by
  have hpieces : ∀ j ∈ Slot.all, '\n' ∉ j.piece ∧ ';' ∉ j.piece := by decide +kernel
  have hwords : ∀ part ∈ layout, part.2.head? = some '\n' ∨ part.2.head? = some ';' := by
    decide +kernel
  rcases hwords _ h with hhead | hhead
  all_goals obtain ⟨more, hmore⟩ := List.head?_eq_some_iff.mp hhead
  · exact ⟨'\n', more, hmore, fun j => (hpieces j (Slot.mem_all j)).1⟩
  · exact ⟨';', more, hmore, fun j => (hpieces j (Slot.mem_all j)).2⟩

/-! ### Filling the slots -/

/-- What a pass over the script replaces is in the slots. -/
lemma substitute_weave {table : List (Text × Text)}
    (htable : ∀ entry ∈ table, ∃ j : Slot, entry.1 = j.piece) (a : Slot → Text) :
    Text.substitute table (weave a) = weave fun k => Text.substitute table (a k) := by
  have hne : ∀ entry ∈ table, entry.1 ≠ [] := by
    intro entry hentry
    obtain ⟨j, hj⟩ := htable entry hentry
    rw [hj]
    exact j.piece_ne_nil
  -- The words are cut off on both sides: they end in the beginning of no placeholder, and behind
  -- a slot they start with a character of none.
  have hwords : ∀ words rest, (words = opening ∨ ∃ k, (k, words) ∈ layout) →
      Text.substitute table (words ++ rest) = words ++ Text.substitute table rest := by
    intro words rest hmem
    rw [Text.substitute_append hne, Text.substitute_of_notInfix]
    · intro entry hentry
      obtain ⟨j, hj⟩ := htable entry hentry
      rw [hj]
      exact (not_isInfix_words hmem j).1
    · intro entry hentry
      obtain ⟨j, hj⟩ := htable entry hentry
      rw [hj]
      exact Text.apart_of_inits (not_isInfix_words hmem j).2 rest
  have hparts : ∀ parts, parts ⊆ layout →
      Text.substitute table (parts.flatMap fun part => a part.1 ++ part.2) =
        parts.flatMap fun part => Text.substitute table (a part.1) ++ part.2 := by
    intro parts
    induction parts with
    | nil => simp
    | cons part parts ih =>
      intro hsub
      rw [List.cons_subset] at hsub
      obtain ⟨c, more, hcons, hnot⟩ := exists_words_eq_cons hsub.1
      rw [List.flatMap_cons, List.flatMap_cons, List.append_assoc, Text.substitute_append hne,
        hwords _ _ (Or.inr ⟨part.1, hsub.1⟩), ih hsub.2, List.append_assoc]
      intro entry hentry
      obtain ⟨j, hj⟩ := htable entry hentry
      rw [hj, hcons]
      exact Text.apart_of_notMem (hnot j) _ _
  rw [weave, hwords _ _ (Or.inl rfl), hparts layout (List.Subset.refl _), weave]

/-- A pass over the template fills every slot with what the table has for it. -/
lemma substitute_template (a : Slot → Text) :
    Text.substitute (Slot.table a) template = weave a := by
  rw [template_eq_weave, substitute_weave]
  · simp only [Slot.substitute_piece]
  · intro entry hentry
    obtain ⟨k, -, rfl⟩ := List.mem_map.mp hentry
    exact ⟨k, rfl⟩

/-- Replacing a placeholder replaces it in what the slots hold. -/
lemma replace_weave (j : Slot) (new : Text) (a : Slot → Text) :
    Text.replace j.piece new (weave a) = weave fun k => Text.replace j.piece new (a k) := by
  have hentry : ∀ entry ∈ [(j.piece, new)], ∃ k : Slot, entry.1 = k.piece := by
    simp only [List.mem_singleton, forall_eq]
    exact ⟨j, rfl⟩
  simp only [Text.replace_eq_substitute j.piece_ne_nil]
  exact substitute_weave hentry a

lemma fill_weave (a b : Slot → Text) (slots : List Slot) :
    Slot.fill a slots (weave b) = weave fun k => Slot.fill a slots (b k) := by
  induction slots generalizing b with
  | nil => rfl
  | cons j slots ih =>
    simp only [Slot.fill_cons, replace_weave]
    exact ih _

lemma fill_all (test : Text) (v : Values) (script : Text) :
    Slot.fill (Slot.value test v) Slot.all script =
      fillOptions v.javaToolOptions
        (Text.replace (placeholder "BUILD_ID") (orMissing v.buildId "BUILD_ID")
          (Text.replace (placeholder "JOB_NAME") (orMissing v.jobName "JOB_NAME")
            (Text.replace (placeholder "JENKINS_URL") (orMissing v.jenkinsUrl "JENKINS_URL")
              (Text.replace (placeholder "DATE") v.date
                (Text.replace (placeholder "TEST") test script))))) := by
  obtain ⟨_, _, _, _, options⟩ := v
  cases options <;> rfl

/-- The script is the template with its slots filled one after the other. -/
lemma render_eq_fill (test : Text) (v : Values) :
    render test v = Slot.fill (Slot.value test v) Slot.all template :=
  (fill_all test v template).symm

/-- What a slot is filled with is filled again by the later slots. -/
lemma render_eq_weave (test : Text) (v : Values) :
    render test v = weave (Slot.held (Slot.value test v)) := by
  rw [render_eq_fill, template_eq_weave, fill_weave]
  simp only [Slot.fill_piece]

/-- The script is the template with all slots filled in one pass: each with its value, in which the
placeholders of later slots have been replaced. If no value spells the placeholder of a later slot,
each is filled with its value. -/
theorem render_eq_substitute (test : Text) (v : Values) :
    render test v = Text.substitute (Slot.table (Slot.held (Slot.value test v))) template ∧
      ((∀ k : Slot, ∀ j ∈ k.later, ¬ j.piece <:+: k.value test v) →
        render test v = Text.substitute (Slot.table (Slot.value test v)) template) := by
  rw [render_eq_weave, substitute_template, substitute_template]
  refine ⟨rfl, ?_⟩
  intro hvalues
  have hheld : Slot.held (Slot.value test v) = Slot.value test v := by
    funext k
    exact Slot.fill_of_notInfix (hvalues k)
  rw [hheld]

/-- Values without braces are put in as they are. -/
theorem render_plainValues :
    render "api/T".toList ⟨"D".toList, some "http://h/".toList, none, none, some "-ea".toList⟩ =
      Text.substitute (Slot.table (Slot.value "api/T".toList
        ⟨"D".toList, some "http://h/".toList, none, none, some "-ea".toList⟩)) template := by
  apply (render_eq_substitute _ _).2
  intro k j _
  apply Slot.not_piece_isInfix
  cases k <;> decide

/-- A test whose identifier spells the placeholder of the job is not named by the script. -/
theorem render_refills :
    render "\x7bJOB_NAME\x7d".toList ⟨"D".toList, none, some "j".toList, none, none⟩ ≠
      Text.substitute (Slot.table (Slot.value "\x7bJOB_NAME\x7d".toList
        ⟨"D".toList, none, some "j".toList, none, none⟩)) template := by
  rw [render_eq_weave, substitute_template]
  apply ne_of_apply_ne (List.take 30)
  decide +kernel

end Reproducer

end Excerpt
