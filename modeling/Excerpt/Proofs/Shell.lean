import Excerpt.Text.Basic
import Mathlib.Tactic.Common

/-!
# Reading a script as the shell does

The shell cuts a script into tokens: words, operators and comments. A word is put together from
plain characters, quoted characters and expansions, and ends at a blank or at an operator. Single
quotes keep everything up to the next single quote; in double quotes the dollar sign, the backquote
and the backslash keep their meaning, the last one only in front of what it can quote; a comment
starts with a number sign at the start of a word and ends at the newline.

An expansion is taken as it is written, to the end of its name or to the bracket that closes it,
with quotes and further expansions inside. Operators of several characters are read as their
characters; comments inside of brackets and here-documents are not looked for.

What matters for a text that is put into a script are the runs: `run_comment`, `run_single` and
`run_double` say which texts a comment or quotes take in as they are.
-/

namespace Excerpt

namespace Shell

/-! ### Tokens -/

/-- A part of a word. -/
inductive Piece where
  | plain (c : Char)
  | quoted (c : Char)
  | expansion (quoted : Bool) (text : Text)
  deriving DecidableEq, Repr

/-- A token of a script. A newline is an operator. -/
inductive Token where
  | word (pieces : List Piece)
  | operator (c : Char)
  | comment (text : Text)
  deriving DecidableEq, Repr

/-- The word without quotes. -/
def Token.plain (t : Text) : Token := .word (t.map .plain)

/-- A token without what it is a comment of, or without its quoted characters. -/
def Token.shape : Token → Token
  | .word pieces => .word (pieces.filter fun | .quoted _ => false | _ => true)
  | .operator c => .operator c
  | .comment _ => .comment []

/-! ### Reading -/

/-- What a character is read as part of. The flag of an expansion says whether it stands in double
quotes. In brackets, `behind` is the backslash or dollar sign right before, and `closers` are the
characters that close what is open, the last one first. -/
inductive Mode where
  | outside
  | escaped
  | comment
  | single
  | double
  | doubleEscaped
  | dollar (quoted : Bool)
  | name (quoted : Bool)
  | enclosed (quoted : Bool) (behind : Option Char) (closers : List Char)
  deriving DecidableEq, Repr

/-- Where reading stands: the present word and the text of the present comment or expansion, both in
reverse. -/
structure State where
  mode : Mode
  word : Option (List Piece)
  text : Text
  deriving DecidableEq, Repr

/-- The state between tokens. -/
def start : State := ⟨.outside, none, []⟩

/-- The characters of operators. -/
def operatorChars : List Char := ['\n', ';', '&', '|', '<', '>', '(', ')']

/-- The characters that have a meaning in double quotes. -/
def doubleChars : List Char := ['$', '\x60', '\x5c', '\x22']

/-- The parameters whose names are signs. -/
def signParameters : List Char := ['@', '*', '#', '?', '-', '$', '!']

/-- The mode behind an expansion. -/
def Mode.around (quoted : Bool) : Mode := if quoted then .double else .outside

namespace State

/-- The token that ends here. -/
def ended (s : State) : List Token :=
  match s.word with
  | none => []
  | some pieces => [.word pieces.reverse]

/-- The state with one more piece in its word. -/
def put (s : State) (mode : Mode) (p : Piece) : State := ⟨mode, some (p :: s.word.getD []), []⟩

/-- The state at the start of a quote or an expansion, which makes a word even if it is empty. -/
def enter (s : State) (mode : Mode) (text : Text) : State := ⟨mode, some (s.word.getD []), text⟩

/-- Reads a character outside of quotes. -/
def readOutside (s : State) (c : Char) : List Token × State :=
  if c = ' ' ∨ c = '\t' then (s.ended, start)
  else if c ∈ operatorChars then (s.ended ++ [.operator c], start)
  else if c = '#' ∧ s.word.isNone then ([], ⟨.comment, none, []⟩)
  else if c = '\x27' then ([], s.enter .single [])
  else if c = '\x22' then ([], s.enter .double [])
  else if c = '\x5c' then ([], { s with mode := .escaped })
  else if c = '$' then ([], s.enter (.dollar false) [])
  else if c = '\x60' then ([], s.enter (.enclosed false none [c]) [c])
  else ([], s.put .outside (.plain c))

/-- Reads a character in double quotes. -/
def readDouble (s : State) (c : Char) : List Token × State :=
  if c = '\x22' then ([], { s with mode := .outside })
  else if c = '\x5c' then ([], { s with mode := .doubleEscaped })
  else if c = '$' then ([], s.enter (.dollar true) [])
  else if c = '\x60' then ([], s.enter (.enclosed true none [c]) [c])
  else ([], s.put .double (.quoted c))

/-- Reads a character behind an expansion. -/
def readAround (s : State) (quoted : Bool) (c : Char) : List Token × State :=
  if quoted then s.readDouble c else s.readOutside c

/-- Reads a character behind a dollar sign. -/
def readDollar (s : State) (quoted : Bool) (c : Char) : List Token × State :=
  if c = '\x7b' then ([], { s with mode := .enclosed quoted none ['\x7d'], text := [c, '$'] })
  else if c = '(' then ([], { s with mode := .enclosed quoted none [')'], text := [c, '$'] })
  else if c.isAlpha ∨ c = '_' then ([], { s with mode := .name quoted, text := [c, '$'] })
  else if c.isDigit ∨ c ∈ signParameters then
    ([], s.put (.around quoted) (.expansion quoted ['$', c]))
  else (s.put (.around quoted) (if quoted then .quoted '$' else .plain '$')).readAround quoted c

/-- What closes the bracket or quote that a character opens in an expansion. In double quotes a
single quote opens nothing, unless commands are substituted there. -/
def closer? (quoted : Bool) (behind : Option Char) (closers : List Char) (c : Char) : Option Char :=
  let inDouble := match closers.find? (· != '\x7d') with
    | some d => d == '\x22'
    | none => quoted
  if c = '\x22' ∨ c = '\x60' then some c
  else if c = '\x27' then if inDouble then none else some c
  else if c = '(' then
    if behind = some '$' ∨ closers.head? = some ')' then some ')' else none
  else if c = '\x7b' then if behind = some '$' then some '\x7d' else none
  else none

/-- Reads a character in the brackets of an expansion. -/
def readEnclosed (s : State) (quoted : Bool) (behind : Option Char) (closers : List Char)
    (c : Char) : State :=
  let text := c :: s.text
  let stay (behind : Option Char) (closers : List Char) : State :=
    { s with mode := .enclosed quoted behind closers, text := text }
  if closers.head? = some '\x27' then stay none (if c = '\x27' then closers.tail else closers)
  else if behind = some '\x5c' then stay none closers
  else if closers.head? = some c then
    if closers.tail = [] then s.put (.around quoted) (.expansion quoted text.reverse)
    else stay none closers.tail
  else if c = '\x5c' ∨ c = '$' ∧ behind ≠ some '$' then stay (some c) closers
  else stay none ((closer? quoted behind closers c).toList ++ closers)

/-- Reads a character: the tokens that it ends, and the state behind it. -/
def read (s : State) (c : Char) : List Token × State :=
  match s.mode with
  | .outside => s.readOutside c
  | .escaped =>
    ([], if c = '\n' then { s with mode := .outside } else s.put .outside (.quoted c))
  | .comment =>
    if c = '\n' then ([.comment s.text.reverse, .operator c], start)
    else ([], { s with text := c :: s.text })
  | .single => ([], if c = '\x27' then { s with mode := .outside } else s.put .single (.quoted c))
  | .double => s.readDouble c
  | .doubleEscaped =>
    ([], if c = '\n' then { s with mode := .double }
      else if c ∈ doubleChars then s.put .double (.quoted c)
      else (s.put .double (.quoted '\x5c')).put .double (.quoted c))
  | .dollar quoted => s.readDollar quoted c
  | .name quoted =>
    if c.isAlphanum ∨ c = '_' then ([], { s with text := c :: s.text })
    else (s.put (.around quoted) (.expansion quoted s.text.reverse)).readAround quoted c
  | .enclosed quoted behind closers => ([], s.readEnclosed quoted behind closers c)

/-- Reads a text: the tokens that end in it, and the state behind it. -/
def run (s : State) : Text → List Token × State
  | [] => ([], s)
  | c :: t => ((s.read c).1 ++ ((s.read c).2.run t).1, ((s.read c).2.run t).2)

/-- The token that the end of the script ends. There is none in a quote or in brackets. -/
def finish (s : State) : Option (List Token) :=
  match s.mode with
  | .outside => some s.ended
  | .comment => some [.comment s.text.reverse]
  | .dollar false => some (s.put .outside (.plain '$')).ended
  | .name false => some (s.put .outside (.expansion false s.text.reverse)).ended
  | _ => none

end State

/-- The tokens of a script, if no quote and no bracket is left open. -/
def tokens (t : Text) : Option (List Token) := (start.run t).2.finish.map ((start.run t).1 ++ ·)

/-! ### Runs -/

variable {s s' s'' : State} {t u : Text} {ts us : List Token} {word : List Piece} {text : Text}

namespace State

lemma run_cons (s : State) (c : Char) (t : Text) :
    s.run (c :: t) = ((s.read c).1 ++ ((s.read c).2.run t).1, ((s.read c).2.run t).2) := rfl

/-- Reading goes on where it has come to. -/
lemma run_append (ht : s.run t = (ts, s')) (hu : s'.run u = (us, s'')) :
    s.run (t ++ u) = (ts ++ us, s'') := by
  induction t generalizing s ts with
  | nil =>
    cases ht
    exact hu
  | cons c t ih =>
    rw [run_cons, Prod.mk.injEq] at ht
    obtain ⟨rfl, hstate⟩ := ht
    rw [List.cons_append, run_cons, @ih _ ((s.read c).2.run t).1 (Prod.ext rfl hstate),
      List.append_assoc]

/-- A comment takes in everything up to the newline. -/
lemma run_comment (h : '\n' ∉ t) :
    run ⟨.comment, none, text⟩ t = ([], ⟨.comment, none, t.reverse ++ text⟩) := by
  induction t generalizing text with
  | nil => rfl
  | cons c t ih =>
    rw [List.mem_cons, not_or] at h
    have hread : read ⟨.comment, none, text⟩ c = ([], ⟨.comment, none, c :: text⟩) :=
      if_neg (Ne.symm h.1)
    rw [run_cons, hread, ih h.2]
    simp

/-- Single quotes take in everything up to the next single quote. -/
lemma run_single (h : '\x27' ∉ t) :
    run ⟨.single, some word, []⟩ t =
      ([], ⟨.single, some ((t.map .quoted).reverse ++ word), []⟩) := by
  induction t generalizing word with
  | nil => rfl
  | cons c t ih =>
    rw [List.mem_cons, not_or] at h
    have hread : read ⟨.single, some word, []⟩ c =
        ([], ⟨.single, some (.quoted c :: word), []⟩) := by
      rw [read]
      simp only [if_neg (Ne.symm h.1)]
      rfl
    rw [run_cons, hread, ih h.2]
    simp

/-- Double quotes take in the characters that have no meaning there. -/
lemma run_double (h : ∀ c ∈ t, c ∉ doubleChars) :
    run ⟨.double, some word, []⟩ t =
      ([], ⟨.double, some ((t.map .quoted).reverse ++ word), []⟩) := by
  induction t generalizing word with
  | nil => rfl
  | cons c t ih =>
    obtain ⟨hc, ht⟩ := List.forall_mem_cons.mp h
    have hread : read ⟨.double, some word, []⟩ c =
        ([], ⟨.double, some (.quoted c :: word), []⟩) := by
      simp only [doubleChars, List.mem_cons, List.not_mem_nil, or_false, not_or] at hc
      obtain ⟨hdollar, hback, hslash, hquote⟩ := hc
      simp only [read, readDouble, if_neg hdollar, if_neg hback, if_neg hslash, if_neg hquote]
      rfl
    rw [run_cons, hread, ih ht]
    simp

end State

/-! ### Lines -/

/-- A line that is read as some tokens, with nothing left open at its newline. -/
def ReadsAs (line : Text) (ts : List Token) : Prop :=
  start.run (line ++ ['\n']) = (ts ++ [.operator '\n'], start)

lemma readsAs_comment (h : '\n' ∉ t) : ReadsAs ('#' :: t) [.comment t] := by
  have hopen : start.run ['#'] = ([], ⟨.comment, none, []⟩) := rfl
  have hclose : State.run ⟨.comment, none, t.reverse ++ []⟩ ['\n'] =
      ([.comment t.reverse.reverse, .operator '\n'], start) := by
    rw [List.append_nil]
    rfl
  rw [List.reverse_reverse] at hclose
  have hrun := State.run_append hopen (State.run_append (State.run_comment h) hclose)
  exact hrun

/-- A line goes on behind words that have ended. -/
lemma ReadsAs.append (hu : start.run u = (us, start)) (ht : ReadsAs t ts) :
    ReadsAs (u ++ t) (us ++ ts) := by
  have hrun := State.run_append hu ht
  rwa [← List.append_assoc, ← List.append_assoc] at hrun

/-- A text in double quotes is one word, and has no meaning but itself. -/
lemma readsAs_double (h : ∀ c ∈ t, c ∉ doubleChars) :
    ReadsAs ('\x22' :: t ++ ['\x22']) [.word (t.map .quoted)] := by
  have hopen : start.run ['\x22'] = ([], ⟨.double, some [], []⟩) := rfl
  have hclose : State.run ⟨.double, some ((t.map .quoted).reverse ++ []), []⟩ ['\x22', '\n'] =
      ([.word (t.map .quoted).reverse.reverse, .operator '\n'], start) := by
    rw [List.append_nil]
    rfl
  rw [List.reverse_reverse] at hclose
  have hrun := State.run_append hopen (State.run_append (State.run_double h) hclose)
  simpa only [ReadsAs, List.append_assoc, List.nil_append, List.singleton_append, List.cons_append]
    using hrun

/-- A text in single quotes behind a plain one is part of the same word. -/
lemma readsAs_assignment {name : Text}
    (hname : start.run name = ([], ⟨.outside, some (name.map .plain).reverse, []⟩))
    (h : '\x27' ∉ t) :
    ReadsAs (name ++ (['\x27'] ++ t ++ ['\x27'])) [.word (name.map .plain ++ t.map .quoted)] := by
  have hopen : State.run ⟨.outside, some (name.map .plain).reverse, []⟩ ['\x27'] =
      ([], ⟨.single, some (name.map .plain).reverse, []⟩) := rfl
  have hclose : ∀ word : List Piece, State.run ⟨.single, some word, []⟩ ['\x27', '\n'] =
      ([.word word.reverse, .operator '\n'], start) := fun _ => rfl
  have hrun := State.run_append hname (State.run_append hopen
    (State.run_append (State.run_single h) (hclose _)))
  rw [List.reverse_append, List.reverse_reverse, List.reverse_reverse] at hrun
  simpa only [ReadsAs, List.append_assoc, List.nil_append, List.singleton_append, List.cons_append]
    using hrun

/-- A script of lines is read line by line. -/
lemma tokens_lines {lines : List (Text × List Token)} (h : ∀ l ∈ lines, ReadsAs l.1 l.2) :
    tokens (lines.flatMap fun l => l.1 ++ ['\n']) =
      some (lines.flatMap fun l => l.2 ++ [.operator '\n']) := by
  have hrun : start.run (lines.flatMap fun l => l.1 ++ ['\n']) =
      (lines.flatMap fun l => l.2 ++ [.operator '\n'], start) := by
    induction lines with
    | nil => rfl
    | cons l lines ih =>
      obtain ⟨hl, hlines⟩ := List.forall_mem_cons.mp h
      exact State.run_append hl (ih hlines)
  rw [tokens, hrun]
  exact congrArg some (List.append_nil _)

example : tokens "cd \"$(dirname \"$0\")\"; A=b\\ 'c d' # e".toList = some
    [.plain "cd".toList, .word [.expansion true "$(dirname \"$0\")".toList], .operator ';',
      .word ("A=b".toList.map .plain ++ " c d".toList.map .quoted), .comment " e".toList] := by
  decide +kernel

end Shell

end Excerpt
