import Excerpt.CommandLine.Rejection

/-!
# Reading arguments

The arguments of a command are read from left to right. A value that stands in an argument of its
own is checked only when the next switch, operand or end makes clear that it is complete, so an
unknown switch behind a bad value is reported first. Behind two dashes everything is an operand.
-/

namespace Excerpt

namespace CommandLine

/-- Something whose value is not checked yet. A switch may still wait for its value. -/
inductive Pending where
  | switch (s : Switch) (value : Option Text)
  | operand (o : Operand) (value : Text)
  deriving DecidableEq, Repr

/-- What the arguments read so far give: switches with their values, how often the counted switch
stands there, and the operand. -/
structure Reading where
  values : List (Text × Text)
  counted : Nat
  operand : Option Text
  pending : Option Pending
  deriving DecidableEq, Repr

namespace Reading

/-- Nothing is read. -/
def empty : Reading := ⟨[], 0, none, none⟩

/-- The value of a switch. -/
def value? (r : Reading) (name : String) : Option Text := r.values.lookup name.toList

/-- Whether a switch is given. -/
def has (r : Reading) (name : String) : Bool := (r.value? name).isSome

/-- The largest count. -/
def maxCount : Nat := 255

/-- Enters a switch with its value. A switch is given once, and a path is not empty. -/
def enter (r : Reading) (s : Switch) (value : Text) : Except Rejection Reading :=
  if (r.values.lookup s.name).isSome then .error (.repeated s.title)
  else match s.action, value with
    | .path _, [] => .error (.noValue s.title)
    | _, _ => .ok { r with values := r.values ++ [(s.name, value)] }

/-- Enters an operand: one of the choices, or a path that is not empty. -/
def enterOperand (r : Reading) (o : Operand) (value : Text) : Except Rejection Reading :=
  if value = [] then .error (.noValue o.title)
  else if o.choices ≠ [] ∧ value ∉ o.choices then .error (.badValue value o.title)
  else .ok { r with operand := some value }

/-- Checks what is pending. -/
def settle (r : Reading) : Except Rejection Reading :=
  match r.pending with
  | none => .ok r
  | some (.switch s none) => .error (.noValue s.title)
  | some (.switch s (some v)) => { r with pending := none }.enter s v
  | some (.operand o v) => { r with pending := none }.enterOperand o v

/-- Takes a switch that has no value. -/
def takeFlag (c : Command) (s : Switch) (r : Reading) : Except Rejection Reading := do
  let r ← r.settle
  match s.action with
  | .help => throw (.help c)
  | .version => throw .version
  | .count => return { r with counted := min maxCount (r.counted + 1) }
  | _ => r.enter s []

/-- Takes an argument with two dashes in front, perhaps with a value behind an equals sign. -/
def takeLong (c : Command) (t : Text) (r : Reading) : Except Rejection Reading :=
  let (name, attached) := match Text.cutFirst? (· == '=') t with
    | some (name, v) => (name, some v)
    | none => (t, none)
  match c.switchNamed? name, attached with
  | none, _ => .error (.unknownArgument ("--".toList ++ name))
  | some s, none =>
    if s.action.word?.isSome then
      r.settle.map fun r => { r with pending := some (.switch s none) }
    else takeFlag c s r
  | some s, some v =>
    if s.action.word?.isSome then r.settle.bind (·.enter s v)
    else .error (.extraValue v s.title)

/-- Takes the letters behind one dash. No letter has a value. -/
def takeLetters (c : Command) : Text → Reading → Except Rejection Reading
  | [], r => .ok r
  | letter :: rest, r =>
    match c.switchLettered? letter with
    | some s => (takeFlag c s r).bind (takeLetters c rest)
    | none => .error (.unknownArgument ['-', letter])

/-- What is wrong with a word for which there is no place. -/
def misplaced (c : Command) (afterDashes : Bool) (word : Text) : Rejection :=
  if c = program then
    if afterDashes && (commandNamed? word).isSome then .unknownArgument word
    else .unknownCommand word
  else .unknownArgument word

/-- Whether an operand has been read. -/
def hasOperand (r : Reading) : Bool :=
  r.operand.isSome || match r.pending with
    | some (.operand _ _) => true
    | _ => false

/-- Takes an argument without dashes. -/
def takeWord (c : Command) (afterDashes : Bool) (word : Text) (r : Reading) :
    Except Rejection Reading :=
  match c.operand with
  | some o =>
    if r.hasOperand then .error (misplaced c afterDashes word)
    else r.settle.map fun r => { r with pending := some (.operand o word) }
  | none => .error (misplaced c afterDashes word)

/-- The switch that waits for its value. -/
def awaiting? (r : Reading) : Option Switch :=
  match r.pending with
  | some (.switch s none) => some s
  | _ => none

/-- Takes one argument in front of two dashes. -/
def take (c : Command) (argument : Text) (r : Reading) : Except Rejection Reading :=
  match argument with
  | '-' :: '-' :: rest => takeLong c rest r
  | '-' :: letter :: rest => takeLetters c (letter :: rest) r
  | word =>
    match r.awaiting? with
    | some s => .ok { r with pending := some (.switch s (some word)) }
    | none => takeWord c false word r

/-- Reads the arguments behind two dashes. -/
def afterDashes (c : Command) : List Text → Reading → Except Rejection Reading
  | [], r => r.settle
  | word :: rest, r => (takeWord c true word r).bind (afterDashes c rest)

/-- Reads the arguments of a command. -/
def ofArguments (c : Command) : List Text → Reading → Except Rejection Reading
  | [], r => r.settle
  | a :: rest, r =>
    if a = "--".toList then afterDashes c rest r
    else (take c a r).bind (ofArguments c rest)

/-- Reads the arguments up to the name of a command, and answers with that command and the
arguments behind it. -/
def toCommand : List Text → Reading → Except Rejection (Reading × Option (Command × List Text))
  | [], r => r.settle.map (·, none)
  | a :: rest, r =>
    match commandNamed? a with
    | some c => .ok (r, some (c, rest))
    | none =>
      if a = "--".toList then (afterDashes program rest r).map (·, none)
      else (take program a r).bind (toCommand rest)

end Reading

end CommandLine

end Excerpt
