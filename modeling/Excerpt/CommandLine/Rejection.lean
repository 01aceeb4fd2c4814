import Excerpt.CommandLine.Help

/-!
# Rejections

Why a command line leads to no command that is run: it asks for help or for the version, or there
is something wrong with it. Only the latter is an error, with exit code two.
-/

namespace Excerpt

namespace CommandLine

/-- Why a command line is not carried out. -/
inductive Rejection where
  | help (c : Command)
  | version
  /-- there are no arguments at all -/
  | nothingGiven
  | noCommand
  | unknownArgument (shown : Text)
  | unknownCommand (word : Text)
  | noValue (title : Text)
  | badValue (value title : Text)
  | extraValue (value title : Text)
  | repeated (title : Text)
  | missingOperand (title : Text)
  deriving DecidableEq, Repr

namespace Rejection

/-- Whether the rejection answers a question instead of pointing out a mistake. -/
def isAnswer : Rejection → Bool
  | help _ => true
  | version => true
  | _ => false

/-- The exit code. -/
def exitCode (r : Rejection) : Nat := if r.isAnswer then 0 else 2

/-- A word in quotes. -/
def quoted (t : Text) : Text := '\x27' :: t ++ ['\x27']

/-- The words for a mistake. -/
def mistake : Rejection → Text
  | noCommand => quoted program.name ++ " requires a subcommand but one was not provided".toList
  | unknownArgument shown => "unexpected argument ".toList ++ quoted shown ++ " found".toList
  | unknownCommand word => "unrecognized subcommand ".toList ++ quoted word
  | noValue title =>
    "a value is required for ".toList ++ quoted title ++ " but none was supplied".toList
  | badValue value title =>
    "invalid value ".toList ++ quoted value ++ " for ".toList ++ quoted title
  | extraValue value title =>
    "unexpected value ".toList ++ quoted value ++ " for ".toList ++ quoted title ++
      " found; no more were expected".toList
  | repeated title =>
    "the argument ".toList ++ quoted title ++ " cannot be used multiple times".toList
  | missingOperand title =>
    "the following required arguments were not provided:\n  ".toList ++ title
  | _ => []

/-- What is printed. -/
def render : Rejection → Text
  | help c => c.render
  | version => versionLine
  | nothingGiven => program.render
  | r => "error: ".toList ++ r.mistake ++ "\n\nFor more information, try '--help'.\n".toList

end Rejection

end CommandLine

end Excerpt
