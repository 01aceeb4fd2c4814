import Excerpt.Toml.Document

/-!
# Writing TOML

Texts are written between double quotes, with an escape for every character that may not stand
there as itself. A list of texts has one element a line.
-/

namespace Excerpt

namespace Toml

/-- The digit for a number below sixteen. -/
def hexDigit (n : Nat) : Char := (Nat.toDigits 16 n).headD '0'

/-- The escape of a character by its number. -/
def escapeNumber (n : Nat) : Text :=
  ['\\', 'u', hexDigit (n / 4096 % 16), hexDigit (n / 256 % 16), hexDigit (n / 16 % 16),
   hexDigit (n % 16)]

/-- A character as it stands between quotes. -/
def quoteChar (c : Char) : Text :=
  if c = '\x22' ∨ c = '\\' then ['\\', c]
  else if c = '\n' then ['\\', 'n']
  else if c = '\t' then ['\\', 't']
  else if c = '\r' then ['\\', 'r']
  else if isPlain c then [c]
  else escapeNumber c.toNat

/-- A text between quotes. -/
def quote (t : Text) : Text := ['\x22'] ++ t.flatMap quoteChar ++ ['\x22']

/-- A list of texts between brackets. -/
def quoteList (ts : List Text) : Text :=
  if ts.isEmpty then "[]".toList
  else "[\n".toList ++ ts.flatMap (fun t => "    ".toList ++ quote t ++ ",\n".toList) ++ [']']

/-- The line of a header. -/
def headerLine (name : String) : Text := '[' :: name.toList ++ "]\n".toList

/-- The lines of a pair. -/
def pairLine (name : String) (value : Text) : Text :=
  name.toList ++ " = ".toList ++ value ++ ['\n']

end Toml

end Excerpt
