import ScriptCore.Text.Unprintable

/-!
# Making texts

Quoted text stands in double quotes, on one line, and the text can be read off from it: the quote
and the backslash are escaped, the common controls have short escapes, and every other character
that is not printable is written by its code point. Lists and records are written around the texts
of their parts.

A text can also be asked for any number of times over. It is made only if its bytes can be
addressed.
-/

namespace ScriptCore.Text

def hexText (n : Nat) : String := String.ofList (Nat.toDigits 16 n)

/-- One character inside quotes. The apostrophe stands for itself. -/
def escape (c : Char) : String :=
  if c = '"' then "\\\""
  else if c = '\\' then "\\\\"
  else if c = '\n' then "\\n"
  else if c = '\r' then "\\r"
  else if c = '\t' then "\\t"
  else if c.toNat = 0 then "\\0"
  else if isUnprintable c then "\\u\x7b" ++ hexText c.toNat ++ "\x7d"
  else String.singleton c

def quote (s : String) : String :=
  "\"" ++ String.join (s.toList.map escape) ++ "\""

/-- Items in square brackets, parted by commas. -/
def bracketed (items : List String) : String :=
  "[" ++ String.intercalate ", " items ++ "]"

/-- A named record: its fields in order, and a mark when it has fields that are not shown. -/
def record (name : String) (fields : List (String × String)) (partly : Bool) : String :=
  let shown := fields.map fun f => f.1 ++ ": " ++ f.2
  name ++ " \x7b " ++ String.intercalate ", " (if partly then shown ++ [".."] else shown) ++ " \x7d"

def optional (x : Option String) : String :=
  match x with
  | some s => "Some(" ++ s ++ ")"
  | none => "None"

def boolean (b : Bool) : String := if b then "true" else "false"

/-- The most bytes a text can have. -/
def maxBytes : Nat := 9223372036854775807

/-- The text `n` times over, unless that is more than a text can hold. -/
def replicate? (s : String) (n : Nat) : Option String :=
  if s.isEmpty then some ""
  else if s.utf8ByteSize * n ≤ maxBytes then some (String.join (List.replicate n s))
  else none

end ScriptCore.Text
