import Galerkin.Text.CharClass

/-!
Texts and lists of texts as messages show them: quoted, with what cannot be printed written as an escape.
-/

namespace Galerkin.Text

def singleQuote : Char := Char.ofNat 39

def doubleQuote : Char := Char.ofNat 34

def hexDigits (width : Nat) (n : Nat) : List Char :=
  let digits := Nat.toDigits 16 n
  List.replicate (width - digits.length) '0' ++ digits

/-- One character between quotes of the kind `mark`. -/
def escape (mark : Char) (c : Char) : List Char :=
  if c == mark || c == '\\' then ['\\', c]
  else if c == '\n' then ['\\', 'n']
  else if c == '\r' then ['\\', 'r']
  else if c == '\t' then ['\\', 't']
  else if isPrintable c then [c]
  else if c.toNat < 0x100 then '\\' :: 'x' :: hexDigits 2 c.toNat
  else if c.toNat < 0x10000 then '\\' :: 'u' :: hexDigits 4 c.toNat
  else '\\' :: 'U' :: hexDigits 8 c.toNat

/-- Single quotes, unless the text holds a single quote and no double one. -/
def quoteMark (s : String) : Char :=
  if s.toList.contains singleQuote && !s.toList.contains doubleQuote then doubleQuote
  else singleQuote

def quote (s : String) : String :=
  let mark := quoteMark s
  String.ofList (mark :: (s.toList.flatMap (escape mark) ++ [mark]))

def joined (separator : String) (parts : List String) : String := String.intercalate separator parts

/-- A list of written items between square brackets. -/
def bracketed (items : List String) : String := "[" ++ joined ", " items ++ "]"

def quotedList (names : List String) : String := bracketed (names.map quote)

/-- A tuple of written items; a single one keeps a comma behind it. -/
def tuple : List String → String
  | [item] => "(" ++ item ++ ",)"
  | items => "(" ++ joined ", " items ++ ")"

end Galerkin.Text
