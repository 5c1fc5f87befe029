import Galerkin.Text.CharTables

/-!
Classes of characters: what separates tokens, what makes names and numbers, and what may be printed as it is.
-/

namespace Galerkin.Text

def inRanges (ranges : List (Nat × Nat)) (c : Char) : Bool :=
  ranges.any fun (low, high) => low ≤ c.toNat && c.toNat ≤ high

/-- White space: the ASCII blanks, the four information separators, and the blanks of Unicode. -/
def isSpace (c : Char) : Bool :=
  if c.toNat < 128 then
    c.toNat == 32 || (9 ≤ c.toNat && c.toNat ≤ 13) || (28 ≤ c.toNat && c.toNat ≤ 31)
  else inRanges spaceRanges c

/-- A decimal digit of any script. -/
def isDigit (c : Char) : Bool :=
  if c.toNat < 128 then c.isDigit else inRanges decimalRanges c

/-- The value of a decimal digit: digits come in decades that start at zero. -/
def digitValue (c : Char) : Nat :=
  if c.toNat < 128 then c.toNat - 48
  else match decimalRanges.find? fun (low, high) => low ≤ c.toNat && c.toNat ≤ high with
    | some (low, _) => (c.toNat - low) % 10
    | none => 0

/-- Letters, numbers that are no decimal digits, and the underscore: what a name token starts with. -/
def isNameStart (c : Char) : Bool :=
  if c.toNat < 128 then c.isAlpha || c == '_'
  else inRanges letterRanges c || inRanges letterNumberRanges c || inRanges otherNumberRanges c

def isNamePart (c : Char) : Bool := isNameStart c || isDigit c

/-- What an identifier may start with; unlike a name token it has no fractions or superscripts. -/
def isIdentifierStart (c : Char) : Bool :=
  if c.toNat < 128 then c.isAlpha || c == '_'
  else (inRanges letterRanges c || inRanges letterNumberRanges c || inRanges startExtra c)
    && !inRanges startRefused c

def isIdentifierPart (c : Char) : Bool :=
  if c.toNat < 128 then c.isAlphanum || c == '_'
  else (inRanges letterRanges c || inRanges letterNumberRanges c || inRanges decimalRanges c ||
      inRanges markRanges c || inRanges continueExtra c) && !inRanges continueRefused c

def isIdentifier (s : String) : Bool :=
  match s.toList with
  | [] => false
  | c :: rest => isIdentifierStart c && rest.all isIdentifierPart

def isPrintable (c : Char) : Bool :=
  if c.toNat < 128 then 32 ≤ c.toNat && c.toNat < 127 else !inRanges unprintableRanges c

/-- Characters at which a block of text breaks into lines. -/
def isLineBreak (c : Char) : Bool :=
  (10 ≤ c.toNat && c.toNat ≤ 13) || (28 ≤ c.toNat && c.toNat ≤ 30) ||
    c.toNat == 0x85 || c.toNat == 0x2028 || c.toNat == 0x2029

/-- The lines of a text; a carriage return and a line feed together break once. -/
def linesFrom : List Char → List Char → List (List Char)
  | [], [] => []
  | [], line => [line.reverse]
  | '\r' :: '\n' :: rest, line => line.reverse :: linesFrom rest []
  | c :: rest, line =>
    if isLineBreak c then line.reverse :: linesFrom rest [] else linesFrom rest (c :: line)

def lines (s : String) : List String := (linesFrom s.toList []).map String.ofList

def trimStart (cs : List Char) : List Char := cs.dropWhile isSpace

def trimEnd (cs : List Char) : List Char := (cs.reverse.dropWhile isSpace).reverse

def trim (cs : List Char) : List Char := trimEnd (trimStart cs)

end Galerkin.Text
