import Galerkin.Failure

/-!
Tokens of the text of an expression: numbers, names and operators, with the column where each
starts. White space separates tokens and is dropped.
-/

namespace Galerkin.Reading

inductive TokenKind where
  | number | name | operator
  deriving DecidableEq, Repr

structure Token where
  kind : TokenKind
  text : String
  column : Nat
  deriving DecidableEq, Repr

/-- What starts at a position: blanks, or a token. -/
inductive Lexeme where
  | blank
  | token (kind : TokenKind)
  deriving DecidableEq, Repr

def digitsLength (cs : List Char) : Nat := (cs.takeWhile Text.isDigit).length

def isExponentMark (c : Char) : Bool := c == 'e' || c == 'E'

/-- The length of an exponent: a mark, a sign that may be missing, and at least one digit. -/
def exponentLength : List Char → Nat
  | mark :: rest =>
    if isExponentMark mark then
      match rest with
      | '+' :: digits | '-' :: digits =>
        if digitsLength digits = 0 then 0 else digitsLength digits + 2
      | digits => if digitsLength digits = 0 then 0 else digitsLength digits + 1
    else 0
  | [] => 0

/-- The length of the digits and the point of a number. -/
def mantissaLength (cs : List Char) : Nat :=
  let whole := digitsLength cs
  match cs.drop whole with
  | '.' :: rest =>
    let fraction := digitsLength rest
    if whole = 0 && fraction = 0 then 0 else whole + 1 + fraction
  | _ => whole

def numberLength (cs : List Char) : Nat :=
  let mantissa := mantissaLength cs
  if mantissa = 0 then 0 else mantissa + exponentLength (cs.drop mantissa)

def operators : List Char := "-+*/^()\x7b\x7d,;=".toList

/-- What starts with `c`, and how many characters of `rest` belong to it. -/
def lexemeAt (c : Char) (rest : List Char) : Option (Lexeme × Nat) :=
  if Text.isSpace c then some (.blank, (rest.takeWhile Text.isSpace).length)
  else if numberLength (c :: rest) ≠ 0 then some (.token .number, numberLength (c :: rest) - 1)
  else if Text.isNameStart c then some (.token .name, (rest.takeWhile Text.isNamePart).length)
  else if operators.contains c then
    some (.token .operator, if c == '*' && rest.head? == some '*' then 1 else 0)
  else none

def scan (column : Nat) : List Char → Except Failure (List Token)
  | [] => pure []
  | c :: rest =>
    match lexemeAt c rest with
    | none => throw (.form (.unexpectedCharacter c column))
    | some (lexeme, more) => do
      let later ← scan (column + 1 + more) (rest.drop more)
      match lexeme with
      | .blank => pure later
      | .token kind => pure (⟨kind, String.ofList (c :: rest.take more), column⟩ :: later)
termination_by cs => cs.length
decreasing_by simp only [List.length_drop, List.length_cons]; omega

/-- The tokens of a text. -/
def tokenize (text : String) : Except Failure (List Token) := scan 0 text.toList

/-- What is listed of a text: its tokens, and behind them its end, which has no kind. -/
structure Entry where
  kind : Option TokenKind
  text : String
  column : Nat
  deriving DecidableEq, Repr

def Token.entry (t : Token) : Entry := ⟨some t.kind, t.text, t.column⟩

def Entry.finish (text : String) : Entry := ⟨none, "", text.length⟩

/-- The tokens of a text with the end of the text behind them. -/
def listing (text : String) : Except Failure (List Entry) := do
  pure ((← tokenize text).map Token.entry ++ [.finish text])

end Galerkin.Reading
