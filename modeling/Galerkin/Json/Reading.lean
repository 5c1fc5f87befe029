import Galerkin.Json.Value

/-!
Reading JSON. The text is cut into marks in one pass over its characters, and the marks are folded
over a stack of open lists and objects. Only well-formed text is expected: a mark that does not fit
is skipped.
-/

namespace Galerkin.Json

/-- What a text is cut into: brackets, strings, and words such as numbers. -/
inductive Mark where
  | opening (isObject : Bool)
  | closing
  | string (s : String)
  | word (s : String)
  deriving DecidableEq, Repr

/-- Where in the text the reader stands; the characters of an unfinished piece are kept in reverse. -/
inductive Place where
  | between
  | inWord (piece : List Char)
  | inString (piece : List Char)
  | escape (piece : List Char)
  /-- Inside an escape by number: the value so far, and how many digits are missing. -/
  | unicode (piece : List Char) (value missing : Nat)

structure Cutting where
  marks : List Mark
  place : Place
  /-- The first half of a character that is written as two numbers. -/
  half : Option Nat

def hexValue (c : Char) : Nat :=
  if c.isDigit then c.toNat - 48
  else if 'a' ≤ c && c ≤ 'f' then c.toNat - 87
  else c.toNat - 55

/-- The character that an escape by letter stands for. -/
def plainEscape (c : Char) : Char :=
  match c with
  | 'n' => '\n'
  | 't' => '\t'
  | 'r' => Char.ofNat 13
  | 'b' => Char.ofNat 8
  | 'f' => Char.ofNat 12
  | c => c

/-- Adds a code unit to a string; of a pair, the second completes the character. -/
def Cutting.addUnit (s : Cutting) (piece : List Char) (unit : Nat) : Cutting :=
  if 0xD800 ≤ unit ∧ unit < 0xDC00 then { s with place := .inString piece, half := some unit }
  else
    let code := match s.half with
      | some high => 0x10000 + (high - 0xD800) * 0x400 + (unit - 0xDC00)
      | none => unit
    { s with place := .inString (Char.ofNat code :: piece), half := none }

def isWordChar (c : Char) : Bool := c.isAlphanum || c == '-' || c == '+' || c == '.'

/-- A character outside of strings and words. -/
def Cutting.between (s : Cutting) (c : Char) : Cutting :=
  let mark := fun (m : Mark) => { s with marks := m :: s.marks, place := Place.between }
  match c with
  | '{' => mark (.opening true)
  | '[' => mark (.opening false)
  | '}' | ']' => mark .closing
  | c =>
    if c = Char.ofNat 34 then { s with place := .inString [] }
    else if isWordChar c then { s with place := .inWord [c] }
    else { s with place := .between }

def ofPiece (piece : List Char) : String := String.ofList piece.reverse

def Cutting.step (s : Cutting) (c : Char) : Cutting :=
  match s.place with
  | .between => s.between c
  | .inWord piece =>
    if isWordChar c then { s with place := .inWord (c :: piece) }
    else { s with marks := .word (ofPiece piece) :: s.marks }.between c
  | .inString piece =>
    if c = Char.ofNat 34 then { s with marks := .string (ofPiece piece) :: s.marks, place := .between }
    else if c = '\\' then { s with place := .escape piece }
    else { s with place := .inString (c :: piece) }
  | .escape piece =>
    if c = 'u' then { s with place := .unicode piece 0 4 }
    else { s with place := .inString (plainEscape c :: piece) }
  | .unicode piece value missing =>
    let value := 16 * value + hexValue c
    if missing ≤ 1 then s.addUnit piece value else { s with place := .unicode piece value (missing - 1) }

/-- The marks of a text in order. -/
def marks (text : String) : List Mark :=
  let s := text.toList.foldl Cutting.step ⟨[], .between, none⟩
  let marks := match s.place with
    | .inWord piece => Mark.word (ofPiece piece) :: s.marks
    | _ => s.marks
  marks.reverse

/-- A list or an object that is not closed yet, its entries in reverse; an object may wait for the value of a key. -/
inductive Frame where
  | list (items : List Json)
  | object (fields : List (String × Json)) (key : Option String)

def Frame.add (v : Json) : Frame → Frame
  | list items => list (v :: items)
  | object fields (some key) => object ((key, v) :: fields) none
  | object fields none => object fields (some v.text)

def Frame.close : Frame → Json
  | list items => arr items.reverse
  | object fields _ => obj fields.reverse

def addTop (v : Json) : List Frame → List Frame
  | [] => []
  | f :: rest => f.add v :: rest

def ofWord (w : String) : Json :=
  if w = "null" then null
  else if w = "true" then bool true
  else if w = "false" then bool false
  else num (.ofText w)

def place (stack : List Frame) : Mark → List Frame
  | .opening true => .object [] none :: stack
  | .opening false => .list [] :: stack
  | .closing => match stack with
    | f :: g :: rest => g.add f.close :: rest
    | stack => stack
  | .string s => addTop (str s) stack
  | .word w => addTop (ofWord w) stack

/-- The value that a text spells; null if it spells none. -/
def read (text : String) : Json :=
  match (marks text).foldl place [.list []] with
  | [.list (v :: _)] => v
  | _ => null

end Galerkin.Json
