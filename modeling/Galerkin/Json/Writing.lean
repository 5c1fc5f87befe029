import Galerkin.Json.Value
import Galerkin.Text.Quoted

/-!
JSON values as messages show them, and JSON written on one line.
-/

namespace Galerkin.Json

mutual

def literal : Json → String
  | null => "None"
  | bool b => if b then "True" else "False"
  | num n => n.text
  | str s => Text.quote s
  | arr xs => Text.bracketed (literals xs)
  | obj fields => "\x7b" ++ Text.joined ", " (entryLiterals fields) ++ "\x7d"

def literals : List Json → List String
  | [] => []
  | x :: xs => literal x :: literals xs

def entryLiterals : List (String × Json) → List String
  | [] => []
  | (key, x) :: rest => (Text.quote key ++ ": " ++ literal x) :: entryLiterals rest

end

/-- A text as it stands, anything else as it is shown. -/
def plain : Json → String
  | str s => s
  | j => j.literal

/-! ### On one line -/

/-- A character inside a string literal: the quote, the backslash and control characters are escaped. -/
def escaped (c : Char) : String :=
  if c = Char.ofNat 34 then "\\\""
  else if c = '\\' then "\\\\"
  else if c.toNat < 32 then
    "\\u00" ++ String.ofList [Nat.digitChar (c.toNat / 16), Nat.digitChar (c.toNat % 16)]
  else String.singleton c

def quoted (s : String) : String := "\"" ++ String.join (s.toList.map escaped) ++ "\""

mutual

def render : Json → String
  | null => "null"
  | bool b => if b then "true" else "false"
  | num n => n.text
  | str s => quoted s
  | arr xs => "[" ++ Text.joined ", " (renderItems xs) ++ "]"
  | obj fields => "\x7b" ++ Text.joined ", " (renderFields fields) ++ "\x7d"

def renderItems : List Json → List String
  | [] => []
  | x :: xs => render x :: renderItems xs

def renderFields : List (String × Json) → List String
  | [] => []
  | (k, v) :: rest => (quoted k ++ ": " ++ render v) :: renderFields rest

end

end Galerkin.Json
