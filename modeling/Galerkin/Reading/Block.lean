import Galerkin.Reading.Expression

/-!
Blocks of definitions, one on a line: `name{i,j} = expression` defines a tensor, and
`name = expression` binds the plain expression. A `#` starts a comment.

Which names share one expression: a text that is a bound name, apart from parentheses and plus signs
around it, stands for the very expression bound to that name; every other text makes a new one.
-/

namespace Galerkin.Reading

/-- The parts of a definition line; `indices` is what stands between the braces, if there are any. -/
structure DefinitionLine where
  name : String
  indices : Option (List Char)
  body : List Char

/-- What stands between braces, and what follows them. -/
def braced? : List Char → Option (List Char × List Char)
  | '{' :: rest =>
    match rest.dropWhile (· != '}') with
    | '}' :: after => some (rest.takeWhile (· != '}'), after)
    | _ => none
  | _ => none

/-- Splits a trimmed line into a name, an optional index list, an equals sign and the rest. -/
def DefinitionLine.ofChars? (line : List Char) : Option DefinitionLine :=
  let cs := Text.trimStart line
  match cs with
  | [] => none
  | c :: rest =>
    if !Text.isNameStart c then none
    else
      let name := c :: rest.takeWhile Text.isNamePart
      let after := Text.trimStart (rest.dropWhile Text.isNamePart)
      let (indices, behind) := match braced? after with
        | some (inside, behind) => (some inside, Text.trimStart behind)
        | none => (none, after)
      match behind with
      | '=' :: body => some ⟨String.ofList name, indices, body⟩
      | _ => none

def splitCommas (cs : List Char) : List (List Char) :=
  cs.foldr (fun c parts =>
    if c == ',' then [] :: parts
    else match parts with
      | part :: more => (c :: part) :: more
      | [] => [[c]]) [[]]

/-- The names in an index list; empty places between commas do not count. -/
def indexNames (cs : List Char) : List String :=
  ((splitCommas cs).map Text.trim).filterMap fun part =>
    if part.isEmpty then none else some (String.ofList part)

/-- Binds what one line defines. -/
def define (ns : Namespace) (line : DefinitionLine) : Drawing Namespace := do
  let body ← Drawing.inForm line.name (parse ns (String.ofList line.body))
  let indices ← Drawing.lift ((indexNames (line.indices.getD [])).mapM Index.ofName)
  let definition ← Drawing.lift (Definition.make line.name indices body)
  let value := match line.indices with
    | some _ => Operand.definition definition
    | none => Operand.expr definition.body
  pure (ns.bind line.name value)

/-- A line without its comment and the blanks around it. -/
def bare (line : String) : List Char := Text.trim (line.toList.takeWhile (· != '#'))

def defineLines (ns : Namespace) (number : Nat) : List String → Drawing Namespace
  | [] => pure ns
  | line :: rest => do
    let cs := bare line
    if cs.isEmpty then defineLines ns (number + 1) rest
    else match DefinitionLine.ofChars? cs with
      | none => throw (.form (.notADefinition number))
      | some parts => do
        let ns ← define ns parts
        defineLines ns (number + 1) rest

/-- The bindings `ns` with every definition of the block; later lines may use earlier ones. -/
def parseBlock (ns : Namespace) (block : String) : Drawing Namespace :=
  defineLines ns 1 (Text.lines block)

/-- The names that a block of definitions binds, in the order of its lines. -/
def definedNames (block : String) : List String :=
  (Text.lines block).filterMap fun line => (DefinitionLine.ofChars? (bare line)).map (·.name)

/-! ### Shared expressions -/

/-- The name that a text consists of, apart from parentheses and plus signs. -/
def loneName? (text : String) : Option String :=
  let ts := (tokenize text).toOption.getD []
  match ts.dropWhile fun t => t.text == "(" || t.text == "+" with
  | t :: rest => if t.kind = .name && rest.all (·.text == ")") then some t.text else none
  | [] => none

/-- The expressions that names are bound to, by number; names bound to anything else have none. -/
structure Sharing where
  expressions : List (String × Nat)
  count : Nat

namespace Sharing

def empty : Sharing := ⟨[], 0⟩

def bindNumber (s : Sharing) (name : String) (k : Nat) : Sharing :=
  { s with expressions := (name, k) :: s.expressions }

def bindNew (s : Sharing) (name : String) : Sharing :=
  { (s.bindNumber name s.count) with count := s.count + 1 }

/-- Binds a name to what a text stands for. -/
def bindText (s : Sharing) (name text : String) : Sharing :=
  match (loneName? text).bind fun n => s.expressions.lookup n with
  | some k => s.bindNumber name k
  | none => s.bindNew name

/-- Binds a name to something that is no expression, or that every use makes anew. -/
def bindOther (s : Sharing) (name : String) : Sharing :=
  { s with expressions := s.expressions.filter (·.1 != name) }

def define (s : Sharing) (line : DefinitionLine) : Sharing :=
  match line.indices with
  | some _ => s.bindOther line.name
  | none => s.bindText line.name (String.ofList line.body)

/-- What the names are bound to after a block of definitions. -/
def afterBlock (s : Sharing) (block : String) : Sharing :=
  ((Text.lines block).filterMap fun line => DefinitionLine.ofChars? (bare line)).foldl define s

/-- Is a name bound to the same expression in both? -/
def agree (s t : Sharing) (name : String) : Bool :=
  match s.expressions.lookup name, t.expressions.lookup name with
  | some j, some k => j == k
  | _, _ => false

end Sharing

end Galerkin.Reading
