import Galerkin.Operand
import Galerkin.Reading.Token

/-!
Reading an expression by recursive descent: sums of terms, terms of signed powers, powers of atoms.
Every function takes the tokens that are left and gives back those it did not use; `fuel` bounds the
depth of the descent and `parse` provides more than any text of that length can use.
-/

namespace Galerkin.Reading

/-- What a text is read against: the bindings, and the column where the text ends. -/
structure Context where
  names : Namespace
  stop : Nat

abbrev Tokens := List Token

/-- Does the next token read `s`? -/
def startsWith (s : String) : Tokens → Bool
  | t :: _ => t.text == s
  | [] => false

def dropComma : Tokens → Tokens
  | t :: rest => if t.text == "," then rest else t :: rest
  | [] => []

theorem length_dropComma_le (ts : Tokens) : (dropComma ts).length ≤ ts.length := by
  unfold dropComma
  split
  · split <;> simp
  · simp

def endOfInput : String := "end of input"

def take (ctx : Context) (wanted : String) : Tokens → Drawing Tokens
  | t :: rest =>
    if t.text == wanted then pure rest
    else throw (.form (.expected wanted t.text t.column))
  | [] => throw (.form (.expected wanted endOfInput ctx.stop))

/-- An index list: components, derivatives, and how often the time derivative is taken. -/
structure IndexList where
  comps : List Index
  derivs : List Index
  timeOrder : Nat

def IndexList.add (l : IndexList) (behindSemicolon : Bool) (i : Index) : IndexList :=
  if behindSemicolon then { l with derivs := l.derivs ++ [i] }
  else { l with comps := l.comps ++ [i] }

/-- The inside of braces up to and including the closing one; each name may have one comma behind it. -/
def indexItems (behindSemicolon : Bool) (l : IndexList) : Tokens → Drawing (IndexList × Tokens)
  | [] => throw (.form (.expectedIndex ""))
  | t :: rest =>
    if t.text == "\x7d" then pure (l, rest)
    else if t.text == ";" then
      if behindSemicolon then throw (.form .severalSemicolons) else indexItems true l rest
    else if t.kind != .name then throw (.form (.expectedIndex t.text))
    else do
      let l ← if t.text == Index.timeName then
          if behindSemicolon then pure { l with timeOrder := l.timeOrder + 1 }
          else throw (.formAt .misplacedTime Index.timeName)
        else do
          let i ← Drawing.lift (Index.ofName t.text)
          pure (l.add behindSemicolon i)
      indexItems behindSemicolon l (dropComma rest)
termination_by ts => ts.length
decreasing_by
  all_goals simp only [List.length_cons]
  · omega
  · have := length_dropComma_le rest
    omega

def braces (ctx : Context) (ts : Tokens) : Drawing (IndexList × Tokens) := do
  let inside ← take ctx "\x7b" ts
  indexItems false ⟨[], [], 0⟩ inside

def bracesIfAny (ctx : Context) (ts : Tokens) : Drawing (IndexList × Tokens) :=
  if startsWith "\x7b" ts then braces ctx ts else pure (⟨[], [], 0⟩, ts)

def deltaNames : List String := ["δ", "delta"]

def normalName : String := "n"

def pairingName : String := "Bilinear"

/-- Exactly `count` component indices and nothing behind a semicolon. -/
def IndexList.onlyComps (l : IndexList) (count : Nat) : Bool :=
  l.comps.length == count && l.derivs.isEmpty && l.timeOrder == 0

/-- A name that is bound. -/
def boundName (ctx : Context) (name : Token) (value : Operand) (ts : Tokens) :
    Drawing (Expr × Tokens) :=
  match value with
  | .expr (.bare f) => do
    let (l, rest) ← bracesIfAny ctx ts
    pure (.field f l.comps l.derivs l.timeOrder, rest)
  | .definition d => do
    let (l, rest) ← bracesIfAny ctx ts
    if !l.derivs.isEmpty || l.timeOrder != 0 then
      throw (.malformed ⟨.differentiatedDefinition name.text, some name.text, none⟩)
    pure (← d.access l.comps, rest)
  | .expr e => pure (e, ts)
  | .number n => pure (.const n, ts)
  | _ => throw (.form (.unsupportedBinding name.text value.kind))

/-- A function or the pairing, applied to arguments. -/
def applied (name : Token) (args : List Expr) : Except Failure Expr :=
  if name.text == pairingName then
    match args with
    | [a, b] => pure (.pairing a b)
    | _ => throw (.form .pairingArity)
  else match Function.ofName? name.text with
    | some f =>
      match args with
      | [x] => pure (.apply f x)
      | _ => throw (.form (.functionArity name.text))
    | none => throw (.form (.unknownFunction name.text name.column))

/-- An unbound name with no argument list: a delta or the facet normal. -/
def symbolName (ctx : Context) (name : Token) (ts : Tokens) : Drawing (Expr × Tokens) :=
  if deltaNames.contains name.text then do
    let (l, rest) ← braces ctx ts
    match l.comps, l.onlyComps 2 with
    | [i, j], true => pure (.delta i j, rest)
    | _, _ => throw (.form .deltaArity)
  else if name.text == normalName then do
    let (l, rest) ← braces ctx ts
    match l.comps, l.onlyComps 1 with
    | [i], true => pure (.normal i, rest)
    | _, _ => throw (.form .normalArity)
  else throw (.form (.unknownName name.text name.column))

mutual

/-- A term, and the terms added to it or subtracted from it. -/
def expression (ctx : Context) : Nat → Tokens → Drawing (Expr × Tokens)
  | 0, _ => throw .outOfRange
  | fuel + 1, ts => do
    let (a, rest) ← term ctx fuel ts
    moreTerms ctx fuel a rest

def moreTerms (ctx : Context) : Nat → Expr → Tokens → Drawing (Expr × Tokens)
  | 0, _, _ => throw .outOfRange
  | fuel + 1, a, ts =>
    match ts with
    | t :: rest =>
      if t.text == "+" then do
        let (b, rest) ← term ctx fuel rest
        moreTerms ctx fuel (.sum a b) rest
      else if t.text == "-" then do
        let (b, rest) ← term ctx fuel rest
        moreTerms ctx fuel (a.sub b) rest
      else pure (a, ts)
    | [] => pure (a, ts)

def term (ctx : Context) : Nat → Tokens → Drawing (Expr × Tokens)
  | 0, _ => throw .outOfRange
  | fuel + 1, ts => do
    let (a, rest) ← unary ctx fuel ts
    moreFactors ctx fuel a rest

def moreFactors (ctx : Context) : Nat → Expr → Tokens → Drawing (Expr × Tokens)
  | 0, _, _ => throw .outOfRange
  | fuel + 1, a, ts =>
    match ts with
    | t :: rest =>
      if t.text == "*" then do
        let (b, rest) ← unary ctx fuel rest
        moreFactors ctx fuel (.prod a b) rest
      else if t.text == "/" then do
        let (b, rest) ← unary ctx fuel rest
        moreFactors ctx fuel (.quot a b) rest
      else pure (a, ts)
    | [] => pure (a, ts)

/-- Signs bind weaker than powers. -/
def unary (ctx : Context) : Nat → Tokens → Drawing (Expr × Tokens)
  | 0, _ => throw .outOfRange
  | fuel + 1, ts =>
    match ts with
    | t :: rest =>
      if t.text == "-" then do
        let (a, rest) ← unary ctx fuel rest
        pure (a.neg, rest)
      else if t.text == "+" then unary ctx fuel rest
      else power ctx fuel ts
    | [] => power ctx fuel ts

def power (ctx : Context) : Nat → Tokens → Drawing (Expr × Tokens)
  | 0, _ => throw .outOfRange
  | fuel + 1, ts => do
    let (base, rest) ← atom ctx fuel ts
    match rest with
    | t :: after =>
      if t.text == "^" || t.text == "**" then do
        let (exponent, rest) ← unary ctx fuel after
        pure (.power base exponent, rest)
      else pure (base, rest)
    | [] => pure (base, rest)

def atom (ctx : Context) : Nat → Tokens → Drawing (Expr × Tokens)
  | 0, _ => throw .outOfRange
  | fuel + 1, ts =>
    match ts with
    | [] => throw (.form (.unexpected endOfInput ctx.stop))
    | t :: rest =>
      match t.kind with
      | .number => do
        let literal := Number.Literal.ofChars t.text.toList
        if literal.isTooLong then throw .tooLong else pure (.const literal.value, rest)
      | .name =>
        match ctx.names.find? t.text with
        | some value => boundName ctx t value rest
        | none =>
          if startsWith "(" rest then do
            let (args, rest) ← arguments ctx fuel (rest.drop 1)
            pure (← Drawing.lift (applied t args), rest)
          else symbolName ctx t rest
      | .operator =>
        if t.text == "(" then do
          let (e, rest) ← expression ctx fuel rest
          let rest ← take ctx ")" rest
          pure (e, rest)
        else throw (.form (.unexpected t.text t.column))

/-- The arguments behind an opening parenthesis, and the closing one. -/
def arguments (ctx : Context) : Nat → Tokens → Drawing (List Expr × Tokens)
  | 0, _ => throw .outOfRange
  | fuel + 1, ts => do
    let (e, rest) ← expression ctx fuel ts
    if startsWith "," rest then do
      let (more, rest) ← arguments ctx fuel (rest.drop 1)
      pure (e :: more, rest)
    else do
      let rest ← take ctx ")" rest
      pure ([e], rest)

end

/-- Seven levels of descent for each token, and seven more, are enough. -/
def fuelFor (ts : Tokens) : Nat := 8 * (ts.length + 1)

/-- Reads one whole expression. -/
def parse (names : Namespace) (text : String) : Drawing Expr := do
  let ts ← Drawing.lift (tokenize text)
  let ctx : Context := ⟨names, text.length⟩
  let (e, rest) ← expression ctx (fuelFor ts) ts
  match rest with
  | [] => pure e
  | t :: _ => throw (.form (.trailing t.text t.column))

/-- The weak form that an operand stands for: an expression or the text of one. -/
def form (names : Namespace) : Operand → Drawing Expr
  | .expr e => pure e
  | .text s => parse names s
  | x => throw (.illTyped (.form x.kind))

end Galerkin.Reading
