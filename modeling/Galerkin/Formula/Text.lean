import Galerkin.Formula.Algebra

/-!
The text of formulas in messages. A product is written as a fraction with its sign in front, a square
root by name, and parentheses stand where the precedence of the operators asks for them.
-/

namespace Galerkin.Formula

/-- A written factor; a sum needs parentheses in a product, and all but atoms need them in a power. -/
structure Piece where
  text : String
  isSum : Bool
  isAtom : Bool

/-- A written product: its sign, and what stands above and below the fraction line. -/
structure Phrase where
  negative : Bool
  above : List Piece
  below : List Piece

namespace Piece

def atom (s : String) : Piece := ⟨s, false, true⟩

def inProduct (p : Piece) : String := if p.isSum then "(" ++ p.text ++ ")" else p.text

def inPower (p : Piece) : String := if p.isAtom then p.text else "(" ++ p.text ++ ")"

end Piece

namespace Phrase

def ofPiece (p : Piece) : Phrase := ⟨false, [p], []⟩

def times (x y : Phrase) : Phrase := ⟨x.negative != y.negative, x.above ++ y.above, x.below ++ y.below⟩

def invert (x : Phrase) : Phrase := ⟨x.negative, x.below, x.above⟩

/-- The text without the sign. -/
def body (x : Phrase) : String :=
  let above := match x.above with
    | [] => "1"
    | [p] => if x.below.isEmpty then p.text else p.inProduct
    | ps => String.intercalate "*" (ps.map (·.inProduct))
  match x.below with
  | [] => above
  | [p] => above ++ "/" ++ p.inProduct
  | ps => above ++ "/(" ++ String.intercalate "*" (ps.map (·.inProduct)) ++ ")"

def text (x : Phrase) : String := if x.negative then "-" ++ x.body else x.body

/-- The whole phrase as a factor. -/
def piece (x : Phrase) : Piece :=
  match x.negative, x.above, x.below with
  | false, [p], [] => p
  | _, _, _ => ⟨x.text, false, false⟩

/-- The power of a phrase: a root by name, a negative exponent below the line. -/
def power (b e : Phrase) (exponent : Option Rat) : Phrase :=
  let raised := fun (e : Phrase) => ⟨b.piece.inPower ++ "**" ++ e.piece.inPower, false, false⟩
  let root := Piece.atom ("sqrt(" ++ b.text ++ ")")
  match exponent with
  | some r =>
    if r = mkRat 1 2 then ofPiece root
    else if r = mkRat (-1) 2 then invert (ofPiece root)
    else if r = -1 then invert (ofPiece b.piece)
    else if r < 0 then invert (ofPiece (raised { e with negative := false }))
    else ofPiece (raised e)
  | none => ofPiece (raised e)

end Phrase

variable {ν : Type}

def phraseOfNumber : Coeff → Phrase
  | .exact r =>
    let n := r.num.natAbs
    ⟨r < 0, if n = 1 then (if r.den = 1 then [.atom "1"] else []) else [.atom (toString n)],
      if r.den = 1 then [] else [.atom (toString r.den)]⟩
  | c => ⟨c.isNegative, [.atom (if c.isNegative then c.neg.text else c.text)], []⟩

/-- Joins summands by their signs. -/
def joinSummands : List Phrase → String
  | [] => "0"
  | x :: rest => rest.foldl (fun s y => s ++ (if y.negative then " - " else " + ") ++ y.body) x.text

/-- A formula as a phrase, given the names of its variables. -/
def phrase (name : ν → String) : Formula ν → Phrase
  | const c => phraseOfNumber c
  | var q => .ofPiece (.atom (name q))
  | add a b => .ofPiece ⟨joinSummands (ofSummands b ++ ofSummands a), true, false⟩
  | mul (const c) b =>
    let x := phraseOfNumber c
    let x := if c = .ofInt (-1) then { x with above := [] } else x
    x.times (phrase name b)
  | mul a b => (phrase name a).times (phrase name b)
  | pow (const (.exact r)) e =>
    if r = -1 && e.rational? = some (mkRat 1 2) then .ofPiece (.atom "I")
    else .power (phraseOfNumber (.exact r)) (phrase name e) e.rational?
  | pow b e => .power (phrase name b) (phrase name e) e.rational?
  | app f x =>
    match f, x with
    | .exp, const (.exact r) => .ofPiece (.atom (if r = 1 then "E" else s!"exp({Coeff.text (.exact r)})"))
    | .angle, const _ => .ofPiece (.atom "pi")
    | f, x => .ofPiece (.atom (f.name ++ "(" ++ (phrase name x).text ++ ")"))
where
  ofSummands : Formula ν → List Phrase
    | add a b => ofSummands a ++ ofSummands b
    | e => [phrase name e]

/-- The text of a formula, given the names of its variables. -/
def text (name : ν → String) (e : Formula ν) : String := (phrase name e).text

end Galerkin.Formula
