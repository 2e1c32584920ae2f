import Idl.Decimal.Layout
import Idl.Schema.Primitive
import Idl.Text.Quoted
import Idl.Token.Lexeme

/-!
# Literals

* `Literal`: a value written in a schema.
* `Literal.kind?`, `Literal.read?`: the kind of a literal by its look, and its value.
* `Literal.display`: its text in messages.
* `Primitive.fit`: whether a type holds a literal, and if not, why.
-/

namespace Idl

/-- The kinds of literals. -/
inductive LiteralKind where
  | integer
  | float
  | string
  | bool
  deriving DecidableEq

/-- The word for a kind. -/
def LiteralKind.word : LiteralKind → String
  | integer => "integer"
  | float => "float"
  | string => "string"
  | bool => "bool"

/-- A value written in a schema. -/
inductive Literal where
  | int (value : Int64)
  | float (value : Binary64)
  | string (value : String)
  | bool (value : Bool)
  deriving DecidableEq

namespace Literal

/-- The kind of a value. -/
def kind : Literal → LiteralKind
  | int _ => .integer
  | float _ => .float
  | string _ => .string
  | bool _ => .bool

/-- The text of a truth value. -/
def boolText (b : Bool) : String := if b then "true" else "false"

/-- The text of a value in messages. -/
def display : Literal → String
  | int i => toString i.toInt
  | float x => Decimal.Layout.source.write x
  | string s => Text.quote s
  | bool b => boolText b

/-- The number that a literal stands for, rounded to double precision. -/
def number? : Literal → Option Binary64
  | int i => some (.ofInt i.toInt)
  | float x => some x
  | _ => none

/-- The text of a number with a point or an exponent. -/
def floatText? : Literal → Option String
  | int i => some (toString i.toInt ++ ".0")
  | float x => some (Decimal.Layout.source.write x)
  | _ => none

/-- Two literals of one kind stand for the same value. -/
def same : Literal → Literal → Bool
  | int i, int j => i == j
  | float x, float y => x.sameNumber y
  | string s, string t => s == t
  | bool b, bool c => b == c
  | _, _ => false

/-! ## Reading -/

/-- The recogniser takes the whole text. -/
def isWhole (p : Lexeme.Recogniser) (text : String) : Bool :=
  (p text.toList).any fun a => a.rest.isEmpty

/-- An integer with optional fraction and exponent. -/
def anyNumber : Lexeme.Recogniser :=
  Lexeme.andThen Lexeme.integer
    (Lexeme.andThen (Lexeme.optional Lexeme.fraction) (Lexeme.optional Lexeme.exponent))

/-- The text begins and ends with a quote and stays on its line. -/
def looksQuoted (text : String) : Bool :=
  let cs := text.toList
  2 ≤ cs.length && cs.head? == some '"' && cs.getLast? == some '"' && !cs.contains '\n'

/-- The kind of literal that a text looks like. -/
def kind? (text : String) : Option LiteralKind :=
  if isWhole Lexeme.integer text then some .integer
  else if isWhole anyNumber text then some .float
  else if looksQuoted text then some .string
  else if text = "true" ∨ text = "false" then some .bool
  else none

/-- An integer of 64 bits. -/
def int64? (i : Int) : Option Int64 :=
  if -0x8000000000000000 ≤ i ∧ i < 0x8000000000000000 then some (.ofInt i) else none

/-- The value of a text that looks like a literal of the given kind. Numbers are read in ASCII
digits only. -/
def read? (kind : LiteralKind) (text : String) : Option Literal :=
  match kind with
  | .integer => ((readInt? text).bind int64?).map .int
  | .float => (Binary64.ofText? text).map .float
  | .string => (Text.unquote? text).map .string
  | .bool => some (.bool (text = "true"))

end Literal

/-! ## Types and values -/

/-- Why a type does not hold a value. -/
inductive Misfit where
  /-- A number out of range, by its text. -/
  | range (number : String) (type : Primitive)
  /-- A literal of another kind. -/
  | kind (kind : LiteralKind) (type : Primitive)
  deriving DecidableEq

/-- The sentence about a misfit. -/
def Misfit.message : Misfit → String
  | range number type => number ++ " does not fit in " ++ type.keyword
  | kind k type => k.word ++ " literal cannot be used as " ++ type.keyword

namespace Primitive

/-- The largest magnitude of a floating point type, in units. -/
def floatMax (p : Primitive) : Nat :=
  if p = float32 then Binary64.singleMax else Binary64.doubleMax

/-- A floating point type holds a number up to its largest. -/
def fitFloat (p : Primitive) (x : Binary64) : Except Misfit Unit :=
  if x.within p.floatMax then .ok () else .error (.range (Decimal.Layout.prose.write x) p)

/-- A type holds a literal. Integer literals fit floating point types, and no other literal changes
its kind. -/
def fit (p : Primitive) (v : Literal) : Except Misfit Unit :=
  match v with
  | .int i =>
    match p.range? with
    | some (lo, hi) =>
      if lo ≤ i.toInt ∧ i.toInt ≤ hi then .ok ()
      else .error (.range (toString i.toInt) p)
    | none => if p.isFloat then p.fitFloat (.ofInt i.toInt) else .error (.kind v.kind p)
  | .float x => if p.isFloat then p.fitFloat x else .error (.kind v.kind p)
  | .string _ => if p = string then .ok () else .error (.kind v.kind p)
  | .bool _ => if p = bool then .ok () else .error (.kind v.kind p)

end Primitive

end Idl
