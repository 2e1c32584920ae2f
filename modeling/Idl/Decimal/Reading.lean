import Idl.Decimal.Binary64

/-!
# Reading decimal numbers

* `Decimal`: a signed coefficient with a power of ten.
* `Decimal.toBinary64`: the nearest double.
* `Binary64.ofText?`: reads a number with an optional sign, point and exponent, or the name of an
  infinity or of no number in letters of either case.
* `readInt?`: reads an integer with an optional minus sign.
-/

namespace Idl

/-- The number `± coefficient * 10 ^ exponent`. -/
structure Decimal where
  negative : Bool
  coefficient : Nat
  exponent : Int
  deriving DecidableEq

namespace Decimal

/-- How many decimal digits `n` has. -/
def digitCount (n : Nat) : Nat := (Nat.toDigits 10 n).length

/-- The double nearest to a decimal number. From `10 ^ 310` on it is infinite and below `10 ^ -330`
it is zero, whatever the digits. -/
def toBinary64 (d : Decimal) : Binary64 :=
  let magnitude := digitCount d.coefficient + d.exponent
  if d.coefficient = 0 ∨ magnitude < -330 then .zero d.negative
  else if 310 < magnitude then .infinite d.negative
  else if 0 ≤ d.exponent then
    .ofRatio d.negative (d.coefficient * Nat.pow 10 d.exponent.toNat * Binary64.one) 1
  else
    .ofRatio d.negative (d.coefficient * Binary64.one) (Nat.pow 10 (-d.exponent).toNat)

end Decimal

/-! ## Text -/

/-- The number that ASCII digits stand for. -/
def natOfDigits (ds : List Char) : Nat :=
  ds.foldl (fun n d => 10 * n + (d.toNat - '0'.toNat)) 0

/-- Splits off a sign: whether it was a minus, and what follows it. -/
def splitSign : List Char → Bool × List Char
  | '-' :: cs => (true, cs)
  | '+' :: cs => (false, cs)
  | cs => (false, cs)

/-- The value of an exponent mark with its digits, or zero where there is none. -/
def readExponent? : List Char → Option Int
  | [] => some 0
  | e :: cs =>
    let (negative, ds) := splitSign cs
    if (e = 'e' ∨ e = 'E') ∧ ds ≠ [] ∧ ds.all Char.isDigit then
      some (if negative then -natOfDigits ds else natOfDigits ds)
    else none

/-- Splits off a point and the digits after it. -/
def splitFraction : List Char → List Char × List Char
  | '.' :: cs => (cs.takeWhile Char.isDigit, cs.dropWhile Char.isDigit)
  | cs => ([], cs)

/-- Reads a decimal number without its sign. At least one digit stands before the exponent. -/
def readUnsigned? (negative : Bool) (cs : List Char) : Option Decimal :=
  let whole := cs.takeWhile Char.isDigit
  let (places, rest) := splitFraction (cs.dropWhile Char.isDigit)
  if whole = [] ∧ places = [] then none
  else
    (readExponent? rest).map fun e => ⟨negative, natOfDigits (whole ++ places), e - places.length⟩

/-- Reads a double. -/
def Binary64.ofText? (text : String) : Option Binary64 :=
  let (negative, cs) := splitSign text.toList
  let lower := String.ofList (cs.map Char.toLower)
  if lower = "nan" then some .nan
  else if lower = "inf" ∨ lower = "infinity" then some (.infinite negative)
  else (readUnsigned? negative cs).map Decimal.toBinary64

/-- Reads an integer in ASCII digits. -/
def readInt? (text : String) : Option Int :=
  let (negative, ds) := match text.toList with
    | '-' :: ds => (true, ds)
    | ds => (false, ds)
  if ds ≠ [] ∧ ds.all Char.isDigit then
    some (if negative then -natOfDigits ds else natOfDigits ds)
  else none

end Idl
