import Idl.Decimal.Shortest

/-!
# Writing doubles

* `Layout`: the decisions of a number format.
* `Layout.write`: the text of a double with the fewest digits.
* `Layout.source`, `Layout.prose`: the forms of literals in source text and of numbers in
  sentences.
-/

namespace Idl.Decimal

/-- The decisions of a number format. -/
structure Layout where
  /-- The choice between equally near digits. -/
  tie : Tie
  /-- The exponents of the first digit for which the number is written without a power of ten. -/
  plain : Int → Bool
  /-- A number without fraction ends in a point and a zero, unless it has a power of ten. -/
  wholePoint : Bool
  /-- A positive exponent has a sign. -/
  plus : Bool

/-- The digits of a coefficient without the zeros at its end. -/
def significant (n : Nat) : List Char :=
  ((Nat.toDigits 10 n).reverse.dropWhile (· == '0')).reverse

/-- Digits around the point, where the first digit has the exponent `x`. -/
def plainText (wholePoint : Bool) (ds : List Char) (x : Int) : String :=
  if x < 0 then
    "0." ++ String.ofList (List.replicate (-x - 1).toNat '0' ++ ds)
  else
    let whole := x.toNat + 1
    if ds.length ≤ whole then
      String.ofList (ds ++ List.replicate (whole - ds.length) '0')
        ++ if wholePoint then ".0" else ""
    else String.ofList (ds.take whole) ++ "." ++ String.ofList (ds.drop whole)

/-- One digit before the point, and a power of ten. -/
def powerText (plus : Bool) (ds : List Char) (x : Int) : String :=
  String.ofList (ds.take 1)
    ++ (if ds.length ≤ 1 then "" else "." ++ String.ofList (ds.drop 1))
    ++ "e" ++ (if plus ∧ 0 ≤ x then "+" else "") ++ toString x

/-- The text of a number of units, without sign. -/
def Layout.writeUnits (layout : Layout) (units : Nat) : String :=
  if units = 0 then plainText layout.wholePoint ['0'] 0
  else
    let d := shortest layout.tie units
    let x := d.exponent + digitCount d.coefficient - 1
    let ds := significant d.coefficient
    if layout.plain x then plainText layout.wholePoint ds x else powerText layout.plus ds x

/-- The text of a double. -/
def Layout.write (layout : Layout) : Binary64 → String
  | .nan => "NaN"
  | .infinite negative => if negative then "-inf" else "inf"
  | .finite negative units _ => (if negative then "-" else "") ++ layout.writeUnits units

/-- Literals in source text: a point always, and a power of ten from `10 ^ 16` on and below
`10 ^ -4`. -/
def Layout.source : Layout :=
  ⟨.up, fun x => -4 ≤ x && x < 16, true, false⟩

/-- Numbers in sentences: digits and a point where needed, never a power of ten. -/
def Layout.prose : Layout :=
  ⟨.up, fun _ => true, false, false⟩

end Idl.Decimal
