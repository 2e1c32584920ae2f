import Idl.Decimal.Reading

/-!
# The fewest digits that read back

Every double has an exact decimal expansion. Cut after some digits, its two neighbours on that grid
of decimals may still read back as the same double.

* `shortest`: the decimal with the fewest digits that reads back, and of several the nearest.
* `Tie`: which of two equally near ones is taken.
-/

namespace Idl.Decimal

/-- The choice between two equally near decimals. -/
inductive Tie where
  /-- The larger one. -/
  | up
  /-- The one with an even last digit. -/
  | even
  deriving DecidableEq

/-- The units of ten to the power `-1074` in `units` units of two to that power. -/
def expansion (units : Nat) : Nat := units * Nat.pow 5 1074

/-- The decimal reads back as the positive number of `units`. -/
def readsBack (units : Nat) (d : Decimal) : Bool :=
  match d.toBinary64 with
  | .finite false n _ => n == units
  | _ => false

/-- The multiples of `step` next to `exact`, the nearer first. -/
def neighbours (tie : Tie) (exact step : Nat) : List Nat :=
  let low := exact / step
  let r := exact % step
  let high := low + 1
  if r = 0 then [low]
  else if 2 * r < step then [low, high]
  else if step < 2 * r then [high, low]
  else match tie with
    | .up => [high, low]
    | .even => if low % 2 = 0 then [low, high] else [high, low]

/-- A decimal that reads back, with the last `dropped` digits of the exact expansion left out. -/
def withoutDigits? (tie : Tie) (units exact dropped : Nat) : Option Decimal :=
  ((neighbours tie exact (Nat.pow 10 dropped)).map fun c => ⟨false, c, (dropped : Int) - 1074⟩).find?
    (readsBack units)

/-- The decimal with the fewest digits that reads back as a positive number of `units`. Seventeen
digits always do. -/
def shortest (tie : Tie) (units : Nat) : Decimal :=
  let exact := expansion units
  let size := digitCount exact
  ((List.range 17).findSome? fun i => withoutDigits? tie units exact (size - (i + 1))).getD
    ⟨false, exact, -1074⟩

end Idl.Decimal
