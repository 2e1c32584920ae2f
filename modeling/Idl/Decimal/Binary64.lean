/-!
# Double precision numbers

A finite double is a whole number of units of `2 ^ -1074`, the least positive double. It has 53
significant bits, so its units are a multiple of the spacing of doubles of its size.

* `Binary64`: a double, with its sign.
* `Binary64.ofRatio`: the double nearest to a ratio of units, ties to even.
* `Binary64.sameNumber`: equality of numbers, where the two zeros are equal and nothing equals a
  result that is not a number.
-/

namespace Idl

namespace Binary64

/-- Units in one. -/
def one : Nat := Nat.pow 2 1074

/-- The distance between doubles of the size of `n` units. -/
def spacing (n : Nat) : Nat := Nat.pow 2 (n.log2 - 52)

/-- The least magnitude beyond every finite one. -/
def limit : Nat := Nat.pow 2 1024 * one

/-- Some double has the magnitude `n`. -/
def Fits (n : Nat) : Prop := n < limit ∧ n % spacing n = 0

instance (n : Nat) : Decidable (Fits n) := inferInstanceAs (Decidable (_ ∧ _))

end Binary64

/-- A double precision number. -/
inductive Binary64 where
  /-- No number. -/
  | nan
  /-- Beyond every finite number. -/
  | infinite (negative : Bool)
  /-- A signed number of units. -/
  | finite (negative : Bool) (units : Nat) (fits : Binary64.Fits units)
  deriving DecidableEq

namespace Binary64

/-- The integer nearest to `num / den`; of two equally near ones, the even one. -/
def roundToEven (num den : Nat) : Nat :=
  let q := num / den
  let r := num % den
  if 2 * r < den then q
  else if den < 2 * r then q + 1
  else q + q % 2

/-- The magnitude nearest to `num / den` units, as if no magnitude were too large. -/
def roundUnits (num den : Nat) : Nat :=
  let s := spacing (num / den)
  roundToEven num (den * s) * s

/-- The double nearest to `num / den` units. -/
def ofRatio (negative : Bool) (num den : Nat) : Binary64 :=
  if h : Fits (roundUnits num den) then .finite negative (roundUnits num den) h
  else .infinite negative

/-- The double nearest to an integer. -/
def ofInt (i : Int) : Binary64 :=
  ofRatio (i < 0) (i.natAbs * one) 1

theorem limit_pos : 0 < limit := by
  rw [limit]
  apply Nat.mul_pos <;> apply Nat.two_pow_pos

theorem fits_zero : Fits 0 := ⟨limit_pos, Nat.zero_mod _⟩

/-- The zero of a sign. -/
def zero (negative : Bool) : Binary64 :=
  .finite negative 0 fits_zero

/-- A number of finite size, at most `bound` units. -/
def within (bound : Nat) : Binary64 → Bool
  | .finite _ units _ => units ≤ bound
  | _ => false

/-- The largest single precision number, in units. -/
def singleMax : Nat := (Nat.pow 2 24 - 1) * Nat.pow 2 104 * one

/-- The largest double precision number, in units. -/
def doubleMax : Nat := (Nat.pow 2 53 - 1) * Nat.pow 2 971 * one

/-- Equality of numbers. -/
def sameNumber : Binary64 → Binary64 → Bool
  | .finite n a _, .finite m b _ => a == b && (n == m || a == 0)
  | .infinite n, .infinite m => n == m
  | _, _ => false

end Binary64

end Idl
