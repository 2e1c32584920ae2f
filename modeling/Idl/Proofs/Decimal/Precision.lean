import Mathlib
import Idl.Proofs.Decimal.Layout

/-!
# Numbers of floating point types

A literal in source text is a ratio, and its value is the number of the literal's type that is nearest to
it. Two literals that differ may so have one value.

* `Precision`: the numbers of a floating point type. `Precision.double`, `Precision.single`.
* `Precision.round`: the number nearest to a ratio, ties to even.
* `Precision.read?`: the value of a literal.
* `Precision.read?_write`, `Precision.read?_int`, `Precision.read?_int_point`: the values of the literals
  that are written for doubles and for integers.
* **`Precision.round_decimal`**: in double precision the literal of a double is worth the double.
-/

namespace Idl

open Binary64 Decimal

/-- The numbers of a floating point type, in units of the least double. -/
structure Precision where
  /-- The bits of a number. -/
  bits : ℕ
  /-- The least positive number is `2 ^ least` units. -/
  least : ℕ
  /-- All finite numbers are below `2 ^ top`. -/
  top : ℕ

namespace Precision

/-- A number, in units. The two zeros are one number. -/
inductive Number where
  | finite (units : ℤ)
  | infinite (negative : Bool)
  deriving DecidableEq

def double : Precision := ⟨53, 0, 1024⟩

def single : Precision := ⟨24, 925, 128⟩

variable (P : Precision)

/-- The distance between numbers of the size of `n` units. -/
def spacing (n : ℕ) : ℕ := 2 ^ max (n.log2 + 1 - P.bits) P.least

/-- The magnitude nearest to `num / den` units, as if no magnitude were too large. -/
def roundUnits (num den : ℕ) : ℕ :=
  roundToEven num (den * P.spacing (num / den)) * P.spacing (num / den)

/-- The number nearest to a ratio. -/
def round (q : ℚ) : Number :=
  let units := P.roundUnits (q.num.natAbs * one) q.den
  if units < 2 ^ P.top * one then .finite (if q < 0 then -units else units) else .infinite (q < 0)

/-- The value of a literal with an optional sign, point and exponent. -/
def read? (cs : List Char) : Option Number :=
  (readUnsigned? (splitSign cs).1 (splitSign cs).2).map fun d => P.round d.toRat

/-! ## What is written -/

/-- The text of a double is worth the decimal that was written. -/
theorem read?_write (layout : Layout) (negative : Bool) {u : ℕ} (hu : Fits u) :
    P.read? (layout.write (.finite negative u hu)).toList =
      some (P.round ((layout.decimal negative u).toRat)) := by
  obtain ⟨d, hread, hsame⟩ := readUnsigned?_writeUnits layout negative hu
  rw [read?, splitSign_write, hread, Option.map_some, hsame.toRat]

theorem splitSign_toString (i : ℤ) (tail : List Char) :
    splitSign ((toString i).toList ++ tail) =
      (decide (i < 0), Nat.toDigits 10 i.natAbs ++ tail) := by
  rw [toList_toString_int]
  split_ifs with h
  · have hdigits : (Nat.toDigits 10 i.toNat ++ tail).takeWhile Char.isDigit ≠ [] := by
      obtain ⟨c, cs, hcs⟩ := List.exists_cons_of_ne_nil (Nat.toDigits_ne_nil (b := 10) (n := i.toNat))
      have hc : c.isDigit = true := digits_toDigits i.toNat c (hcs ▸ List.mem_cons_self)
      simp [hcs, hc]
    rw [splitSign_digits hdigits, decide_eq_false (by omega), show i.toNat = i.natAbs by omega]
  · rw [List.cons_append, splitSign, decide_eq_true (by omega), show (-i).toNat = i.natAbs by omega]

theorem toRat_int (i : ℤ) : toRat ⟨decide (i < 0), i.natAbs, 0⟩ = i := by
  rw [toRat, zpow_zero, mul_one]
  by_cases h : i < 0
  · rw [if_pos (by simpa using h), Nat.cast_natAbs, abs_of_neg h]
    push_cast
    ring
  · rw [if_neg (by simpa using h), Nat.cast_natAbs, abs_of_nonneg (by omega), one_mul]

theorem read?_int (i : ℤ) : P.read? (toString i).toList = some (P.round i) := by
  have hsplit := splitSign_toString i []
  rw [List.append_nil, List.append_nil] at hsplit
  rw [read?, hsplit, readUnsigned?_digits _ Nat.toDigits_ne_nil (digits_toDigits _),
    natOfDigits_toDigits, Option.map_some, toRat_int]

theorem read?_int_point (i : ℤ) : P.read? (toString i ++ ".0").toList = some (P.round i) := by
  have hpoint : (toString i ++ ".0").toList = (toString i).toList ++ '.' :: List.replicate 1 '0' := by
    rw [String.toList_append]
    rfl
  have hsame : toRat ⟨decide (i < 0), i.natAbs * 10 ^ 1, -1⟩ = i :=
    (same_mul_pow _ i.natAbs (-1) 1).toRat.trans (toRat_int i)
  rw [read?, hpoint, splitSign_toString, readUnsigned?_places _ Nat.toDigits_ne_nil (digits_toDigits _)
    (digits_zeros 1), natOfDigits_append_zeros, natOfDigits_toDigits, Option.map_some,
    List.length_replicate, Nat.cast_one, hsame]

/-! ## Double precision -/

theorem double_top : double.top = 1024 := rfl

theorem double_roundUnits (num den : ℕ) : double.roundUnits num den = Binary64.roundUnits num den := by
  have hspacing : ∀ n, double.spacing n = Binary64.spacing n := by
    intro n
    rw [spacing, spacing_eq, double, Nat.max_zero, Nat.add_sub_add_right n.log2 1 52]
  simp only [roundUnits, hspacing, Binary64.roundUnits]

theorem double_roundUnits_ratio {q : ℚ} {a b : ℕ} (hb : 0 < b) (hq : |q| = a / b) :
    double.roundUnits (q.num.natAbs * one) q.den = Binary64.roundUnits (a * one) b := by
  have hcross : q.num.natAbs * b = a * q.den := by
    have hden : (q.den : ℚ) ≠ 0 := by exact_mod_cast q.den_ne_zero
    have hb' : (b : ℚ) ≠ 0 := by exact_mod_cast hb.ne'
    have habs : |q| = q.num.natAbs / q.den := by
      rw [Rat.abs_def, Rat.divInt_eq_div, Int.cast_natCast, Int.cast_natCast]
    rw [habs, div_eq_div_iff hden hb'] at hq
    exact_mod_cast hq
  rw [double_roundUnits]
  generalize one = k
  rw [← roundUnits_mul_right (q.num.natAbs * k) q.den hb, ← roundUnits_mul_right (a * k) b q.den_pos,
    Nat.mul_comm b q.den, Nat.mul_right_comm, hcross, Nat.mul_right_comm]

theorem abs_toRat (d : Decimal) : |d.toRat| = d.coefficient * 10 ^ d.exponent := by
  have hpos : (0 : ℚ) ≤ d.coefficient * 10 ^ d.exponent := by positivity
  rw [toRat]
  split_ifs
  · rw [neg_one_mul, abs_neg, abs_of_nonneg hpos]
  · rw [one_mul, abs_of_nonneg hpos]

/-- A positive magnitude is a ratio that is rounded. -/
theorem roundUnits_of_toBinary64 {d : Decimal} {negative : Bool} {u : ℕ} {hu : Fits u}
    (hd : d.toBinary64 = .finite negative u hu) (h0 : u ≠ 0) :
    double.roundUnits (d.toRat.num.natAbs * one) d.toRat.den = u := by
  have hratio : ∀ {num den : ℕ}, ofRatio d.negative num den = .finite negative u hu →
      Binary64.roundUnits num den = u := by
    intro num den h
    rw [ofRatio] at h
    split_ifs at h
    exact (Binary64.finite.inj h).2
  rw [toBinary64_eq] at hd
  split_ifs at hd with hzero hlarge hwhole
  · exact absurd (Binary64.finite.inj hd).2.symm h0
  · obtain ⟨k, hk⟩ := Int.eq_ofNat_of_zero_le hwhole
    rw [double_roundUnits_ratio (a := d.coefficient * 10 ^ k) (b := 1) Nat.one_pos]
    · rw [hk] at hd
      exact hratio hd
    · rw [abs_toRat, hk]
      push_cast
      rw [div_one]
      rfl
  · obtain ⟨k, hk⟩ := Int.eq_ofNat_of_zero_le (show 0 ≤ -d.exponent by omega)
    rw [double_roundUnits_ratio (a := d.coefficient) (b := 10 ^ k) (by positivity)]
    · rw [hk] at hd
      exact hratio hd
    · rw [abs_toRat, show d.exponent = -(k : ℤ) by omega, zpow_neg, zpow_natCast, div_eq_mul_inv]
      push_cast
      rfl

theorem toRat_neg_iff {d : Decimal} (hd : d.coefficient ≠ 0) : d.toRat < 0 ↔ d.negative = true := by
  have hpos : (0 : ℚ) < d.coefficient * 10 ^ d.exponent := by positivity
  rw [toRat]
  cases d.negative with
  | true => simpa using hpos
  | false => simpa using hpos.le

/-- **The literal of a double is worth the double**, apart from the sign of a zero. -/
theorem round_decimal (layout : Layout) (negative : Bool) {u : ℕ} (hu : Fits u) :
    double.round ((layout.decimal negative u).toRat) =
      .finite (if negative then -u else u) := by
  rcases Nat.eq_zero_or_pos u with rfl | h0
  · have hzero : (layout.decimal negative 0).toRat = 0 := by simp [toRat, Layout.decimal]
    rw [hzero]
    cases negative <;> decide +kernel
  have hd := toBinary64_decimal layout negative hu
  obtain ⟨c, e, hdecimal⟩ : ∃ c e, layout.decimal negative u = ⟨negative, c, e⟩ :=
    ⟨_, _, if_neg h0.ne'⟩
  rw [hdecimal] at hd ⊢
  have hdigits : c ≠ 0 := by
    rintro rfl
    rw [toBinary64_zero] at hd
    exact h0.ne (Binary64.finite.inj hd).2
  have hlt : u < 2 ^ double.top * one := by
    rw [double_top, ← limit_eq]
    exact hu.1
  simp only [round, roundUnits_of_toBinary64 hd h0.ne', if_pos hlt, toRat_neg_iff (d := ⟨negative, c, e⟩) hdigits]

end Precision

end Idl
