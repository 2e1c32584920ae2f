import Idl.Decimal.Binary64
import Mathlib.Algebra.Order.Ring.Nat
import Mathlib.Data.Nat.Log
import Mathlib.Tactic.Ring

/-!
# Rounding to doubles

* `roundUnits_mul_right`: a ratio is rounded alike in every form.
* `roundUnits_of_fits`: the magnitude of a double is rounded to itself.
* `fits_mul_one`: the integers that are doubles, up to `2 ^ 54`.
* `roundUnits_mul_one`: other integers below `2 ^ 54` are rounded to an integer next to them.
-/

namespace Idl.Binary64

variable {n u a b c : ℕ}

theorem one_eq : one = 2 ^ 1074 := by
  unfold one
  generalize 1074 = k
  rfl

theorem limit_eq : limit = 2 ^ 1024 * one := by
  unfold limit
  generalize 1024 = k
  rfl

theorem spacing_eq (n : ℕ) : spacing n = 2 ^ (n.log2 - 52) := Nat.pow_eq

theorem one_pos : 0 < one := by rw [one_eq]; apply Nat.two_pow_pos

theorem spacing_pos (n : ℕ) : 0 < spacing n := by rw [spacing_eq]; apply Nat.two_pow_pos

/-! ## Ratios -/

theorem roundToEven_mul_right (a b : ℕ) (hc : 0 < c) :
    roundToEven (a * c) (b * c) = roundToEven a b := by
  have hlt : 2 * (a % b * c) < b * c ↔ 2 * (a % b) < b := by
    rw [← Nat.mul_assoc, Nat.mul_lt_mul_right hc]
  have hgt : b * c < 2 * (a % b * c) ↔ b < 2 * (a % b) := by
    rw [← Nat.mul_assoc, Nat.mul_lt_mul_right hc]
  simp only [roundToEven, Nat.mul_div_mul_right _ _ hc, Nat.mul_mod_mul_right, hlt, hgt]

theorem roundToEven_mul_self (a : ℕ) (hb : 0 < b) : roundToEven (a * b) b = a := by
  simp [roundToEven, Nat.mul_div_cancel _ hb, hb]

theorem roundUnits_mul_right (a b : ℕ) (hc : 0 < c) :
    roundUnits (a * c) (b * c) = roundUnits a b := by
  have hden : b * c * spacing (a / b) = b * spacing (a / b) * c := by ring
  simp only [roundUnits, Nat.mul_div_mul_right _ _ hc, hden, roundToEven_mul_right _ _ hc]

theorem roundUnits_of_fits (h : Fits u) (hb : 0 < b) : roundUnits (u * b) b = u := by
  obtain ⟨k, hk⟩ := Nat.dvd_of_mod_eq_zero h.2
  have hnum : u * b = k * (b * spacing u) := by
    calc u * b = spacing u * k * b := by rw [← hk]
      _ = k * (b * spacing u) := by ring
  simp only [roundUnits, Nat.mul_div_cancel _ hb]
  rw [hnum, roundToEven_mul_self k (Nat.mul_pos hb (spacing_pos u)), Nat.mul_comm, ← hk]

theorem ofRatio_mul_right (negative : Bool) (a b : ℕ) (hc : 0 < c) :
    ofRatio negative (a * c) (b * c) = ofRatio negative a b := by
  simp only [ofRatio, roundUnits_mul_right _ _ hc]

theorem ofRatio_of_fits (negative : Bool) (h : Fits u) (hb : 0 < b) :
    ofRatio negative (u * b) b = .finite negative u h := by
  have hu := roundUnits_of_fits h hb
  simp only [ofRatio, hu, h, dite_true]

/-! ## Integers -/

theorem log2_mul_two_pow (hn : n ≠ 0) (k : ℕ) : (n * 2 ^ k).log2 = n.log2 + k := by
  have hpow : 0 < 2 ^ k := Nat.two_pow_pos k
  rw [Nat.log2_eq_iff (Nat.mul_ne_zero hn hpow.ne'), show n.log2 + k + 1 = n.log2 + 1 + k by omega,
    Nat.pow_add, Nat.pow_add 2 (n.log2 + 1)]
  exact ⟨Nat.mul_le_mul_right _ (Nat.log2_self_le hn),
    Nat.mul_lt_mul_of_pos_right Nat.lt_log2_self hpow⟩

theorem spacing_dvd_mul_two_pow (hn : n < 2 ^ 53 ∨ n < 2 ^ 54 ∧ 2 ∣ n) (k : ℕ) :
    spacing (n * 2 ^ k) ∣ n * 2 ^ k := by
  rcases Nat.eq_zero_or_pos n with rfl | hpos
  · simp
  rw [spacing_eq, log2_mul_two_pow hpos.ne']
  rcases hn with hn | ⟨hn, hdvd⟩
  · have hlog : n.log2 < 53 := (Nat.log2_lt hpos.ne').2 hn
    exact Dvd.dvd.mul_left (Nat.pow_dvd_pow 2 (by omega)) n
  · have hlog : n.log2 < 54 := (Nat.log2_lt hpos.ne').2 hn
    have hle : 2 ^ (n.log2 + k - 52) ∣ 2 ^ (1 + k) := Nat.pow_dvd_pow 2 (by omega)
    rw [Nat.pow_add] at hle
    exact hle.trans (Nat.mul_dvd_mul_right hdvd _)

/-- Integers of 53 bits are doubles, and even ones of 54 bits. -/
theorem fits_mul_one (hn : n < 2 ^ 53 ∨ n < 2 ^ 54 ∧ 2 ∣ n) : Fits (n * one) := by
  have hlt : n < 2 ^ 54 := by omega
  constructor
  · rw [limit_eq]
    apply Nat.mul_lt_mul_of_pos_right (hlt.trans_le _) one_pos
    apply Nat.pow_le_pow_right <;> omega
  · rw [one_eq]
    apply Nat.mod_eq_zero_of_dvd
    apply spacing_dvd_mul_two_pow hn

theorem fits_one : Fits one := by
  rw [← Nat.one_mul one]
  exact fits_mul_one (.inl (by omega))

theorem spacing_mul_two_pow (hlog : n.log2 = 53) (k : ℕ) : spacing (n * 2 ^ k) = 2 * 2 ^ k := by
  have hn : n ≠ 0 := by rintro rfl; cases hlog
  rw [spacing_eq, log2_mul_two_pow hn, hlog, show 53 + k - 52 = k + 1 by omega, Nat.pow_succ']

/-- An integer below `2 ^ 54` is rounded to itself or to one of its neighbours. -/
theorem roundUnits_mul_one (hn : n < 2 ^ 54) :
    ∃ m, roundUnits (n * one) 1 = m * one ∧ m ≤ n + 1 := by
  by_cases hfits : Fits (n * one)
  · have h := roundUnits_of_fits hfits Nat.one_pos
    exact ⟨n, by rwa [Nat.mul_one] at h, by omega⟩
  have hge : ¬ n < 2 ^ 53 := fun h => hfits (fits_mul_one (.inl h))
  have hlog : n.log2 = 53 := (Nat.log2_eq_iff (by omega)).2 ⟨by omega, hn⟩
  have hround : roundUnits (n * one) 1 = roundToEven n 2 * (2 * one) := by
    have hspacing : spacing (n * one) = 2 * one := by
      rw [one_eq]
      generalize 1074 = k
      exact spacing_mul_two_pow hlog k
    simp only [roundUnits, Nat.div_one, hspacing, Nat.one_mul, roundToEven_mul_right _ _ one_pos]
  have hle : 2 * roundToEven n 2 ≤ n + 1 := by
    unfold roundToEven
    simp only
    split_ifs <;> omega
  refine ⟨roundToEven n 2 * 2, ?_, (Nat.mul_comm _ 2).trans_le hle⟩
  rw [hround, Nat.mul_assoc]

end Idl.Binary64
