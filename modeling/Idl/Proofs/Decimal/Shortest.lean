import Idl.Decimal.Shortest
import Idl.Proofs.Decimal.Rounding

/-!
# Short decimals

* `toBinary64_mul_pow`: zeros at the end of a coefficient do not change the double.
* `toBinary64_expansion`: the exact expansion of a double reads back.
* **`shortest_cases`**: the shortest decimal of a double stands next to the exact expansion and reads
  back.
* `shortest_mul_one`: the shortest decimal of an integer up to `10 ^ 16` is that integer.
-/

namespace Idl.Decimal

open Binary64

variable {c n u k : ℕ} {e : ℤ} {negative : Bool}

/-! ## Digits -/

theorem digitCount_pos (n : ℕ) : 0 < digitCount n := Nat.length_toDigits_pos

theorem digitCount_le_iff (hk : 0 < k) : digitCount n ≤ k ↔ n < 10 ^ k :=
  Nat.length_toDigits_le_iff (by omega) hk

theorem toDigits_mul_ten (hn : 0 < n) : Nat.toDigits 10 (n * 10) = Nat.toDigits 10 n ++ ['0'] := by
  have h := Nat.toDigits_append_toDigits (b := 10) (d := 0) (by omega) hn (by omega)
  rw [Nat.add_zero, Nat.mul_comm] at h
  exact h.symm

theorem digitCount_mul_pow (hn : 0 < n) (k : ℕ) : digitCount (n * 10 ^ k) = digitCount n + k := by
  induction k with
  | zero => simp
  | succ k ih =>
    have hpos : 0 < n * 10 ^ k := Nat.mul_pos hn (Nat.pow_pos (by omega))
    rw [Nat.pow_succ, ← Nat.mul_assoc, digitCount, toDigits_mul_ten hpos, List.length_append]
    exact congrArg (· + 1) ih

/-! ## Doubles of decimals -/

theorem toBinary64_eq (d : Decimal) :
    d.toBinary64 =
      if d.coefficient = 0 ∨ (digitCount d.coefficient : ℤ) + d.exponent < -330 then .zero d.negative
      else if 310 < (digitCount d.coefficient : ℤ) + d.exponent then .infinite d.negative
      else if 0 ≤ d.exponent then
        ofRatio d.negative (d.coefficient * 10 ^ d.exponent.toNat * one) 1
      else ofRatio d.negative (d.coefficient * one) (10 ^ (-d.exponent).toNat) := rfl

theorem toBinary64_zero (negative : Bool) (e : ℤ) : toBinary64 ⟨negative, 0, e⟩ = .zero negative := by
  simp [toBinary64]

theorem toBinary64_mul_ten (negative : Bool) (c : ℕ) (e : ℤ) :
    toBinary64 ⟨negative, c * 10, e - 1⟩ = toBinary64 ⟨negative, c, e⟩ := by
  rcases Nat.eq_zero_or_pos c with rfl | hc
  · rw [Nat.zero_mul, toBinary64_zero, toBinary64_zero]
  have hcount := digitCount_mul_pow hc 1
  rw [Nat.pow_one] at hcount
  have hmag : (digitCount (c * 10) : ℤ) + (e - 1) = digitCount c + e := by omega
  have hzero : c * 10 = 0 ↔ c = 0 := by omega
  simp only [toBinary64_eq, hmag, hzero]
  -- both are infinite or zero, or the same ratio
  congr 2
  by_cases h1 : 1 ≤ e
  · obtain ⟨k, rfl⟩ : ∃ k : ℕ, e = k + 1 := ⟨(e - 1).toNat, by omega⟩
    have hk : ((k : ℤ) + 1 - 1).toNat = k := by omega
    have hk' : ((k : ℤ) + 1).toNat = k + 1 := by omega
    rw [if_pos (by omega), if_pos (by omega), hk, hk', Nat.pow_succ', Nat.mul_assoc c 10]
  · obtain ⟨k, rfl⟩ : ∃ k : ℕ, e = -k := ⟨(-e).toNat, by omega⟩
    have hk : (-(-(k : ℤ) - 1)).toNat = k + 1 := by omega
    rw [if_neg (by omega), hk, Nat.pow_succ,
      Nat.mul_right_comm c 10 one, ofRatio_mul_right _ _ _ (by omega)]
    rcases Nat.eq_zero_or_pos k with rfl | hpos
    · simp
    · rw [if_neg (by omega), Int.neg_neg, Int.toNat_natCast]

theorem toBinary64_mul_pow (negative : Bool) (c : ℕ) (e : ℤ) (k : ℕ) :
    toBinary64 ⟨negative, c * 10 ^ k, e⟩ = toBinary64 ⟨negative, c, e + k⟩ := by
  induction k generalizing e with
  | zero => simp
  | succ k ih =>
    have h := toBinary64_mul_ten negative (c * 10 ^ k) (e + 1)
    rw [Int.add_sub_cancel, Nat.mul_assoc, ← Nat.pow_succ] at h
    rw [h, ih, Nat.cast_succ]
    congr 2
    omega

/-- A double with another sign. -/
def withSign (negative : Bool) : Binary64 → Binary64
  | .nan => .nan
  | .infinite _ => .infinite negative
  | .finite _ u h => .finite negative u h

theorem toBinary64_eq_withSign (negative : Bool) (c : ℕ) (e : ℤ) :
    toBinary64 ⟨negative, c, e⟩ = withSign negative (toBinary64 ⟨false, c, e⟩) := by
  have hratio : ∀ a b, ofRatio negative a b = withSign negative (ofRatio false a b) := by
    intro a b
    unfold ofRatio
    split_ifs <;> rfl
  simp only [toBinary64_eq]
  split_ifs
  · rfl
  · rfl
  · exact hratio _ _
  · exact hratio _ _

/-! ## Exact expansions -/

theorem readsBack_iff {d : Decimal} :
    readsBack u d = true ↔ ∃ h, d.toBinary64 = .finite false u h := by
  unfold readsBack
  split
  · rename_i n h hd
    constructor
    · intro hn
      obtain rfl := eq_of_beq hn
      exact ⟨h, hd⟩
    · rintro ⟨h', hd'⟩
      rw [hd] at hd'
      cases hd'
      exact beq_self_eq_true _
  · rename_i hd
    simp only [Bool.false_eq_true, false_iff]
    rintro ⟨h', hd'⟩
    exact hd _ _ hd'

theorem expansion_eq (u : ℕ) : expansion u = u * 5 ^ 1074 := by
  unfold expansion
  generalize 1074 = k
  rfl

theorem five_pow_mul_two_pow (k : ℕ) : 5 ^ k * 2 ^ k = 10 ^ k := (mul_pow 5 2 k).symm

theorem expansion_mul_one (u : ℕ) : expansion u * one = u * 10 ^ 1074 := by
  rw [expansion_eq, one_eq, mul_assoc, five_pow_mul_two_pow]

theorem pow_le_expansion (hu : 0 < u) : 10 ^ 743 ≤ expansion u := by
  have hfive : 10 ^ 743 ≤ 5 ^ 1074 := by decide +kernel
  rw [expansion_eq]
  exact hfive.trans (Nat.le_mul_of_pos_left _ hu)

theorem expansion_lt_pow (hu : u < limit) : expansion u < 10 ^ (310 + 1074) := by
  have htwo : 2 ^ 1024 ≤ 10 ^ 310 := by decide +kernel
  have hlt : u < 10 ^ 310 * one := by
    rw [limit_eq] at hu
    exact hu.trans_le (mul_le_mul_left htwo one)
  refine lt_of_mul_lt_mul_right ?_ Binary64.one_pos.le
  rw [expansion_mul_one, pow_add, mul_right_comm]
  exact mul_lt_mul_of_pos_right hlt (pow_pos (by omega) _)

/-- The exact expansion of a double reads back. -/
theorem toBinary64_expansion (hu : Fits u) (h0 : 0 < u) :
    toBinary64 ⟨false, expansion u, -1074⟩ = .finite false u hu := by
  have hlow : ¬ digitCount (expansion u) ≤ 743 := by
    rw [digitCount_le_iff (by omega), Nat.not_lt]
    exact pow_le_expansion h0
  have hhigh : digitCount (expansion u) ≤ 310 + 1074 := by
    rw [digitCount_le_iff (by omega)]
    exact expansion_lt_pow hu.1
  have hne : expansion u ≠ 0 := by
    rw [expansion_eq]
    exact mul_ne_zero h0.ne' (pow_pos (by omega) _).ne'
  simp only [toBinary64_eq]
  rw [if_neg (by omega), if_neg (by omega), if_neg (by omega), expansion_mul_one,
    show (-(-1074 : ℤ)).toNat = 1074 from rfl]
  exact ofRatio_of_fits false hu (pow_pos (by omega) _)

/-! ## The fewest digits -/

theorem mem_neighbours {tie : Tie} {exact step : ℕ} (hc : c ∈ neighbours tie exact step) :
    c = exact / step ∨ ¬ step ∣ exact ∧ c = exact / step + 1 := by
  by_cases h0 : exact % step = 0
  · have hlow : neighbours tie exact step = [exact / step] := by simp [neighbours, h0]
    rw [hlow] at hc
    exact .inl (List.mem_singleton.1 hc)
  · have hboth : c = exact / step ∨ c = exact / step + 1 := by
      simp only [neighbours, if_neg h0] at hc
      cases tie <;> simp only at hc <;> split_ifs at hc <;> simp_all [or_comm]
    exact hboth.imp_right fun h => ⟨fun hd => h0 (Nat.mod_eq_zero_of_dvd hd), h⟩

/-- The shortest decimal is cut off the exact expansion, or one more than that, and reads back. -/
theorem shortest_cases (tie : Tie) (hu : Fits u) (h0 : 0 < u) :
    ∃ c k : ℕ, shortest tie u = ⟨false, c, k - 1074⟩ ∧ k < digitCount (expansion u) ∧
      (c = expansion u / 10 ^ k ∨ ¬ 10 ^ k ∣ expansion u ∧ c = expansion u / 10 ^ k + 1) ∧
      toBinary64 ⟨false, c, k - 1074⟩ = .finite false u hu := by
  have hsize := digitCount_pos (expansion u)
  simp only [shortest]
  cases hfound : (List.range 17).findSome? fun i =>
      withoutDigits? tie u (expansion u) (digitCount (expansion u) - (i + 1)) with
  | none =>
    refine ⟨expansion u, 0, rfl, hsize, .inl (by simp), ?_⟩
    exact toBinary64_expansion hu h0
  | some d =>
    obtain ⟨i, -, hi⟩ := List.exists_of_findSome?_eq_some hfound
    have hback := List.find?_some hi
    obtain ⟨c, hc, rfl⟩ := List.mem_map.1 (List.mem_of_find?_eq_some hi)
    obtain ⟨_, hd⟩ := readsBack_iff.1 hback
    exact ⟨c, _, rfl, by omega, mem_neighbours hc, hd⟩

/-! ## Integers -/

theorem toBinary64_nat (negative : Bool) (h0 : 0 < n) (hn : n < 10 ^ 310) :
    toBinary64 ⟨negative, n, 0⟩ = ofRatio negative (n * one) 1 := by
  have hlow := digitCount_pos n
  have hhigh := (digitCount_le_iff (by omega)).2 hn
  simp only [toBinary64_eq]
  rw [if_neg (by omega), if_neg (by omega), if_pos (by omega), Int.toNat_zero, pow_zero, mul_one]

theorem expansion_nat (n : ℕ) : expansion (n * one) = n * 10 ^ 1074 := by
  rw [expansion_eq, one_eq, mul_assoc, mul_comm (2 ^ 1074), five_pow_mul_two_pow]

/-- An even integer up to `10 ^ 16` is a double of its own. -/
theorem units_of_toBinary64_nat {m : ℕ} {hfits : Fits (n * one)}
    (hval : toBinary64 ⟨false, m, 0⟩ = .finite false (n * one) hfits) (heven : 2 ∣ m)
    (hm : m ≤ 10 ^ 16) : m = n := by
  have hm' : Fits (m * one) := fits_mul_one (.inr ⟨by omega, heven⟩)
  rcases Nat.eq_zero_or_pos m with rfl | h0
  · rw [toBinary64_zero] at hval
    obtain ⟨-, hunits⟩ := Binary64.finite.inj hval
    exact ((Nat.mul_eq_zero.1 hunits.symm).resolve_right Binary64.one_pos.ne').symm
  · have hratio := ofRatio_of_fits false hm' Nat.one_pos
    have hlt : m < 10 ^ 310 := hm.trans_lt (pow_lt_pow_right₀ (by omega) (by omega))
    rw [mul_one, ← toBinary64_nat false h0 hlt, hval] at hratio
    obtain ⟨-, hunits⟩ := Binary64.finite.inj hratio
    exact (Nat.eq_of_mul_eq_mul_right Binary64.one_pos hunits).symm

/-- Rounding up to a power of ten stays below `10 ^ 16`. -/
theorem mul_pow_le {j : ℕ} (hj : j ≤ 16) (hn : n ≤ 10 ^ 16)
    (hc : c = n / 10 ^ j ∨ ¬ 10 ^ j ∣ n ∧ c = n / 10 ^ j + 1) : c * 10 ^ j ≤ 10 ^ 16 := by
  rcases hc with rfl | ⟨hdvd, rfl⟩
  · exact (Nat.div_mul_le_self n _).trans hn
  · have hne : n ≠ 10 ^ 16 := fun h => hdvd (h ▸ pow_dvd_pow 10 hj)
    have hsplit : 10 ^ 16 = 10 ^ j * 10 ^ (16 - j) := by rw [← pow_add, Nat.add_sub_cancel' hj]
    have hlt : n / 10 ^ j < 10 ^ (16 - j) := Nat.div_lt_of_lt_mul (hsplit ▸ by omega)
    calc (n / 10 ^ j + 1) * 10 ^ j ≤ 10 ^ (16 - j) * 10 ^ j := Nat.mul_le_mul_right _ hlt
      _ = 10 ^ 16 := by rw [hsplit, mul_comm]

/-- **The shortest decimal of an integer is that integer**, up to `10 ^ 16`: an even integer of that
size is a double of its own, so no rounder integer reads back. -/
theorem shortest_mul_one (tie : Tie) (h0 : 0 < n) (hn : n ≤ 10 ^ 16) (hfits : Fits (n * one)) :
    ∃ c k : ℕ, shortest tie (n * one) = ⟨false, c, k - 1074⟩ ∧ c * 10 ^ k = n * 10 ^ 1074 := by
  obtain ⟨c, k, heq, hk, hc, hback⟩ := shortest_cases tie hfits (mul_pos h0 Binary64.one_pos)
  refine ⟨c, k, heq, ?_⟩
  rw [expansion_nat] at hk hc
  rcases Nat.lt_or_ge 1074 k with hlt | hle
  · obtain ⟨j, rfl⟩ := Nat.exists_eq_add_of_le hlt.le
    have hj : j ≤ 16 := by
      have hcount := (digitCount_le_iff (n := n) (k := 17) (by omega)).2 (by omega)
      rw [digitCount_mul_pow h0] at hk
      omega
    have hexp : (0 : ℤ) + j = (1074 + j : ℕ) - 1074 := by omega
    have hten : 0 < 10 ^ 1074 := pow_pos (by omega) _
    rw [pow_add, mul_comm n, Nat.mul_div_mul_left _ _ hten, Nat.mul_dvd_mul_iff_left hten] at hc
    have hle := mul_pow_le hj hn hc
    have heven : 2 ∣ c * 10 ^ j := Dvd.dvd.mul_left (dvd_pow (by omega) (by omega)) c
    have hval : toBinary64 ⟨false, c * 10 ^ j, 0⟩ = .finite false (n * one) hfits := by
      rw [toBinary64_mul_pow, ← hback]
      exact congrArg (fun e => toBinary64 ⟨false, c, e⟩) hexp
    have hunits := units_of_toBinary64_nat hval heven hle
    rw [pow_add, mul_left_comm, hunits, mul_comm]
  · have hdvd : 10 ^ k ∣ n * 10 ^ 1074 := Dvd.dvd.mul_left (pow_dvd_pow 10 hle) n
    rcases hc with rfl | ⟨h, -⟩
    · exact Nat.div_mul_cancel hdvd
    · exact absurd hdvd h

end Idl.Decimal
