import Mathlib
import Idl.Decimal.Layout
import Idl.Proofs.Decimal.Shortest

/-!
# Texts of doubles

* `readUnsigned?_plainText`, `readUnsigned?_powerText`: digits are read back at their place, in both
  forms.
* **`ofText?_write`**: the text of a finite double reads back, in every layout.
* **`writeUnits_source_eq_iff`**: in source text, a double is written as an integer with a point and a
  zero if it is that integer, below `10 ^ 16`.
* `readInt?_toString`: an integer is read from its own text.
-/

namespace Idl.Decimal

open Binary64

variable {n u k : ℕ} {x : ℤ} {ds whole places tail : List Char} {negative : Bool}

/-! ## Digits -/

/-- Decimal digits. -/
def Digits (ds : List Char) : Prop := ∀ c ∈ ds, c.isDigit = true

theorem Digits.append (hds : Digits ds) (hplaces : Digits places) : Digits (ds ++ places) :=
  fun c hc => (List.mem_append.1 hc).elim (hds c) (hplaces c)

theorem Digits.take (hds : Digits ds) (k : ℕ) : Digits (ds.take k) :=
  fun c hc => hds c (List.mem_of_mem_take hc)

theorem Digits.drop (hds : Digits ds) (k : ℕ) : Digits (ds.drop k) :=
  fun c hc => hds c (List.mem_of_mem_drop hc)

theorem digits_zeros (k : ℕ) : Digits (List.replicate k '0') := by
  intro c hc
  rw [List.eq_of_mem_replicate hc]
  rfl

theorem digits_toDigits (n : ℕ) : Digits (Nat.toDigits 10 n) := fun _ hc =>
  Nat.isDigit_of_mem_toDigits (by omega) (by omega) hc

theorem natOfDigits_toDigits (n : ℕ) : natOfDigits (Nat.toDigits 10 n) = n :=
  Nat.ofDigitChars_ten_toDigits

theorem head?_toDigits (hn : 0 < n) : (Nat.toDigits 10 n).head? ≠ some '0' := by
  induction n using Nat.strong_induction_on with
  | _ n ih =>
    by_cases hlt : n < 10
    · rw [Nat.toDigits_of_lt_base hlt]
      interval_cases n <;> decide
    · rw [Nat.toDigits_of_base_le (by omega) (by omega),
        List.head?_append_of_ne_nil _ Nat.toDigits_ne_nil]
      exact ih (n / 10) (by omega) (by omega)

theorem natOfDigits_append_zeros (ds : List Char) (k : ℕ) :
    natOfDigits (ds ++ List.replicate k '0') = natOfDigits ds * 10 ^ k := by
  have h : natOfDigits (ds ++ List.replicate k '0') =
      Nat.ofDigitChars 10 (List.replicate k '0') (natOfDigits ds) := Nat.ofDigitChars_append 0
  rw [h, Nat.ofDigitChars_replicate_zero, mul_comm]

theorem natOfDigits_zeros_append (ds : List Char) (k : ℕ) :
    natOfDigits (List.replicate k '0' ++ ds) = natOfDigits ds := by
  have h : natOfDigits (List.replicate k '0' ++ ds) =
      Nat.ofDigitChars 10 ds (Nat.ofDigitChars 10 (List.replicate k '0') 0) :=
    Nat.ofDigitChars_append 0
  rw [h, Nat.ofDigitChars_replicate_zero, mul_zero]
  rfl

theorem toDigits_eq_significant (n : ℕ) :
    ∃ z, Nat.toDigits 10 n = significant n ++ List.replicate z '0' ∧
      digitCount n = (significant n).length + z := by
  obtain ⟨z, hz⟩ : ∃ z, (Nat.toDigits 10 n).reverse.takeWhile (· == '0') = List.replicate z '0' :=
    ⟨_, List.eq_replicate_of_mem fun c hc => by simpa using List.mem_takeWhile_imp hc⟩
  have hsplit := congrArg List.reverse
    (List.takeWhile_append_dropWhile (p := (· == '0')) (l := (Nat.toDigits 10 n).reverse))
  rw [hz, List.reverse_append, List.reverse_reverse, List.reverse_replicate] at hsplit
  refine ⟨z, hsplit.symm, ?_⟩
  rw [digitCount, ← hsplit, List.length_append, List.length_replicate]
  rfl

theorem digits_significant (n : ℕ) : Digits (significant n) := by
  intro c hc
  obtain ⟨z, hz, -⟩ := toDigits_eq_significant n
  exact digits_toDigits n c (hz ▸ List.mem_append_left _ hc)

theorem significant_ne_nil (hn : 0 < n) : significant n ≠ [] := by
  intro h
  obtain ⟨z, hz, -⟩ := toDigits_eq_significant n
  have hval := natOfDigits_toDigits n
  rw [hz, h, natOfDigits_append_zeros] at hval
  simp [natOfDigits] at hval
  omega

theorem head?_significant (hn : 0 < n) : (significant n).head? ≠ some '0' := by
  obtain ⟨z, hz, -⟩ := toDigits_eq_significant n
  have h := head?_toDigits hn
  rwa [hz, List.head?_append_of_ne_nil _ (significant_ne_nil hn)] at h

theorem significant_mul_pow (hn : 0 < n) (k : ℕ) : significant (n * 10 ^ k) = significant n := by
  induction k with
  | zero => simp
  | succ k ih =>
    have hpos : 0 < n * 10 ^ k := mul_pos hn (pow_pos (by omega) k)
    rw [← ih, pow_succ, ← mul_assoc]
    simp [significant, toDigits_mul_ten hpos]

/-! ## Values -/

/-- The number that a decimal stands for. -/
def toRat (d : Decimal) : ℚ := (if d.negative then -1 else 1) * (d.coefficient * 10 ^ d.exponent)

/-- Decimals of one number and one sign, with more zeros or fewer. -/
structure Same (d d' : Decimal) : Prop where
  negative : d.negative = d'.negative
  toRat : d.toRat = d'.toRat

theorem same_mul_pow (negative : Bool) (c : ℕ) (e : ℤ) (k : ℕ) :
    Same ⟨negative, c * 10 ^ k, e⟩ ⟨negative, c, e + k⟩ where
  negative := rfl
  toRat := by
    have hpow : (10 : ℚ) ^ (e + k) = 10 ^ e * 10 ^ k := by
      rw [zpow_add₀ (by norm_num), zpow_natCast]
    simp only [Decimal.toRat, hpow]
    push_cast
    ring

theorem Same.trans {d d' d'' : Decimal} (h : Same d d') (h' : Same d' d'') : Same d d'' :=
  ⟨h.negative.trans h'.negative, h.toRat.trans h'.toRat⟩

theorem Same.symm {d d' : Decimal} (h : Same d d') : Same d' d := ⟨h.negative.symm, h.toRat.symm⟩

theorem Same.of_exponent {negative : Bool} {c : ℕ} {e e' : ℤ} (h : e = e') :
    Same ⟨negative, c, e⟩ ⟨negative, c, e'⟩ := h ▸ ⟨rfl, rfl⟩

theorem Same.toBinary64_eq {d d' : Decimal} (h : Same d d') : d.toBinary64 = d'.toBinary64 := by
  obtain ⟨negative, c, e⟩ := d
  obtain ⟨negative', c', e'⟩ := d'
  obtain ⟨rfl : negative = negative', hrat⟩ := h
  have hsign : (if negative then -1 else 1 : ℚ) ≠ 0 := by
    cases negative <;> norm_num
  have hvalue : (c * 10 ^ e : ℚ) = c' * 10 ^ e' := mul_left_cancel₀ hsign hrat
  -- the one with the smaller exponent has more zeros
  wlog hle : e ≤ e' generalizing c c' e e'
  · exact (this c' e' c e hrat.symm hvalue.symm (by omega)).symm
  obtain ⟨k, rfl⟩ := Int.le.dest hle
  have hzeros : c = c' * 10 ^ k := by
    rw [zpow_add₀ (by norm_num), zpow_natCast, mul_comm (10 ^ e : ℚ), ← mul_assoc] at hvalue
    exact_mod_cast mul_right_cancel₀ (zpow_ne_zero e (by norm_num)) hvalue
  rw [hzeros, toBinary64_mul_pow]

/-- The zeros at the end of a coefficient belong to its exponent. -/
theorem same_significant (negative : Bool) (n : ℕ) (e : ℤ) :
    Same ⟨negative, n, e⟩
      ⟨negative, natOfDigits (significant n), e + digitCount n - (significant n).length⟩ := by
  obtain ⟨z, hz, hcount⟩ := toDigits_eq_significant n
  have hval : natOfDigits (significant n) * 10 ^ z = n := by
    rw [← natOfDigits_append_zeros, ← hz, natOfDigits_toDigits]
  have h := same_mul_pow negative (natOfDigits (significant n)) e z
  rw [hval] at h
  exact h.trans (.of_exponent (by omega))

/-! ## Reading -/

theorem takeWhile_digits (hds : Digits ds)
    (htail : tail.takeWhile Char.isDigit = []) : (ds ++ tail).takeWhile Char.isDigit = ds := by
  rw [List.takeWhile_append_of_pos hds, htail, List.append_nil]

theorem dropWhile_digits (hds : Digits ds)
    (htail : tail.takeWhile Char.isDigit = []) : (ds ++ tail).dropWhile Char.isDigit = tail := by
  have h := List.takeWhile_append_dropWhile (p := Char.isDigit) (l := tail)
  rw [htail, List.nil_append] at h
  rw [List.dropWhile_append_of_pos hds, h]

theorem readUnsigned?_whole (negative : Bool) (hne : whole ≠ [])
    (hwhole : Digits whole) (htail : tail.takeWhile Char.isDigit = [])
    (hpoint : splitFraction tail = ([], tail)) :
    readUnsigned? negative (whole ++ tail) =
      (readExponent? tail).map fun e => ⟨negative, natOfDigits whole, e⟩ := by
  unfold readUnsigned?
  simp [takeWhile_digits hwhole htail, dropWhile_digits hwhole htail, hpoint, hne]

theorem readUnsigned?_point (negative : Bool) (hne : whole ≠ [])
    (hwhole : Digits whole) (hplaces : Digits places)
    (htail : tail.takeWhile Char.isDigit = []) :
    readUnsigned? negative (whole ++ '.' :: (places ++ tail)) =
      (readExponent? tail).map fun e =>
        ⟨negative, natOfDigits (whole ++ places), e - places.length⟩ := by
  have hdot : ('.' :: (places ++ tail)).takeWhile Char.isDigit = [] := by simp
  unfold readUnsigned?
  simp [takeWhile_digits hwhole hdot, dropWhile_digits hwhole hdot, splitFraction,
    takeWhile_digits hplaces htail, dropWhile_digits hplaces htail, hne]

theorem splitSign_digits {cs : List Char} (h : cs.takeWhile Char.isDigit ≠ []) :
    splitSign cs = (false, cs) := by
  unfold splitSign
  split
  · exact absurd (by simp) h
  · exact absurd (by simp) h
  · rfl

theorem toList_toString_int (x : ℤ) :
    (toString x).toList =
      if 0 ≤ x then Nat.toDigits 10 x.toNat else '-' :: Nat.toDigits 10 (-x).toNat := by
  change x.repr.toList = _
  rw [Int.repr_eq_if]
  split_ifs <;> simp [Nat.repr_eq_ofList_toDigits]

theorem readExponent?_of_splitSign {cs : List Char} (negative : Bool) (n : ℕ)
    (h : splitSign cs = (negative, Nat.toDigits 10 n)) :
    readExponent? ('e' :: cs) = some (if negative then -(n : ℤ) else n) := by
  have hall : (Nat.toDigits 10 n).all Char.isDigit = true :=
    List.all_eq_true.2 (digits_toDigits n)
  simp [readExponent?, h, hall, natOfDigits_toDigits, Nat.toDigits_ne_nil]

theorem readExponent?_toString {sign : List Char} (hsign : sign = [] ∨ sign = ['+'] ∧ 0 ≤ x) :
    readExponent? ('e' :: (sign ++ (toString x).toList)) = some x := by
  rw [toList_toString_int]
  have hplain : splitSign (Nat.toDigits 10 x.toNat) = (false, Nat.toDigits 10 x.toNat) := by
    refine splitSign_digits ?_
    rw [List.takeWhile_eq_self_iff.2 (digits_toDigits _)]
    exact Nat.toDigits_ne_nil
  rcases hsign with rfl | ⟨rfl, hx⟩
  · split_ifs with hx
    · rw [List.nil_append, readExponent?_of_splitSign false x.toNat hplain]
      simp [hx]
    · rw [List.nil_append, readExponent?_of_splitSign true (-x).toNat rfl]
      simp; omega
  · rw [if_pos hx, readExponent?_of_splitSign false x.toNat rfl]
    simp [hx]

theorem readUnsigned?_places (negative : Bool) (hne : whole ≠ []) (hwhole : Digits whole)
    (hplaces : Digits places) :
    readUnsigned? negative (whole ++ '.' :: places) =
      some ⟨negative, natOfDigits (whole ++ places), -places.length⟩ := by
  have h := readUnsigned?_point negative hne hwhole hplaces (List.takeWhile_nil ..)
  simpa [readExponent?] using h

theorem readUnsigned?_digits (negative : Bool) (hne : whole ≠ []) (hwhole : Digits whole) :
    readUnsigned? negative whole = some ⟨negative, natOfDigits whole, 0⟩ := by
  have h := readUnsigned?_whole negative hne hwhole (List.takeWhile_nil ..) rfl
  simpa [readExponent?] using h

/-- Digits around the point are read back at their place. -/
theorem readUnsigned?_plainText (negative wholePoint : Bool) (hne : ds ≠ []) (hds : Digits ds)
    (x : ℤ) :
    ∃ d, readUnsigned? negative (plainText wholePoint ds x).toList = some d ∧
      d.Same ⟨negative, natOfDigits ds, x + 1 - ds.length⟩ := by
  unfold plainText
  simp only
  split_ifs with hx hlen hpoint
  · have hzeros := (digits_zeros (-x - 1).toNat).append hds
    have hread := readUnsigned?_places negative (by simp) (digits_zeros 1) hzeros
    refine ⟨_, (congrArg (readUnsigned? negative) (by simp)).trans hread, ?_⟩
    rw [natOfDigits_zeros_append, natOfDigits_zeros_append, List.length_append,
      List.length_replicate]
    exact .of_exponent (by omega)
  · -- zeros before the point, and one after it
    have hwhole := hds.append (digits_zeros (x.toNat + 1 - ds.length))
    have hread := readUnsigned?_places negative (by simp [hne]) hwhole (digits_zeros 1)
    refine ⟨_, (congrArg (readUnsigned? negative) (by simp)).trans hread, ?_⟩
    rw [natOfDigits_append_zeros, natOfDigits_append_zeros, List.length_replicate]
    refine (same_mul_pow ..).trans ((same_mul_pow ..).trans (.of_exponent ?_))
    omega
  · have hwhole := hds.append (digits_zeros (x.toNat + 1 - ds.length))
    have hread := readUnsigned?_digits negative (by simp [hne]) hwhole
    refine ⟨_, (congrArg (readUnsigned? negative) (by simp)).trans hread, ?_⟩
    rw [natOfDigits_append_zeros]
    refine (same_mul_pow ..).trans (.of_exponent ?_)
    omega
  · have hread := readUnsigned?_places negative (by simp [hne]) (hds.take (x.toNat + 1))
      (hds.drop (x.toNat + 1))
    refine ⟨_, (congrArg (readUnsigned? negative) (by simp)).trans hread, ?_⟩
    rw [List.take_append_drop, List.length_drop]
    exact .of_exponent (by omega)

theorem plus_cases (plus : Bool) (x : ℤ) :
    ∃ sign, (if plus ∧ 0 ≤ x then "+" else "").toList = sign ∧
      (sign = [] ∨ sign = ['+'] ∧ 0 ≤ x) := by
  split_ifs with h
  · exact ⟨_, rfl, .inr ⟨rfl, h.2⟩⟩
  · exact ⟨_, rfl, .inl rfl⟩

/-- A power of ten is read back. -/
theorem readUnsigned?_powerText (negative plus : Bool) (hne : ds ≠ []) (hds : Digits ds) (x : ℤ) :
    ∃ d, readUnsigned? negative (powerText plus ds x).toList = some d ∧
      d.Same ⟨negative, natOfDigits ds, x + 1 - ds.length⟩ := by
  obtain ⟨sign, hs, hsign⟩ := plus_cases plus x
  have hexp := readExponent?_toString hsign
  have htail : ('e' :: (sign ++ (toString x).toList)).takeWhile Char.isDigit = [] := by simp
  have hlength : 0 < ds.length := List.length_pos_iff.2 hne
  by_cases hlen : ds.length ≤ 1
  · have hread := readUnsigned?_whole negative hne hds htail rfl
    rw [hexp] at hread
    refine ⟨_, (congrArg (readUnsigned? negative) ?_).trans hread, ?_⟩
    · simp [powerText, hlen, List.take_of_length_le hlen, hs]
    · exact .of_exponent (by omega)
  · have hread := readUnsigned?_point negative (by simp [hne]) (hds.take 1) (hds.drop 1) htail
    rw [hexp, List.take_append_drop, List.length_drop] at hread
    refine ⟨_, (congrArg (readUnsigned? negative) ?_).trans hread, ?_⟩
    · simp [powerText, hlen, hs]
    · exact .of_exponent (by omega)

/-! ## Digits before the point -/

theorem length_whole {cs : List Char} (hcs : cs = whole ++ tail) (hwhole : Digits whole)
    (htail : tail.takeWhile Char.isDigit = []) :
    (cs.takeWhile Char.isDigit).length = whole.length := by
  rw [hcs, takeWhile_digits hwhole htail]

theorem length_whole_plainText (wholePoint : Bool) (hds : Digits ds) (x : ℤ) :
    ((plainText wholePoint ds x).toList.takeWhile Char.isDigit).length = x.toNat + 1 := by
  have hpoint : ∀ cs, ('.' :: cs).takeWhile Char.isDigit = [] := fun cs => by simp
  unfold plainText
  simp only
  split_ifs with hx hlen hwhole
  · simp [Int.toNat_of_nonpos hx.le]
  · have h := length_whole rfl (hds.append (digits_zeros (x.toNat + 1 - ds.length))) (hpoint ['0'])
    simpa [Nat.add_sub_cancel' hlen] using h
  · have h := length_whole (List.append_nil _).symm
      (hds.append (digits_zeros (x.toNat + 1 - ds.length))) (List.takeWhile_nil ..)
    simpa [Nat.add_sub_cancel' hlen] using h
  · have h := length_whole rfl (hds.take (x.toNat + 1)) (hpoint (ds.drop (x.toNat + 1)))
    simpa [Nat.min_eq_left (Nat.le_of_not_le hlen)] using h

theorem length_whole_powerText (plus : Bool) (hne : ds ≠ []) (hds : Digits ds) (x : ℤ) :
    ((powerText plus ds x).toList.takeWhile Char.isDigit).length = 1 := by
  obtain ⟨c, cs, rfl⟩ := List.exists_cons_of_ne_nil hne
  have hc : c.isDigit = true := hds c (by simp)
  by_cases hlen : (c :: cs).length ≤ 1
  · simp only [powerText, if_pos hlen]
    simp [hc]
  · simp only [powerText, if_neg hlen]
    simp [hc]

/-! ## Writing -/

/-- The text of a positive magnitude, by the coefficient and the exponent of its shortest decimal. -/
theorem writeUnits_eq (layout : Layout) {c : ℕ} {e : ℤ} (h0 : 0 < u)
    (hshort : shortest layout.tie u = ⟨false, c, e⟩) :
    layout.writeUnits u =
      if layout.plain (e + digitCount c - 1) then
        plainText layout.wholePoint (significant c) (e + digitCount c - 1)
      else powerText layout.plus (significant c) (e + digitCount c - 1) := by
  rw [Layout.writeUnits, if_neg h0.ne', hshort]

/-- The text of a positive magnitude has the digits of its shortest decimal, and the first is not
zero. -/
theorem writeUnits_cases (layout : Layout) (hu : Fits u) (h0 : 0 < u) :
    ∃ ds x, ds ≠ [] ∧ ds.head? ≠ some '0' ∧ Digits ds ∧
      (shortest layout.tie u).Same ⟨false, natOfDigits ds, x + 1 - ds.length⟩ ∧
      layout.writeUnits u = if layout.plain x then plainText layout.wholePoint ds x
        else powerText layout.plus ds x := by
  obtain ⟨c, k, hshort, -, -, hvalue⟩ := shortest_cases layout.tie hu h0
  have hc : 0 < c := by
    rcases Nat.eq_zero_or_pos c with rfl | hc
    · rw [toBinary64_zero] at hvalue
      exact absurd (Binary64.finite.inj hvalue).2 h0.ne
    · exact hc
  refine ⟨significant c, _, significant_ne_nil hc, head?_significant hc, digits_significant c, ?_,
    writeUnits_eq layout h0 hshort⟩
  rw [hshort, Int.sub_add_cancel]
  exact same_significant false c _

/-- The decimal that is written for a sign and a magnitude. -/
def Layout.decimal (layout : Layout) (negative : Bool) (u : ℕ) : Decimal :=
  if u = 0 then ⟨negative, 0, 0⟩
  else ⟨negative, (shortest layout.tie u).coefficient, (shortest layout.tie u).exponent⟩

theorem Same.withNegative {d d' : Decimal} (h : Same d d') (negative : Bool) :
    Same ⟨negative, d.coefficient, d.exponent⟩ ⟨negative, d'.coefficient, d'.exponent⟩ where
  negative := rfl
  toRat := by
    have hsign : (if d'.negative then -1 else 1 : ℚ) ≠ 0 := by
      cases d'.negative <;> norm_num
    have hrat := h.toRat
    rw [Decimal.toRat, Decimal.toRat, h.negative] at hrat
    simp only [Decimal.toRat, mul_left_cancel₀ hsign hrat]

/-- The text of a magnitude is read back as what was written, with either sign. -/
theorem readUnsigned?_writeUnits (layout : Layout) (negative : Bool) (hu : Fits u) :
    ∃ d, readUnsigned? negative (layout.writeUnits u).toList = some d ∧
      d.Same (layout.decimal negative u) := by
  rcases Nat.eq_zero_or_pos u with rfl | h0
  · obtain ⟨d, hread, hd⟩ :=
      readUnsigned?_plainText negative layout.wholePoint (by simp) (digits_zeros 1) 0
    refine ⟨d, hread, hd.trans ⟨rfl, ?_⟩⟩
    simp [toRat, natOfDigits, Layout.decimal]
  obtain ⟨ds, x, hne, -, hds, hvalue, htext⟩ := writeUnits_cases layout hu h0
  have hsigned := hvalue.withNegative negative
  rw [Layout.decimal, if_neg h0.ne', htext]
  split_ifs
  · obtain ⟨d, hread, hd⟩ := readUnsigned?_plainText negative layout.wholePoint hne hds x
    exact ⟨d, hread, hd.trans hsigned.symm⟩
  · obtain ⟨d, hread, hd⟩ := readUnsigned?_powerText negative layout.plus hne hds x
    exact ⟨d, hread, hd.trans hsigned.symm⟩

/-- What is written for a magnitude is nearest to it. -/
theorem toBinary64_decimal (layout : Layout) (negative : Bool) (hu : Fits u) :
    (layout.decimal negative u).toBinary64 = .finite negative u hu := by
  rcases Nat.eq_zero_or_pos u with rfl | h0
  · exact toBinary64_zero negative 0
  obtain ⟨c, k, hshort, -, -, hvalue⟩ := shortest_cases layout.tie hu h0
  rw [Layout.decimal, if_neg h0.ne', hshort, toBinary64_eq_withSign, hvalue]
  rfl

theorem whole_writeUnits_ne_nil (layout : Layout) (hu : Fits u) :
    (layout.writeUnits u).toList.takeWhile Char.isDigit ≠ [] := by
  rw [← List.length_pos_iff]
  rcases Nat.eq_zero_or_pos u with rfl | h0
  · have h := length_whole_plainText layout.wholePoint (digits_zeros 1) 0
    exact h ▸ Nat.succ_pos _
  obtain ⟨ds, x, hne, -, hds, -, htext⟩ := writeUnits_cases layout hu h0
  rw [htext]
  split_ifs
  · rw [length_whole_plainText layout.wholePoint hds]
    exact Nat.succ_pos _
  · rw [length_whole_powerText layout.plus hne hds]
    exact Nat.one_pos

theorem toLower_of_isDigit {c : Char} (h : c.isDigit = true) : c.toLower = c := by
  have hle : c.toNat ≤ '9'.toNat := (Char.isDigit_iff_toNat.1 h).2
  refine dif_neg fun hupper => ?_
  have hge : 'A'.toNat ≤ c.toNat := hupper.1
  exact absurd (hge.trans hle) (by decide)

/-- No name of a number without digits begins with a digit. -/
theorem lower_ne {cs : List Char} (h : cs.takeWhile Char.isDigit ≠ []) (word : String)
    (hword : word.toList.takeWhile Char.isDigit = []) :
    String.ofList (cs.map Char.toLower) ≠ word := by
  rintro rfl
  cases cs with
  | nil => exact h rfl
  | cons c cs =>
    by_cases hc : c.isDigit = true
    · simp [toLower_of_isDigit hc, hc] at hword
    · exact h (by simp [hc])

theorem splitSign_write (layout : Layout) (negative : Bool) (hu : Fits u) :
    splitSign (layout.write (.finite negative u hu)).toList =
      (negative, (layout.writeUnits u).toList) := by
  cases negative with
  | false => simpa [Layout.write] using splitSign_digits (whole_writeUnits_ne_nil layout hu)
  | true => simp [Layout.write, splitSign]

/-- **The text of a finite double reads back.** -/
theorem ofText?_write (layout : Layout) (negative : Bool) (hu : Fits u) :
    Binary64.ofText? (layout.write (.finite negative u hu)) = some (.finite negative u hu) := by
  obtain ⟨d, hread, hd⟩ := readUnsigned?_writeUnits layout negative hu
  have hwhole := whole_writeUnits_ne_nil layout hu
  have hsplit := splitSign_write layout negative hu
  have hback := hd.toBinary64_eq.trans (toBinary64_decimal layout negative hu)
  have hnan := lower_ne hwhole "nan" (by decide)
  have hinf := lower_ne hwhole "inf" (by decide)
  have hinfinity := lower_ne hwhole "infinity" (by decide)
  simp [Binary64.ofText?, hsplit, hnan, hinf, hinfinity, hread, hback]

/-! ## Integers in source text -/

theorem plainText_nat (n : ℕ) :
    plainText true (significant n) (digitCount n - 1 : ℕ) = toString n ++ ".0" := by
  obtain ⟨z, hz, hcount⟩ := toDigits_eq_significant n
  have hpos := digitCount_pos n
  have hwhole : ((digitCount n - 1 : ℕ) : ℤ).toNat + 1 = (significant n).length + z := by omega
  simp only [plainText, hwhole]
  rw [if_neg (by omega), if_pos (by omega), Nat.add_sub_cancel_left, ← hz,
    Nat.toString_eq_ofList_toDigits]
  rfl

/-- An integer up to `10 ^ 16` in source text. Only the last one has a power of ten. -/
theorem writeUnits_source_nat (hn : n ≤ 10 ^ 16) (hfits : Fits (n * one)) :
    Layout.source.writeUnits (n * one) =
      if n < 10 ^ 16 then toString n ++ ".0" else powerText false (significant n) 16 := by
  rcases Nat.eq_zero_or_pos n with rfl | h0
  · rw [Nat.zero_mul, if_pos (by omega)]
    rfl
  obtain ⟨c, k, hshort, hvalue⟩ := shortest_mul_one Layout.source.tie h0 hn hfits
  have hc : 0 < c := by
    refine Nat.pos_of_ne_zero fun hc => ?_
    rw [hc, Nat.zero_mul] at hvalue
    exact absurd hvalue (mul_pos h0 (pow_pos (by omega) _)).ne
  have hsig : significant c = significant n := by
    rw [← significant_mul_pow hc k, hvalue, significant_mul_pow h0]
  have hcount : digitCount c + k = digitCount n + 1074 := by
    rw [← digitCount_mul_pow hc k, hvalue, digitCount_mul_pow h0]
  have hpos := digitCount_pos n
  have hx : (k : ℤ) - 1074 + digitCount c - 1 = (digitCount n - 1 : ℕ) := by omega
  rw [writeUnits_eq Layout.source (mul_pos h0 Binary64.one_pos) hshort, hx, hsig]
  have hplain : ∀ x, Layout.source.plain x = true ↔ -4 ≤ x ∧ x < 16 := by
    intro x
    simp [Layout.source]
  by_cases hlt : n < 10 ^ 16
  · have hle := (digitCount_le_iff (by omega)).2 hlt
    rw [if_pos hlt, if_pos ((hplain _).2 (by omega))]
    exact plainText_nat n
  · have hgt : ¬ digitCount n ≤ 16 := fun h => hlt ((digitCount_le_iff (by omega)).1 h)
    have hle := (digitCount_le_iff (n := n) (k := 17) (by omega)).2 (by omega)
    have hlast : ((digitCount n - 1 : ℕ) : ℤ) = 16 := by omega
    rw [if_neg hlt, hlast, if_neg fun h => absurd ((hplain _).1 h).2 (by omega)]
    rfl

/-- There are at most sixteen digits before the point. -/
theorem length_whole_source (hu : Fits u) :
    ((Layout.source.writeUnits u).toList.takeWhile Char.isDigit).length ≤ 16 := by
  rcases Nat.eq_zero_or_pos u with rfl | h0
  · exact (length_whole_plainText true (digits_zeros 1) 0).trans_le (by decide)
  obtain ⟨ds, x, hne, -, hds, -, htext⟩ := writeUnits_cases Layout.source hu h0
  rw [htext]
  split_ifs with hplain
  · have hx : x < 16 := by simp [Layout.source] at hplain; omega
    rw [length_whole_plainText Layout.source.wholePoint hds]
    omega
  · rw [length_whole_powerText Layout.source.plus hne hds]
    omega

theorem toList_nat_point (n : ℕ) :
    (toString n ++ ".0").toList = Nat.toDigits 10 n ++ '.' :: List.replicate 1 '0' := by
  rw [Nat.toString_eq_ofList_toDigits, String.toList_append, String.toList_ofList]
  rfl

theorem length_whole_nat (n : ℕ) :
    ((toString n ++ ".0").toList.takeWhile Char.isDigit).length = digitCount n :=
  length_whole (toList_nat_point n) (digits_toDigits n) (by simp)

/-- The double next to an integer below `10 ^ 16` is an integer not far from it. -/
theorem units_of_toBinary64_eq (hn : n < 10 ^ 16) {hu : Fits u}
    (h : toBinary64 ⟨false, n, 0⟩ = .finite false u hu) : ∃ m, u = m * one ∧ m ≤ n + 1 := by
  rcases Nat.eq_zero_or_pos n with rfl | h0
  · rw [toBinary64_zero] at h
    exact ⟨0, by rw [Nat.zero_mul]; exact (Binary64.finite.inj h).2.symm, by omega⟩
  have hlt : n < 10 ^ 310 := hn.trans (pow_lt_pow_right₀ (by omega) (by omega))
  rw [toBinary64_nat false h0 hlt, ofRatio] at h
  split_ifs at h with hfits
  obtain ⟨m, hm, hle⟩ := roundUnits_mul_one (n := n) (by omega)
  exact ⟨m, hm ▸ (Binary64.finite.inj h).2.symm, hle⟩

/-- **Integers in source text.** A double is written as an integer with a point and a zero if it is
that integer, below `10 ^ 16`. -/
theorem writeUnits_source_eq_iff (hu : Fits u) :
    Layout.source.writeUnits u = toString n ++ ".0" ↔ n < 10 ^ 16 ∧ u = n * one := by
  constructor
  · intro htext
    have hn : n < 10 ^ 16 := by
      have hlen := length_whole_source hu
      rwa [htext, length_whole_nat, digitCount_le_iff (by omega)] at hlen
    refine ⟨hn, ?_⟩
    -- the text is read as the double next to the integer
    obtain ⟨d, hread, hd⟩ := readUnsigned?_writeUnits Layout.source false hu
    have hback := hd.toBinary64_eq.trans (toBinary64_decimal Layout.source false hu)
    rw [htext, toList_nat_point, readUnsigned?_places false Nat.toDigits_ne_nil (digits_toDigits n)
      (digits_zeros 1), natOfDigits_append_zeros, natOfDigits_toDigits] at hread
    obtain rfl := Option.some.inj hread
    rw [toBinary64_mul_pow] at hback
    obtain ⟨m, hm, hle⟩ := units_of_toBinary64_eq hn hback
    rw [hm] at hu htext ⊢
    rw [writeUnits_source_nat (by omega) hu] at htext
    by_cases hlt : m < 10 ^ 16
    · rw [if_pos hlt, String.append_left_inj] at htext
      rw [Nat.repr_injective htext]
    · -- one digit before the point is too few
      rw [if_neg hlt] at htext
      have hone := length_whole_powerText false (significant_ne_nil (by omega))
        (digits_significant m) 16
      rw [htext, length_whole_nat] at hone
      have := (digitCount_le_iff Nat.one_pos).1 hone.le
      omega
  · rintro ⟨hn, hunits⟩
    rw [hunits] at hu ⊢
    rw [writeUnits_source_nat hn.le hu, if_pos hn]

end Idl.Decimal

namespace Idl

open Decimal

/-- An integer is read from its own text. -/
theorem readInt?_toString (i : ℤ) : readInt? (toString i) = some i := by
  have hne : ∀ n, Nat.toDigits 10 n ≠ [] := fun n => Nat.toDigits_ne_nil
  have hall : ∀ n, (Nat.toDigits 10 n).all Char.isDigit = true := fun n =>
    List.all_eq_true.2 (digits_toDigits n)
  unfold readInt?
  rw [toList_toString_int]
  by_cases hi : 0 ≤ i
  · have hplain : ∀ cs, Nat.toDigits 10 i.toNat ≠ '-' :: cs := by
      intro cs h
      have := digits_toDigits i.toNat '-' (h ▸ List.mem_cons_self)
      exact absurd this (by decide)
    rw [if_pos hi]
    split
    rename_i negative ds heq
    split at heq
    · rename_i cs h
      exact absurd h (hplain cs)
    · obtain ⟨rfl, rfl⟩ := Prod.mk.inj heq
      rw [if_pos ⟨hne _, hall _⟩, natOfDigits_toDigits]
      simp [hi]
  · rw [if_neg hi]
    simp only
    rw [if_pos ⟨hne _, hall _⟩, natOfDigits_toDigits]
    simp
    omega

end Idl
