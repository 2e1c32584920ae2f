import Mathlib
import Idl.Proofs.Decimal.Layout

/-!
# Decimal numerals

A numeral is read by the places of its digits. Many numerals spell one integer, since zeros may lead
and zero may have a sign.

* `Numeral`: an integer and a way to write it.
* **`readInt?_eq_some_iff`**: the texts that are read as an integer are its numerals.
* `DecimalText`, **`decimalText_toString`**: the shortest numeral, which is what is written.
-/

namespace Idl.Decimal

variable {ds w : List Char} {n : ℤ}

/-- The number that digits spell. The last digit counts ones, the one before it tens. -/
def placeValue (ds : List Char) : ℕ :=
  Nat.ofDigits 10 (ds.reverse.map fun d => d.toNat - '0'.toNat)

/-- Digits spell an integer, with a minus sign or without. -/
inductive Numeral : List Char → ℤ → Prop
  | plain {ds : List Char} (digits : Digits ds) (nonempty : ds ≠ []) : Numeral ds (placeValue ds)
  | minus {ds : List Char} (digits : Digits ds) (nonempty : ds ≠ []) :
    Numeral ('-' :: ds) (-placeValue ds)

theorem placeValue_append_singleton (ds : List Char) (d : Char) :
    placeValue (ds ++ [d]) = (d.toNat - '0'.toNat) + 10 * placeValue ds := by
  simp [placeValue, Nat.ofDigits_cons]

theorem natOfDigits_eq_placeValue (ds : List Char) : natOfDigits ds = placeValue ds := by
  induction ds using List.reverseRecOn with
  | nil => rfl
  | append_singleton ds d ih =>
    rw [placeValue_append_singleton, ← ih, natOfDigits, List.foldl_append, add_comm]
    rfl

theorem Digits.placeValue_lt (hds : Digits ds) : placeValue ds < 10 ^ ds.length := by
  have hlt : ∀ v ∈ ds.reverse.map fun d => d.toNat - '0'.toNat, v < 10 := by
    intro v hv
    obtain ⟨d, hd, rfl⟩ := List.mem_map.1 hv
    have h9 : d.toNat ≤ '9'.toNat := by
      have := hds d (List.mem_reverse.1 hd)
      simp only [Char.isDigit, Bool.and_eq_true, decide_eq_true_eq] at this
      exact this.2
    have : '9'.toNat = '0'.toNat + 9 := rfl
    omega
  simpa [placeValue] using Nat.ofDigits_lt_base_pow_length (by norm_num) hlt

/-! ## Reading -/

theorem readInt?_of_minus {text : String} (h : text.toList = '-' :: ds) :
    readInt? text =
      if ds ≠ [] ∧ ds.all Char.isDigit = true then some (-(natOfDigits ds : ℤ)) else none := by
  simp [readInt?, h]

theorem readInt?_of_plain {text : String} (h : ∀ ds, text.toList ≠ '-' :: ds) :
    readInt? text = if text.toList ≠ [] ∧ text.toList.all Char.isDigit = true then
      some (natOfDigits text.toList : ℤ) else none := by
  simp [readInt?]

theorem Digits.ne_minus (hds : Digits w) : w ≠ '-' :: ds := by
  rintro rfl
  exact absurd (hds '-' List.mem_cons_self) (by decide)

/-- **The texts that are read as an integer.** -/
theorem readInt?_eq_some_iff {text : String} : readInt? text = some n ↔ Numeral text.toList n := by
  by_cases hminus : ∃ ds, text.toList = '-' :: ds
  · obtain ⟨ds, hw⟩ := hminus
    rw [readInt?_of_minus hw, hw, Option.ite_none_right_eq_some, natOfDigits_eq_placeValue,
      Option.some.injEq, List.all_eq_true]
    constructor
    · rintro ⟨⟨hne, hds⟩, rfl⟩
      exact .minus hds hne
    · intro h
      cases h with
      | plain hds _ => exact absurd rfl hds.ne_minus
      | minus hds hne => exact ⟨⟨hne, hds⟩, rfl⟩
  · rw [not_exists] at hminus
    rw [readInt?_of_plain hminus, Option.ite_none_right_eq_some, natOfDigits_eq_placeValue,
      Option.some.injEq, List.all_eq_true]
    constructor
    · rintro ⟨⟨hne, hds⟩, rfl⟩
      exact .plain hds hne
    · intro h
      generalize text.toList = w at h hminus
      cases h with
      | plain hds hne => exact ⟨⟨hne, hds⟩, rfl⟩
      | minus _ _ => exact absurd rfl (hminus _)

/-! ## Writing -/

/-- The text of an integer: no numeral for it is shorter. -/
structure DecimalText (w : List Char) (n : ℤ) : Prop where
  numeral : Numeral w n
  shortest : ∀ {v}, Numeral v n → w.length ≤ v.length

/-- **An integer is written as its shortest numeral.** -/
theorem decimalText_toString (n : ℤ) : DecimalText (toString n).toList n where
  numeral := readInt?_eq_some_iff.1 (readInt?_toString n)
  shortest {v} hv := by
    have hlen : ∀ {ds : List Char}, Digits ds → ds ≠ [] →
        (Nat.toDigits 10 (placeValue ds)).length ≤ ds.length := fun hds hne =>
      (Nat.length_toDigits_le_iff (by omega) (List.length_pos_iff.2 hne)).2 hds.placeValue_lt
    rw [toList_toString_int]
    cases hv with
    | plain hds hne => simpa using hlen hds hne
    | minus hds hne =>
      rename_i ds
      split_ifs with h0
      · have hzero : placeValue ds = 0 := by omega
        simp [hzero]
      · simpa using hlen hds hne

end Idl.Decimal
