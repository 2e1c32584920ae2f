import Mathlib
import Idl.Proofs.Schema.Unplaced
import Idl.Proofs.Schema.Validity
import Idl.Proofs.Target.Scalars
import Idl.Proofs.Text.Escapes

/-!
# Values of enums in source text

The members of an enum are looked up by their values. Different values have different texts, but for one
case: a floating point enum may hold an integer and, as another literal, the number that it is. Different
texts may still be worth one number.

* `Target.text_injective`: string literals stay different in every target.
* `Literal.Coincides`: the values that are written alike.
* `Dialect.literal_eq_iff`: two values that a type holds are written alike if they are the same or
  coincide.
* `Choice.indexOf?`: the look-up by value.
* **`literal_eq_iff_coincides`**: which members of a compiled enum are written alike, and which are
  found under their own values.
-/

namespace Idl

open Decimal Binary64 Grammar

/-- **String literals stay different.** -/
theorem Target.text_injective (t : Target) : Function.Injective t.dialect.text := by
  cases t with
  | rust =>
    intro s s' h
    exact Text.escapeAscii_injective ((String.append_right_inj _).1 ((String.append_left_inj _).1 h))
  | go => exact Text.quote_injective
  | csharp => exact Text.quote_injective
  | dart => exact Dart.stringText_injective
  | typescript => exact Text.quote_injective

/-! ## Signs -/

theorem signed_eq_iff {a b : Bool} {s t : String} (hs : s.toList.takeWhile Char.isDigit ≠ [])
    (ht : t.toList.takeWhile Char.isDigit ≠ []) :
    (if a then "-" else "") ++ s = (if b then "-" else "") ++ t ↔ a = b ∧ s = t := by
  constructor
  · intro h
    have hsign : ∀ {s t : String}, t.toList.takeWhile Char.isDigit ≠ [] → "-" ++ s ≠ t := by
      rintro s t ht rfl
      exact ht (by simp)
    cases a <;> cases b <;>
      simp only [Bool.false_eq_true, if_true, if_false, String.empty_append] at h
    · exact ⟨rfl, h⟩
    · exact absurd h.symm (hsign hs)
    · exact absurd h (hsign ht)
    · exact ⟨rfl, (String.append_right_inj _).1 h⟩
  · rintro ⟨rfl, rfl⟩; rfl

theorem toString_int (i : ℤ) :
    toString i = (if decide (i < 0) then "-" else "") ++ toString i.natAbs := by
  rw [Int.toString_eq_repr, Int.repr_eq_if, Nat.toString_eq_repr]
  by_cases h : 0 ≤ i
  · rw [if_pos h, if_neg (by simpa using h), String.empty_append]
    congr 1
    omega
  · rw [if_neg h, if_pos (by simpa using h)]
    congr 2
    omega

/-! ## Numbers -/

/-- The number is the integer `i`. A negative zero is none. -/
def Binary64.IsInt (i : ℤ) : Binary64 → Prop
  | .finite negative units _ => negative = decide (i < 0) ∧ units = i.natAbs * one
  | _ => False

instance (i : ℤ) : (x : Binary64) → Decidable (x.IsInt i)
  | .finite .. => inferInstanceAs (Decidable (_ ∧ _))
  | .nan => .isFalse id
  | .infinite _ => .isFalse id

/-- A double is written as an integer with a point and a zero if it is that integer. -/
theorem write_source_eq_iff (i : ℤ) (negative : Bool) {u : ℕ} (hu : Fits u) :
    Layout.source.write (.finite negative u hu) = toString i ++ ".0" ↔
      i.natAbs < 10 ^ 16 ∧ (Binary64.finite negative u hu).IsInt i := by
  have hnat : (toString i.natAbs ++ ".0").toList.takeWhile Char.isDigit ≠ [] := by
    rw [← List.length_pos_iff, length_whole_nat]
    exact digitCount_pos _
  rw [toString_int, String.append_assoc, Layout.write,
    signed_eq_iff (whole_writeUnits_ne_nil Layout.source hu) hnat, writeUnits_source_eq_iff hu]
  simp only [Binary64.IsInt]
  tauto

/-- Finite doubles stay different. -/
theorem write_source_inj {x y : Binary64} {b : ℕ} (hx : x.within b = true) (hy : y.within b = true)
    (h : Layout.source.write x = Layout.source.write y) : x = y := by
  cases x with
  | nan => cases hx
  | infinite => cases hx
  | finite negative u hu =>
    cases y with
    | nan => cases hy
    | infinite => cases hy
    | finite negative' u' hu' =>
      have hread := ofText?_write Layout.source negative hu
      rw [h, ofText?_write] at hread
      exact (Option.some.inj hread).symm

theorem sameNumber_self {x : Binary64} {b : ℕ} (hx : x.within b = true) :
    x.sameNumber x = true := by
  cases x with
  | nan => cases hx
  | infinite => cases hx
  | finite negative u hu => simp [sameNumber]

/-! ## Literals -/

/-- The literals are an integer and a floating point number that is this integer, below `10 ^ 16`. -/
def Literal.Coincides : Literal → Literal → Prop
  | .int i, .float x => i.toInt.natAbs < 10 ^ 16 ∧ x.IsInt i.toInt
  | .float x, .int i => i.toInt.natAbs < 10 ^ 16 ∧ x.IsInt i.toInt
  | _, _ => False

instance : (v w : Literal) → Decidable (v.Coincides w)
  | .int _, .float _ => inferInstanceAs (Decidable (_ ∧ _))
  | .float _, .int _ => inferInstanceAs (Decidable (_ ∧ _))
  | .int _, .int _ | .int _, .string _ | .int _, .bool _ | .float _, .float _
  | .float _, .string _ | .float _, .bool _ | .string _, _ | .bool _, _ => .isFalse id

/-- An integer is written with a point in a floating point type only. -/
theorem int_literal_inj (d : Dialect) (p : Primitive) {i j : Int64}
    (h : d.literal p (.int i) = d.literal p (.int j)) : i = j := by
  simp only [Dialect.literal] at h
  split_ifs at h
  · rw [String.append_left_inj, String.append_left_inj] at h
    exact Int64.toInt_inj.1 (Int.repr_injective h)
  · exact Int64.toInt_inj.1 (Int.repr_injective h)

theorem mixed_literal_eq_iff (d : Dialect) {p : Primitive} {i : Int64} {x : Binary64}
    (hx : p.fit (.float x) = .ok ()) :
    d.literal p (.int i) = d.literal p (.float x) ↔ (Literal.int i).Coincides (.float x) := by
  obtain ⟨hp, hwithin⟩ := within_of_fit hx
  cases x with
  | nan => cases hwithin
  | infinite => cases hwithin
  | finite negative u hu =>
    simp only [Dialect.literal, if_pos hp, Literal.Coincides]
    rw [String.append_left_inj, eq_comm, write_source_eq_iff]

/-- **Written alike.** Two values that a type holds are written alike if they are the same value of
one kind or coincide. -/
theorem Dialect.literal_eq_iff (d : Dialect) (hd : Function.Injective d.text) {p : Primitive}
    {v w : Literal} (hv : p.fit v = .ok ()) (hw : p.fit w = .ok ()) (hne : v.same w = false) :
    d.literal p v = d.literal p w ↔ v.Coincides w := by
  obtain ⟨hvs, hvb⟩ := fit_kind hv
  obtain ⟨hws, hwb⟩ := fit_kind hw
  -- literals of one kind that are written alike are the same
  have halike : (d.literal p v = d.literal p w → v.same w = true) →
      (¬ v.Coincides w) → (d.literal p v = d.literal p w ↔ v.Coincides w) := fun h hno =>
    ⟨fun heq => absurd (h heq) (by simp [hne]), fun h => absurd h hno⟩
  cases v with
  | int i =>
    cases w with
    | int j => exact halike (fun h => by simp [Literal.same, int_literal_inj d p h]) id
    | float y => exact mixed_literal_eq_iff d hw
    | string t => exact absurd (hvs.1 (hws.2 rfl)) (by simp [Literal.kind])
    | bool b => exact absurd (hvb.1 (hwb.2 rfl)) (by simp [Literal.kind])
  | float x =>
    cases w with
    | int j => rw [eq_comm]; exact mixed_literal_eq_iff d hv
    | float y =>
      refine halike (fun h => ?_) id
      have hxy := write_source_inj (within_of_fit hv).2 (within_of_fit hw).2
        ((String.append_left_inj _).1 h)
      exact hxy ▸ sameNumber_self (within_of_fit hv).2
    | string t => exact absurd (hvs.1 (hws.2 rfl)) (by simp [Literal.kind])
    | bool b => exact absurd (hvb.1 (hwb.2 rfl)) (by simp [Literal.kind])
  | string s =>
    have hkind := hws.1 (hvs.2 rfl)
    cases w with
    | string t => exact halike (fun h => by simp [Literal.same, hd h]) id
    | int j => cases hkind
    | float y => cases hkind
    | bool b => cases hkind
  | bool a =>
    have hkind := hwb.1 (hvb.2 rfl)
    cases w with
    | bool b => exact halike (fun h => by simp [Literal.same, boolText_inj h]) id
    | int j => cases hkind
    | float y => cases hkind
    | string t => cases hkind

/-! ## Members -/

/-- The first member with a value. -/
def Choice.indexOf? (t : Target) (c : Choice) (x : Scalar) : Option ℕ :=
  c.variants.findIdx? fun v => t.scalar? c.source.type v.literal = some x

/-- A member is found at an index under what is written for its value. -/
def Target.Finds (t : Target) (e : EnumDecl) (m : Member) (i : ℕ) : Prop :=
  ∃ x, t.scalar? e.type (t.dialect.literal e.type m.value) = some x ∧
    (t.dialect.choice e).indexOf? t x = some i

theorem EnumDecl.Distinct.same_eq_false {e : EnumDecl} (h : e.Distinct) {i j : ℕ}
    (hi : i < e.members.length) (hj : j < e.members.length) (hij : i ≠ j) :
    e.members[i].value.same e.members[j].value = false := by
  have hpair := List.pairwise_iff_getElem.1 h.2
  rcases Nat.lt_or_gt_of_ne hij with hlt | hgt
  · exact hpair i j hi hj hlt
  · rw [Literal.same_comm]
    exact hpair j i hj hi hgt

theorem EnumDecl.Distinct.literal_eq_iff {e : EnumDecl} (h : e.Distinct) (t : Target) {i j : ℕ}
    (hi : i < e.members.length) (hj : j < e.members.length) (hij : i ≠ j) :
    t.dialect.literal e.type e.members[i].value = t.dialect.literal e.type e.members[j].value ↔
      e.members[i].value.Coincides e.members[j].value :=
  t.dialect.literal_eq_iff t.text_injective (h.1 _ (List.getElem_mem hi))
    (h.1 _ (List.getElem_mem hj)) (h.same_eq_false hi hj hij)

/-- A member is found under its own value if no member before it is worth the same number. -/
theorem EnumDecl.Distinct.finds_iff {e : EnumDecl} (h : e.Distinct) (t : Target) {i : ℕ}
    (hi : i < e.members.length) :
    t.Finds e e.members[i] i ↔ t.Legible e.members[i].value ∧
      ∀ j (hj : j < i), ¬ t.Alike e.type e.members[j].value e.members[i].value := by
  have hfit : ∀ j (hj : j < e.members.length), e.type.fit e.members[j].value = .ok () :=
    fun j hj => h.1 _ (List.getElem_mem hj)
  have hindex : ∀ x, (t.dialect.choice e).indexOf? t x = some i ↔
      t.scalar? e.type (t.dialect.literal e.type e.members[i].value) = some x ∧
        ∀ j (hj : j < i), t.scalar? e.type (t.dialect.literal e.type e.members[j].value) ≠ some x := by
    intro x
    have hopen : (t.dialect.choice e).indexOf? t x = (t.dialect.choice e).variants.findIdx? fun v =>
        decide (t.scalar? e.type v.literal = some x) := rfl
    rw [hopen]
    simp [Dialect.choice, List.findIdx?_eq_some_iff_getElem, hi]
  rw [Target.Finds]
  simp only [hindex, Target.scalar?_literal (hfit i hi)]
  constructor
  · rintro ⟨x, hx, -, hbefore⟩
    split_ifs at hx with hlegible
    obtain rfl := Option.some.inj hx
    refine ⟨hlegible, fun j hj halike => hbefore j hj ?_⟩
    rw [Target.scalar?_literal (hfit j _), if_pos (halike.legible (hfit j _)), Option.some.injEq,
      Target.value_eq_iff (hfit j _) (hfit i hi) (h.same_eq_false _ hi hj.ne)]
    exact halike
  · rintro ⟨hlegible, hbefore⟩
    refine ⟨_, if_pos hlegible, if_pos hlegible, fun j hj hx => hbefore j hj ?_⟩
    rw [Target.scalar?_literal (hfit j _)] at hx
    split_ifs at hx
    exact (Target.value_eq_iff (hfit j _) (hfit i hi) (h.same_eq_false _ hi hj.ne)).1
      (Option.some.inj hx)

end Idl
