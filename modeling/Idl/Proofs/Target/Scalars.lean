import Mathlib
import Idl.Proofs.Decimal.Precision
import Idl.Proofs.Target.Literals

/-!
# What literals are worth

Targets have different types for one type of a schema. A literal is worth a value of the type that the
target has, and numbers are rounded to the precision of that type.

* `Scalar`: a value.
* `Target.precision?`: the types whose values are floating point numbers. One target has no others.
* `Target.scalar?`: what a literal in source text is worth.
* `Target.value`: what the literal of a schema is worth. **`Target.scalar?_literal`**: what is written for
  it is worth that.
* `Target.Alike`: literals that are worth one number.
* **`Target.value_eq_iff`**: different values of one type are told apart unless they are alike.
-/

namespace Idl

open Precision

/-- A value of a primitive type. -/
inductive Scalar where
  | integer (i : ℤ)
  | number (x : Precision.Number)
  | text (s : String)
  | truth (b : Bool)
  deriving DecidableEq

/-! ## Types -/

/-- The precision in which a target computes with a type. Dart has one floating point type, and
TypeScript has one type of numbers. -/
def Target.precision? : Target → Primitive → Option Precision
  | _, .float64 => some .double
  | dart, .float32 => some .double
  | typescript, .float32 => some .double
  | _, .float32 => some .single
  | typescript, p => if p.isInteger then some .double else none
  | _, _ => none

/-- What stands after the digits of a literal. -/
def Target.ending : Target → Primitive → String
  | csharp, .float32 => "f"
  | _, _ => ""

/-- What a literal of a type is worth in source text. -/
def Target.scalar? (t : Target) (p : Primitive) (text : String) : Option Scalar :=
  match p with
  | .string => (t.strings.read? text.toList).bind fun r => if r.2 = [] then some (.text r.1) else none
  | .bool =>
    if text = "true" then some (.truth true) else if text = "false" then some (.truth false) else none
  | p =>
    match t.precision? p with
    | some P => (((t.ending p).toList.isSuffixOf? text.toList).bind P.read?).map .number
    | none => (readInt? text).map .integer

/-! ## Values of a type -/

section Fit

variable {p : Primitive}

theorem boolText_inj {a b : Bool} (h : Literal.boolText a = Literal.boolText b) : a = b := by
  revert h
  cases a <;> cases b <;> decide

theorem within_of_fit {x : Binary64} (h : p.fit (.float x) = .ok ()) :
    p.isFloat = true ∧ x.within p.floatMax = true := by
  simp only [Primitive.fit, Primitive.fitFloat] at h
  split_ifs at h with hp hx
  exact ⟨hp, hx⟩

/-- Values of one type are of one kind, or numbers. -/
theorem fit_kind {v : Literal} (h : p.fit v = .ok ()) :
    (p = .string ↔ v.kind = .string) ∧ (p = .bool ↔ v.kind = .bool) := by
  cases v with
  | int i =>
    have hs : p ≠ .string := by rintro rfl; cases h
    have hb : p ≠ .bool := by rintro rfl; cases h
    simp [hs, hb, Literal.kind]
  | float x =>
    have hs : p ≠ .string := by rintro rfl; cases h
    have hb : p ≠ .bool := by rintro rfl; cases h
    simp [hs, hb, Literal.kind]
  | string s =>
    simp only [Primitive.fit] at h
    split_ifs at h with hp
    simp [hp, Literal.kind]
  | bool b =>
    simp only [Primitive.fit] at h
    split_ifs at h with hp
    simp [hp, Literal.kind]

end Fit

theorem Target.exists_precision {t : Target} {p : Primitive} (hp : p.isFloat = true) :
    ∃ P, t.precision? p = some P := by
  cases p with
  | float32 => cases t <;> exact ⟨_, rfl⟩
  | float64 => exact ⟨_, rfl⟩
  | _ => cases hp

theorem Target.ending_eq_suffix (t : Target) (p : Primitive) : t.ending p = t.dialect.suffix p := by
  cases t <;> cases p <;> rfl

theorem Target.suffix_of_isFloat_eq_false (t : Target) {p : Primitive} (hp : p.isFloat = false) :
    t.dialect.suffix p = "" := by
  cases p with
  | float32 => cases hp
  | _ => cases t <;> rfl

/-! ## Literals of a schema -/

/-- The number that is written for a literal. -/
def Literal.exact : Literal → ℚ
  | .int i => i.toInt
  | .float (.finite negative units _) => (Decimal.Layout.source.decimal negative units).toRat
  | _ => 0

/-- What the literal of a schema is worth. -/
def Target.value (t : Target) (p : Primitive) (v : Literal) : Scalar :=
  match v, t.precision? p with
  | .string s, _ => .text s
  | .bool b, _ => .truth b
  | v, some P => .number (P.round v.exact)
  | .int i, none => .integer i.toInt
  | _, none => .integer 0

/-- A literal that can be read where it stands. Line separators end a literal in C#. -/
def Target.Legible (t : Target) : Literal → Prop
  | .string s => t = csharp → ∀ c ∈ s.toList, c ∉ CSharp.separators
  | _ => True

instance (t : Target) : (v : Literal) → Decidable (t.Legible v)
  | .string _ => inferInstanceAs (Decidable (_ → _))
  | .int _ | .float _ | .bool _ => .isTrue trivial

/-- The literals of one number, in the precision of the target. -/
def Target.Alike (t : Target) (p : Primitive) (v w : Literal) : Prop :=
  ∃ P, t.precision? p = some P ∧ P.round v.exact = P.round w.exact

instance (t : Target) (p : Primitive) (v w : Literal) : Decidable (t.Alike p v w) :=
  decidable_of_iff (∃ P ∈ t.precision? p, P.round v.exact = P.round w.exact) Iff.rfl

section Worth

variable {t : Target} {p : Primitive} {v w : Literal}

theorem Target.scalar?_number (hstring : p ≠ .string) (hbool : p ≠ .bool) (text : String) :
    t.scalar? p text = match t.precision? p with
      | some P => (((t.ending p).toList.isSuffixOf? text.toList).bind P.read?).map .number
      | none => (readInt? text).map .integer := by
  cases p with
  | string => exact absurd rfl hstring
  | bool => exact absurd rfl hbool
  | _ => rfl

theorem Target.scalar?_string (s : String) :
    t.scalar? .string (t.dialect.text s) = if t.Legible (.string s) then some (.text s) else none := by
  rw [scalar?]
  split_ifs with hlegible
  · have hread := read?_text hlegible []
    rw [List.append_nil] at hread
    rw [hread]
    rfl
  · obtain ⟨rfl, hs⟩ : t = .csharp ∧ ∃ c ∈ s.toList, c ∈ CSharp.separators := by
      simpa [Legible] using hlegible
    have hread := CSharp.read?_text_of_separator hs []
    rw [List.append_nil] at hread
    show (CSharp.strings.read? (CSharp.dialect.text s).toList).bind _ = none
    rw [hread]
    rfl

/-- A number with the mark of its type is read without it. -/
theorem Target.isSuffixOf?_ending (x : String) :
    (t.ending p).toList.isSuffixOf? (x ++ t.dialect.suffix p).toList = some x.toList := by
  rw [ending_eq_suffix, List.isSuffixOf?_eq_some_iff_append_eq, String.toList_append]

theorem Target.scalar?_int {i : Int64} (hstring : p ≠ .string) (hbool : p ≠ .bool) :
    t.scalar? p (t.dialect.literal p (.int i)) = some (t.value p (.int i)) := by
  rw [scalar?_number hstring hbool, Dialect.literal]
  by_cases hp : p.isFloat = true
  · obtain ⟨P, hP⟩ := exists_precision (t := t) hp
    simp only [if_pos hp, hP, isSuffixOf?_ending, Option.bind_some, P.read?_int_point, value,
      Option.map_some, Literal.exact]
  · have hending : (t.ending p).toList.isSuffixOf? (toString i.toInt).toList =
        some (toString i.toInt).toList := by
      rw [ending_eq_suffix, t.suffix_of_isFloat_eq_false (by simpa using hp),
        List.isSuffixOf?_eq_some_iff_append_eq]
      simp
    rw [if_neg hp]
    cases hP : t.precision? p with
    | none => simp only [readInt?_toString, Option.map_some, value, hP]
    | some P =>
      simp only [hending, Option.bind_some, P.read?_int, value, hP, Option.map_some, Literal.exact]

theorem Target.scalar?_float {x : Binary64} (hx : p.fit (.float x) = .ok ()) :
    t.scalar? p (t.dialect.literal p (.float x)) = some (t.value p (.float x)) := by
  obtain ⟨hp, hwithin⟩ := within_of_fit hx
  obtain ⟨hstring, hbool⟩ := fit_kind hx
  obtain ⟨P, hP⟩ := exists_precision (t := t) hp
  cases x with
  | nan => cases hwithin
  | infinite => cases hwithin
  | finite negative u hu =>
    rw [scalar?_number (fun h => nomatch hstring.1 h) (fun h => nomatch hbool.1 h), Dialect.literal]
    simp only [hP, isSuffixOf?_ending, Option.bind_some, P.read?_write, Option.map_some, value,
      Literal.exact]

/-- **What is written for a literal is worth its value**, if it can be read. -/
theorem Target.scalar?_literal (hv : p.fit v = .ok ()) :
    t.scalar? p (t.dialect.literal p v) = if t.Legible v then some (t.value p v) else none := by
  obtain ⟨hstring, hbool⟩ := fit_kind hv
  cases v with
  | int i => exact scalar?_int (fun h => nomatch hstring.1 h) fun h => nomatch hbool.1 h
  | float x => exact scalar?_float hv
  | string s =>
    obtain rfl := hstring.2 rfl
    exact scalar?_string s
  | bool b =>
    obtain rfl := hbool.2 rfl
    cases b <;> rfl

/-! ## Values that are told apart -/

theorem Target.precision?_string (t : Target) : t.precision? .string = none := by
  cases t <;> rfl

theorem Target.precision?_bool (t : Target) : t.precision? .bool = none := by
  cases t <;> rfl

/-- Only numbers are alike. -/
theorem Target.Alike.legible (h : t.Alike p v w) (hv : p.fit v = .ok ()) : t.Legible v := by
  cases v with
  | string s =>
    obtain ⟨P, hP, -⟩ := h
    rw [(fit_kind hv).1.2 rfl, precision?_string] at hP
    cases hP
  | _ => trivial

theorem Target.value_of_precision {P : Precision} (hP : t.precision? p = some P)
    (hv : p.fit v = .ok ()) : t.value p v = .number (P.round v.exact) := by
  cases v with
  | int i => simp only [value, hP]
  | float x => simp only [value, hP]
  | string s =>
    rw [(fit_kind hv).1.2 rfl, precision?_string] at hP
    cases hP
  | bool b =>
    rw [(fit_kind hv).2.2 rfl, precision?_bool] at hP
    cases hP

/-- Without floating point numbers different literals are worth different values. -/
theorem Target.value_ne (hP : t.precision? p = none) (hv : p.fit v = .ok ()) (hw : p.fit w = .ok ())
    (hne : v.same w = false) : t.value p v ≠ t.value p w := by
  have hfloat : ∀ x, p.fit (.float x) ≠ .ok () := by
    intro x hx
    obtain ⟨P, hsome⟩ := exists_precision (t := t) (within_of_fit hx).1
    rw [hP] at hsome
    cases hsome
  cases v with
  | float x => exact absurd hv (hfloat x)
  | int i =>
    cases w with
    | int j =>
      have hij : i ≠ j := by simpa [Literal.same] using hne
      simp only [value, hP, ne_eq, Scalar.integer.injEq]
      exact fun h => hij (Int64.toInt_inj.1 h)
    | float y => exact absurd hw (hfloat y)
    | _ => simp [value, hP]
  | string s =>
    cases w with
    | string s' => simpa [value, Literal.same] using hne
    | float y => exact absurd hw (hfloat y)
    | _ => simp [value, hP]
  | bool b =>
    cases w with
    | bool b' => simpa [value, Literal.same] using hne
    | float y => exact absurd hw (hfloat y)
    | _ => simp [value, hP]

/-- **Different values are told apart** unless they are alike. -/
theorem Target.value_eq_iff (hv : p.fit v = .ok ()) (hw : p.fit w = .ok ())
    (hne : v.same w = false) : t.value p v = t.value p w ↔ t.Alike p v w := by
  cases hP : t.precision? p with
  | none => exact iff_of_false (value_ne hP hv hw hne) fun ⟨P, hsome, _⟩ => nomatch hP.symm.trans hsome
  | some P => simp [value_of_precision hP hv, value_of_precision hP hw, Alike, hP]

end Worth

end Idl
