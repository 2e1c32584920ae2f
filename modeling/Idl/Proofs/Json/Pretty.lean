import Mathlib
import Idl.Proofs.Json.Spelling
import Idl.Proofs.Text.Escapes

/-!
# Texts of documents are spelled

* `number_toString`, `number_write`: integers and finite doubles are written as numbers. A double has
  a point or a power of ten, so that it is no integer.
* `Writable`: documents whose doubles are finite.
* **`Writable.spells`**: the text of such a document spells it, whatever levels it stands under.
-/

namespace Idl.Json

open Decimal (Digits)

variable {n u : ℕ} {c : Char} {cs ds w : List Char} {x : ℤ} {j : Json}

/-! ## Numbers -/

theorem whole_of_head? (hne : ds ≠ []) (h0 : ds.head? ≠ some '0') (hds : Digits ds) :
    Whole ds := by
  obtain ⟨c, ds, rfl⟩ := List.exists_cons_of_ne_nil hne
  exact .digits (fun hc => h0 (by rw [hc]; rfl)) hds

theorem whole_toDigits (n : ℕ) : Whole (Nat.toDigits 10 n) := by
  rcases Nat.eq_zero_or_pos n with rfl | hn
  · exact .zero
  · exact whole_of_head? Nat.toDigits_ne_nil (Decimal.head?_toDigits hn) (Decimal.digits_toDigits n)

theorem Whole.magnitude (h : Whole ds) : Magnitude ds := by
  have hmk := Magnitude.mk h .none .none
  rwa [List.append_nil, List.append_nil] at hmk

theorem number_toString (i : ℤ) : Number (toString i).toList := by
  rw [Decimal.toList_toString_int]
  split_ifs
  · exact .plain (whole_toDigits _).magnitude
  · exact .minus (whole_toDigits _).magnitude

/-- Digits around a point make a number, and the point is there. -/
theorem magnitude_plainText (hne : ds ≠ []) (h0 : ds.head? ≠ some '0') (hds : Digits ds) (x : ℤ) :
    Magnitude (Decimal.plainText true ds x).toList ∧
      '.' ∈ (Decimal.plainText true ds x).toList := by
  unfold Decimal.plainText
  simp only
  split_ifs with hx hlen
  · have hplaces := (Decimal.digits_zeros (-x - 1).toNat).append hds
    have h := Magnitude.mk .zero (.digits (by simp [hne]) hplaces) .none
    refine ⟨?_, by simp⟩
    simpa using h
  · have hwhole := hds.append (Decimal.digits_zeros (x.toNat + 1 - ds.length))
    have hhead : (ds ++ List.replicate (x.toNat + 1 - ds.length) '0').head? ≠ some '0' := by
      rwa [List.head?_append_of_ne_nil _ hne]
    have h := Magnitude.mk (whole_of_head? (by simp [hne]) hhead hwhole)
      (.digits (by simp) (Decimal.digits_zeros 1)) .none
    refine ⟨?_, by simp⟩
    simpa using h
  · have hhead : (ds.take (x.toNat + 1)).head? ≠ some '0' := by
      rwa [List.head?_take, if_neg (Nat.succ_ne_zero _)]
    have h := Magnitude.mk (whole_of_head? (by simp [hne]) hhead (hds.take (x.toNat + 1)))
      (.digits (by simpa using hlen) (hds.drop (x.toNat + 1))) .none
    refine ⟨?_, by simp⟩
    simpa using h

theorem power_toString {sign : List Char} (hsign : sign = [] ∨ sign = ['+'] ∧ 0 ≤ x) :
    Power ('e' :: (sign ++ (toString x).toList)) := by
  have hpower : ∀ {sign : List Char} (n : ℕ), sign = [] ∨ sign = ['+'] ∨ sign = ['-'] →
      Power ('e' :: (sign ++ Nat.toDigits 10 n)) := fun n hsign =>
    .digits (.inl rfl) hsign Nat.toDigits_ne_nil (Decimal.digits_toDigits n)
  rw [Decimal.toList_toString_int]
  rcases hsign with rfl | ⟨rfl, hx⟩
  · split_ifs
    · exact hpower _ (.inl rfl)
    · exact hpower _ (.inr (.inr rfl))
  · rw [if_pos hx]
    exact hpower _ (.inr (.inl rfl))

theorem magnitude_powerText (plus : Bool) (hne : ds ≠ []) (h0 : ds.head? ≠ some '0')
    (hds : Digits ds) (x : ℤ) :
    Magnitude (Decimal.powerText plus ds x).toList ∧
      'e' ∈ (Decimal.powerText plus ds x).toList := by
  have hhead : (ds.take 1).head? ≠ some '0' := by rwa [List.head?_take, if_neg Nat.one_ne_zero]
  have hwhole := whole_of_head? (by simp [hne]) hhead (hds.take 1)
  obtain ⟨sign, hs, hsign⟩ := Decimal.plus_cases plus x
  have hpower := power_toString hsign
  refine ⟨?_, by simp [Decimal.powerText]⟩
  by_cases hlen : ds.length ≤ 1
  · have h := Magnitude.mk hwhole .none hpower
    simpa [Decimal.powerText, hlen, hs] using h
  · have hdrop : ds.drop 1 ≠ [] := by rwa [ne_eq, List.drop_eq_nil_iff]
    have h := Magnitude.mk hwhole (.digits hdrop (hds.drop 1)) hpower
    simpa [Decimal.powerText, hlen, hs] using h

/-- What is no digit keeps a text from being an integer. -/
theorem readInt?_eq_none (hc : c ∈ cs) (hminus : c ≠ '-') (hdigit : c.isDigit = false) :
    readInt? (String.ofList cs) = none := by
  have hall : ∀ {ds : List Char}, c ∈ ds → ds.all Char.isDigit = false := fun hds =>
    List.all_eq_false.2 ⟨c, hds, by simp [hdigit]⟩
  unfold readInt?
  rw [String.toList_ofList]
  split
  rename_i negative ds heq
  split at heq
  · obtain ⟨rfl, rfl⟩ := Prod.mk.inj heq
    simp [hall (List.mem_of_ne_of_mem hminus hc)]
  · obtain ⟨rfl, rfl⟩ := Prod.mk.inj heq
    simp [hall hc]

/-- A magnitude in a document is written as a number that is no integer. -/
theorem magnitude_writeUnits (hu : Binary64.Fits u) :
    Magnitude (numbers.writeUnits u).toList ∧
      ('.' ∈ (numbers.writeUnits u).toList ∨ 'e' ∈ (numbers.writeUnits u).toList) := by
  rcases Nat.eq_zero_or_pos u with rfl | h0
  · have h := Magnitude.mk .zero (.digits (by simp) (Decimal.digits_zeros 1)) .none
    exact ⟨h, .inl (by decide)⟩
  obtain ⟨ds, x, hne, hhead, hds, -, htext⟩ := Decimal.writeUnits_cases numbers hu h0
  rw [htext]
  split_ifs
  · obtain ⟨h, hpoint⟩ := magnitude_plainText hne hhead hds x
    exact ⟨h, .inl hpoint⟩
  · obtain ⟨h, hmark⟩ := magnitude_powerText numbers.plus hne hhead hds x
    exact ⟨h, .inr hmark⟩

/-- A finite double is written as a number that is no integer. -/
theorem number_write (negative : Bool) (hu : Binary64.Fits u) :
    Number (numbers.write (.finite negative u hu)).toList ∧
      readInt? (numbers.write (.finite negative u hu)) = none := by
  obtain ⟨hmagnitude, hmark⟩ := magnitude_writeUnits hu
  have htext : (numbers.write (.finite negative u hu)).toList =
      if negative then '-' :: (numbers.writeUnits u).toList else (numbers.writeUnits u).toList := by
    cases negative <;> simp [Decimal.Layout.write]
  have hmem : ∀ c ∈ (numbers.writeUnits u).toList,
      c ∈ (numbers.write (.finite negative u hu)).toList := by
    intro c hc
    rw [htext]
    split_ifs
    · exact List.mem_cons_of_mem _ hc
    · exact hc
  refine ⟨?_, ?_⟩
  · rw [htext]
    split_ifs
    · exact .minus hmagnitude
    · exact .plain hmagnitude
  · rw [← String.ofList_toList (s := numbers.write (.finite negative u hu))]
    rcases hmark with hmark | hmark
    · exact readInt?_eq_none (hmem _ hmark) (by decide) (by decide)
    · exact readInt?_eq_none (hmem _ hmark) (by decide) (by decide)

/-! ## Documents -/

/-- Documents whose doubles are finite. -/
inductive Writable : Json → Prop
  | null : Writable null
  | bool (b : Bool) : Writable (bool b)
  | int (i : ℤ) : Writable (int i)
  | float (negative : Bool) {u : ℕ} (hu : Binary64.Fits u) : Writable (float (.finite negative u hu))
  | string (s : String) : Writable (string s)
  | array {items : List Json} (h : ∀ x ∈ items, Writable x) : Writable (array items)
  | object {fields : List (String × Json)} (h : ∀ f ∈ fields, Writable f.2) :
      Writable (object fields)

theorem blank_nil : Blank [] := List.forall_mem_nil _

theorem blank_margin (depth : ℕ) : Blank (margin depth).toList := by
  intro c hc
  rw [margin, String.toList_ofList] at hc
  rw [List.eq_of_mem_replicate hc]
  rfl

theorem Blank.cons (hw : Blank w) : Blank ('\n' :: w) := List.forall_mem_cons.2 ⟨rfl, hw⟩

/-- A line of an array. -/
def itemLine (depth : ℕ) (x : Json) : Part Json :=
  ⟨'\n' :: ((margin depth).toList ++ (prettyAt depth x).toList), x⟩

/-- A line of an object: the key and the document under it. -/
def fieldLine (depth : ℕ) (f : String × Json) : Part String × Part Json :=
  (⟨'\n' :: ((margin depth).toList ++ (Text.quote f.1).toList), f.1⟩,
    ⟨' ' :: (prettyAt depth f.2).toList, f.2⟩)

theorem commas_itemLine (depth : ℕ) (x : Json) (xs : List Json) :
    commas (((x :: xs).map (itemLine depth)).map Part.text) =
      '\n' :: (itemsAt depth (x :: xs)).toList := by
  induction xs generalizing x with
  | nil => simp [commas_singleton, itemsAt, itemLine]
  | cons y ys ih =>
    rw [List.map_cons, List.map_cons, commas_cons (by simp), ih y]
    simp [itemsAt, itemLine]

theorem commas_fieldLine (depth : ℕ) (f : String × Json) (fs : List (String × Json)) :
    commas (((f :: fs).map (fieldLine depth)).map fieldText) =
      '\n' :: (fieldsAt depth (f :: fs)).toList := by
  induction fs generalizing f with
  | nil => simp [commas_singleton, fieldsAt, fieldLine, fieldText]
  | cons g gs ih =>
    rw [List.map_cons, List.map_cons, commas_cons (by simp), ih g]
    simp [fieldsAt, fieldLine, fieldText]

theorem Spells.blank_append (hw : Blank w) (h : Spells cs j) : Spells (w ++ cs) j := by
  have hblank := Spells.blank hw h blank_nil
  rwa [List.append_nil] at hblank

theorem spells_quote (s : String) : Spells (Text.quote s).toList (string s) := by
  have hquote := Text.unquote?_quote s
  rw [Text.unquote?, Option.map_eq_some_iff] at hquote
  obtain ⟨cs, hcs, rfl⟩ := hquote
  exact .string hcs

/-- **The text of a document spells it.** -/
theorem Writable.spells (h : Writable j) (depth : ℕ) : Spells (prettyAt depth j).toList j := by
  induction h generalizing depth with
  | null => exact .null
  | bool b => exact .bool b
  | int i => exact .int (number_toString i) (by rw [String.ofList_toList]; exact readInt?_toString i)
  | float negative hu =>
    obtain ⟨hnumber, hint⟩ := number_write negative hu
    refine .float hnumber ?_ ?_
    · rw [String.ofList_toList]
      exact hint
    · rw [String.ofList_toList]
      exact Decimal.ofText?_write numbers negative hu
  | string s => exact spells_quote s
  | @array items h ih =>
    cases items with
    | nil =>
      have hspells := Spells.array (List.forall_mem_nil _) blank_nil
      simpa [prettyAt, commas] using hspells
    | cons x xs =>
      have hitems : ∀ y ∈ (x :: xs).map (itemLine (depth + 1)), Spells y.text y.value := by
        intro y hy
        obtain ⟨z, hz, rfl⟩ := List.mem_map.1 hy
        exact (ih z hz (depth + 1)).blank_append (blank_margin _).cons
      have hspells := Spells.array hitems (blank_margin depth).cons
      rw [commas_itemLine, List.map_map, show Part.value ∘ itemLine (depth + 1) = id from rfl,
        List.map_id] at hspells
      simpa [prettyAt] using hspells
  | @object fields h ih =>
    cases fields with
    | nil =>
      have hspells := Spells.object (List.forall_mem_nil _) (List.forall_mem_nil _) blank_nil
      simpa [prettyAt, commas] using hspells
    | cons f fs =>
      have hkeys : ∀ g ∈ (f :: fs).map (fieldLine (depth + 1)),
          Spells g.1.text (Json.string g.1.value) := by
        intro g hg
        obtain ⟨k, -, rfl⟩ := List.mem_map.1 hg
        exact (spells_quote k.1).blank_append (blank_margin _).cons
      have hvalues : ∀ g ∈ (f :: fs).map (fieldLine (depth + 1)), Spells g.2.text g.2.value := by
        intro g hg
        obtain ⟨k, hk, rfl⟩ := List.mem_map.1 hg
        exact (ih k hk (depth + 1)).blank_append (w := [' ']) (by simp [Blank, isBlank])
      have hspells := Spells.object hkeys hvalues (blank_margin depth).cons
      rw [commas_fieldLine, List.map_map] at hspells
      have hid : (fun f => (f.1.value, f.2.value)) ∘ fieldLine (depth + 1) = id := rfl
      rw [hid, List.map_id] at hspells
      simpa [prettyAt] using hspells

end Idl.Json
