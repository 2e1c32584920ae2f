import Mathlib
import Idl.Proofs.Json.Pretty
import Idl.Proofs.Schema.Rules
import Idl.Proofs.Target.EnumValues
import Idl.Schema.Dump

/-!
# Schemas from JSON

* `Schema.ofJson?`: the schema that a document describes. The fields of an object may stand in any
  order.
* `Schema.ofDump?`: the schema that a text describes.
* **`Schema.ofJson?_toJson`**: every schema is recovered from its document.
* `Schema.Valid.writable`: no value of a valid schema is left without a text.
* **`dump_faithful`**: every compiled schema is recovered from its text.
-/

namespace Idl

/-! ## Reading documents -/

namespace Json

/-- What stands under a key. -/
def get? (key : String) : Json → Option Json
  | object fields => fields.lookup key
  | _ => none

/-- The only key of an object, with what stands under it. -/
def tag? : Json → Option (String × Json)
  | object [f] => some f
  | _ => none

/-- A text. -/
def text? : Json → Option String
  | string s => some s
  | _ => none

/-- A number that counts. -/
def count? : Json → Option ℕ
  | int i => i.toNat?
  | _ => none

/-- The items of an array, each read by `f`. -/
def items? {α : Type} (f : Json → Option α) : Json → Option (List α)
  | array items => items.mapM f
  | _ => none

end Json

/-- The primitive type with a name. -/
def Primitive.ofJson? (j : Json) : Option Primitive := do
  let label ← j.text?
  all.find? fun p => p.label = label

/-- The value under the name of its kind. -/
def Literal.ofJson? (j : Json) : Option Literal :=
  match j.tag? with
  | some ("Int", .int i) => (int64? i).map .int
  | some ("Float", .float x) => some (.float x)
  | some ("String", .string s) => some (.string s)
  | some ("Bool", .bool b) => some (.bool b)
  | _ => none

/-- The type under the name of its form. -/
def FieldType.ofJson? : Json → Option FieldType
  | .object [("Primitive", j)] => (Primitive.ofJson? j).map .primitive
  | .object [("List", j)] => (ofJson? j).map .list
  | .object [("Map", j)] => do
    return .map (← Primitive.ofJson? (← j.get? "key")) (← Primitive.ofJson? (← j.get? "value"))
  | .object [("Identity", j)] => j.text?.map .named
  | _ => none

/-- The position in the fields of an object. -/
def Position.ofJson? (j : Json) : Option Position := do
  return ⟨← (← j.get? "line").count?, ← (← j.get? "column").count?⟩

/-- A member with its value. -/
def Member.ofJson? (j : Json) : Option Member := do
  return ⟨← (← j.get? "name").text?, ← Literal.ofJson? (← j.get? "value"), ← Position.ofJson? j⟩

/-- A field with its type. -/
def Field.ofJson? (j : Json) : Option Field := do
  return ⟨← FieldType.ofJson? (← j.get? "type_"), ← (← j.get? "name").text?, ← Position.ofJson? j⟩

/-- A name or nothing. -/
def nameOfJson? : Json → Option (Option String)
  | .null => some none
  | j => j.text?.map some

/-- The entry under the name of its form. -/
def Entry.ofJson? (j : Json) : Option Entry :=
  match j.tag? with
  | some ("Const", j) => do
    return .const ⟨← nameOfJson? (← j.get? "name"), ← Primitive.ofJson? (← j.get? "type_"),
      ← (← j.get? "fields").items? Member.ofJson?, ← Position.ofJson? j⟩
  | some ("Enum", j) => do
    return .enum ⟨← (← j.get? "name").text?, ← Primitive.ofJson? (← j.get? "type_"),
      ← (← j.get? "values").items? Member.ofJson?, ← Position.ofJson? j⟩
  | some ("Object", j) => do
    return .object ⟨← (← j.get? "name").text?, ← (← j.get? "fields").items? Field.ofJson?,
      ← Position.ofJson? j⟩
  | _ => none

namespace Schema

/-- The schema that a document describes. -/
def ofJson? (j : Json) : Option Schema := do
  return ⟨← (← j.get? "package").items? Json.text?, ← (← j.get? "entries").items? Entry.ofJson?⟩

/-- The schema that a text describes. -/
def ofDump? (text : String) : Option Schema := (Json.read? text).bind ofJson?

end Schema

/-! ## Schemas are recovered from their documents -/

theorem Json.items?_map {α : Type} {f : Json → Option α} {g : α → Json} (h : ∀ x, f (g x) = some x)
    (xs : List α) : (Json.array (xs.map g)).items? f = some xs := by
  show (xs.map g).mapM f = some xs
  induction xs with
  | nil => rfl
  | cons x xs ih => simp [h, ih]

theorem Primitive.ofJson?_toJson (p : Primitive) : ofJson? p.toJson = some p := by
  cases p <;> decide

theorem int64?_toInt (i : Int64) : Literal.int64? i.toInt = some i := by
  have hlow := i.le_toInt
  have hhigh := i.toInt_lt
  rw [Literal.int64?, if_pos ⟨hlow, hhigh⟩, Int64.ofInt_toInt]

theorem Literal.ofJson?_toJson (v : Literal) : ofJson? v.toJson = some v := by
  cases v with
  | int i => exact congrArg (Option.map Literal.int) (int64?_toInt i)
  | float | string | bool => rfl

theorem FieldType.ofJson?_toJson (t : FieldType) : ofJson? t.toJson = some t := by
  induction t with
  | primitive p => simp [toJson, tagged, ofJson?, Primitive.ofJson?_toJson]
  | list t ih => simp [toJson, tagged, ofJson?, ih]
  | map k v => simp [toJson, tagged, ofJson?, Json.get?, List.lookup, Primitive.ofJson?_toJson]
  | named n => simp [toJson, tagged, ofJson?, Json.text?]

/-- A position is found behind fields with other keys. -/
theorem Position.ofJson?_fields (fs : List (String × Json)) (p : Position)
    (hline : fs.lookup "line" = none) (hcolumn : fs.lookup "column" = none) :
    ofJson? (.object (fs ++ p.fields)) = some p := by
  have hget : ∀ key, fs.lookup key = none →
      (Json.object (fs ++ p.fields)).get? key = p.fields.lookup key := by
    intro key hkey
    rw [Json.get?, List.lookup_append, hkey, Option.none_or]
  rw [ofJson?, hget _ hline, hget _ hcolumn]
  rfl

theorem Member.ofJson?_toJson (m : Member) : ofJson? m.toJson = some m := by
  have hname : m.toJson.get? "name" = some (.string m.name) := rfl
  have hvalue : m.toJson.get? "value" = some m.value.toJson := rfl
  have hposition : Position.ofJson? m.toJson = some m.position :=
    Position.ofJson?_fields [("name", .string m.name), ("value", m.value.toJson)] _ rfl rfl
  simp [ofJson?, hname, hvalue, hposition, Json.text?, Literal.ofJson?_toJson]

theorem Field.ofJson?_toJson (f : Field) : ofJson? f.toJson = some f := by
  have htype : f.toJson.get? "type_" = some f.type.toJson := rfl
  have hname : f.toJson.get? "name" = some (.string f.name) := rfl
  have hposition : Position.ofJson? f.toJson = some f.position :=
    Position.ofJson?_fields [("type_", f.type.toJson), ("name", .string f.name)] _ rfl rfl
  simp [ofJson?, htype, hname, hposition, Json.text?, FieldType.ofJson?_toJson]

theorem nameOfJson?_elim (name : Option String) :
    nameOfJson? (name.elim .null .string) = some name := by
  cases name <;> rfl

theorem Entry.ofJson?_toJson (e : Entry) : ofJson? e.toJson = some e := by
  cases e with
  | const c =>
    have hposition := Position.ofJson?_fields [("name", c.name.elim .null .string),
      ("type_", c.type.toJson), ("fields", .array (c.members.map Member.toJson))] c.position rfl rfl
    have hmembers := Json.items?_map Member.ofJson?_toJson c.members
    simp only [ofJson?, toJson, tagged, Json.tag?, hposition]
    simp [Json.get?, List.lookup, nameOfJson?_elim, Primitive.ofJson?_toJson, hmembers]
  | enum e =>
    have hposition := Position.ofJson?_fields [("name", .string e.name), ("type_", e.type.toJson),
      ("values", .array (e.members.map Member.toJson))] e.position rfl rfl
    have hmembers := Json.items?_map Member.ofJson?_toJson e.members
    simp only [ofJson?, toJson, tagged, Json.tag?, hposition]
    simp [Json.get?, List.lookup, Json.text?, Primitive.ofJson?_toJson, hmembers]
  | object o =>
    have hposition := Position.ofJson?_fields [("name", .string o.name),
      ("fields", .array (o.fields.map Field.toJson))] o.position rfl rfl
    have hfields := Json.items?_map Field.ofJson?_toJson o.fields
    simp only [ofJson?, toJson, tagged, Json.tag?, hposition]
    simp [Json.get?, List.lookup, Json.text?, hfields]

/-- **A schema is recovered from its document.** -/
theorem Schema.ofJson?_toJson (s : Schema) : ofJson? s.toJson = some s := by
  have hpackage : (Json.array (s.package.map .string)).items? Json.text? = some s.package :=
    Json.items?_map (g := Json.string) (fun _ => rfl) s.package
  have hentries := Json.items?_map Entry.ofJson?_toJson s.entries
  simp [ofJson?, toJson, Json.get?, List.lookup, hpackage, hentries]

/-! ## Texts of valid schemas -/

theorem Primitive.writable_toJson (p : Primitive) : p.toJson.Writable := .string p.label

theorem writable_tagged {tag : String} {j : Json} (h : j.Writable) : (tagged tag j).Writable :=
  .object (List.forall_mem_singleton.2 h)

theorem Literal.writable_of_fit {p : Primitive} {v : Literal} (h : p.fit v = .ok ()) :
    v.toJson.Writable := by
  cases v with
  | int i => exact writable_tagged (.int i.toInt)
  | float x =>
    refine writable_tagged ?_
    have hwithin := (within_of_fit h).2
    cases x with
    | nan => cases hwithin
    | infinite => cases hwithin
    | finite negative u hu => exact .float negative hu
  | string s => exact writable_tagged (.string s)
  | bool b => exact writable_tagged (.bool b)

theorem FieldType.writable_toJson (t : FieldType) : t.toJson.Writable := by
  induction t with
  | primitive p => exact writable_tagged p.writable_toJson
  | list t ih => exact writable_tagged ih
  | map k v =>
    refine writable_tagged (.object (List.forall_mem_cons.2 ⟨k.writable_toJson, ?_⟩))
    exact List.forall_mem_singleton.2 v.writable_toJson
  | named n => exact writable_tagged (.string n)

theorem writable_fields {fs : List (String × Json)} (h : ∀ f ∈ fs, f.2.Writable) (p : Position) :
    (Json.object (fs ++ p.fields)).Writable := by
  refine .object fun f hf => ?_
  rcases List.mem_append.1 hf with hf | hf
  · exact h f hf
  · simp only [Position.fields, List.mem_cons, List.not_mem_nil, or_false] at hf
    rcases hf with rfl | rfl
    · exact .int p.line
    · exact .int p.column

theorem writable_map {α : Type} {f : α → Json} {xs : List α} (h : ∀ x ∈ xs, (f x).Writable) :
    (Json.array (xs.map f)).Writable := by
  refine .array fun j hj => ?_
  obtain ⟨x, hx, rfl⟩ := List.mem_map.1 hj
  exact h x hx

theorem Member.writable_of_fit {p : Primitive} {m : Member} (h : p.fit m.value = .ok ()) :
    m.toJson.Writable :=
  writable_fields (List.forall_mem_cons.2
    ⟨.string m.name, List.forall_mem_singleton.2 (Literal.writable_of_fit h)⟩) m.position

theorem Field.writable_toJson (f : Field) : f.toJson.Writable :=
  writable_fields (List.forall_mem_cons.2
    ⟨f.type.writable_toJson, List.forall_mem_singleton.2 (.string f.name)⟩) f.position

/-- A valid entry has a text. -/
theorem Entry.Valid.writable {e : Entry} (h : e.Valid) : e.toJson.Writable := by
  cases e with
  | const c =>
    refine writable_tagged (writable_fields ?_ c.position)
    rw [List.forall_mem_cons, List.forall_mem_cons, List.forall_mem_singleton]
    refine ⟨?_, c.type.writable_toJson, writable_map fun m hm => Member.writable_of_fit (h m hm)⟩
    cases c.name with
    | none => exact .null
    | some n => exact .string n
  | enum e =>
    refine writable_tagged (writable_fields ?_ e.position)
    rw [List.forall_mem_cons, List.forall_mem_cons, List.forall_mem_singleton]
    exact ⟨.string e.name, e.type.writable_toJson,
      writable_map fun m hm => Member.writable_of_fit (h.2.2.1 m hm)⟩
  | object o =>
    refine writable_tagged (writable_fields ?_ o.position)
    rw [List.forall_mem_cons, List.forall_mem_singleton]
    exact ⟨.string o.name, writable_map fun f _ => f.writable_toJson⟩

/-- A valid schema has a text. -/
theorem Schema.Valid.writable {s : Schema} (h : s.Valid) : s.toJson.Writable := by
  refine .object ?_
  rw [List.forall_mem_cons, List.forall_mem_singleton]
  exact ⟨writable_map fun n _ => .string n, writable_map fun e he => (h.entry e he).writable⟩

theorem Schema.spells_of_compile {text : String} {s : Schema} (h : Schema.compile text = .ok s) :
    Json.Spells s.toJson.pretty.toList s.toJson :=
  (Schema.validate_eq_ok_iff.1 (Schema.validate_of_compile h)).writable.spells 0

theorem Schema.ofDump?_of_compile {text : String} {s : Schema} (h : Schema.compile text = .ok s) :
    ofDump? s.toJson.pretty = some s := by
  rw [ofDump?, Json.read?_of_spells (spells_of_compile h), Option.bind_some, ofJson?_toJson]

/-- **The text of a compiled schema loses nothing.** It is a text of JSON, whatever document it
spells describes the schema, and reading it gives the schema back. So only equal schemas have the
same text. -/
theorem dump_faithful (text : String) (s : Schema) (hs : Schema.compile text = .ok s) :
    (∃ j, Json.Spells s.toJson.pretty.toList j) ∧
      (∀ j, Json.Spells s.toJson.pretty.toList j → Schema.ofJson? j = some s) ∧
      Schema.ofDump? s.toJson.pretty = some s ∧
      ∀ text' s', Schema.compile text' = .ok s' → s'.toJson.pretty = s.toJson.pretty → s' = s := by
  have hspells := Schema.spells_of_compile hs
  have hread := Schema.ofDump?_of_compile hs
  refine ⟨⟨_, hspells⟩, fun j hj => ?_, hread, fun text' s' hs' heq => ?_⟩
  · rw [hj.unique hspells, Schema.ofJson?_toJson]
  · have hread' := Schema.ofDump?_of_compile hs'
    rw [heq, hread] at hread'
    exact (Option.some.inj hread').symm

/-- Constants without a name, a zero with a sign, a quote in a text and lists in a list. -/
theorem dump_faithful_zero :
    ∃ text s, text = "const float64 \x7b z = -0.0 \x7d const string \x7b q = \"\\\"\" \x7d " ++
        "object T \x7b list of list of T t \x7d" ∧
      s = ⟨[], [
        .const ⟨none, .float64, [⟨"z", .float (.finite true 0 Binary64.fits_zero), ⟨1, 17⟩⟩],
          ⟨1, 7⟩⟩,
        .const ⟨none, .string, [⟨"q", .string "\"", ⟨1, 43⟩⟩], ⟨1, 34⟩⟩,
        .object ⟨"T", [⟨.list (.list (.named "T")), "t", ⟨1, 83⟩⟩], ⟨1, 61⟩⟩]⟩ ∧
      Schema.compile text = .ok s ∧ Schema.ofDump? s.toJson.pretty = some s := by
  refine ⟨_, _, rfl, rfl, ?_⟩
  suffices hs : Schema.compile _ = .ok _ from ⟨hs, (dump_faithful _ _ hs).2.2.1⟩
  exact Schema.compile_of_parse (by decide +kernel) (by decide +kernel)

end Idl
