import Idl.Json
import Idl.Schema.Basic

/-!
# Schemas as JSON

* `Schema.toJson`: a schema with its types, values and positions.
-/

namespace Idl

/-- The name of a primitive type in a document. -/
def Primitive.label : Primitive → String
  | int8 => "Int8"
  | int16 => "Int16"
  | int32 => "Int32"
  | int64 => "Int64"
  | uint8 => "UInt8"
  | uint16 => "UInt16"
  | uint32 => "UInt32"
  | uint64 => "UInt64"
  | float32 => "Float32"
  | float64 => "Float64"
  | string => "String"
  | bool => "Bool"

/-- A primitive type by its name. -/
def Primitive.toJson (p : Primitive) : Json := .string p.label

/-- A document under one key. -/
def tagged (tag : String) (j : Json) : Json := .object [(tag, j)]

/-- A value under the name of its kind. -/
def Literal.toJson : Literal → Json
  | .int i => tagged "Int" (.int i.toInt)
  | .float x => tagged "Float" (.float x)
  | .string s => tagged "String" (.string s)
  | .bool b => tagged "Bool" (.bool b)

/-- A type under the name of its form. -/
def FieldType.toJson : FieldType → Json
  | .primitive p => tagged "Primitive" p.toJson
  | .list t => tagged "List" t.toJson
  | .map k v => tagged "Map" (.object [("key", k.toJson), ("value", v.toJson)])
  | .named n => tagged "Identity" (.string n)

/-- The fields that hold a position. -/
def Position.fields (p : Position) : List (String × Json) :=
  [("line", .int p.line), ("column", .int p.column)]

/-- A member with its value. -/
def Member.toJson (m : Member) : Json :=
  .object ([("name", .string m.name), ("value", m.value.toJson)] ++ m.position.fields)

/-- A field with its type. -/
def Field.toJson (f : Field) : Json :=
  .object ([("type_", f.type.toJson), ("name", .string f.name)] ++ f.position.fields)

/-- An entry under the name of its form. -/
def Entry.toJson : Entry → Json
  | .const c =>
    tagged "Const" (.object
      ([("name", c.name.elim .null .string), ("type_", c.type.toJson),
        ("fields", .array (c.members.map Member.toJson))] ++ c.position.fields))
  | .enum e =>
    tagged "Enum" (.object
      ([("name", .string e.name), ("type_", e.type.toJson),
        ("values", .array (e.members.map Member.toJson))] ++ e.position.fields))
  | .object o =>
    tagged "Object" (.object
      ([("name", .string o.name), ("fields", .array (o.fields.map Field.toJson))]
        ++ o.position.fields))

/-- A schema as a document. -/
def Schema.toJson (s : Schema) : Json :=
  .object
    [("package", .array (s.package.map .string)), ("entries", .array (s.entries.map Entry.toJson))]

end Idl
