import Idl.Schema.Literal
import Idl.Token.Basic

/-!
# Schemas

A schema has a package path and a list of entries: groups of constants, enums and objects.

* `FieldType`: the type of an object's field.
* `ConstGroup`, `EnumDecl`, `ObjectDecl`, `Entry`, `Schema`.
* `Schema.enumType?`: what the name of an enum stands for. A name that no enum has is taken for an
  object's.
-/

namespace Idl

/-- The type of a field. -/
inductive FieldType where
  | primitive (type : Primitive)
  | list (element : FieldType)
  | map (key value : Primitive)
  /-- The name of an object or an enum, declared here or elsewhere. -/
  | named (name : String)
  deriving DecidableEq

namespace FieldType

/-- The spelling in a schema. -/
def describe : FieldType → String
  | primitive p => p.keyword
  | list t => "list of " ++ t.describe
  | map k v => "map " ++ k.keyword ++ " for " ++ v.keyword
  | named n => n

/-- The key of the map that stands under any number of lists. -/
def mapKey? : FieldType → Option Primitive
  | map k _ => some k
  | list t => t.mapKey?
  | _ => none

end FieldType

/-- A name with a value, in a group of constants or in an enum. -/
structure Member where
  name : String
  value : Literal
  position : Position
  deriving DecidableEq

/-- A field of an object. -/
structure Field where
  type : FieldType
  name : String
  position : Position
  deriving DecidableEq

/-- Constants of one type, with or without a name for the group. -/
structure ConstGroup where
  name : Option String
  type : Primitive
  members : List Member
  position : Position
  deriving DecidableEq

/-- The name that a constant has outside its group. -/
def ConstGroup.binding (c : ConstGroup) (m : Member) : String :=
  match c.name with
  | some n => n ++ "_" ++ m.name
  | none => m.name

/-- An enum over a primitive type. -/
structure EnumDecl where
  name : String
  type : Primitive
  members : List Member
  position : Position
  deriving DecidableEq

/-- An object with typed fields. -/
structure ObjectDecl where
  name : String
  fields : List Field
  position : Position
  deriving DecidableEq

/-- A declaration of a schema. -/
inductive Entry where
  | const (group : ConstGroup)
  | enum (decl : EnumDecl)
  | object (decl : ObjectDecl)
  deriving DecidableEq

/-- The name of an entry, if it has one. -/
def Entry.name? : Entry → Option String
  | const c => c.name
  | enum e => some e.name
  | object o => some o.name

/-- A package path and its declarations, in order. -/
structure Schema where
  package : List String
  entries : List Entry
  deriving DecidableEq

namespace Schema

/-- The enums in order. -/
def enums (s : Schema) : List EnumDecl :=
  s.entries.filterMap fun
    | .enum e => some e
    | _ => none

/-- The objects in order. -/
def objects (s : Schema) : List ObjectDecl :=
  s.entries.filterMap fun
    | .object o => some o
    | _ => none

/-- The type of the last enum with a name. -/
def enumType? (s : Schema) (name : String) : Option Primitive :=
  (s.enums.reverse.find? fun e => e.name = name).map EnumDecl.type

/-- The names of the enums in increasing order, with the types they stand for. -/
def enumTypes (s : Schema) : List (String × Primitive) :=
  let names := (s.enums.map EnumDecl.name).eraseDups.mergeSort fun a b => !decide (b < a)
  names.filterMap fun n => (s.enumType? n).map fun t => (n, t)

/-- Some enum is declared. -/
def hasEnums (s : Schema) : Bool := !s.enums.isEmpty

/-- Some object is declared. -/
def hasObjects (s : Schema) : Bool := !s.objects.isEmpty

/-- Some field holds maps. -/
def usesMaps (s : Schema) : Bool :=
  s.objects.any fun o => o.fields.any fun f => f.type.mapKey?.isSome

end Schema

end Idl
