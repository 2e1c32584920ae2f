import Idl.Target.Basic

/-!
# Dialects

A dialect has the words of a target for the parts of a schema: types, literals and names. It turns
every entry into a declaration whose names and types are those of the target.

* `Dialect`: the words of a target.
* `Decl`: a declaration in these words.
* `Dialect.declare`: the declaration of an entry, with one part for each member or field, in order.
-/

namespace Idl

/-- The words of a target. -/
structure Dialect where
  /-- The type of a value in a field. -/
  primitive : Primitive → String
  /-- The type of a constant. -/
  constant : Primitive → String
  /-- The type of a list, by the type of its elements and the words for it. -/
  list : FieldType → String → String
  /-- The type of a map, by the words for keys and values. -/
  map : String → String → String
  /-- The type that a name stands for, in a schema. -/
  named : Schema → String → String
  /-- A string literal. -/
  text : String → String
  /-- What follows a number with a point. -/
  suffix : Primitive → String
  /-- The name of a constant. -/
  binding : ConstGroup → Member → String
  /-- The name of an enum or an object. -/
  title : String → String
  /-- The name of an enum's member. -/
  variant : EnumDecl → Member → String
  /-- The name of an object's member. -/
  member : ObjectDecl → Field → String
  /-- The name of a constructor's parameter. -/
  param : ObjectDecl → Field → String

/-! ## Declarations -/

/-- A constant. -/
structure Constant where
  name : String
  literal : String
  deriving DecidableEq

/-- A member of an enum. -/
structure Variant where
  /-- The name in the schema. -/
  source : String
  /-- The name in the target. -/
  name : String
  literal : String
  deriving DecidableEq

/-- A member of an object. -/
structure Slot where
  /-- The field of the schema. -/
  field : Field
  member : String
  param : String
  type : String
  deriving DecidableEq

/-- The name of the field, which is the key in encoded objects. -/
def Slot.key (s : Slot) : String := s.field.name

/-- Constants of one type. -/
structure Constants where
  source : ConstGroup
  type : String
  rows : List Constant

/-- An enum with the type of its values. -/
structure Choice where
  source : EnumDecl
  name : String
  type : String
  variants : List Variant

/-- An object. -/
structure Record where
  source : ObjectDecl
  name : String
  slots : List Slot

/-- A declaration in the words of a target. -/
inductive Decl where
  | constants (group : Constants)
  | choice (choice : Choice)
  | record (record : Record)

namespace Dialect

variable (d : Dialect)

/-- The text of a literal of a type. An integer among floating point values gets a point. -/
def literal (p : Primitive) : Literal → String
  | .string s => d.text s
  | .bool b => Literal.boolText b
  | .int i => if p.isFloat then toString i.toInt ++ ".0" ++ d.suffix p else toString i.toInt
  | .float x => Decimal.Layout.source.write x ++ d.suffix p

/-- The words for a type. -/
def type (s : Schema) : FieldType → String
  | .primitive p => d.primitive p
  | .list t => d.list t (type s t)
  | .map k v => d.map (d.primitive k) (d.primitive v)
  | .named n => d.named s n

/-- A group of constants in the words of the target. -/
def constants (c : ConstGroup) : Constants where
  source := c
  type := d.constant c.type
  rows := c.members.map fun m => ⟨d.binding c m, d.literal c.type m.value⟩

/-- An enum in the words of the target. -/
def choice (e : EnumDecl) : Choice where
  source := e
  name := d.title e.name
  type := d.constant e.type
  variants := e.members.map fun m => ⟨m.name, d.variant e m, d.literal e.type m.value⟩

/-- An object in the words of the target. -/
def record (s : Schema) (o : ObjectDecl) : Record where
  source := o
  name := d.title o.name
  slots := o.fields.map fun f => ⟨f, d.member o f, d.param o f, d.type s f.type⟩

/-- An entry in the words of the target. -/
def declare (s : Schema) : Entry → Decl
  | .const c => .constants (d.constants c)
  | .enum e => .choice (d.choice e)
  | .object o => .record (d.record s o)

/-- The declarations of a schema, in order. -/
def decls (s : Schema) : List Decl := s.entries.map (d.declare s)

end Dialect

/-! ## Names that stay different -/

/-- The members of an enum stay different. -/
def Choice.checkVariants (c : Choice) : Except Refusal Unit :=
  distinct c.source.name (c.variants.map fun v => (v.source, v.name))

/-- The members of an object stay different. -/
def Record.checkMembers (r : Record) : Except Refusal Unit :=
  distinct r.source.name (r.slots.map fun s => (s.key, s.member))

/-- The parameters of a constructor stay different. -/
def Record.checkParams (r : Record) : Except Refusal Unit :=
  distinct r.source.name (r.slots.map fun s => (s.key, s.param))

/-! ## Taken names -/

/-- Sets a name apart from names that are taken. -/
def avoid (taken : List String) (name : String) : String :=
  if name ∈ taken then name ++ "_" else name

end Idl
