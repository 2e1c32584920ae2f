import Idl.Target.Source
import Idl.Text.Escape

/-!
# Rust

Constants become `const` items. An enum becomes an enum without payload that is encoded as its
value, with look-ups by index and by value. An object becomes a struct with a positional
constructor, encoded under the names of the schema. The package path becomes nested modules.

* `Rust.dialect`: types, literals and names.
* `Rust.check`: what has no form.
* `Rust.lines`: the lines of a file.
-/

namespace Idl.Rust

/-- Reserved words. -/
def keywords : List String :=
  ["as", "async", "await", "break", "const", "continue", "crate", "dyn", "else", "enum", "extern",
   "false", "fn", "for", "if", "impl", "in", "let", "loop", "match", "mod", "move", "mut", "pub",
   "ref", "return", "self", "Self", "static", "struct", "super", "trait", "true", "try", "type",
   "unsafe", "use", "where", "while"]

/-- Items that every generated enum has beside its members. -/
def enumItems : List String := ["ALL", "value", "index_of", "value_at", "from_value"]

/-- The type of an owned value. -/
def owned : Primitive → String
  | .int8 => "i8"
  | .int16 => "i16"
  | .int32 => "i32"
  | .int64 => "i64"
  | .uint8 => "u8"
  | .uint16 => "u16"
  | .uint32 => "u32"
  | .uint64 => "u64"
  | .float32 => "f32"
  | .float64 => "f64"
  | .string => "String"
  | .bool => "bool"

/-- The type of a value that is always there. -/
def lasting : Primitive → String
  | .string => "&'static str"
  | p => owned p

/-- The words of the target. -/
def dialect : Dialect where
  primitive := owned
  constant := lasting
  list _ element := s!"Vec<{element}>"
  map key value := s!"HashMap<{key}, {value}>"
  named _ name := name
  text s := "\"" ++ Text.escapeAscii s ++ "\""
  suffix _ := ""
  binding c m := c.binding m
  title name := name
  variant _ m := avoid (enumItems ++ keywords) m.name
  member _ f := avoid keywords f.name
  param _ f := avoid keywords f.name

/-! ## Checks -/

/-- Why a declaration has no form. -/
def checkDecl : Decl → Except Refusal Unit
  | .constants _ => .ok ()
  | .choice c => c.checkVariants
  | .record r => do
    checkKeys r.source
    r.checkMembers

/-- Why a schema has no form. -/
def check (s : Schema) : Except Refusal Unit :=
  (dialect.decls s).forM checkDecl

/-! ## Declarations -/

/-- The step between levels. -/
def margin : String := "    "

/-- A line and lines between braces. -/
abbrev nest (head : String) (body : List String) : List String := block margin head body

/-- A constant. Small letters in its name need a note. -/
def constantLines (type : String) (c : Constant) : List String :=
  (if c.name.toList.any Char.isLower then ["#[allow(non_upper_case_globals)]"] else [])
    ++ [s!"pub const {c.name}: {type} = {c.literal};"]

/-- A group of constants. -/
def constantsLines (g : Constants) : List String :=
  g.rows.flatMap (constantLines g.type) ++ [""]

/-- The members of an enum with the name of the enum. -/
def qualified (c : Choice) : List String :=
  c.variants.map fun v => s!"{c.name}::{v.name}"

/-- The index of a member. -/
def indexLookup (c : Choice) : Lookup := ⟨indexArms (qualified c), []⟩

/-- The member at an index. -/
def valueLookup (c : Choice) : Lookup :=
  ⟨valueArms (qualified c),
    [s!"Err(LookupError::Index \x7b enum_name: \"{c.name}\", index \x7d)"]⟩

/-- The value of a member. -/
def payloadLookup (c : Choice) : Lookup :=
  ⟨(qualified c).zip (c.variants.map Variant.literal), []⟩

/-- The items of an enum. -/
def enumImpl (c : Choice) : List String :=
  let name := c.name
  let type := c.type
  let given := if c.source.type = .string then "&str" else c.type
  nest s!"impl {name}"
    ([s!"pub const ALL: [{name}; {c.variants.length}] = [{commas (qualified c)}];", ""]
      ++ nest s!"pub fn value(self) -> {type}" (nest "match self" ((payloadLookup c).arrows id))
      ++ [""]
      ++ nest "pub fn index_of(self) -> usize" (nest "match self" ((indexLookup c).arrows id))
      ++ [""]
      ++ nest "pub fn value_at(index: usize) -> Result<Self, LookupError>"
        (nest "match index" ((valueLookup c).arrows fun v => s!"Ok({v})"))
      ++ [""]
      ++ nest s!"pub fn from_value(value: {given}) -> Result<Self, LookupError>"
        ["Self::ALL", "    .iter()", "    .copied()", "    .find(|v| v.value() == value)",
         s!"    .ok_or_else(|| LookupError::Value \x7b enum_name: \"{name}\", value: value.to_string() \x7d)"])

/-- An enum. -/
def choiceLines (c : Choice) : List String :=
  let name := c.name
  let type := c.type
  let kept := owned c.source.type
  let argument := if c.source.type = .string then "&value" else "value"
  ["#[allow(non_camel_case_types)]",
   "#[derive(Debug, Clone, Copy, PartialEq, Eq, Hash, Serialize, Deserialize)]",
   s!"#[serde(try_from = \"{kept}\", into = \"{type}\")]"]
    ++ nest s!"pub enum {name}" (c.variants.map fun v => v.name ++ ",")
    ++ [""]
    ++ enumImpl c
    ++ [""]
    ++ nest s!"impl TryFrom<{kept}> for {name}"
      (["type Error = LookupError;", ""]
        ++ nest s!"fn try_from(value: {kept}) -> Result<Self, Self::Error>"
          [s!"Self::from_value({argument})"])
    ++ [""]
    ++ nest s!"impl From<{name}> for {type}"
      (nest s!"fn from(value: {name}) -> Self" ["value.value()"])
    ++ [""]

/-- A member of a struct. A name that is not the schema's is encoded under the schema's. -/
def slotLines (s : Slot) : List String :=
  (if s.member = s.key then [] else [s!"#[serde(rename = \"{s.key}\")]"])
    ++ [s!"pub {s.member}: {s.type},"]

/-- An object. -/
def recordLines (r : Record) : List String :=
  let mixed := r.slots.any fun s => s.key.toList.any Char.isUpper
  let note := if mixed then ["#[allow(non_snake_case)]"] else []
  let params := commas (r.slots.map fun s => s!"{s.param}: {s.type}")
  note
    ++ ["#[derive(Debug, Clone, PartialEq, Serialize, Deserialize)]"]
    ++ nest s!"pub struct {r.name}" (r.slots.flatMap slotLines)
    ++ [""]
    ++ note
    ++ nest s!"impl {r.name}"
      ((if 7 < r.slots.length then ["#[allow(clippy::too_many_arguments)]"] else [])
        ++ nest s!"pub fn new({params}) -> Self"
          (nest "Self" (r.slots.map fun s => s.param ++ ","))
        ++ [""]
        ++ nest "pub fn to_json(&self) -> serde_json::Result<String>"
          ["serde_json::to_string(self)"]
        ++ [""]
        ++ nest "pub fn from_json(json: &str) -> serde_json::Result<Self>"
          ["serde_json::from_str(json)"])
    ++ [""]

/-- A declaration, with a blank line after it. -/
def declLines : Decl → List String
  | .constants g => constantsLines g
  | .choice c => choiceLines c
  | .record r => recordLines r

/-! ## Files -/

/-- The names that a file needs from elsewhere. -/
def imports (s : Schema) : List String :=
  let found :=
    (if s.usesMaps then ["use std::collections::HashMap;"] else [])
      ++ (if s.hasEnums || s.hasObjects then ["use serde::\x7bDeserialize, Serialize\x7d;"] else [])
      ++ (if s.hasEnums then ["use brine_idl::LookupError;"] else [])
  if found.isEmpty then [] else found ++ [""]

/-- The lines of a file. -/
def lines (s : Schema) : List String :=
  ["// Code generated by bidl. DO NOT EDIT.", ""]
    ++ s.package.map (fun name => s!"pub mod {avoid keywords name} \x7b")
    ++ imports s
    ++ (dialect.decls s).flatMap declLines
    ++ s.package.map fun _ => "\x7d"

end Idl.Rust
