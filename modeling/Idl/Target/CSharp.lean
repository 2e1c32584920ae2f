import Idl.Naming
import Idl.Target.Source

/-!
# C#

Constants become a static class. An enum over integers becomes an enum with a class of look-ups. An
enum over other values becomes a static class of constants with the same look-ups, and fields of
such an enum hold the values themselves. An object becomes a class whose properties are encoded
under the names of the schema. The package path becomes a namespace.

* `CSharp.dialect`: types, literals and names.
* `CSharp.check`: what has no form.
* `CSharp.lines`: the lines of a file.
-/

namespace Idl.CSharp

/-- Reserved words. -/
def keywords : List String :=
  ["abstract", "as", "base", "bool", "break", "byte", "case", "catch", "char", "checked", "class",
   "const", "continue", "decimal", "default", "delegate", "do", "double", "else", "enum", "event",
   "explicit", "extern", "false", "finally", "fixed", "float", "for", "foreach", "goto", "if",
   "implicit", "in", "int", "interface", "internal", "is", "lock", "long", "namespace", "new",
   "null", "object", "operator", "out", "override", "params", "private", "protected", "public",
   "readonly", "ref", "return", "sbyte", "sealed", "short", "sizeof", "stackalloc", "static",
   "string", "struct", "switch", "this", "throw", "true", "try", "typeof", "uint", "ulong",
   "unchecked", "unsafe", "ushort", "using", "virtual", "void", "volatile", "while"]

/-- Spells a reserved word as a name. -/
def verbatim (name : String) : String :=
  if name ∈ keywords then "@" ++ name else name

/-- The class of the constants without a group name. -/
def constantsClass : String := "Constants"

/-- The type of a value. -/
def primitive : Primitive → String
  | .int8 => "sbyte"
  | .int16 => "short"
  | .int32 => "int"
  | .int64 => "long"
  | .uint8 => "byte"
  | .uint16 => "ushort"
  | .uint32 => "uint"
  | .uint64 => "ulong"
  | .float32 => "float"
  | .float64 => "double"
  | .string => "string"
  | .bool => "bool"

/-- The type that a name stands for. An enum over other values than integers has none of its own. -/
def named (s : Schema) (name : String) : String :=
  match s.enumType? name with
  | some p => if p.isInteger then name else primitive p
  | none => name

/-- The class of a group of constants. -/
def ownerOf (c : ConstGroup) : String := c.name.getD constantsClass

/-- Look-ups that stand in the class of an enum over other values than integers. -/
def enumItems (e : EnumDecl) : List String :=
  if e.type.isInteger then [] else ["IndexOf", "ValueAt"]

/-- The name of a property. It is not that of its class nor of a method. -/
def property (o : ObjectDecl) (f : Field) : String :=
  avoid [o.name, "ToJson", "FromJson"] (Naming.pascal f.name)

/-- The name of a parameter. Apart from case it is that of its property. -/
def parameter (o : ObjectDecl) (f : Field) : String :=
  let name := Naming.camel f.name
  verbatim (if property o f = Naming.pascal f.name then name else name ++ "_")

/-- The words of the target. -/
def dialect : Dialect where
  primitive := primitive
  constant := primitive
  list _ element := s!"List<{element}>"
  map key value := s!"Dictionary<{key}, {value}>"
  named := named
  text := Text.quote
  suffix p := if p = .float32 then "f" else ""
  binding c m := verbatim (avoid [ownerOf c] m.name)
  title name := name
  variant e m := verbatim (avoid (e.name :: enumItems e) m.name)
  member := property
  param := parameter

/-! ## Checks -/

/-- Why a declaration has no form. -/
def checkDecl : Decl → Except Refusal Unit
  | .constants g =>
    distinct (ownerOf g.source) ((g.source.members.map Member.name).zip (g.rows.map Constant.name))
  | .choice c => c.checkVariants
  | .record r => do
    checkKeys r.source
    r.checkMembers

/-- A group of constants has no name. -/
def isUnnamed : Entry → Bool
  | .const c => c.name.isNone
  | _ => false

/-- Why a schema has no form. -/
def check (s : Schema) : Except Refusal Unit := do
  if (s.entries.any fun e => e.name? = some constantsClass) ∧ s.entries.any isUnnamed then
    .error (.collision constantsClass .unnamedConsts)
  (dialect.decls s).forM checkDecl

/-! ## Declarations -/

/-- The step between levels. -/
def margin : String := "    "

/-- A line and lines between braces that stand alone. -/
def nest (head : String) (body : List String) : List String :=
  [head, "\x7b"] ++ indent margin body ++ ["\x7d"]

/-- A choice by cases whose result is returned. -/
def switch (subject : String) (l : Lookup) : List String :=
  [s!"return {subject} switch", "\x7b"] ++ indent margin (l.arrows id) ++ ["\x7d;"]

/-- A constant of a class. -/
def constantLine (type name literal : String) : String :=
  s!"public const {type} {name} = {literal};"

/-- A group of constants. -/
def constantsLines (g : Constants) : List String :=
  let head := match g.source.name with
    | some name => s!"public static class {name}"
    | none => s!"public static partial class {constantsClass}"
  nest head (g.rows.map fun c => constantLine g.type c.name c.literal)

/-- The type of the members of an enum. -/
def memberType (c : Choice) : String :=
  if c.source.type.isInteger then c.name else c.type

/-- The members of an enum as the look-ups name them. -/
def qualified (c : Choice) : List String :=
  c.variants.map fun v => if c.source.type.isInteger then s!"{c.name}.{v.name}" else v.name

/-- The members of an enum over truth values are both truth values. -/
def isExhaustive (c : Choice) : Bool :=
  c.source.type = .bool && c.variants.length = 2

/-- The failure of a look-up. -/
def outOfRange (subject message : String) : String :=
  s!"throw new ArgumentOutOfRangeException(nameof({subject}), {subject}, \"{message}\")"

/-- The index of a member. -/
def indexLookup (c : Choice) : Lookup :=
  ⟨indexArms (qualified c),
    if isExhaustive c then [] else [outOfRange "value" s!"Unknown {c.name} value"]⟩

/-- The member at an index. -/
def valueLookup (c : Choice) : Lookup :=
  ⟨valueArms (qualified c), [outOfRange "index" s!"Index out of range for {c.name}"]⟩

/-- The look-ups of an enum. -/
def lookupLines (c : Choice) : List String :=
  nest s!"public static int IndexOf({memberType c} value)" (switch "value" (indexLookup c))
    ++ [""]
    ++ nest s!"public static {memberType c} ValueAt(int index)" (switch "index" (valueLookup c))

/-- An enum. -/
def choiceLines (c : Choice) : List String :=
  if c.source.type.isInteger then
    nest s!"public enum {c.name} : {c.type}" (c.variants.map fun v => s!"{v.name} = {v.literal},")
      ++ [""]
      ++ nest s!"public static class {c.name}Lookup" (lookupLines c)
  else
    nest s!"public static class {c.name}"
      ((c.variants.map fun v => constantLine c.type v.name v.literal) ++ [""] ++ lookupLines c)

/-- A property. -/
def slotLines (s : Slot) : List String :=
  [s!"[JsonPropertyName({Text.quote s.key})]",
   s!"public {s.type} {s.member} \x7b get; set; \x7d", ""]

/-- An object. -/
def recordLines (r : Record) : List String :=
  let name := r.name
  let params := commas (r.slots.map fun s => s!"{s.type} {s.param}")
  nest s!"public class {name}"
    (r.slots.flatMap slotLines
      ++ ["[JsonConstructor]"]
      ++ nest s!"public {name}({params})" (r.slots.map fun s => s!"{s.member} = {s.param};")
      ++ [""]
      ++ nest "public string ToJson()" ["return JsonSerializer.Serialize(this);"]
      ++ [""]
      ++ nest s!"public static {name} FromJson(string json)"
        [s!"return JsonSerializer.Deserialize<{name}>(json)",
         s!"    ?? throw new JsonException(\"Expected {name} but found null\");"])

/-- A declaration. -/
def declLines : Decl → List String
  | .constants g => constantsLines g
  | .choice c => choiceLines c
  | .record r => recordLines r

/-! ## Files -/

/-- The lines before the declarations. -/
def header : List String :=
  ["// <auto-generated />", "using System;", "using System.Collections.Generic;",
   "using System.Text.Json;", "using System.Text.Json.Serialization;"]

/-- The lines of a file. -/
def lines (s : Schema) : List String :=
  let body := spaced ((dialect.decls s).map declLines)
  if s.package.isEmpty then header ++ body
  else header ++ [""] ++ nest ("namespace " ++ ".".intercalate s.package) (body.drop 1)

end Idl.CSharp
