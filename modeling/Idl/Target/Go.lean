import Idl.Naming
import Idl.Target.Source

/-!
# Go

Constants become a block of constants. An enum becomes a named type with a constant for each member
and functions between members and indices. An object becomes a struct whose tags hold the names of
the schema. The last part of the package path names the package.

A list of `uint8` would be encoded as text, so it gets a type of its own, `Uint8List`.

* `Go.dialect`: types, literals and names.
* `Go.topNames`: the names that a file declares.
* `Go.check`: what has no form.
* `Go.lines`: the lines of a file.
-/

namespace Idl.Go

/-- Reserved words. -/
def keywords : List String :=
  ["break", "case", "chan", "const", "continue", "default", "defer", "else", "fallthrough", "for",
   "func", "go", "goto", "if", "import", "interface", "map", "package", "range", "return",
   "select", "struct", "switch", "type", "var"]

/-- The words of the target. -/
def dialect : Dialect where
  primitive := Primitive.keyword
  constant := Primitive.keyword
  list element words := if element = .primitive .uint8 then "Uint8List" else "[]" ++ words
  map key value := s!"map[{key}]{value}"
  named _ name := Naming.pascal name
  text := Text.quote
  suffix _ := ""
  binding c m :=
    match c.name with
    | some n => Naming.pascal n ++ "_" ++ m.name
    | none => m.name
  title := Naming.pascal
  variant e m := Naming.pascal e.name ++ "_" ++ m.name
  member _ f := avoid ["ToJSON"] (Naming.pascal f.name)
  param _ f := avoid keywords (Naming.camel f.name)

/-- A list of `uint8` stands under any number of lists. -/
def holdsBytes : FieldType → Bool
  | .list t => t = .primitive .uint8 || holdsBytes t
  | _ => false

/-- Some field holds a list of `uint8`. -/
def usesBytes (s : Schema) : Bool :=
  s.objects.any fun o => o.fields.any fun f => holdsBytes f.type

/-! ## Checks -/

/-- The names that a declaration adds to the package, each after the name of the schema that it
comes from. -/
def declNames : Decl → List (String × String)
  | .constants g => (g.source.members.map g.source.binding).zip (g.rows.map Constant.name)
  | .choice c =>
    [(c.source.name, c.name)]
      ++ c.variants.map (fun v => (s!"{c.source.name}.{v.source}", v.name))
      ++ [(c.source.name, "IndexOf" ++ c.name), (c.source.name, "ValueAt" ++ c.name)]
  | .record r =>
    [(r.source.name, r.name), (r.source.name, "New" ++ r.name),
     (r.source.name, r.name ++ "FromJSON")]

/-- The names that a file declares, each after the name that it comes from. -/
def topNames (s : Schema) : List (String × String) :=
  (if usesBytes s then [("list of uint8", "Uint8List")] else [])
    ++ (dialect.decls s).flatMap declNames

/-- The name of the package. -/
def packageName (s : Schema) : String := s.package.getLastD "schema"

/-- Why a declaration has no form. -/
def checkDecl : Decl → Except Refusal Unit
  | .record r => do
    checkKeys r.source
    r.checkMembers
    r.checkParams
  | _ => .ok ()

/-- Why a schema has no form. -/
def check (s : Schema) : Except Refusal Unit := do
  distinct (packageName s) (topNames s)
  (dialect.decls s).forM checkDecl

/-! ## Columns -/

/-- Fills a text up with blanks. -/
def pad (width : Nat) (s : String) : String :=
  s ++ String.ofList (List.replicate (width - s.length) ' ')

/-- The width of a column, in bytes. -/
def columnWidth (texts : List String) : Nat :=
  (texts.map String.utf8ByteSize).foldl max 0

/-- Rows of two columns. -/
def aligned (rows : List (String × String)) : List String :=
  let width := columnWidth (rows.map Prod.fst)
  rows.map fun r => pad width r.1 ++ " " ++ r.2

/-! ## Declarations -/

/-- The step between levels. -/
def margin : String := "\t"

/-- A line and lines between braces. -/
abbrev nest (head : String) (body : List String) : List String := block margin head body

/-- Lines between parentheses. -/
def group (head : String) (body : List String) : List String :=
  (head ++ " (") :: indent margin body ++ [")"]

/-- A choice by cases, whose labels stand under its head. -/
def switch (subject : String) (l : Lookup) (result : String → String) : List String :=
  (s!"switch {subject} \x7b") :: l.labels margin result ++ ["\x7d"]

/-- A group of constants. -/
def constantsLines (g : Constants) : List String :=
  group "const" (aligned (g.rows.map fun c => (c.name, s!"{g.type} = {c.literal}")))

/-- The name of a member. -/
def nameLookup (c : Choice) : Lookup :=
  ⟨c.variants.map fun v => (v.name, Text.quote v.source),
    [s!"return fmt.Sprintf(\"{c.name}(%v)\", {c.type}(e))"]⟩

/-- The index of a member. -/
def indexLookup (c : Choice) : Lookup :=
  ⟨indexArms (c.variants.map Variant.name),
    [s!"return -1, fmt.Errorf(\"{c.name}: unknown value %v\", {c.type}(value))"]⟩

/-- The member at an index. -/
def valueLookup (c : Choice) : Lookup :=
  ⟨valueArms (c.variants.map Variant.name),
    [s!"var zero {c.name}",
     s!"return zero, fmt.Errorf(\"{c.name}: index %d out of range\", index)"]⟩

/-- An enum. -/
def choiceLines (c : Choice) : List String :=
  let name := c.name
  [s!"type {name} {c.type}", ""]
    ++ group "const" (aligned (c.variants.map fun v => (v.name, s!"{name} = {v.literal}")))
    ++ ["", "// String returns the declared name of the value."]
    ++ nest s!"func (e {name}) String() string"
      (switch "e" (nameLookup c) fun r => s!"return {r}")
    ++ ["", s!"// IndexOf{name} returns the declaration index of value."]
    ++ nest s!"func IndexOf{name}(value {name}) (int, error)"
      (switch "value" (indexLookup c) fun r => s!"return {r}, nil")
    ++ ["", s!"// ValueAt{name} returns the value declared at index."]
    ++ nest s!"func ValueAt{name}(index int) ({name}, error)"
      (switch "index" (valueLookup c) fun r => s!"return {r}, nil")

/-- The members of a struct, in three columns. -/
def slotLines (slots : List Slot) : List String :=
  let names := columnWidth (slots.map Slot.member)
  let types := columnWidth (slots.map Slot.type)
  slots.map fun s =>
    pad names s.member ++ " " ++ pad types s.type ++ " `json:" ++ Text.quote s.key ++ "`"

/-- The value that a constructor returns. -/
def resultLines (r : Record) : List String :=
  if r.slots.isEmpty then [s!"return &{r.name}\x7b\x7d"]
  else
    [s!"return &{r.name}\x7b"]
      ++ indent margin (aligned (r.slots.map fun s => (s.member ++ ":", s.param ++ ",")))
      ++ ["\x7d"]

/-- An object. -/
def recordLines (r : Record) : List String :=
  let name := r.name
  let params := commas (r.slots.map fun s => s!"{s.param} {s.type}")
  nest s!"type {name} struct" (slotLines r.slots)
    ++ ["", s!"// New{name} returns a {name} built from its fields in declaration order."]
    ++ nest s!"func New{name}({params}) *{name}" (resultLines r)
    ++ ["", "// ToJSON encodes the value with the IDL field names as keys."]
    ++ nest s!"func (o *{name}) ToJSON() (string, error)"
      (["data, err := json.Marshal(o)"]
        ++ nest "if err != nil" ["return \"\", err"]
        ++ ["return string(data), nil"])
    ++ ["", s!"// {name}FromJSON decodes a {name} produced by ToJSON."]
    ++ nest s!"func {name}FromJSON(data string) (*{name}, error)"
      ([s!"var o {name}"]
        ++ nest "if err := json.Unmarshal([]byte(data), &o); err != nil" ["return nil, err"]
        ++ ["return &o, nil"])

/-- A declaration. -/
def declLines : Decl → List String
  | .constants g => constantsLines g
  | .choice c => choiceLines c
  | .record r => recordLines r

/-! ## Files -/

/-- The type of lists of `uint8`. -/
def bytesLines : List String :=
  ["// Uint8List encodes as a JSON array of numbers instead of base64.",
   "type Uint8List []uint8", "",
   "// MarshalJSON writes the list as an array of numbers."]
    ++ nest "func (l Uint8List) MarshalJSON() ([]byte, error)"
      (["values := make([]uint16, len(l))"]
        ++ nest "for i, v := range l" ["values[i] = uint16(v)"]
        ++ ["return json.Marshal(values)"])

/-- The packages that a file needs. -/
def imports (s : Schema) : List String :=
  (if s.hasObjects then ["encoding/json"] else []) ++ (if s.hasEnums then ["fmt"] else [])

/-- The lines that import packages. -/
def importLines (packages : List String) : List String :=
  match packages with
  | [] => []
  | [p] => ["", "import " ++ Text.quote p]
  | ps => "" :: group "import" (ps.map Text.quote)

/-- The lines of a file. -/
def lines (s : Schema) : List String :=
  ["// Code generated by bidl. DO NOT EDIT.", "", s!"package {packageName s}"]
    ++ importLines (imports s)
    ++ spaced ((if usesBytes s then [bytesLines] else []) ++ (dialect.decls s).map declLines)

end Idl.Go
