import Idl.Target.Source

/-!
# TypeScript

Constants become exported constants. An enum over numbers or texts becomes an enum with functions
between members and indices; an enum over truth values has no form. An object becomes a class that
turns itself into a plain object under the names of the schema and back. The package path becomes
nested namespaces.

* `TypeScript.dialect`: types, literals and names.
* `TypeScript.Expr`: the expressions that encode and decode a field.
* `TypeScript.encode`, `TypeScript.decode?`: these expressions for a type.
* `TypeScript.check`: what has no form.
* `TypeScript.lines`: the lines of a file.
-/

namespace Idl.TypeScript

/-- Reserved words. -/
def keywords : List String :=
  ["await", "break", "case", "catch", "class", "const", "continue", "debugger", "default",
   "delete", "do", "else", "enum", "export", "extends", "false", "finally", "for", "function",
   "if", "implements", "import", "in", "instanceof", "interface", "let", "new", "null", "package",
   "private", "protected", "public", "return", "static", "super", "switch", "this", "throw",
   "true", "try", "typeof", "var", "void", "while", "with", "yield"]

/-- What every generated class has beside its members. -/
def classItems : List String := ["constructor", "toJson", "toObject"]

/-- The type of a value. There is one type of numbers. -/
def primitive : Primitive → String
  | .string => "string"
  | .bool => "boolean"
  | _ => "number"

/-- The words of the target. A reserved word may name a member but not a parameter. -/
def dialect : Dialect where
  primitive := primitive
  constant := primitive
  list _ element := s!"Array<{element}>"
  map key value := s!"Record<{key}, {value}>"
  named _ name := name
  text := Text.quote
  suffix _ := ""
  binding c m := avoid keywords (c.binding m)
  title name := name
  variant _ m := m.name
  member _ f := avoid classItems f.name
  param _ f := avoid keywords (avoid classItems f.name)

/-! ## Encoding and decoding -/

/-- An expression. -/
inductive Expr where
  /-- A variable. -/
  | var (name : String)
  /-- A member of the object. -/
  | own (member : String)
  /-- The value under a key of the decoded object. -/
  | entry (key : String)
  /-- The plain object of an object. -/
  | toObject (e : Expr)
  /-- The object of a plain object. -/
  | fromObject (object : String) (e : Expr)
  /-- A value taken for an array. -/
  | asArray (e : Expr)
  /-- An array with `body` for each element `x`, whose type may be left open. -/
  | each (e : Expr) (x : String) (isOpen : Bool) (body : Expr)
  deriving DecidableEq

namespace Expr

/-- The text of an expression. -/
def text : Expr → String
  | var name => name
  | own member => s!"this.{member}"
  | entry key => s!"data[{Text.quote key}]"
  | toObject e => s!"{e.text}.toObject()"
  | fromObject object e => s!"{object}.fromObject({e.text})"
  | asArray e => s!"({e.text} as any[])"
  | each e x isOpen body =>
    let type := if isOpen then ": any" else ""
    s!"{e.text}.map(({x}{type}) => {body.text})"

end Expr

/-- The variable for elements at a depth of lists. -/
def elementVar (depth : Nat) : String := s!"e{depth}"

/-- The plain form of the value of `e`. A list whose elements stay as they are stays as it is. -/
def encode (s : Schema) : FieldType → Expr → Nat → Expr
  | .primitive _, e, _ => e
  | .map _ _, e, _ => e
  | .named n, e, _ => if (s.enumType? n).isSome then e else .toObject e
  | .list t, e, depth =>
    let x := elementVar depth
    let body := encode s t (.var x) (depth + 1)
    if body = .var x then e else .each e x false body

/-- The value of a type from its plain form, if that is another. -/
def decode? (s : Schema) : FieldType → Expr → Nat → Option Expr
  | .primitive _, _, _ => none
  | .map _ _, _, _ => none
  | .named n, e, _ => if (s.enumType? n).isSome then none else some (.fromObject n e)
  | .list t, e, depth =>
    let x := elementVar depth
    (decode? s t (.var x) (depth + 1)).map fun body => .each (.asArray e) x true body

/-! ## Checks -/

/-- Why a declaration has no form. -/
def checkDecl : Decl → Except Refusal Unit
  | .constants _ => .ok ()
  | .choice c => if c.source.type = .bool then .error (.boolEnum c.source.name) else .ok ()
  | .record r => do
    checkKeys r.source
    r.checkMembers
    r.checkParams

/-- Why a schema has no form. -/
def check (s : Schema) : Except Refusal Unit :=
  (dialect.decls s).forM checkDecl

/-! ## Declarations -/

/-- The step between levels. -/
def margin : String := "  "

/-- A line and lines between braces. -/
abbrev nest (head : String) (body : List String) : List String := block margin head body

/-- A group of constants. -/
def constantsLines (g : Constants) : List String :=
  g.rows.map fun c => s!"export const {c.name}: {g.type} = {c.literal};"

/-- The members of an enum with the name of the enum. -/
def qualified (c : Choice) : List String :=
  c.variants.map fun v => s!"{c.name}.{v.name}"

/-- The index of a member. -/
def indexLookup (c : Choice) : Lookup :=
  ⟨indexArms (qualified c),
    [s!"throw new RangeError(\"Unknown {c.name} value: \" + String(value));"]⟩

/-- The member at an index. -/
def valueLookup (c : Choice) : Lookup :=
  ⟨valueArms (qualified c),
    [s!"throw new RangeError(\"Index out of range for {c.name}: \" + index);"]⟩

/-- A choice by cases whose result is returned. -/
def switch (subject : String) (l : Lookup) : List String :=
  nest s!"switch ({subject})" (l.labels margin fun r => s!"return {r};")

/-- An enum. -/
def choiceLines (c : Choice) : List String :=
  let name := c.name
  nest s!"export enum {name}" (c.variants.map fun v => s!"{v.name} = {v.literal},")
    ++ [""]
    ++ nest s!"export function indexOf{name}(value: {name}): number"
      (switch "value" (indexLookup c))
    ++ [""]
    ++ nest s!"export function valueAt{name}(index: number): {name}"
      (switch "index" (valueLookup c))

/-- The entry of a member in the plain object. -/
def encodeLine (s : Schema) (slot : Slot) : String :=
  Text.quote slot.key ++ ": " ++ (encode s slot.field.type (.own slot.member) 0).text ++ ","

/-- The argument for a member from the plain object. -/
def argument (s : Schema) (slot : Slot) : String :=
  ((decode? s slot.field.type (.entry slot.key) 0).getD (.entry slot.key)).text

/-- Lines with commas between them. -/
def separated : List String → List String
  | [] => []
  | [l] => [l]
  | l :: ls => (l ++ ",") :: separated ls

/-- The lines that return a plain object. -/
def encodeLines (s : Schema) (r : Record) : List String :=
  if r.slots.isEmpty then ["return \x7b\x7d;"]
  else ["return \x7b"] ++ indent margin (r.slots.map (encodeLine s)) ++ ["\x7d;"]

/-- The lines that return an object from a plain one. -/
def decodeLines (s : Schema) (r : Record) : List String :=
  if r.slots.isEmpty then [s!"return new {r.name}();"]
  else
    [s!"return new {r.name}("] ++ indent margin (separated (r.slots.map (argument s))) ++ [");"]

/-- An object. -/
def recordLines (s : Schema) (r : Record) : List String :=
  let name := r.name
  let params := commas (r.slots.map fun f => s!"{f.param}: {f.type}")
  nest s!"export class {name}"
    ((r.slots.map fun f => s!"{f.member}: {f.type};")
      ++ (if r.slots.isEmpty then [] else [""])
      ++ nest s!"constructor({params})" (r.slots.map fun f => s!"this.{f.member} = {f.param};")
      ++ [""]
      ++ nest "toObject(): any" (encodeLines s r)
      ++ [""]
      ++ nest "toJson(): string" ["return JSON.stringify(this.toObject());"]
      ++ [""]
      ++ nest s!"static fromJson(json: string): {name}"
        [s!"return {name}.fromObject(JSON.parse(json));"]
      ++ [""]
      ++ nest s!"static fromObject(data: any): {name}" (decodeLines s r))

/-- A declaration. -/
def declLines (s : Schema) : Decl → List String
  | .constants g => constantsLines g
  | .choice c => choiceLines c
  | .record r => recordLines s r

/-! ## Files -/

/-- Blocks of lines with blank lines between them. Nothing stands before the first lines. -/
def joined (blocks : List (List String)) : List String :=
  blocks.foldl (fun body b => if body.isEmpty then b else body ++ "" :: b) []

/-- The declarations in the namespaces of the package path. -/
def body (s : Schema) : List String :=
  s.package.foldr (fun name inner => nest s!"export namespace {name}" inner)
    (joined ((dialect.decls s).map (declLines s)))

/-- The lines of a file. -/
def lines (s : Schema) : List String :=
  "// Code generated by bidl. DO NOT EDIT." ::
    if (body s).isEmpty then [] else "" :: body s

end Idl.TypeScript
