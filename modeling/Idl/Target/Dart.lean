import Idl.Naming
import Idl.Target.Source

/-!
# Dart

Constants become top-level constants. An enum becomes an enum that carries its values. An object
becomes a class that turns itself into a map under the names of the schema and back. The package
path names the library.

* `Dart.dialect`: types, literals and names.
* `Dart.Expr`: the expressions that encode and decode a field.
* `Dart.encode`, `Dart.decode`: these expressions for a type.
* `Dart.check`: what has no form.
* `Dart.lines`: the lines of a file.
-/

namespace Idl.Dart

/-- Reserved words. -/
def keywords : List String :=
  ["assert", "break", "case", "catch", "class", "const", "continue", "default", "do", "else",
   "enum", "extends", "false", "final", "finally", "for", "if", "in", "is", "new", "null",
   "rethrow", "return", "super", "switch", "this", "throw", "true", "try", "var", "void", "while",
   "with"]

/-- What every generated enum has beside its members. -/
def enumItems : List String :=
  ["value", "values", "index", "name", "hashCode", "runtimeType", "toString", "noSuchMethod",
   "fromValue", "indexOf", "valueAt"]

/-- What every generated class has beside its fields. -/
def classItems : List String :=
  ["toMap", "toJson", "fromMap", "fromJson", "hashCode", "runtimeType", "toString", "noSuchMethod"]

/-- The type of a value. There is one type of integers. -/
def primitive : Primitive → String
  | .float32 => "double"
  | .float64 => "double"
  | .string => "String"
  | .bool => "bool"
  | _ => "int"

/-- A string literal. A dollar sign would start an expression. -/
def stringText (s : String) : String :=
  String.ofList ((Text.quoteChars s.toList).flatMap fun c => if c = '$' then ['\\', '$'] else [c])

/-- The name of a field. -/
def fieldName (o : ObjectDecl) (f : Field) : String :=
  avoid (o.name :: classItems ++ keywords) (Naming.camel f.name)

/-- The words of the target. -/
def dialect : Dialect where
  primitive := primitive
  constant := primitive
  list _ element := s!"List<{element}>"
  map key value := s!"Map<{key}, {value}>"
  named _ name := name
  text := stringText
  suffix _ := ""
  binding c m := avoid keywords (c.binding m)
  title name := name
  variant _ m := avoid (enumItems ++ keywords) m.name
  member := fieldName
  param := fieldName

/-! ## Encoding and decoding -/

/-- An expression. -/
inductive Expr where
  /-- A variable or a field of the object. -/
  | var (name : String)
  /-- The value under a key of the decoded map. -/
  | entry (key : String)
  /-- The value of an enum's member. -/
  | value (e : Expr)
  /-- The map of an object. -/
  | toMap (e : Expr)
  /-- A value taken for one of a type. -/
  | cast (e : Expr) (type : String)
  | toDouble (e : Expr)
  | toText (e : Expr)
  | parseInt (e : Expr)
  /-- The member of an enum with a value. -/
  | fromValue (enum : String) (e : Expr)
  /-- The object of a map. -/
  | fromMap (object : String) (e : Expr)
  /-- A list with `body` for each element `x`. -/
  | each (e : Expr) (x : String) (body : Expr)
  /-- A map with `key` and `value` for each entry of `k` and `v`. -/
  | entries (e : Expr) (k v : String) (key value : Expr)
  deriving DecidableEq

namespace Expr

/-- The expression takes a value for one of a type. -/
def isCast : Expr → Bool
  | cast .. => true
  | _ => false

/-- The text of an expression before a method's name. -/
def receiver (isCast : Bool) (text : String) : String :=
  if isCast then s!"({text})" else text

/-- The text of an expression. -/
def text : Expr → String
  | var name => name
  | entry key => s!"map[{stringText key}]"
  | value e => receiver e.isCast e.text ++ ".value"
  | toMap e => receiver e.isCast e.text ++ ".toMap()"
  | cast e type => s!"{e.text} as {type}"
  | toDouble e => receiver e.isCast e.text ++ ".toDouble()"
  | toText e => receiver e.isCast e.text ++ ".toString()"
  | parseInt e => s!"int.parse({e.text})"
  | fromValue enum e => s!"{enum}.fromValue({e.text})"
  | fromMap object e => s!"{object}.fromMap({e.text})"
  | each e x body => receiver e.isCast e.text ++ s!".map(({x}) => {body.text}).toList()"
  | entries e k v key val =>
    receiver e.isCast e.text ++ s!".map(({k}, {v}) => MapEntry({key.text}, {val.text}))"

end Expr

/-- The variable for elements at a depth of lists. -/
def elementVar (depth : Nat) : String := s!"e{depth}"

/-- The variable for keys. -/
def keyVar (depth : Nat) : String := s!"k{depth}"

/-- The variable for values. -/
def valueVar (depth : Nat) : String := s!"v{depth}"

/-- The encoded form of the value of `e`. A list whose elements stay as they are stays as it is, and
integer keys become text. -/
def encode (s : Schema) : FieldType → Expr → Nat → Expr
  | .primitive _, e, _ => e
  | .named n, e, _ => if (s.enumType? n).isSome then .value e else .toMap e
  | .list t, e, depth =>
    let x := elementVar depth
    let body := encode s t (.var x) (depth + 1)
    if body = .var x then e else .each e x body
  | .map key _, e, depth =>
    if key.isInteger then
      .entries e (keyVar depth) (valueVar depth) (.toText (.var (keyVar depth)))
        (.var (valueVar depth))
    else e

/-- The value of a primitive type from its encoded form. -/
def decodePrimitive (p : Primitive) (e : Expr) : Expr :=
  if p.isFloat then .toDouble (.cast e "num") else .cast e (primitive p)

/-- The value of a type from its encoded form. -/
def decode (s : Schema) : FieldType → Expr → Nat → Expr
  | .primitive p, e, _ => decodePrimitive p e
  | .named n, e, _ =>
    match s.enumType? n with
    | some p => .fromValue n (decodePrimitive p e)
    | none => .fromMap n (.cast e "Map<String, dynamic>")
  | .list t, e, depth =>
    let x := elementVar depth
    .each (.cast e "List") x (decode s t (.var x) (depth + 1))
  | .map key value, e, depth =>
    let k := .cast (.var (keyVar depth)) "String"
    .entries (.cast e "Map") (keyVar depth) (valueVar depth)
      (if key.isInteger then .parseInt k else k) (decodePrimitive value (.var (valueVar depth)))

/-! ## Checks -/

/-- Why a declaration has no form. -/
def checkDecl : Decl → Except Refusal Unit
  | .constants _ => .ok ()
  | .choice c => c.checkVariants
  | .record r => do
    checkKeys r.source
    r.checkMembers

/-- Why a schema has no form. -/
def check (s : Schema) : Except Refusal Unit :=
  (dialect.decls s).forM checkDecl

/-! ## Declarations -/

/-- The step between levels. -/
def margin : String := "  "

/-- A line and lines between braces. -/
abbrev nest (head : String) (body : List String) : List String := block margin head body

/-- An expression over several lines, whose parts stand far in. -/
def spread (head : String) (parts : List String) (close : String) : List String :=
  [head] ++ indent "      " parts ++ ["    " ++ close]

/-- A group of constants. -/
def constantsLines (g : Constants) : List String :=
  g.rows.map fun c => s!"const {g.type} {c.name} = {c.literal};"

/-- The members of an enum with their values. The last one ends the list. -/
def variantLines : List Variant → List String
  | [] => []
  | [v] => [s!"{v.name}({v.literal});"]
  | v :: vs => s!"{v.name}({v.literal})," :: variantLines vs

/-- The members of an enum with the name of the enum. -/
def qualified (c : Choice) : List String :=
  c.variants.map fun v => s!"{c.name}.{v.name}"

/-- The index of a member. -/
def indexLookup (c : Choice) : Lookup := ⟨indexArms (qualified c), []⟩

/-- The member at an index. -/
def valueLookup (c : Choice) : Lookup :=
  let last : Int := c.variants.length - 1
  ⟨valueArms (qualified c), [s!"throw RangeError.range(index, 0, {last}, 'index')"]⟩

/-- An enum. -/
def choiceLines (c : Choice) : List String :=
  let name := c.name
  let type := c.type
  nest s!"enum {name}"
    (variantLines c.variants
      ++ ["", s!"const {name}(this.value);", "", s!"final {type} value;", ""]
      ++ spread s!"static {name} fromValue({type} value) => values.firstWhere("
        ["(e) => e.value == value,",
         s!"orElse: () => throw ArgumentError.value(value, 'value', 'Unknown {name} value'),"] ");"
      ++ [""]
      ++ spread s!"static int indexOf({name} value) => switch (value) \x7b"
        ((indexLookup c).arrows id) "\x7d;"
      ++ [""]
      ++ spread s!"static {name} valueAt(int index) => switch (index) \x7b"
        ((valueLookup c).arrows id) "\x7d;")

/-- The entry of a field in the encoded map. -/
def encodeLine (s : Schema) (slot : Slot) : String :=
  stringText slot.key ++ ": " ++ (encode s slot.field.type (.var slot.member) 0).text ++ ","

/-- The argument for a field from the decoded map. -/
def decodeLine (s : Schema) (slot : Slot) : String :=
  (decode s slot.field.type (.entry slot.key) 0).text ++ ","

/-- An object. -/
def recordLines (s : Schema) (r : Record) : List String :=
  let name := r.name
  let params := commas (r.slots.map fun f => s!"this.{f.param}")
  nest s!"class {name}"
    ((r.slots.map fun f => s!"final {f.type} {f.member};")
      ++ (if r.slots.isEmpty then [] else [""])
      ++ [s!"{name}({params});", ""]
      ++ spread "Map<String, dynamic> toMap() => \x7b" (r.slots.map (encodeLine s)) "\x7d;"
      ++ ["", "String toJson() => jsonEncode(toMap());", ""]
      ++ spread s!"factory {name}.fromMap(Map<String, dynamic> map) => {name}("
        (r.slots.map (decodeLine s)) ");"
      ++ ["", s!"factory {name}.fromJson(String source) =>",
          s!"    {name}.fromMap(jsonDecode(source) as Map<String, dynamic>);"])

/-- A declaration. -/
def declLines (s : Schema) : Decl → List String
  | .constants g => constantsLines g
  | .choice c => choiceLines c
  | .record r => recordLines s r

/-! ## Files -/

/-- The lines of a file. -/
def lines (s : Schema) : List String :=
  ["// Code generated by bidl. DO NOT EDIT."]
    ++ (if s.package.isEmpty then [] else ["", "library " ++ ".".intercalate s.package ++ ";"])
    ++ (if s.hasObjects then ["", "import 'dart:convert';"] else [])
    ++ spaced ((dialect.decls s).map (declLines s))

end Idl.Dart
