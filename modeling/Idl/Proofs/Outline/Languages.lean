import Mathlib
import Idl.Proofs.Outline.Sections
import Idl.Proofs.Target.EnumValues

/-!
# Outlines of source text

What a source text says about enums and objects, read from the text alone.

* `Arm`, `ChoiceOutline`, `RecordOutline`: what is read.
* `Language`: how the parts are written in a target.
* `Target.language`: the five languages.
* `Target.choices`, `Target.records`: the enums and the objects of a source text.
-/

namespace Idl

open Lexeme

namespace Outline

/-! ## What is read -/

/-- A case of a look-up. -/
inductive Arm where
  /-- What is looked up is found. -/
  | maps (pattern result : String)
  /-- Everything is found. -/
  | every (result : String)
  /-- Nothing else is found. -/
  | fails
  deriving DecidableEq

namespace Arm

/-- A case that is written with its pattern. An underscore stands for everything. -/
def ofPattern (pattern result : String) : Arm :=
  if pattern = "_" then every result else maps pattern result

def mapPattern (f : String → String) : Arm → Arm
  | maps pattern result => maps (f pattern) result
  | every result => every result
  | fails => fails

def mapResult (f : String → String) : Arm → Arm
  | maps pattern result => maps pattern (f result)
  | every result => every (f result)
  | fails => fails

theorem ofPattern_of_ne {pattern : String} (h : pattern ≠ "_") : ofPattern pattern = maps pattern := by
  funext result
  exact if_neg h

end Arm

/-- An enum with its look-ups. -/
structure ChoiceOutline where
  name : String
  members : List String
  index : List Arm
  value : List Arm
  deriving DecidableEq

/-- A member of an object, with the key that is attached to its declaration. -/
structure MemberOutline where
  name : String
  type : String
  key : Option String
  deriving DecidableEq

/-- An object. -/
structure RecordOutline where
  name : String
  members : List MemberOutline
  /-- The parameters of the constructor, with their types. -/
  params : List (String × Option String)
  /-- The members that the constructor sets, with what they are set to. -/
  assigned : List (String × String)
  /-- The keys of the encoded form, with what stands under them. -/
  encoded : List (String × String)
  /-- The keys that the arguments for a constructor are taken from, with the arguments. -/
  decoded : List (String × String)
  deriving DecidableEq

/-! ## Parts -/

/-- A line begins with a text. -/
@[simp] def starts (start : String) (l : Line) : Bool := (after? start l).isSome

/-- The lines after a given one. -/
def under? (first : String) : List Line → Option (List Line)
  | [] => none
  | l :: ls => if l = first.toList then some ls else none

/-- Splits a line at the first blank. -/
def cut (l : Line) : Line × Line := (l.takeWhile (· != ' '), l.dropWhile (· != ' '))

/-- Splits off the first column of a row. -/
def column (l : Line) : Line × Line := ((cut l).1, (cut l).2.dropWhile (· == ' '))

/-- Splits a line at the last blank. -/
def cutLast (l : Line) : Line × Line :=
  ((l.reverse.dropWhile (· != ' ')).tail.reverse, (l.reverse.takeWhile (· != ' ')).reverse)

/-- Splits off a word in double quotes. -/
def quoted? (l : Line) : Option (Line × Line) := do
  let (w, rest) ← word? (← after? "\"" l)
  return (w, ← after? "\"" rest)

/-- Splits at the commas that stand in no angle brackets, where `depth` of them are open. -/
def pieces : ℕ → Line → List Line
  | _, [] => [[]]
  | depth, c :: cs =>
    if c = ',' ∧ depth = 0 then [] :: pieces 0 cs
    else
      let inner := if c = '<' then depth + 1 else if c = '>' then depth - 1 else depth
      (pieces inner cs).modifyHead (c :: ·)

/-- The items of a list with commas between them. -/
def items (l : Line) : List Line :=
  if l = [] then [] else (pieces 0 l).map (List.dropWhile isMargin)

/-- A name, a colon and a type. -/
def annotated? (l : Line) : Option (Line × Line) := do
  let (name, rest) ← word? l
  return (name, ← after? ": " rest)

/-- The key in the first square brackets. -/
def keyIn? (l : Line) : Option Line := do
  let (key, rest) ← quoted? (l.dropWhile (· != '[')).tail
  let _ ← after? "]" rest
  return key

/-! ## Look-ups -/

/-- A case with an arrow. -/
def arrowArm? (fails : Line → Bool) (result? : Line → Option Line) (l : Line) : Option Arm := do
  let r ← between? " => " "," (cut l).2
  if (cut l).1 = ['_'] ∧ fails r then return .fails
  return .ofPattern (.ofList (cut l).1) (.ofList (← result? r))

/-- Cases with labels, each with its result on the line after it. -/
def labelArms? (fails : Line → Bool) (result? : Line → Option Line) : List Line → Option (List Arm)
  | [] => some []
  | [_] => none
  | l :: m :: ls =>
    if l = "default:".toList then if (m :: ls).any fails then some [.fails] else none
    else do
      let pattern ← between? "case " ":" l
      let result ← result? m
      return .maps (.ofList pattern) (.ofList result) :: (← labelArms? fails result? ls)

/-- A member without the name of its enum. -/
def unqualified (name mark : String) (member : String) : String :=
  String.ofList ((((after? name member.toList).bind (after? mark))).getD member.toList)

/-! ## Languages -/

/-- How the parts of a source text are written. -/
structure Language where
  reader : Reader
  /-- The mark between the name of an enum and a member. -/
  mark : String
  /-- The members that an enum declares. -/
  members : List Line → Option (List Line)
  indexArms : List Line → Option (List Arm)
  valueArms : List Line → Option (List Arm)
  slots : List Line → Option (List MemberOutline)
  param : Line → Option (String × Option String)
  assigned : List Line → Option (List (String × String))
  encoded : List Line → Option (List (String × String))
  decoded : List Line → Option (List (String × String))
  /-- The sections of an enum next to each other. -/
  regroup : List (Heading × List Line) → List (Heading × List Line)

namespace Language

variable (L : Language)

/-- An enum with its look-ups. -/
def choice? (name : Line) (members index value : List Line) : Option ChoiceOutline := do
  let n := String.ofList name
  return ⟨n, (← L.members members).map .ofList,
    (← L.indexArms index).map (.mapPattern (unqualified n L.mark)),
    (← L.valueArms value).map (.mapResult (unqualified n L.mark))⟩

/-- The enums among sections. -/
def choicesIn : List (Heading × List Line) → Option (List ChoiceOutline)
  | (.choice n, members) :: (.index, index) :: (.value, value) :: rest => do
    return (← L.choice? n members index value) :: (← choicesIn rest)
  | _ :: rest => choicesIn rest
  | [] => some []

/-- An object. -/
def record? (name : Line) (members : List Line) (params : Line) (body encode decode : List Line) :
    Option RecordOutline := do
  return ⟨.ofList name, ← L.slots members, ← (items params).mapM L.param, ← L.assigned body,
    ← L.encoded encode, ← L.decoded decode⟩

/-- The objects among sections. -/
def recordsIn : List (Heading × List Line) → Option (List RecordOutline)
  | (.record n, members) :: (.construct params, body) :: (.encode, encode) :: (.decode, decode)
      :: rest => do
    return (← L.record? n members params body encode decode) :: (← recordsIn rest)
  | (.record n, members) :: (.construct params, body) :: rest => do
    return (← L.record? n members params body [] []) :: (← recordsIn rest)
  | _ :: rest => recordsIn rest
  | [] => some []

/-- The sections of a source text. -/
def sectionsOf (source : String) : List (Heading × List Line) :=
  L.regroup (sections L.reader none (linesOf source))

theorem sectionsOf_eq (h : L.regroup = id) (source : String) :
    L.sectionsOf source = sections L.reader none (linesOf source) := by
  rw [sectionsOf, h, id]

end Language

/-! ### Rust -/

/-- Members with the keys on lines before them, if they are not the names. -/
def renamedSlots? : Option Line → List Line → Option (List MemberOutline)
  | _, [] => some []
  | key, l :: ls =>
    match between? "#[serde(rename = \"" "\")]" l with
    | some renamed => renamedSlots? (some renamed) ls
    | none => do
      let (name, type) ← annotated? (← between? "pub " "," l)
      return ⟨.ofList name, .ofList type, some (.ofList (key.getD name))⟩
        :: (← renamedSlots? none ls)

/-- Rust. -/
def rust : Language where
  reader :=
    { opens l :=
        ((named? "pub enum " " \x7b" l).map .choice).or <|
        ((after? "pub fn index_of(" l).map fun _ => .index).or <|
        ((after? "pub fn value_at(" l).map fun _ => .value).or <|
        ((named? "pub struct " " \x7b" l).map .record).or <|
        (between? "pub fn new(" ") -> Self \x7b" l).map .construct
      closes _ l := l = "\x7d".toList }
  mark := "::"
  members := List.mapM (before? ",")
  indexArms ls := (under? "match self \x7b" ls).bind (List.mapM (arrowArm? (fun _ => false) some))
  valueArms ls :=
    (under? "match index \x7b" ls).bind
      (List.mapM (arrowArm? (starts "Err(") (between? "Ok(" ")")))
  slots := renamedSlots? none
  param l := (annotated? l).map fun p => (.ofList p.1, some (.ofList p.2))
  assigned ls := do
    let names ← (← under? "Self \x7b" ls).mapM (before? ",")
    return names.map fun n => (.ofList n, .ofList n)
  encoded _ := some []
  decoded _ := some []
  regroup := id

/-! ### Go -/

/-- A row of a struct: a name, a type and a tag with the key. -/
def taggedSlot? (l : Line) : Option MemberOutline := do
  let (name, rest) := column l
  let (type, tag) := column rest
  let (key, close) ← quoted? (← after? "\x60json:" tag)
  if close = "\x60".toList then
    return ⟨.ofList name, .ofList type, some (.ofList key)⟩
  else none

/-- A row of a composite value: a member and what it is set to. -/
def keyedRow? (l : Line) : Option (String × String) := do
  let (name, value) := column l
  return (.ofList (← before? ":" name), .ofList (← before? "," value))

/-- Go. -/
def go : Language where
  reader :=
    { opens l :=
        ((named? "type " " struct \x7b" l).map .record).or <|
        (((after? "type " l).bind word?).bind fun w =>
          ((after? " " w.2).bind word?).bind fun type =>
            if type.2 = [] then some (.choice w.1) else none).or <|
        ((after? "const (" l).map fun _ => .group []).or <|
        (((after? "func IndexOf" l).bind word?).bind fun w =>
          (after? "(value " w.2).map fun _ => .index).or <|
        (((after? "func ValueAt" l).bind word?).bind fun w =>
          (after? "(index " w.2).map fun _ => .value).or <|
        ((after? "func New" l).bind word?).bind fun w =>
          (after? "(" w.2).bind fun rest =>
            (after? ") *" (rest.dropWhile (· != ')'))).map fun _ =>
              .construct (rest.takeWhile (· != ')'))
      closes
        | .choice _, l => l = ")".toList
        | .group _, l => l = ")".toList
        | _, l => l = "\x7d".toList }
  mark := "."
  members ls := do return (← under? "const (" (← under? "" ls)).map fun l => (cut l).1
  indexArms ls :=
    (under? "switch value \x7b" ls).bind
      (labelArms? (starts "return -1, fmt.Errorf(") (between? "return " ", nil"))
  valueArms ls :=
    (under? "switch index \x7b" ls).bind
      (labelArms? (starts "return zero, fmt.Errorf(") (between? "return " ", nil"))
  slots := List.mapM taggedSlot?
  param l := (after? " " (cut l).2).map fun type => (.ofList (cut l).1, some (.ofList type))
  assigned
    | [] => none
    | l :: ls => (after? "return &" l).bind fun _ => ls.mapM keyedRow?
  encoded _ := some []
  decoded _ := some []
  regroup := id

/-! ### C# -/

/-- A constant, or the member of an enum. -/
def constant? (l : Line) : Option Line :=
  match after? "public const " l with
  | some rest => (after? " " (cut rest).2).map fun r => (cut r).1
  | none => (after? " = " (cut l).2).map fun _ => (cut l).1

/-- Properties, each with the key on the line before it and a blank line after it. -/
def properties? : List Line → Option (List MemberOutline)
  | [] => some []
  | tag :: property :: blank :: ls => do
    let (key, close) ← quoted? (← after? "[JsonPropertyName(" tag)
    let (type, name) := cutLast (← between? "public " " \x7b get; set; \x7d" property)
    if close = ")]".toList ∧ blank = [] then
      return ⟨.ofList name, .ofList type, some (.ofList key)⟩ :: (← properties? ls)
    else none
  | _ => none

/-- A class of look-ups belongs to the enum before it, and a class of constants with look-ups after
it is an enum. -/
def mergeGroups : List (Heading × List Line) → List (Heading × List Line)
  | (.choice n, members) :: (.group _, _) :: rest => (.choice n, members) :: mergeGroups rest
  | (.group n, members) :: (.index, index) :: rest =>
    (.choice n, members) :: (.index, index) :: mergeGroups rest
  | s :: rest => s :: mergeGroups rest
  | [] => []

/-- An assignment to a member. -/
def assignment? (l : Line) : Option (String × String) :=
  (between? " = " ";" (cut l).2).map fun value => (.ofList (cut l).1, .ofList value)

/-- C#. -/
def csharp : Language where
  reader :=
    { opens l :=
        (((after? "public enum " l).bind word?).bind fun w =>
          (after? " : " w.2).map fun _ => .choice w.1).or <|
        ((named? "public static class " "" l).map .group).or <|
        ((named? "public static partial class " "" l).map .group).or <|
        ((after? "public static int IndexOf(" l).map fun _ => .index).or <|
        ((named? "public static " " ValueAt(int index)" l).map fun _ => .value).or <|
        ((named? "public class " "" l).map .record).or <|
        ((after? "public " l).bind word?).bind fun w => (between? "(" ")" w.2).map .construct
      closes
        | .group _, l => l != "\x7b".toList && !starts "public const " l
        | .index, l => l = "\x7d;".toList
        | .value, l => l = "\x7d;".toList
        | .record _, l => l = "[JsonConstructor]".toList
        | _, l => l = "\x7d".toList }
  mark := "."
  members ls := (under? "\x7b" ls).bind (List.mapM constant?)
  indexArms ls := do
    (← under? "\x7b" (← under? "return value switch" (← under? "\x7b" ls))).mapM
      (arrowArm? (starts "throw ") some)
  valueArms ls := do
    (← under? "\x7b" (← under? "return index switch" (← under? "\x7b" ls))).mapM
      (arrowArm? (starts "throw ") some)
  slots ls := (under? "\x7b" ls).bind properties?
  param l := some (.ofList (cutLast l).2, some (.ofList (cutLast l).1))
  assigned ls := (under? "\x7b" ls).bind (List.mapM assignment?)
  encoded _ := some []
  decoded _ := some []
  regroup := mergeGroups

/-! ### Dart -/

/-- An entry of an encoded object. -/
def entry? (l : Line) : Option (String × String) := do
  let (key, rest) ← quoted? l
  return (.ofList key, .ofList (← between? ": " "," rest))

/-- An argument that is taken from an encoded object. -/
def argument? (l : Line) : Option (String × String) :=
  (keyIn? l).map fun key => (.ofList key, .ofList l)

/-- Dart. -/
def dart : Language where
  reader :=
    { opens l :=
        ((named? "enum " " \x7b" l).map .choice).or <|
        ((after? "static int indexOf(" l).map fun _ => .index).or <|
        (((after? "static " l).bind word?).bind fun w =>
          (after? " valueAt(int index) => " w.2).map fun _ => .value).or <|
        ((named? "class " " \x7b" l).map .record).or <|
        ((word? l).bind fun w => (between? "(" ");" w.2).map .construct).or <|
        ((after? "Map<String, dynamic> toMap() => " l).map fun _ => .encode).or <|
        ((after? "factory " l).bind word?).bind fun w =>
          (after? ".fromMap(" w.2).map fun _ => .decode
      closes
        | .choice _, l => l = []
        | .record _, l => !starts "final " l
        | .construct _, _ => true
        | .decode, l => l = ");".toList
        | _, l => l = "\x7d;".toList }
  mark := "."
  members := List.mapM fun l => (word? l).bind fun w => (after? "(" w.2).map fun _ => w.1
  indexArms := List.mapM (arrowArm? (starts "throw ") some)
  valueArms := List.mapM (arrowArm? (starts "throw ") some)
  slots := List.mapM fun l =>
    (between? "final " ";" l).map fun r =>
      ⟨.ofList (cutLast r).2, .ofList (cutLast r).1, none⟩
  param l := (after? "this." l).map fun name => (.ofList name, none)
  assigned ls := if ls = [] then some [] else none
  encoded := List.mapM entry?
  decoded := List.mapM fun l => (before? "," l).bind argument?
  regroup := id

/-! ### TypeScript -/

/-- TypeScript. -/
def typescript : Language where
  reader :=
    { opens l :=
        ((named? "export enum " " \x7b" l).map .choice).or <|
        (((after? "export function indexOf" l).bind word?).bind fun w =>
          (after? "(value: " w.2).map fun _ => .index).or <|
        (((after? "export function valueAt" l).bind word?).bind fun w =>
          (after? "(index: " w.2).map fun _ => .value).or <|
        ((named? "export class " " \x7b" l).map .record).or <|
        ((between? "constructor(" ") \x7b" l).map .construct).or <|
        ((after? "toObject(): any" l).map fun _ => .encode).or <|
        (after? "static fromObject(" l).map fun _ => .decode
      closes
        | .record _, l => l = [] || starts "constructor(" l
        | .encode, l => starts "\x7d" l
        | .decode, l => l = ");".toList || l = "\x7d".toList
        | _, l => l = "\x7d".toList }
  mark := "."
  members := List.mapM constant?
  indexArms ls :=
    (under? "switch (value) \x7b" ls).bind (labelArms? (starts "throw ") (between? "return " ";"))
  valueArms ls :=
    (under? "switch (index) \x7b" ls).bind (labelArms? (starts "throw ") (between? "return " ";"))
  slots := List.mapM fun l => do
    let (name, type) ← annotated? (← before? ";" l)
    return ⟨.ofList name, .ofList type, none⟩
  param l := (annotated? l).map fun p => (.ofList p.1, some (.ofList p.2))
  assigned := List.mapM fun l => (after? "this." l).bind assignment?
  encoded
    | [] => none
    | l :: ls => (after? "return \x7b" l).bind fun _ => ls.mapM entry?
  decoded
    | [] => none
    | l :: ls =>
      (after? "return new " l).bind fun _ => ls.mapM fun l => argument? ((before? "," l).getD l)
  regroup := id

end Outline

open Outline

/-- How a target's source text is written. -/
def Target.language : Target → Language
  | rust => Outline.rust
  | go => Outline.go
  | csharp => Outline.csharp
  | dart => Outline.dart
  | typescript => Outline.typescript

/-- The enums of a source text. -/
def Target.choices (t : Target) (source : String) : Option (List ChoiceOutline) :=
  t.language.choicesIn (t.language.sectionsOf source)

/-- The objects of a source text. -/
def Target.records (t : Target) (source : String) : Option (List RecordOutline) :=
  t.language.recordsIn (t.language.sectionsOf source)

end Idl
