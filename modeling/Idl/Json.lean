import Idl.Decimal.Layout
import Idl.Text.Quoted

/-!
# JSON documents

* `Json`: a document, with the fields of its objects in order.
* `Json.pretty`: its text, one item or field on a line, indented by two blanks a level.
-/

namespace Idl

/-- A JSON document. -/
inductive Json where
  | null
  | bool (value : Bool)
  | int (value : Int)
  | float (value : Binary64)
  | string (value : String)
  | array (items : List Json)
  | object (fields : List (String × Json))

namespace Json

/-- Numbers in documents: a power of ten with a sign from `10 ^ 16` on and below `10 ^ -5`, a point
otherwise. -/
def numbers : Decimal.Layout :=
  ⟨.even, fun x => -5 ≤ x && x < 16, true, true⟩

/-- The text of a number. What is not finite has none. -/
def floatText : Binary64 → String
  | x@(.finite ..) => numbers.write x
  | _ => "null"

/-- The blanks in front of a line. -/
def margin (depth : Nat) : String :=
  String.ofList (List.replicate (2 * depth) ' ')

mutual

/-- The text of a document whose lines stand under `depth` levels. -/
def prettyAt (depth : Nat) : Json → String
  | null => "null"
  | bool b => if b then "true" else "false"
  | int i => toString i
  | float x => floatText x
  | string s => Text.quote s
  | array [] => "[]"
  | array (x :: xs) => "[\n" ++ itemsAt (depth + 1) (x :: xs) ++ "\n" ++ margin depth ++ "]"
  | object [] => "\x7b\x7d"
  | object (f :: fs) =>
    "\x7b\n" ++ fieldsAt (depth + 1) (f :: fs) ++ "\n" ++ margin depth ++ "\x7d"

/-- The lines of the items of an array. -/
def itemsAt (depth : Nat) : List Json → String
  | [] => ""
  | [x] => margin depth ++ prettyAt depth x
  | x :: xs => margin depth ++ prettyAt depth x ++ ",\n" ++ itemsAt depth xs

/-- The lines of the fields of an object. -/
def fieldsAt (depth : Nat) : List (String × Json) → String
  | [] => ""
  | [(k, x)] => margin depth ++ Text.quote k ++ ": " ++ prettyAt depth x
  | (k, x) :: fs =>
    margin depth ++ Text.quote k ++ ": " ++ prettyAt depth x ++ ",\n" ++ fieldsAt depth fs

end

/-- The text of a document. -/
def pretty (j : Json) : String := prettyAt 0 j

end Json

end Idl
