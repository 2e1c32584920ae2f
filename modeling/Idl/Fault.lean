import Idl.FileTree
import Idl.Schema.Reader
import Idl.Schema.Validity
import Idl.Target.Basic
import Idl.Text.Escape
import Idl.Token.Scan

/-!
# Faults

* `Fault`: everything that can go wrong between a schema text and its result.
* `Fault.message`: the message for a person.
* `Fault.report`: the line that a failing run ends with.
-/

namespace Idl

/-- What can go wrong. -/
inductive Fault where
  /-- Text that belongs to no lexeme. -/
  | stray (stray : Stray)
  /-- Tokens that make no schema. -/
  | malformed (cause : Complaint) (position : Position)
  /-- Tokens without end that go on for ever. -/
  | endless
  /-- A schema that breaks a rule. -/
  | invalid (defect : Defect)
  /-- A schema without a form in a target. -/
  | refused (target : Target) (cause : Refusal)
  /-- A word that selects no target. -/
  | unknownTarget (word : String)
  /-- A failed file operation. -/
  | file (error : FileError)
  deriving DecidableEq

namespace Fault

/-- The fault in a failed reading of tokens. -/
def ofReadFailure : ReadFailure → Fault
  | .complaint cause position => malformed cause position
  | .endless => endless

/-- The sentence about stray text. -/
def strayMessage (s : Stray) : String := "Syntax error: " ++ Text.quote s.text

/-- The forms that the texts of a fault take, with what they mention. -/
inductive Shape where
  | parse (sentence : String) (position : Position)
  | value (sentence : String) (position : Position)
  | rule (sentence : String)
  | unsupported (target : Target) (form context : String)
  | collision (target : Target) (name context : String)
  | unknownTarget (word : String)
  | file (error : FileError)

/-- The form that the texts of a fault take. -/
def shape : Fault → Shape
  | stray s => .parse (strayMessage s) s.position
  | malformed cause position => .parse cause.message position
  | endless => .parse "The tokens do not end" .start
  | invalid (.misfit cause position) => .value (Defect.misfit cause position).message position
  | invalid (.valueTwice v enum position) =>
    .value (Defect.valueTwice v enum position).message position
  | invalid d => .rule d.message
  | refused t (.mapKey key object field) =>
    .unsupported t ("map key " ++ key.keyword) (object ++ "." ++ field)
  | refused t (.boolEnum enum) => .unsupported t Primitive.bool.keyword ("enum " ++ enum)
  | refused t (.collision name clash) => .collision t name clash.describe
  | unknownTarget word => .unknownTarget word
  | file e => .file e

/-- The name of the kind of a fault. -/
def kind (f : Fault) : String :=
  match f.shape with
  | .parse .. => "ParseError"
  | .value .. => "InvalidValue"
  | .rule _ => "VerifierError"
  | .unsupported .. => "UnsupportedType"
  | .collision .. => "NameCollision"
  | .unknownTarget _ => "UnknownLanguage"
  | .file _ => "Io"

/-- A place in words. -/
def placeText (p : Position) : String :=
  "line " ++ toString p.line ++ ", column " ++ toString p.column

/-- The message for a person. -/
def message (f : Fault) : String :=
  match f.shape with
  | .parse sentence position => "Parse error at " ++ placeText position ++ ": " ++ sentence
  | .value sentence position => "Invalid value at " ++ placeText position ++ ": " ++ sentence
  | .rule sentence => "Verifier error: " ++ sentence
  | .unsupported target form context =>
    "Unsupported type " ++ form ++ " in " ++ context ++ " for " ++ target.identifier
  | .collision target name context =>
    name ++ " is generated twice from " ++ context ++ " for " ++ target.identifier
  | .unknownTarget word =>
    "Unknown language \"" ++ word ++ "\" (expected one of: "
      ++ ", ".intercalate (Target.all.map Target.identifier) ++ ")"
  | .file e => "I/O error: " ++ e.message ++ " (os error " ++ toString e.code ++ ")"

/-- A text between quotes, without hidden characters. -/
def shown (s : String) : String := "\"" ++ Text.escapeHidden s ++ "\""

/-- A kind with named values. -/
def record (kind : String) (fields : List (String × String)) : String :=
  kind ++ " \x7b " ++ ", ".intercalate (fields.map fun f => f.1 ++ ": " ++ f.2) ++ " \x7d"

/-- A sentence and its place, by name. -/
def placedFields (sentence : String) (p : Position) : List (String × String) :=
  [("msg", shown sentence), ("line", toString p.line), ("column", toString p.column)]

/-- The kind of a fault with its values. -/
def details (f : Fault) : String :=
  match f.shape with
  | .parse sentence position => record f.kind (placedFields sentence position)
  | .value sentence position => record f.kind (placedFields sentence position)
  | .rule sentence => f.kind ++ "(" ++ shown sentence ++ ")"
  | .unsupported target form context =>
    record f.kind [("language", shown target.identifier), ("type_name", shown form),
      ("context", shown context)]
  | .collision target name context =>
    record f.kind [("language", shown target.identifier), ("name", shown name),
      ("context", shown context)]
  | .unknownTarget word => f.kind ++ "(" ++ shown word ++ ")"
  | .file e =>
    f.kind ++ "(" ++ record "Os" [("code", toString e.code), ("kind", e.kind),
      ("message", shown e.message)] ++ ")"

/-- The line that a failing run ends with. -/
def report (f : Fault) : String := "Error: " ++ f.details

end Fault

end Idl
