import Idl.Schema.Basic

/-!
# Target languages

* `Target`: the languages for which source text is made, and their identifiers.
* `Refusal`: why a schema has no form in a target.
* `distinct`: different names of a schema stay different in a target.
-/

namespace Idl

/-- A language for which source text is made. -/
inductive Target where
  | rust
  | go
  | csharp
  | dart
  | typescript
  deriving DecidableEq

namespace Target

/-- Every target. -/
def all : List Target := [rust, go, csharp, dart, typescript]

/-- The word that selects a target. -/
def identifier : Target → String
  | rust => "rust"
  | go => "go"
  | csharp => "csharp"
  | dart => "dart"
  | typescript => "ts"

/-- The target that a word selects. -/
def ofIdentifier? (word : String) : Option Target :=
  all.find? fun t => t.identifier = word

end Target

/-! ## Refusals -/

/-- Where a generated name comes from twice. -/
inductive Clash where
  /-- Two names of one owner. -/
  | names (owner first second : String)
  /-- The class that gathers constants without a group name. -/
  | unnamedConsts
  deriving DecidableEq

/-- The words for the place of a clash. -/
def Clash.describe : Clash → String
  | names owner first second => owner ++ "." ++ first ++ " and " ++ owner ++ "." ++ second
  | unnamedConsts => "unnamed consts"

/-- Why a schema has no form in a target. -/
inductive Refusal where
  /-- A field holds maps whose keys cannot be written as text. -/
  | mapKey (key : Primitive) (object field : String)
  /-- An enum of truth values. -/
  | boolEnum (enum : String)
  /-- A name is generated twice. -/
  | collision (name : String) (clash : Clash)
  deriving DecidableEq

/-- A key that survives being written as text. -/
def Primitive.isKey (p : Primitive) : Bool := p.isInteger || p = string

/-- The maps in the fields of an object have keys that can be written as text. -/
def checkKeys (o : ObjectDecl) : Except Refusal Unit :=
  o.fields.forM fun f =>
    match f.type.mapKey? with
    | some k => if k.isKey then .ok () else .error (.mapKey k o.name f.name)
    | none => .ok ()

/-- The first pair whose second component stands in `seen` or in an earlier pair, with the first
component of that pair: the earlier name, the later name and what both became. -/
def firstClash? (seen : List (String × String)) :
    List (String × String) → Option (String × String × String)
  | [] => none
  | (source, made) :: rest =>
    match seen.find? fun p => p.2 = made with
    | some (first, _) => some (first, source, made)
    | none => firstClash? ((source, made) :: seen) rest

/-- The names of an owner, each with the name made from it, stay different. -/
def distinct (owner : String) (names : List (String × String)) : Except Refusal Unit :=
  match firstClash? [] names with
  | some (first, second, made) => .error (.collision made (.names owner first second))
  | none => .ok ()

end Idl
