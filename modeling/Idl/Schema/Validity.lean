import Idl.Schema.Basic

/-!
# Valid schemas

Names are unique where they are declared, enums have values, and literals fit their types. Names of
other objects and enums are not looked up.

* `Defect`: a broken rule.
* `Schema.validate`: the first defect. A name declared twice comes before everything else; then
  entries are looked at in order.
-/

namespace Idl

/-- A broken rule. -/
inductive Defect where
  /-- Two declarations have one name. -/
  | nameTwice (name : String)
  /-- An enum without values. -/
  | noValues (enum : String)
  /-- Two members have one name. -/
  | memberTwice (member owner : String)
  /-- A literal that its type does not hold. -/
  | misfit (cause : Misfit) (position : Position)
  /-- Two members of an enum have one value. -/
  | valueTwice (value : Literal) (enum : String) (position : Position)
  deriving DecidableEq

/-- The sentence about a defect. -/
def Defect.message : Defect → String
  | nameTwice name => "The name " ++ Text.quote name ++ " is defined twice"
  | noValues enum => "The enum " ++ Text.quote enum ++ " declares no values"
  | memberTwice member owner =>
    "The member " ++ Text.quote member ++ " of " ++ Text.quote owner ++ " is defined twice"
  | misfit cause _ => cause.message
  | valueTwice value enum _ =>
    "The value " ++ value.display ++ " of " ++ Text.quote enum ++ " is used twice"

/-- The first element that stands in `seen` or earlier in the list. -/
def firstRepeat? (seen : List String) : List String → Option String
  | [] => none
  | n :: ns => if n ∈ seen then some n else firstRepeat? (n :: seen) ns

/-- The names that an entry adds to the schema. -/
def Entry.names : Entry → List String
  | .const c => c.name.toList ++ c.members.map c.binding
  | .enum e => [e.name]
  | .object o => [o.name]

/-- The members of an owner have different names. -/
def checkMembers (owner : String) (names : List String) : Except Defect Unit :=
  match firstRepeat? [] names with
  | some n => .error (.memberTwice n owner)
  | none => .ok ()

/-- A literal fits its type. -/
def checkLiteral (type : Primitive) (m : Member) : Except Defect Unit :=
  (type.fit m.value).mapError fun cause => .misfit cause m.position

/-- The members of an enum fit its type, and each has a value that is not among `seen` or before
it. -/
def checkValues (e : EnumDecl) (seen : List Literal) : List Member → Except Defect Unit
  | [] => .ok ()
  | m :: ms => do
    checkLiteral e.type m
    if seen.any (m.value.same ·) then .error (.valueTwice m.value e.name m.position)
    else checkValues e (m.value :: seen) ms

/-- The rules for one entry. -/
def Entry.validate : Entry → Except Defect Unit
  | .const c => do
    checkMembers (c.name.getD "const") (c.members.map Member.name)
    c.members.forM (checkLiteral c.type)
  | .enum e => do
    if e.members.isEmpty then .error (.noValues e.name)
    checkMembers e.name (e.members.map Member.name)
    checkValues e [] e.members
  | .object o => checkMembers o.name (o.fields.map Field.name)

/-- The rules for a schema. -/
def Schema.validate (s : Schema) : Except Defect Unit := do
  if let some n := firstRepeat? [] (s.entries.flatMap Entry.names) then .error (.nameTwice n)
  s.entries.forM Entry.validate

end Idl
