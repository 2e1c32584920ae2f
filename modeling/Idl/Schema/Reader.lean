import Idl.Schema.Basic

/-!
# Reading a schema from tokens

A cursor stands in a list of tokens. A list that does not end in the token for the end is read as
if its last token came again and again. What is read is laid down as a tree of looks and moves, in
which a move needs a reason why the token that it leaves has a text.

* `Complaint`: what is wrong at a token.
* `Cursor.collect`: repeats a step up to a given token.
* `Plan`, `Plan.step`: a reader as a tree, and what it does at a cursor.
* `Schema.ofTokens`: the schema of a token list.
-/

namespace Idl

/-! ## Complaints -/

/-- What could have stood at a place. -/
inductive Expected where
  | packageName
  | identifier
  | fieldName
  | type
  | primitiveType
  | value
  /-- A fixed word or mark. -/
  | word (text : String)
  deriving DecidableEq

/-- The words for what was expected. -/
def Expected.describe : Expected → String
  | packageName => "package name"
  | identifier => "identifier"
  | fieldName => "field name"
  | type => "type"
  | primitiveType => "primitive type"
  | value => "value"
  | word text => Text.quote text

/-- What is wrong at a token. -/
inductive Complaint where
  /-- The list has no token at all. -/
  | noEnd
  | expected (what : Expected) (found : String)
  /-- No entry begins with this token. -/
  | unexpected (found : String)
  /-- A literal of this look has no value. -/
  | invalid (kind : LiteralKind) (text : String)
  deriving DecidableEq

/-- The words for a token's text. -/
def describeFound (text : String) : String :=
  if text.isEmpty then "end of file" else Text.quote text

/-- The sentence about a complaint. -/
def Complaint.message : Complaint → String
  | noEnd => "Expected end of file token"
  | expected what found =>
    "Expected " ++ what.describe ++ " but found " ++ describeFound found
  | unexpected found => "Unexpected token " ++ describeFound found
  | invalid kind text => "Invalid " ++ kind.word ++ " " ++ Text.quote text

/-- Why reading stops without a schema. -/
inductive ReadFailure where
  | complaint (cause : Complaint) (position : Position)
  /-- A list without end repeats its last token as another field for ever. -/
  | endless
  deriving DecidableEq

/-! ## Cursors -/

/-- A place in a token list. -/
structure Cursor where
  /-- The tokens from here on. -/
  rest : List Token
  /-- The last token of the list, which stands for every token after it. -/
  last : Token

/-- What a step reads, and where it leaves the cursor. -/
abbrev Step (α : Type) := Cursor → Except ReadFailure (α × Cursor)

namespace Cursor

/-- The token at the cursor. -/
def current (c : Cursor) : Token := c.rest.headD c.last

/-- The text at the cursor. -/
def text (c : Cursor) : String := c.current.text

/-- The text after the token at the cursor, if the list goes on. -/
def following? (c : Cursor) : Option String := c.rest[1]?.map Token.text

/-- The cursor one token further. -/
def next (c : Cursor) : Cursor := { c with rest := c.rest.tail }

/-- A complaint about the token at the cursor. -/
def fail {α : Type} (c : Cursor) (cause : Complaint) : Except ReadFailure α :=
  .error (.complaint cause c.current.position)

/-- An ASCII identifier. -/
def isName (text : String) : Bool :=
  match text.toList with
  | [] => false
  | c :: cs => Lexeme.isNameStart c && cs.all Lexeme.isNamePart

theorem isName_empty : isName "" = false := rfl

/-- Repeats a step until the token at the cursor passes a test. A step that leaves the cursor past
the last token, where it was before, would be repeated for ever. -/
def collect {α : Type} (stop : String → Bool) (step : Step α) (c : Cursor) :
    Except ReadFailure (List α × Cursor) :=
  if stop c.text then .ok ([], c)
  else do
    let (a, c') ← step c
    if _h : c'.rest.length < c.rest.length then
      let (as, c'') ← collect stop step c'
      return (a :: as, c'')
    else .error .endless
termination_by c.rest.length

end Cursor

/-! ## Plans -/

/-- A reader as a tree of looks and moves. -/
inductive Plan : Type → Type 1 where
  /-- Stops with a value. -/
  | done {α : Type} (a : α) : Plan α
  /-- Complains about the token at the cursor. -/
  | refuse {α : Type} (cause : String → Complaint) : Plan α
  /-- Goes on as the token at the cursor says. -/
  | look {α : Type} (plan : Token → Plan α) : Plan α
  /-- Goes on as the texts of two tokens say. Neither test holds of an empty text. -/
  | ahead {α : Type} (first : String → Bool) (second : String) (hfirst : first "" = false)
    (hsecond : second ≠ "") (yes no : Plan α) : Plan α
  /-- Moves past a token that has a value. Such a token has a text. -/
  | take {α β : Type} (value? : Token → Option α) (worded : ∀ t a, value? t = some a → t.text ≠ "")
    (yes : α → Plan β) (no : Plan β) : Plan β
  /-- Two plans in a row. -/
  | chain {α β : Type} (plan : Plan α) (after : α → Plan β) : Plan β
  /-- Repeats a plan until the token at the cursor passes a test. -/
  | repeated {α : Type} (stop : String → Bool) (plan : Plan α) : Plan (List α)

instance : Monad Plan where
  pure := .done
  bind := .chain

namespace Plan

variable {α β : Type}

/-- The step that a plan makes. -/
def step {α : Type} : Plan α → Step α
  | done a, c => .ok (a, c)
  | refuse cause, c => c.fail (cause c.text)
  | look plan, c => (plan c.current).step c
  | ahead first second _ _ yes no, c =>
    if first c.text ∧ c.following? = some second then yes.step c else no.step c
  | take value? _ yes no, c =>
    match value? c.current with
    | some a => (yes a).step c.next
    | none => no.step c
  | chain plan after, c => do
    let (a, c) ← plan.step c
    (after a).step c
  | repeated stop plan, c => c.collect stop plan.step

@[simp] theorem step_pure (a : α) (c : Cursor) : (pure a : Plan α).step c = pure (a, c) := rfl

@[simp] theorem step_refuse (cause : String → Complaint) (c : Cursor) :
    (refuse cause : Plan α).step c = c.fail (cause c.text) := rfl

@[simp] theorem step_look (plan : Token → Plan α) (c : Cursor) :
    (look plan).step c = (plan c.current).step c := rfl

@[simp] theorem step_ahead {first : String → Bool} {second : String} (hfirst : first "" = false)
    (hsecond : second ≠ "") (yes no : Plan α) (c : Cursor) :
    (ahead first second hfirst hsecond yes no).step c =
      if first c.text ∧ c.following? = some second then yes.step c else no.step c := rfl

theorem step_take_some {value? : Token → Option α} (h : ∀ t a, value? t = some a → t.text ≠ "")
    (yes : α → Plan β) (no : Plan β) {c : Cursor} {a : α} (ha : value? c.current = some a) :
    (take value? h yes no).step c = (yes a).step c.next := by
  simp only [step, ha]

theorem step_take_none {value? : Token → Option α} (h : ∀ t a, value? t = some a → t.text ≠ "")
    (yes : α → Plan β) (no : Plan β) {c : Cursor} (hc : value? c.current = none) :
    (take value? h yes no).step c = no.step c := by
  simp only [step, hc]

@[simp] theorem step_bind (p : Plan α) (after : α → Plan β) (c : Cursor) :
    (p >>= after).step c = p.step c >>= fun x => (after x.1).step x.2 := rfl

@[simp] theorem step_repeated (stop : String → Bool) (p : Plan α) (c : Cursor) :
    (repeated stop p).step c = c.collect stop p.step := rfl

/-- Moves past a token that passes a test. -/
def expect (test : String → Bool) (hend : test "" = false) (what : Expected) : Plan Token :=
  take (fun t => if test t.text then some t else none) (fun t a h hw => by simp [hw, hend] at h) pure
    (refuse (.expected what))

@[simp] theorem step_expect {test : String → Bool} (hend : test "" = false) (what : Expected)
    (c : Cursor) : (expect test hend what).step c =
      if test c.text then .ok (c.current, c.next) else c.fail (.expected what c.text) := by
  by_cases ht : test c.text = true
  · rw [if_pos ht, expect, step_take_some _ _ _ (if_pos ht)]
    rfl
  · rw [if_neg ht, expect, step_take_none _ _ _ (if_neg ht), step_refuse]

/-- Moves past a fixed word or mark. -/
def word (text : String) (h : text ≠ "" := by decide) : Plan Token :=
  expect (· == text) (by simpa using h.symm) (.word text)

/-- Moves past an identifier, which may be spelled like a keyword. -/
def name (what : Expected) : Plan Token := expect Cursor.isName Cursor.isName_empty what

/-- Moves past a word and follows one plan, or stays and follows another. -/
def ifWord (text : String) (yes no : Plan α) (h : text ≠ "" := by decide) : Plan α :=
  take (fun t => if t.text = text then some () else none)
    (fun t a ht hw => by simp [hw, h.symm] at ht) (fun _ => yes) no

@[simp] theorem step_ifWord {w : String} (h : w ≠ "") (yes no : Plan α) (c : Cursor) :
    (ifWord w yes no h).step c = if c.text = w then yes.step c.next else no.step c := by
  by_cases hw : c.text = w
  · rw [if_pos hw, ifWord, step_take_some _ _ _ (if_pos hw)]
  · rw [if_neg hw, ifWord, step_take_none _ _ _ (if_neg hw)]

/-- Moves past a primitive type, or follows another plan. -/
def ifPrimitive (yes : Primitive → Plan α) (no : Plan α) : Plan α :=
  take (fun t => Primitive.ofKeyword? t.text)
    (fun t p h hw => by
      have hnone : Primitive.ofKeyword? "" = none := by decide
      rw [hw, hnone] at h
      cases h)
    yes no

@[simp] theorem step_ifPrimitive (yes : Primitive → Plan α) (no : Plan α) (c : Cursor) :
    (ifPrimitive yes no).step c = match Primitive.ofKeyword? c.text with
      | some p => (yes p).step c.next
      | none => no.step c := by
  cases h : Primitive.ofKeyword? c.text with
  | none => exact step_take_none _ _ _ h
  | some p => exact step_take_some _ _ _ h

/-- Repeats a plan between braces. -/
def braced (p : Plan α) : Plan (List α) := do
  let _ ← word "\x7b"
  let as ← repeated (· == "\x7d") p
  let _ ← word "\x7d"
  return as

/-! ## The parts of a schema -/

/-- Reads a primitive type. -/
def primitive : Plan Primitive := ifPrimitive pure (refuse (.expected .primitiveType))

/-- Reads a type that is no list. -/
def innerType : Plan FieldType :=
  ifPrimitive (fun p => return .primitive p)
    (ifWord "map"
      (do
        let key ← primitive
        let _ ← word "for"
        let value ← primitive
        return .map key value)
      (do
        let t ← name .type
        return .named t.text))

/-- Reads the words before the element type of a list. -/
def listOf : Plan Token := do
  let _ ← word "list"
  word "of"

/-- Reads a type. -/
def fieldType : Plan FieldType := do
  let lists ← repeated (· != "list") listOf
  let inner ← innerType
  return lists.foldr (fun _ t => .list t) inner

/-- Reads a literal. -/
def literal : Plan Literal :=
  take (fun t => (Literal.kind? t.text).bind fun kind => Literal.read? kind t.text)
    (fun t v h hw => by
      have hnone : Literal.kind? "" = none := by decide
      rw [hw, hnone] at h
      cases h)
    pure (refuse fun w => (Literal.kind? w).elim (.expected .value w) (.invalid · w))

/-- Reads a name and its value. -/
def member : Plan Member := do
  let t ← name .identifier
  let _ ← word "="
  let value ← literal
  return ⟨t.text, value, t.position⟩

/-- Reads a field. -/
def field : Plan Field := do
  let type ← fieldType
  let t ← name .fieldName
  return ⟨type, t.text, t.position⟩

/-- Reads the name of a group of constants. A primitive type right before the brace is the type of a
group without a name. -/
def groupName : Plan (Option String) :=
  ahead (fun w => (Primitive.ofKeyword? w).isSome) "\x7b" (by decide) (by decide) (return none)
    (do
      let t ← name .identifier
      let _ ← word "for"
      return some t.text)

/-- Reads a group of constants after its keyword. -/
def constGroup : Plan ConstGroup :=
  look fun first => do
    let name? ← groupName
    let type ← primitive
    let members ← braced member
    return ⟨name?, type, members, first.position⟩

/-- Reads an enum after its keyword. -/
def enumDecl : Plan EnumDecl := do
  let t ← name .identifier
  let _ ← word "for"
  let type ← primitive
  let members ← braced member
  return ⟨t.text, type, members, t.position⟩

/-- Reads an object after its keyword. -/
def objectDecl : Plan ObjectDecl := do
  let t ← name .identifier
  let fields ← braced field
  return ⟨t.text, fields, t.position⟩

/-- Reads an entry. -/
def entry : Plan Entry :=
  ifWord "const" (do
    let d ← constGroup
    return .const d)
  (ifWord "enum" (do
    let d ← enumDecl
    return .enum d)
  (ifWord "object" (do
    let d ← objectDecl
    return .object d)
  (refuse .unexpected)))

/-- Reads a point and the next name of a package path. -/
def dotted : Plan Token := do
  let _ ← word "."
  name .packageName

/-- Reads the package path, which may be missing. -/
def package : Plan (List String) :=
  ifWord "package"
    (do
      let first ← name .packageName
      let others ← repeated (· != ".") dotted
      return (first :: others).map Token.text)
    (return [])

/-- Reads a schema up to the token for the end. -/
def schema : Plan Schema := do
  let package ← package
  let entries ← repeated String.isEmpty entry
  return ⟨package, entries⟩

end Plan

namespace Cursor

/-- Reads a literal from a cursor on. -/
abbrev literal : Step Literal := Plan.literal.step

/-- Reads a type from a cursor on. -/
abbrev fieldType : Step FieldType := Plan.fieldType.step

/-- Reads a field from a cursor on. -/
abbrev field : Step Field := Plan.field.step

/-- Reads a schema from a cursor on. -/
abbrev schema : Step Schema := Plan.schema.step

end Cursor

/-- The schema of a token list. -/
def Schema.ofTokens (tokens : List Token) : Except ReadFailure Schema :=
  match tokens.getLast? with
  | none => .error (.complaint .noEnd .start)
  | some last => (Cursor.schema ⟨tokens, last⟩).map Prod.fst

end Idl
