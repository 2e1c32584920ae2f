import Mathlib
import Idl.Proofs.Outline.CSharp
import Idl.Proofs.Outline.Dart
import Idl.Proofs.Outline.Go
import Idl.Proofs.Outline.Rust
import Idl.Proofs.Outline.TypeScript
import Idl.Proofs.Target.Names

/-!
# Fields of objects

A target walks through the fields of an object several times: for the members, for the constructor,
and in some targets for the encoded form and for the arguments that are taken from it. The arguments
have no names, so that every walk has to keep the order.

* `Target.tags`: the targets that attach keys to members.
* `Target.encodedFields`, `Target.decodedFields`: the walks of the other targets.
* `FollowsFields`: source text about an object that keeps the order in every walk.
* **`Target.followsFields_lines`**: the lines of a target do.
-/

namespace Idl

open Outline Grammar

/-- The key of a member is attached to its declaration. -/
def Target.tags : Target → Bool
  | rust | go | csharp => true
  | dart | typescript => false

/-- What stands under the key of each field in the encoded form of an object. Targets that attach the
keys to members leave encoding to a library. -/
def Target.encodedFields : Target → Schema → ObjectDecl → List (String × String)
  | dart, s, o => o.fields.map fun f =>
    (f.name, (Dart.encode s f.type (.var (Dart.dialect.member o f)) 0).text)
  | typescript, s, o => o.fields.map fun f =>
    (f.name, (TypeScript.encode s f.type (.own (TypeScript.dialect.member o f)) 0).text)
  | _, _, _ => []

/-- The argument for each field, with the key that it is taken from. -/
def Target.decodedFields : Target → Schema → ObjectDecl → List (String × String)
  | dart, s, o => o.fields.map fun f => (f.name, (Dart.decode s f.type (.entry f.name) 0).text)
  | typescript, s, o => o.fields.map fun f =>
    (f.name, ((TypeScript.decode? s f.type (.entry f.name) 0).getD (.entry f.name)).text)
  | _, _, _ => []

/-- Source text about an object goes through its fields in order, whatever it makes of them. -/
structure FollowsFields (t : Target) (s : Schema) (o : ObjectDecl) (r : RecordOutline) : Prop where
  name : r.name = t.dialect.title o.name
  members : r.members = o.fields.map fun f =>
    ⟨t.dialect.member o f, t.dialect.type s f.type, if t.tags then some f.name else none⟩
  /-- Parameters that stand for members have the types of these. -/
  params : r.params = o.fields.map fun f =>
    (t.dialect.param o f, if t = .dart then none else some (t.dialect.type s f.type))
  /-- Parameters that stand for members need not be assigned. -/
  assigned : r.assigned = if t = .dart then []
    else o.fields.map fun f => (t.dialect.member o f, t.dialect.param o f)
  encoded : r.encoded = t.encodedFields s o
  decoded : r.decoded = t.decodedFields s o

/-- **Fields keep their order and their keys** in the lines of every target. -/
theorem Target.followsFields_lines (t : Target) {s : Schema} (hs : s.Spelled) :
    ∃ f : ObjectDecl → RecordOutline, t.records (sourceText (t.lines s)) = some (s.objects.map f) ∧
      ∀ o, FollowsFields t s o (f o) := by
  have hslots : ∀ {α : Type} (d : Dialect) (o : ObjectDecl) (g : Slot → α),
      (d.record s o).slots.map g =
        o.fields.map fun f => g ⟨f, d.member o f, d.param o f, d.type s f.type⟩ := by
    intro α d o g
    rw [Dialect.record, List.map_map]
    rfl
  cases t with
  | rust =>
    refine ⟨_, Rust.records_lines hs, fun o => ?_⟩
    constructor <;> (simp only [Rust.outline, hslots]; rfl)
  | go =>
    refine ⟨_, Go.records_lines hs, fun o => ?_⟩
    constructor <;> (simp only [Go.outline, hslots]; rfl)
  | csharp =>
    refine ⟨_, CSharp.records_lines hs, fun o => ?_⟩
    constructor <;> (simp only [CSharp.outline, hslots]; rfl)
  | dart =>
    refine ⟨_, Dart.records_lines hs, fun o => ?_⟩
    constructor <;> (simp only [Dart.outline, hslots]; rfl)
  | typescript =>
    refine ⟨_, TypeScript.records_lines hs, fun o => ?_⟩
    constructor <;> (simp only [TypeScript.outline, hslots]; rfl)

end Idl
