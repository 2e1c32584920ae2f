import Mathlib
import Idl.Proofs.Outline.Constants
import Idl.Proofs.Outline.Dispatch
import Idl.Proofs.Outline.Parameters

/-!
# What constructors set

A constructor sets the members of its class by assignments, and a decoder calls it with one argument for
each field. What a name means there depends on the names around it, and an inner name is found before an
outer one.

* `Target.Hides`: a name on the left of an assignment that does not mean a member.
* `Target.sets`, `Target.entries`, `Target.arguments`: the assignments that set members, the entries that
  are entries of the encoded object and the arguments that reach a constructor.
* `Target.Loses`, `Target.Covers`: the fields and objects for which these fail.
* `CSharp.property_mem_stems_iff`: a property is hidden if the name of its field begins with no small
  letter.
* **`fields_kept_unless_hidden`**: source text for a compiled schema keeps the fields in every walk, except
  for those names.
-/

namespace Idl

open Outline Grammar

/-! ## Names in constructors -/

/-- A name on the left of an assignment that does not mean a member of the class. A blank name means
nothing. A parameter is found before a property and before the type of the object, and a parameter that is
called like a constant is none. The prototype is found before a member that is declared only, so that it
matters whether a compiler defines the members that a TypeScript class declares. -/
def Target.Hides (defines : Bool) (source : String) (r : RecordOutline) (n : String) : Target → Prop
  | rust => n = "_" ∨ ∃ p ∈ r.params, p.1 ∈ Rust.constants source
  | go => n = "_" ∨ ∃ p ∈ r.params, p.1 = r.name
  | csharp => ∃ p ∈ r.params, CSharp.unmarked p.1.toList = n
  | dart => False
  | typescript => defines = false ∧ n = TypeScript.prototype

instance (defines : Bool) (source : String) (r : RecordOutline) (n : String) (t : Target) :
    Decidable (t.Hides defines source r n) := by
  cases t <;> unfold Target.Hides <;> infer_instance

/-- The assignments of a constructor that set members. -/
def Target.sets (t : Target) (defines : Bool) (source : String) (r : RecordOutline) :
    List (String × String) :=
  r.assigned.filter fun a => ¬ t.Hides defines source r a.1

/-- The entries that an encoded object has. What stands under the name of the prototype is none. -/
def Target.entries : Target → RecordOutline → List (String × String)
  | typescript, r => r.encoded.filter fun e => e.1 ≠ TypeScript.prototype
  | _, r => r.encoded

/-- The arguments with which a decoder calls the constructor. A parameter that is called like the class is
found before it. -/
def Target.arguments : Target → RecordOutline → List (String × String)
  | dart, r => if r.name = "map" then [] else r.decoded
  | typescript, r => if r.name = "data" then [] else r.decoded
  | _, r => r.decoded

/-! ## The fields that are lost -/

/-- The assignment for a field does not set its member. -/
def Target.Loses (defines : Bool) (s : Schema) (o : ObjectDecl) (f : Field) : Target → Prop
  | rust => f.name = "_" ∨ ∃ g ∈ o.fields, Rust.dialect.param o g ∈ s.bindings
  | go => f.name = "_" ∨ ∃ g ∈ o.fields, Go.dialect.param o g = Go.dialect.title o.name
  | csharp => f.name.toList.head?.any Char.isLower = false
  | dart => False
  | typescript => defines = false ∧ f.name = TypeScript.prototype

instance (defines : Bool) (s : Schema) (o : ObjectDecl) (f : Field) (t : Target) :
    Decidable (t.Loses defines s o f) := by
  cases t <;> unfold Target.Loses <;> infer_instance

/-- The decoder of an object has a parameter that is called like its class. -/
def Target.Covers : Target → ObjectDecl → Prop
  | dart, o => o.name = "map"
  | typescript, o => o.name = "data"
  | _, _ => False

instance (t : Target) (o : ObjectDecl) : Decidable (t.Covers o) := by
  cases t <;> unfold Target.Covers <;> infer_instance

/-- Source text about an object goes through its fields in order. The names decide which members a
constructor sets, which entries an encoded object has and whether decoding reaches the constructor. -/
structure KeepsFields (t : Target) (s : Schema) (source : String) (o : ObjectDecl) (r : RecordOutline) :
    Prop where
  follows : FollowsFields t s o r
  sets (defines : Bool) : t.sets defines source r = if t = .dart then []
    else (o.fields.filter fun f => ¬ t.Loses defines s o f).map fun f =>
      (t.dialect.member o f, t.dialect.param o f)
  entries : t.entries r = (t.encodedFields s o).filter fun e =>
    ¬ (t = .typescript ∧ e.1 = TypeScript.prototype)
  arguments : t.arguments r = if t.Covers o then [] else t.decodedFields s o

/-! ## Names that stay blank -/

namespace Naming

theorem joinWords_eq_nil_iff {cs : List Char} : joinWords cs = [] ↔ cs = [] := by
  fun_cases joinWords cs <;> simp

theorem capitalise_eq_self_iff {cs : List Char} :
    capitalise cs = cs ↔ cs.head?.any Char.isLower = false := by
  cases cs with
  | nil => simp [capitalise]
  | cons c cs =>
    rw [capitalise, List.cons_eq_cons, and_iff_left rfl, List.head?_cons, Option.any_some]
    cases hc : c.isLower with
    | true =>
      refine iff_of_false (fun heq => ?_) (by simp)
      have hupper := isUpper_toUpper hc
      rw [heq] at hupper
      exact Char.not_isUpper_of_isLower hc hupper
    | false => simp [Char.toUpper_eq_of_not_isLower (Bool.eq_false_iff.1 hc)]

theorem capitalise_eq_underscore_iff {cs : List Char} : capitalise cs = ['_'] ↔ cs = ['_'] := by
  cases cs with
  | nil => simp [capitalise]
  | cons c cs => simp [capitalise, toUpper_eq_underscore_iff]

theorem joinWords_eq_underscore_iff {cs : List Char} : joinWords cs = ['_'] ↔ cs = ['_'] := by
  fun_cases joinWords cs with
  | case1 => simp
  | case2 c => simp
  | case3 c d rest hjoin =>
    have hne : d.toUpper ≠ '_' := by
      rw [Ne, toUpper_eq_underscore_iff]
      rintro rfl
      exact absurd hjoin.2 (by decide)
    simp [hne]
  | case4 c d rest => simp [joinWords_eq_nil_iff]

theorem pascal_eq_underscore_iff {n : String} : pascal n = "_" ↔ n = "_" := by
  rw [← String.toList_inj, ← String.toList_inj, pascal, String.toList_ofList]
  exact capitalise_eq_underscore_iff.trans joinWords_eq_underscore_iff

end Naming

/-- Only the name itself is set apart as a name that is not taken and that marks no taken one. -/
theorem avoid_eq_iff_eq {taken : List String} {x : String} (hx : x ∉ taken)
    (hmarked : ∀ k ∈ taken, x ≠ k ++ "_") {n : String} : avoid taken n = x ↔ n = x := by
  rw [avoid_eq_iff]
  constructor
  · rintro (⟨hmem, heq⟩ | ⟨-, rfl⟩)
    · exact absurd heq (hmarked n hmem)
    · rfl
  · rintro rfl
    exact .inr ⟨hx, rfl⟩

/-! ## Properties behind parameters -/

namespace CSharp

variable {s : Schema} {o : ObjectDecl} {f : Field}

theorem isLower_head?_stem (hf : IsWord f.name.toList) :
    (stem o f).toList.head?.any Char.isLower = f.name.toList.head?.any Char.isLower := by
  have hcamel : (Naming.camel f.name).toList.head?.any Char.isLower =
      f.name.toList.head?.any Char.isLower := by
    rw [Naming.camel, String.toList_ofList, Naming.isLower_head?_joinWords]
  have hne : (Naming.camel f.name).toList ≠ [] := (isWord_camel hf).1
  unfold stem
  split
  · exact hcamel
  · rw [String.toList_append, List.head?_append_of_ne_nil _ hne, hcamel]

/-- **A property is called like a parameter** exactly if it is called like its own, and this is so if the
name of the field begins with no small letter. -/
theorem property_mem_stems_iff (hcheck : check s = .ok ()) (ho : .object o ∈ s.entries)
    (hwords : ∀ f ∈ o.fields, IsWord f.name.toList) (hf : f ∈ o.fields) :
    (∃ g ∈ o.fields, stem o g = property o f) ↔ f.name.toList.head?.any Char.isLower = false := by
  rw [← isLower_head?_stem (o := o) (hwords f hf), ← Naming.capitalise_eq_self_iff,
    ← toList_property (hwords f hf), String.toList_inj]
  constructor
  · rintro ⟨g, hg, heq⟩
    -- the property of `g` is its stem with a capital, which the property of `f` has already
    have hcapital : property o g = property o f := by
      rw [← String.toList_inj, toList_property (hwords g hg), heq, toList_property (hwords f hf),
        Naming.capitalise_capitalise]
    obtain rfl := List.inj_on_of_nodup_map (nodup_properties hcheck ho) hg hf hcapital
    exact heq.symm
  · exact fun heq => ⟨f, hf, heq.symm⟩

end CSharp

/-! ## Every walk -/

section Walks

variable {t : Target} {s : Schema} {o : ObjectDecl} {r : RecordOutline}

/-- The names on the left of assignments that mean no member are those of the fields that are lost. -/
theorem FollowsFields.hides_iff (h : FollowsFields t s o r) (hs : s.Spelled) (hcheck : t.check s = .ok ())
    (ho : o ∈ s.objects) {f : Field} (hf : f ∈ o.fields) (defines : Bool) :
    t.Hides defines (sourceText (t.lines s)) r (t.dialect.member o f) ↔ t.Loses defines s o f := by
  have hentry : .object o ∈ s.entries := Schema.mem_objects.1 ho
  have hwords : ∀ f ∈ o.fields, IsWord f.name.toList := fun f hf => ((hs.entry _ hentry).2 f hf).1
  have hparams : ∀ P : String → Prop,
      (∃ p ∈ r.params, P p.1) ↔ ∃ g ∈ o.fields, P (t.dialect.param o g) := by
    intro P
    simp [h.params]
  cases t with
  | rust =>
    have hblank : Rust.dialect.member o f = "_" ↔ f.name = "_" :=
      avoid_eq_iff_eq (by decide +kernel) (by decide +kernel)
    have hconstants : Rust.constants (sourceText (Target.rust.lines s)) = s.bindings :=
      Rust.constants_lines hs
    rw [Target.Hides, Target.Loses, hconstants]
    exact or_congr hblank (hparams (· ∈ s.bindings))
  | go =>
    have hblank : Go.dialect.member o f = "_" ↔ f.name = "_" :=
      (avoid_eq_iff_eq (by decide) (by decide)).trans Naming.pascal_eq_underscore_iff
    rw [Target.Hides, Target.Loses, h.name]
    exact or_congr hblank (hparams (· = Go.dialect.title o.name))
  | csharp =>
    refine (hparams fun n => CSharp.unmarked n.toList = CSharp.property o f).trans ?_
    refine Iff.trans ?_ (CSharp.property_mem_stems_iff hcheck hentry hwords hf)
    refine exists_congr fun g => and_congr_right fun hg => ?_
    rw [← CSharp.unmarked_parameter (hwords g hg)]
    simp only [Target.dialect, CSharp.dialect]
  | dart => rfl
  | typescript =>
    have hproto : TypeScript.dialect.member o f = TypeScript.prototype ↔ f.name = TypeScript.prototype :=
      avoid_eq_iff_eq (by decide +kernel) (by decide +kernel)
    exact and_congr_right fun _ => hproto

theorem FollowsFields.keepsFields (h : FollowsFields t s o r) (hs : s.Spelled)
    (hcheck : t.check s = .ok ()) (ho : o ∈ s.objects) :
    KeepsFields t s (sourceText (t.lines s)) o r where
  follows := h
  sets defines := by
    have hassigned := h.assigned
    rw [Target.sets, hassigned]
    split
    · rfl
    · rw [List.filter_map]
      refine congrArg _ (List.filter_congr fun f hf => ?_)
      simp only [Function.comp_apply, h.hides_iff hs hcheck ho hf defines]
  entries := by
    cases t <;> simp [Target.entries, h.encoded]
  arguments := by
    cases t <;> simp [Target.arguments, Target.Covers, h.decoded, h.name, Target.dialect] <;> rfl

end Walks

/-- **Fields keep their order and their keys unless a name is hidden.** Source text for a compiled schema
has every object, with one member, one parameter and one assignment for each field, in order, and with one
entry and one argument where the target has them, and the keys are the names of the fields. The members
that are set, the entries that are encoded and the arguments that arrive are those that no name hides. -/
theorem fields_kept_unless_hidden (text : String) (s : Schema) (hs : Schema.compile text = .ok s)
    (t : Target) (source : String) (hsource : t.render s = .ok source) :
    ∃ rs, t.records source = some rs ∧ List.Forall₂ (KeepsFields t s source) s.objects rs := by
  obtain ⟨hcheck, rfl⟩ := Target.render_eq_ok_iff.1 hsource
  have hspelled := Schema.spelled_of_compile hs
  obtain ⟨f, hrecords, hf⟩ := t.followsFields_lines hspelled
  refine ⟨_, hrecords, ?_⟩
  rw [List.forall₂_map_right_iff, List.forall₂_same]
  exact fun o ho => (hf o).keepsFields hspelled hcheck ho

/-- A field that begins with a capital is not set, and one that is called like the prototype is not
encoded. -/
theorem fields_kept_unless_hidden_names :
    ∃ s, Schema.compile "object O \x7b string Name int32 age string __proto__ \x7d" = .ok s ∧
      (∃ source o r, Target.csharp.render s = .ok source ∧ s.objects = [o] ∧
        Target.csharp.records source = some [r] ∧ KeepsFields .csharp s source o r ∧
        r.assigned = [("Name", "Name"), ("Age", "age"), ("_Proto__", "_Proto__")] ∧
        Target.csharp.sets false source r = [("Age", "age")]) ∧
      ∃ source o r, Target.typescript.render s = .ok source ∧ s.objects = [o] ∧
        Target.typescript.records source = some [r] ∧ KeepsFields .typescript s source o r ∧
        r.encoded = [("Name", "this.Name"), ("age", "this.age"), ("__proto__", "this.__proto__")] ∧
        Target.typescript.entries r = [("Name", "this.Name"), ("age", "this.age")] := by
  have hcapital : FieldOf ["string", "Name"] ⟨.primitive .string, "Name", .start⟩ :=
    .mk (.primitive .string) (by decide) _
  have hsmall : FieldOf ["int32", "age"] ⟨.primitive .int32, "age", .start⟩ :=
    .mk (.primitive .int32) (by decide) _
  have hproto : FieldOf ["string", "__proto__"] ⟨.primitive .string, "__proto__", .start⟩ :=
    .mk (.primitive .string) (by decide) _
  have hderives : Derives _ _ := .mk .none (.cons (.object (.mk (n := "O") (by decide)
    (.mk (.cons hcapital (.cons hsmall (.cons hproto .nil)))) .start)) .nil)
  obtain ⟨s, source, hs, hsource, hplaced⟩ := Target.render_of_derives .csharp
    "object O \x7b string Name int32 age string __proto__ \x7d" (by cbv) hderives (by decide +kernel)
    (by decide +kernel)
  obtain ⟨s', script, hs', hscript, -⟩ := Target.render_of_derives .typescript
    "object O \x7b string Name int32 age string __proto__ \x7d" (by cbv) hderives (by decide +kernel)
    (by decide +kernel)
  obtain rfl : s = s' := Except.ok.inj (hs.symm.trans hs')
  obtain ⟨o, hobjects, -⟩ := List.map_eq_singleton_iff.1 (Schema.objects_of_unplaced hplaced)
  refine ⟨s, hs, ?_, ?_⟩
  · obtain ⟨rs, hrs, hkept⟩ := fields_kept_unless_hidden _ s hs .csharp source hsource
    have hread := (congrArg Target.csharp.records (hplaced ▸ Target.eq_of_render hsource)).trans
      (CSharp.records_lines hderives.spelled)
    obtain rfl := Option.some.inj (hrs.symm.trans hread)
    rw [hobjects] at hkept
    refine ⟨_, o, _, hsource, hobjects, hrs, (List.forall₂_cons.1 hkept).1, by decide +kernel, ?_⟩
    rw [Target.eq_of_render hsource, hplaced]
    decide +kernel
  · obtain ⟨rs, hrs, hkept⟩ := fields_kept_unless_hidden _ s hs .typescript script hscript
    have hread := (congrArg Target.typescript.records (hplaced ▸ Target.eq_of_render hscript)).trans
      (TypeScript.records_lines hderives.spelled)
    obtain rfl := Option.some.inj (hrs.symm.trans hread)
    rw [hobjects] at hkept
    refine ⟨_, o, _, hscript, hobjects, hrs, (List.forall₂_cons.1 hkept).1, by decide +kernel, ?_⟩
    decide +kernel

end Idl
