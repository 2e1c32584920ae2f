import Mathlib
import Idl.Proofs.Outline.Members

/-!
# Parameters of constructors

A C# class is decoded through its constructor, and the decoder looks for the parameter of a property
without regard to the case of letters. The names of properties are compared with each other when a schema
is rendered, those of parameters are not.

* `CSharp.stem`: the name of a parameter without the mark of reserved words.
* `CSharp.toList_property`: a property is its stem with a capital, so that different properties have
  different stems.
* `CSharp.BindsBack`: parameters that lead back to the properties.
* **`CSharp.parameters_bind_back`**: those of a rendered schema do.
-/

namespace Idl.CSharp

open Outline Grammar

/-- The name of a parameter before a reserved word is spelled as a name. -/
def stem (o : ObjectDecl) (f : Field) : String :=
  if property o f = Naming.pascal f.name then Naming.camel f.name else Naming.camel f.name ++ "_"

theorem parameter_eq (o : ObjectDecl) (f : Field) : parameter o f = verbatim (stem o f) := rfl

section Stem

variable {o : ObjectDecl} {f : Field}

theorem isWord_stem (hf : IsWord f.name.toList) : IsWord (stem o f).toList := by
  unfold stem
  split
  · exact isWord_camel hf
  · rw [String.toList_append]
    exact (isWord_camel hf).append (by simp [Lexeme.isNamePart])

/-- A property is its stem with a capital. The mark that sets it apart is at the end and stays there. -/
theorem toList_property (hf : IsWord f.name.toList) :
    (property o f).toList = Naming.capitalise (stem o f).toList := by
  have hcamel : (Naming.camel f.name).toList ≠ [] := (isWord_camel hf).1
  unfold stem
  split
  · rename_i hkept
    rw [hkept, Naming.toList_pascal]
  · rename_i hmoved
    obtain ⟨-, hmarked⟩ | ⟨-, hkept⟩ := avoid_eq_iff.1 (Eq.refl (property o f))
    · rw [hmarked, String.toList_append, String.toList_append, Naming.toList_pascal,
        Naming.capitalise_append hcamel]
    · exact absurd hkept hmoved

theorem unmarked_parameter (hf : IsWord f.name.toList) :
    unmarked (parameter o f).toList = stem o f := by
  rw [parameter_eq, unmarked_verbatim (isWord_stem hf)]

/-- A parameter is called like its property apart from the mark and from case. -/
theorem caseless_parameter (hf : IsWord f.name.toList) :
    Naming.caseless (unmarked (parameter o f).toList) = Naming.caseless (property o f) := by
  rw [unmarked_parameter hf, Naming.caseless, Naming.caseless, toList_property hf,
    Naming.map_toLower_capitalise]

end Stem

theorem verbatim_not_mem (n : String) : verbatim n ∉ keywords := by
  have hmark : ∀ k ∈ keywords, k.toList.head? ≠ some '@' := by decide +kernel
  unfold verbatim
  split
  · intro hmem
    refine hmark _ hmem ?_
    rw [String.toList_append]
    rfl
  · assumption

theorem nodup_properties {s : Schema} (hcheck : check s = .ok ()) {o : ObjectDecl}
    (ho : .object o ∈ s.entries) : (o.fields.map (property o)).Nodup := by
  have hmembers := (nodup_membersOf hcheck ho).of_append_left
  refine List.Nodup.of_map (Prod.mk o.name) ?_
  rwa [List.map_map]

theorem nodup_stems {s : Schema} (hcheck : check s = .ok ()) {o : ObjectDecl}
    (ho : .object o ∈ s.entries) (hwords : ∀ f ∈ o.fields, IsWord f.name.toList) :
    (o.fields.map (stem o)).Nodup := by
  have hcapitals : (o.fields.map (stem o)).map (fun n => String.ofList (Naming.capitalise n.toList)) =
      o.fields.map (property o) := by
    rw [List.map_map]
    refine List.map_congr_left fun f hf => ?_
    rw [Function.comp_apply, ← toList_property (hwords f hf), String.ofList_toList]
  exact List.Nodup.of_map _ (hcapitals ▸ nodup_properties hcheck ho)

/-- The parameters of a constructor lead back to the properties of its class. -/
structure BindsBack (r : RecordOutline) : Prop where
  /-- Apart from the mark and from case a parameter is called like the property in its place. -/
  sameName : List.Forall₂
    (fun m p => Naming.caseless (unmarked p.1.toList) = Naming.caseless m.name) r.members r.params
  /-- The mark is no part of a name, so that it cannot tell two parameters apart. -/
  different : (r.params.map fun p => unmarked p.1.toList).Nodup
  /-- A parameter is spelled like a reserved word only behind the mark. -/
  unreserved : ∀ p ∈ r.params, p.1 ∉ keywords

/-- **Parameters bind back to properties.** In C# source text for a compiled schema every class has one
parameter and one property for each field, and the parameters lead back to the properties. -/
theorem parameters_bind_back (text : String) (s : Schema) (hs : Schema.compile text = .ok s)
    (source : String) (hsource : Target.csharp.render s = .ok source) :
    ∃ record, Target.csharp.records source = some (s.objects.map record) ∧
      ∀ o ∈ s.objects, (record o).members.length = o.fields.length ∧ BindsBack (record o) := by
  obtain ⟨hcheck, rfl⟩ := Target.render_eq_ok_iff.1 hsource
  have hspelled := Schema.spelled_of_compile hs
  obtain ⟨record, hrecords, hfollows⟩ := Target.csharp.followsFields_lines hspelled
  refine ⟨record, hrecords, fun o ho => ?_⟩
  have hentry : .object o ∈ s.entries := Schema.mem_objects.1 ho
  have hwords : ∀ f ∈ o.fields, IsWord f.name.toList :=
    fun f hf => ((hspelled.entry _ hentry).2 f hf).1
  have hmembers : (record o).members.map MemberOutline.name = o.fields.map (property o) := by
    rw [(hfollows o).members, List.map_map]
    rfl
  have hparams : (record o).params.map Prod.fst = o.fields.map (parameter o) := by
    rw [(hfollows o).params, List.map_map]
    rfl
  refine ⟨by simpa using congrArg List.length hmembers, ?_, ?_, ?_⟩
  · have hnames : List.Forall₂ (fun n p => Naming.caseless (unmarked p.toList) = Naming.caseless n)
        ((record o).members.map MemberOutline.name) ((record o).params.map Prod.fst) := by
      rw [hmembers, hparams, List.forall₂_map_left_iff, List.forall₂_map_right_iff, List.forall₂_same]
      exact fun f hf => caseless_parameter (hwords f hf)
    rwa [List.forall₂_map_left_iff, List.forall₂_map_right_iff] at hnames
  · have hstems : ((record o).params.map Prod.fst).map (fun n => unmarked n.toList) =
        o.fields.map (stem o) := by
      rw [hparams, List.map_map]
      exact List.map_congr_left fun f hf => unmarked_parameter (hwords f hf)
    rw [List.map_map] at hstems
    exact hstems ▸ nodup_stems hcheck hentry hwords
  · intro p hp
    obtain ⟨f, -, heq⟩ := List.mem_map.1 (hparams ▸ List.mem_map_of_mem hp)
    rw [← heq]
    exact verbatim_not_mem (stem o f)

/-- A field called like its class, one called like a reserved word and one called like a method. -/
theorem parameters_bind_back_marks :
    ∃ s source r, Schema.compile "object O \x7b int8 o int8 new int8 toJson \x7d" = .ok s ∧
      Target.csharp.render s = .ok source ∧ Target.csharp.records source = some [r] ∧
      r.members.map MemberOutline.name = ["O_", "New", "ToJson_"] ∧
      r.params.map Prod.fst = ["o_", "@new", "toJson_"] ∧ BindsBack r := by
  have hclass : FieldOf ["int8", "o"] ⟨.primitive .int8, "o", .start⟩ :=
    .mk (.primitive .int8) (by decide) _
  have hreserved : FieldOf ["int8", "new"] ⟨.primitive .int8, "new", .start⟩ :=
    .mk (.primitive .int8) (by decide) _
  have hmethod : FieldOf ["int8", "toJson"] ⟨.primitive .int8, "toJson", .start⟩ :=
    .mk (.primitive .int8) (by decide) _
  have hderives : Derives _ _ := .mk .none (.cons (.object (.mk (n := "O") (by decide)
    (.mk (.cons hclass (.cons hreserved (.cons hmethod .nil)))) .start)) .nil)
  obtain ⟨s, source, hs, hsource, hplaced⟩ := Target.render_of_derives .csharp
    "object O \x7b int8 o int8 new int8 toJson \x7d" (by cbv) hderives (by decide +kernel)
    (by decide +kernel)
  obtain ⟨record, hrecords, hbind⟩ := parameters_bind_back _ s hs source hsource
  have hread := (congrArg Target.csharp.records (hplaced ▸ Target.eq_of_render hsource)).trans
    (CSharp.records_lines hderives.spelled)
  obtain ⟨o, hobjects, -⟩ := List.map_eq_singleton_iff.1 (Schema.objects_of_unplaced hplaced)
  rw [hobjects, List.map_singleton] at hrecords
  have hrecord := List.singleton_inj.1 (Option.some.inj (hrecords.symm.trans hread))
  refine ⟨s, source, record o, hs, hsource, hrecords, ?_, ?_,
    (hbind o (hobjects ▸ List.mem_singleton_self o)).2⟩
  all_goals
    rw [hrecord]
    decide +kernel

end Idl.CSharp
