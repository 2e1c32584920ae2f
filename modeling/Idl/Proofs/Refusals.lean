import Mathlib
import Idl.Proofs.Outline.References
import Idl.Proofs.Target.Names

/-!
# Parts of a schema without a form

Maps whose keys are floating point numbers or truth values have no form in any target, and one target
has no enums of truth values. Each target looks for them among checks of names, which come before,
between or after.

* `Unsupported`, `Schema.unsupported`: the parts without a form, in order.
* `Schema.supported`: what is left without them.
* `Reports`: a check fails for the first of these parts, or for a clash of names.
* `Target.check_eq`: the checks of all targets have one shape.
* **`render_reports_unsupported`**: which faults there are, and which is reported.
-/

namespace Idl

/-! ## Parts without a form -/

/-- A part of a schema that has no form. -/
inductive Unsupported where
  /-- A field that holds maps, under any number of lists. -/
  | field (object name : String) (key : Primitive)
  | enum (name : String)
  deriving DecidableEq

namespace Unsupported

/-- The words for what has no form. -/
def typeName : Unsupported → String
  | .field _ _ key => "map key " ++ key.keyword
  | .enum _ => "bool"

/-- The words for its place. -/
def context : Unsupported → String
  | .field object name _ => object ++ "." ++ name
  | .enum name => "enum " ++ name

/-- The refusal for it. -/
def refusal : Unsupported → Refusal
  | .field object name key => .mapKey key object name
  | .enum name => .boolEnum name

/-- A field has a form unless it holds maps from floating point numbers or from truth values. -/
def ofField? (o : ObjectDecl) (f : Field) : Option Unsupported :=
  match f.type.core with
  | .map k _ => if k.isFloat || k = .bool then some (.field o.name f.name k) else none
  | _ => none

/-- Only one target has no enums over a type. -/
def ofEnum? : Target → EnumDecl → Option Unsupported
  | .typescript, e => if e.type = .bool then some (.enum e.name) else none
  | _, _ => none

/-- What has no form in an entry. -/
def ofEntry (t : Target) : Entry → List Unsupported
  | .const _ => []
  | .enum e => (ofEnum? t e).toList
  | .object o => o.fields.filterMap (ofField? o)

/-- An entry stays without it. -/
def leaves (t : Target) : Entry → Bool
  | .enum e => (ofEnum? t e).isNone
  | _ => true

/-- What stays of an entry. -/
def prune : Entry → Entry
  | .object o => .object { o with fields := o.fields.filter fun f => (ofField? o f).isNone }
  | e => e

end Unsupported

/-- The parts of a schema that have no form in a target, in the order of entries and fields. -/
def Schema.unsupported (t : Target) (s : Schema) : List Unsupported :=
  s.entries.flatMap (Unsupported.ofEntry t)

/-- A schema without these parts. -/
def Schema.supported (t : Target) (s : Schema) : Schema :=
  { s with entries := (s.entries.filter (Unsupported.leaves t)).map Unsupported.prune }

/-- An entry that is all supported stays as it is. -/
theorem Schema.mem_supported {t : Target} {s : Schema} {e : Entry} (he : e ∈ s.entries)
    (h : Unsupported.ofEntry t e = []) : e ∈ (s.supported t).entries := by
  suffices hstays : Unsupported.leaves t e = true ∧ Unsupported.prune e = e from
    List.mem_map.2 ⟨e, List.mem_filter.2 ⟨he, hstays.1⟩, hstays.2⟩
  cases e with
  | const c => exact ⟨rfl, rfl⟩
  | enum e =>
    have hnone : Unsupported.ofEnum? t e = none := by simpa [Unsupported.ofEntry] using h
    exact ⟨by rw [Unsupported.leaves, hnone, Option.isNone_none], rfl⟩
  | object o =>
    have hall : ∀ f ∈ o.fields, (Unsupported.ofField? o f).isNone = true := by
      simpa [Unsupported.ofEntry, List.filterMap_eq_nil_iff] using h
    exact ⟨rfl, by rw [Unsupported.prune, List.filter_eq_self.2 hall]⟩

/-- Where all enums have a form, only fields are left out. -/
theorem Schema.entries_supported {t : Target} (s : Schema) (ht : t ≠ .typescript) :
    (s.supported t).entries = s.entries.map Unsupported.prune := by
  have hall : ∀ e ∈ s.entries, Unsupported.leaves t e = true := by
    intro e _
    cases e <;> cases t <;> first | rfl | exact absurd rfl ht
  rw [supported, List.filter_eq_self.2 hall]

/-! ## What a check reports -/

/-- A check fails for a clash of names only. -/
def Clashes (r : Except Refusal Unit) : Prop :=
  ∀ e, r = .error e → ∃ name clash, e = .collision name clash

theorem clashes_ok : Clashes (.ok ()) := nofun

theorem clashes_distinct {owner : String} {names : List (String × String)} :
    Clashes (distinct owner names) := by
  intro e h
  rw [distinct] at h
  split at h
  · cases h
    exact ⟨_, _, rfl⟩
  · cases h

theorem Clashes.bind {x y : Except Refusal Unit} (hx : Clashes x) (hy : Clashes y) :
    Clashes (x >>= fun _ => y) := by
  intro e h
  rcases bind_eq_error_iff.1 h with h | ⟨_, -, h⟩
  · exact hx e h
  · exact hy e h

/-- The check of an entry fails for the first of its parts without a form, and otherwise for a clash
only. -/
def Answers (parts : List Unsupported) (r : Except Refusal Unit) : Prop :=
  match parts with
  | [] => Clashes r
  | x :: _ => r = .error x.refusal

/-- A check fails if there is a part without a form. It fails for the first one, or for a clash. -/
structure Reports (parts : List Unsupported) (r : Except Refusal Unit) : Prop where
  fails : parts ≠ [] → r ≠ .ok ()
  cause : ∀ e, r = .error e →
    (∃ name clash, e = .collision name clash) ∨ ∃ x, parts.head? = some x ∧ e = x.refusal

theorem Reports.bind {parts : List Unsupported} {x y : Except Refusal Unit} (hx : Clashes x)
    (hy : Reports parts y) : Reports parts (x >>= fun _ => y) where
  fails hne h := hy.fails hne (bind_unit_eq_ok_iff.1 h).2
  cause e h := by
    rcases bind_eq_error_iff.1 h with h | ⟨_, -, h⟩
    · exact .inl (hx e h)
    · exact hy.cause e h

section Entries

variable {check : Entry → Except Refusal Unit} {parts : Entry → List Unsupported}
  (h : ∀ e, Answers (parts e) (check e))

include h

theorem reports_forM (es : List Entry) : Reports (es.flatMap parts) (es.forM check) := by
  induction es with
  | nil => exact ⟨fun hne => absurd rfl hne, nofun⟩
  | cons e es ih =>
    have he := h e
    show Reports (parts e ++ es.flatMap parts) (check e >>= fun _ => es.forM check)
    cases hparts : parts e with
    | nil =>
      rw [hparts] at he
      exact ih.bind he
    | cons x rest =>
      rw [hparts] at he
      have hcheck : check e = .error x.refusal := he
      rw [hcheck]
      refine ⟨fun _ => nofun, fun r hr => .inr ⟨x, rfl, ?_⟩⟩
      cases hr
      rfl

/-- The first part without a form is reported if the entries without such parts pass. -/
theorem forM_eq_first {es : List Entry} {x : Unsupported} (hx : (es.flatMap parts).head? = some x)
    (hes : ∀ e ∈ es, parts e = [] → check e = .ok ()) : es.forM check = .error x.refusal := by
  induction es with
  | nil => cases hx
  | cons e es ih =>
    have he := h e
    rw [List.forall_mem_cons] at hes
    rw [List.flatMap_cons] at hx
    show (check e >>= fun _ => es.forM check) = _
    cases hparts : parts e with
    | nil =>
      rw [hparts] at hx
      rw [hes.1 hparts]
      exact ih hx hes.2
    | cons y rest =>
      rw [hparts] at hx he
      have hcheck : check e = .error y.refusal := he
      cases hx
      rw [hcheck]
      rfl

end Entries

/-! ## Entries -/

theorem FieldType.mapKey?_eq (type : FieldType) :
    type.mapKey? = match type.core with | .map k _ => some k | _ => none := by
  induction type with
  | list t ih => exact ih
  | _ => rfl

theorem checkKey_eq (o : ObjectDecl) (f : Field) :
    (match f.type.mapKey? with
      | some k => if k.isKey then .ok () else .error (.mapKey k o.name f.name)
      | none => .ok () : Except Refusal Unit) =
      (Unsupported.ofField? o f).elim (.ok ()) fun x => .error x.refusal := by
  rw [FieldType.mapKey?_eq, Unsupported.ofField?]
  cases f.type.core with
  | map k v => cases k <;> rfl
  | _ => rfl

/-- The keys of an object fail for its first field without a form. -/
theorem checkKeys_eq (o : ObjectDecl) :
    checkKeys o = (o.fields.filterMap (Unsupported.ofField? o)).head?.elim (.ok ())
      fun x => .error x.refusal := by
  have hkeys : checkKeys o = o.fields.forM fun f =>
      (Unsupported.ofField? o f).elim (.ok ()) fun x => .error x.refusal :=
    congrArg o.fields.forM (funext (checkKey_eq o))
  rw [hkeys]
  induction o.fields with
  | nil => rfl
  | cons f fs ih =>
    show (Option.elim _ _ _ >>= fun _ => fs.forM _) = _
    rw [ih]
    cases h : Unsupported.ofField? o f with
    | none =>
      rw [List.filterMap_cons_none h]
      rfl
    | some x =>
      rw [List.filterMap_cons_some h]
      rfl

/-- Nothing is said of an object before its keys. -/
theorem answers_record {o : ObjectDecl} {rest : Except Refusal Unit} (h : Clashes rest) :
    Answers (o.fields.filterMap (Unsupported.ofField? o)) (checkKeys o >>= fun _ => rest) := by
  rw [checkKeys_eq]
  cases o.fields.filterMap (Unsupported.ofField? o) with
  | nil => exact h
  | cons x xs => rfl

namespace Target

/-- Why a file has no form, whatever its declarations. -/
def checkFile : Target → Schema → Except Refusal Unit
  | go, s => distinct (Go.packageName s) (Go.topNames s)
  | csharp, s =>
    if (s.entries.any fun e => e.name? = some CSharp.constantsClass) ∧
        s.entries.any CSharp.isUnnamed then
      .error (.collision CSharp.constantsClass .unnamedConsts)
    else .ok ()
  | _, _ => .ok ()

/-- Why a declaration has no form. -/
def checkDecl : Target → Decl → Except Refusal Unit
  | rust => Rust.checkDecl
  | go => Go.checkDecl
  | csharp => CSharp.checkDecl
  | dart => Dart.checkDecl
  | typescript => TypeScript.checkDecl

/-- Every target checks a file and then its declarations, in order. -/
theorem check_eq (t : Target) (s : Schema) :
    t.check s =
      (t.checkFile s >>= fun _ => s.entries.forM fun e => t.checkDecl (t.dialect.declare s e)) := by
  have hdecls : ∀ t : Target, (t.dialect.decls s).forM t.checkDecl =
      s.entries.forM fun e => t.checkDecl (t.dialect.declare s e) := fun t => forM_map ..
  rw [← hdecls]
  cases t with
  | csharp =>
    show CSharp.check s = (ite _ _ _ >>= _)
    rw [CSharp.check]
    split <;> rfl
  | _ => rfl

theorem clashes_checkFile (t : Target) (s : Schema) : Clashes (t.checkFile s) := by
  cases t with
  | go => exact clashes_distinct
  | csharp =>
    show Clashes (ite _ _ _)
    split
    · rintro e ⟨⟩
      exact ⟨_, _, rfl⟩
    · exact clashes_ok
  | _ => exact clashes_ok

/-- One case for each kind of entry in each target. -/
theorem answers_checkDecl (t : Target) (s : Schema) (e : Entry) :
    Answers (Unsupported.ofEntry t e) (t.checkDecl (t.dialect.declare s e)) := by
  cases e with
  | const c =>
    cases t with
    | csharp => exact clashes_distinct
    | _ => exact clashes_ok
  | enum e =>
    cases t with
    | go => exact clashes_ok
    | typescript =>
      show Answers (ite (e.type = .bool) (some _) none).toList
        (ite (e.type = .bool) (.error _) (.ok ()))
      split
      · rfl
      · exact clashes_ok
    | _ => exact clashes_distinct
  | object o =>
    cases t with
    | go | typescript => exact answers_record (clashes_distinct.bind clashes_distinct)
    | _ => exact answers_record clashes_distinct

/-- Whether a declaration has a form does not depend on the rest of the schema. -/
theorem checkDecl_congr (t : Target) (s s' : Schema) (e : Entry) :
    t.checkDecl (t.dialect.declare s e) = t.checkDecl (t.dialect.declare s' e) := by
  cases e with
  | const c => rfl
  | enum e => rfl
  | object o =>
    have hmembers : (t.dialect.record s o).checkMembers = (t.dialect.record s' o).checkMembers := by
      simp only [Record.checkMembers, Dialect.record, List.map_map]
      rfl
    have hparams : (t.dialect.record s o).checkParams = (t.dialect.record s' o).checkParams := by
      simp only [Record.checkParams, Dialect.record, List.map_map]
      rfl
    cases t with
    | go | typescript =>
      exact congrArg₂ (fun x y => checkKeys o >>= fun _ => x >>= fun _ => y) hmembers hparams
    | _ => exact congrArg (checkKeys o >>= fun _ => ·) hmembers

/-- A check fails for the first part without a form, or for a clash. -/
theorem reports_check (t : Target) (s : Schema) : Reports (s.unsupported t) (t.check s) := by
  rw [check_eq]
  exact (reports_forM (t.answers_checkDecl s) s.entries).bind (t.clashes_checkFile s)

end Target

/-! ## Supported parts -/

namespace Go

theorem core_of_holdsBytes {type : FieldType} (h : holdsBytes type = true) :
    type.core = .primitive .uint8 := by
  induction type with
  | list t ih =>
    rw [holdsBytes, Bool.or_eq_true, decide_eq_true_eq] at h
    rcases h with rfl | h
    · rfl
    · exact ih h
  | _ => cases h

/-- A field without a form holds no bytes. -/
theorem any_holdsBytes_prune (o : ObjectDecl) :
    ((o.fields.filter fun f => (Unsupported.ofField? o f).isNone).any fun f => holdsBytes f.type) =
      o.fields.any fun f => holdsBytes f.type := by
  rw [List.any_filter]
  refine congrArg o.fields.any (funext fun f => ?_)
  cases h : holdsBytes f.type with
  | false => rw [Bool.and_false]
  | true =>
    rw [Unsupported.ofField?, core_of_holdsBytes h]
    rfl

theorem usesBytes_supported (s : Schema) : usesBytes (s.supported .go) = usesBytes s := by
  rw [usesBytes, usesBytes, Schema.objects, Schema.objects, s.entries_supported (by decide),
    List.filterMap_map, List.any_filterMap, List.any_filterMap]
  refine congrArg s.entries.any (funext fun e => ?_)
  cases e with
  | object o => exact any_holdsBytes_prune o
  | _ => rfl

/-- Fields add no names to a package. -/
theorem topNames_supported (s : Schema) : topNames (s.supported .go) = topNames s := by
  rw [topNames, topNames, usesBytes_supported, Dialect.decls, Dialect.decls,
    s.entries_supported (by decide), List.map_map, List.flatMap_map, List.flatMap_map]
  refine congrArg (_ ++ s.entries.flatMap ·) (funext fun e => ?_)
  cases e <;> rfl

end Go

theorem Target.checkFile_supported (t : Target) (s : Schema) :
    t.checkFile (s.supported t) = t.checkFile s := by
  cases t with
  | go => exact congrArg (distinct (Go.packageName s)) (Go.topNames_supported s)
  | csharp =>
    have hany : ∀ p : Entry → Bool, (∀ e, p (Unsupported.prune e) = p e) →
        (s.supported .csharp).entries.any p = s.entries.any p := by
      intro p hp
      rw [s.entries_supported (by decide), List.any_map]
      exact congrArg s.entries.any (funext hp)
    rw [checkFile, checkFile, hany _ fun e => by cases e <;> rfl, hany _ fun e => by cases e <;> rfl]
  | _ => rfl

/-- The first part without a form is reported if all else has one. -/
theorem Target.check_eq_first {t : Target} {s : Schema} {x : Unsupported}
    (hs : t.check (s.supported t) = .ok ()) (hx : (s.unsupported t).head? = some x) :
    t.check s = .error x.refusal := by
  rw [check_eq, checkFile_supported, bind_unit_eq_ok_iff, forM_eq_ok_iff] at hs
  rw [check_eq, hs.1]
  refine forM_eq_first (t.answers_checkDecl s) hx fun e he hparts => ?_
  rw [t.checkDecl_congr s (s.supported t)]
  exact hs.2 e (Schema.mem_supported he hparts)

/-! ## Faults -/

theorem Target.render_eq_error_iff {t : Target} {s : Schema} {f : Fault} :
    t.render s = .error f ↔ ∃ e, t.check s = .error e ∧ f = .refused t e := by
  rw [render]
  cases t.check s with
  | ok u =>
    refine ⟨?_, ?_⟩
    · rintro ⟨⟩
    · rintro ⟨e, ⟨⟩, -⟩
  | error e =>
    constructor
    · rintro ⟨⟩
      exact ⟨e, rfl, rfl⟩
    · rintro ⟨_, ⟨⟩, rfl⟩
      rfl

theorem Unsupported.shape_refused (t : Target) (x : Unsupported) :
    (Fault.refused t x.refusal).shape = .unsupported t x.typeName x.context := by
  cases x <;> rfl

/-- **Parts without a form are refused, and nothing else but a clash is.** A schema with such a part
has no source text. A fault that speaks of an unsupported type is about the first such part. If there
is none, then all faults are clashes of names. If the rest of the schema has source text, then the
fault is the one about the first such part. -/
theorem render_reports_unsupported (t : Target) (s : Schema) :
    (s.unsupported t ≠ [] → ∃ f, t.render s = .error f) ∧
    (∀ f t' type context, t.render s = .error f → f.shape = .unsupported t' type context →
      t' = t ∧ ∃ x, (s.unsupported t).head? = some x ∧ type = x.typeName ∧ context = x.context) ∧
    (s.unsupported t = [] → ∀ f, t.render s = .error f →
      ∃ name context, f.shape = .collision t name context) ∧
    (∀ x source, (s.unsupported t).head? = some x → t.render (s.supported t) = .ok source →
      ∃ f, t.render s = .error f ∧ f.shape = .unsupported t x.typeName x.context) := by
  have hreports := t.reports_check s
  refine ⟨?refused, ?first, ?clash, ?only⟩
  case refused =>
    intro hne
    cases hcheck : t.check s with
    | ok u => exact absurd hcheck (hreports.fails hne)
    | error e => exact ⟨_, Target.render_eq_error_iff.2 ⟨e, hcheck, rfl⟩⟩
  case first =>
    intro f t' type context hf hshape
    obtain ⟨e, hcheck, rfl⟩ := Target.render_eq_error_iff.1 hf
    rcases hreports.cause e hcheck with ⟨name, clash, rfl⟩ | ⟨x, hx, rfl⟩
    · cases hshape
    · rw [x.shape_refused t] at hshape
      cases hshape
      exact ⟨rfl, x, hx, rfl, rfl⟩
  case clash =>
    intro hnil f hf
    obtain ⟨e, hcheck, rfl⟩ := Target.render_eq_error_iff.1 hf
    rcases hreports.cause e hcheck with ⟨name, clash, rfl⟩ | ⟨x, hx, -⟩
    · exact ⟨name, clash.describe, rfl⟩
    · rw [hnil] at hx
      cases hx
  case only =>
    intro x source hx hsource
    have hcheck := Target.check_eq_first (Target.render_eq_ok_iff.1 hsource).1 hx
    exact ⟨_, Target.render_eq_error_iff.2 ⟨_, hcheck, rfl⟩, x.shape_refused t⟩

/-- An enum of truth values before a field with lists of lists of maps. Most targets speak of the
field, and one of the enum. -/
theorem render_reports_unsupported_nested :
    let s : Schema := ⟨[], [.enum ⟨"B", .bool, [⟨"T", .bool true, .start⟩], .start⟩,
      .object ⟨"A", [⟨.list (.list (.map .float32 .string)), "m", .start⟩], .start⟩]⟩
    s.unsupported .go = [.field "A" "m" .float32] ∧
      s.unsupported .typescript = [.enum "B", .field "A" "m" .float32] ∧
      (∃ f, Target.render .go s = .error f ∧ f.shape = .unsupported .go "map key float32" "A.m") ∧
      ∃ f, Target.render .typescript s = .error f ∧
        f.shape = .unsupported .typescript "bool" "enum B" := by
  intro s
  have hgo : Target.check .go (s.supported .go) = .ok () := by decide +kernel
  have hts : Target.check .typescript (s.supported .typescript) = .ok () := by decide +kernel
  refine ⟨by decide, by decide, ?_, ?_⟩
  · exact (render_reports_unsupported .go s).2.2.2 (.field "A" "m" .float32) _ rfl
      (Target.render_eq_ok_iff.2 ⟨hgo, rfl⟩)
  · exact (render_reports_unsupported .typescript s).2.2.2 (.enum "B") _ rfl
      (Target.render_eq_ok_iff.2 ⟨hts, rfl⟩)

end Idl
