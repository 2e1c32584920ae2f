import Idl.Proofs.Outcome
import Idl.Schema.Validity

/-!
# Schemas without positions

* `Schema.unplaced`: a schema with every position moved to the start. Two schemas that are equal up
  to lines and columns have the same one.
* `Schema.enums_of_unplaced`, `Schema.objects_of_unplaced`, with `EnumDecl.unplaced_eq_iff` and
  `ObjectDecl.unplaced_eq_iff`: the entries of such a schema are known up to their positions.
* `Schema.enumType?_unplaced`, `Entry.names_unplaced`: what is looked up in a schema stays.
* `Schema.validate_unplaced`: so do the rules, which fail with the same defect elsewhere.
-/

namespace Idl

/-- A member without its position. -/
def Member.unplaced (m : Member) : Member := { m with position := .start }

/-- A field without its position. -/
def Field.unplaced (f : Field) : Field := { f with position := .start }

/-- A group of constants without positions. -/
def ConstGroup.unplaced (c : ConstGroup) : ConstGroup :=
  { c with members := c.members.map Member.unplaced, position := .start }

/-- An enum without positions. -/
def EnumDecl.unplaced (e : EnumDecl) : EnumDecl :=
  { e with members := e.members.map Member.unplaced, position := .start }

/-- An object without positions. -/
def ObjectDecl.unplaced (o : ObjectDecl) : ObjectDecl :=
  { o with fields := o.fields.map Field.unplaced, position := .start }

/-- An entry without positions. -/
def Entry.unplaced : Entry → Entry
  | .const c => .const c.unplaced
  | .enum e => .enum e.unplaced
  | .object o => .object o.unplaced

/-- A schema without positions. -/
def Schema.unplaced (s : Schema) : Schema := { s with entries := s.entries.map Entry.unplaced }

/-! ## Equal up to positions -/

@[simp] theorem Member.unplaced_eq_iff {m : Member} {n : String} {v : Literal} {q : Position} :
    m.unplaced = unplaced ⟨n, v, q⟩ ↔ ∃ p, m = ⟨n, v, p⟩ := by
  cases m
  simp [unplaced]

@[simp] theorem Field.unplaced_eq_iff {f : Field} {t : FieldType} {n : String} {q : Position} :
    f.unplaced = unplaced ⟨t, n, q⟩ ↔ ∃ p, f = ⟨t, n, p⟩ := by
  cases f
  simp [unplaced]

@[simp] theorem EnumDecl.unplaced_eq_iff {e : EnumDecl} {n : String} {type : Primitive}
    {ms : List Member} {q : Position} :
    e.unplaced = unplaced ⟨n, type, ms, q⟩ ↔
      ∃ ms' p, ms'.map Member.unplaced = ms.map Member.unplaced ∧ e = ⟨n, type, ms', p⟩ := by
  constructor
  · intro h
    obtain ⟨n', type', ms', p⟩ := e
    simp only [unplaced, mk.injEq] at h
    obtain ⟨rfl, rfl, hms, -⟩ := h
    exact ⟨ms', p, hms, rfl⟩
  · rintro ⟨ms', p, hms, rfl⟩
    simp only [unplaced, hms]

@[simp] theorem ObjectDecl.unplaced_eq_iff {o : ObjectDecl} {n : String} {fs : List Field}
    {q : Position} :
    o.unplaced = unplaced ⟨n, fs, q⟩ ↔
      ∃ fs' p, fs'.map Field.unplaced = fs.map Field.unplaced ∧ o = ⟨n, fs', p⟩ := by
  constructor
  · intro h
    obtain ⟨n', fs', p⟩ := o
    simp only [unplaced, mk.injEq] at h
    obtain ⟨rfl, hfs, -⟩ := h
    exact ⟨fs', p, hfs, rfl⟩
  · rintro ⟨fs', p, hfs, rfl⟩
    simp only [unplaced, hfs]

/-! ## Look-ups -/

namespace Schema

@[simp] theorem enums_nil (package : List String) : (mk package []).enums = [] := rfl

@[simp] theorem enums_cons (package : List String) (e : Entry) (es : List Entry) :
    (mk package (e :: es)).enums =
      (match e with | .enum e => [e] | _ => []) ++ (mk package es).enums := by
  cases e <;> rfl

@[simp] theorem objects_nil (package : List String) : (mk package []).objects = [] := rfl

@[simp] theorem objects_cons (package : List String) (e : Entry) (es : List Entry) :
    (mk package (e :: es)).objects =
      (match e with | .object o => [o] | _ => []) ++ (mk package es).objects := by
  cases e <;> rfl

theorem enums_unplaced (s : Schema) : s.unplaced.enums = s.enums.map EnumDecl.unplaced := by
  simp only [enums, unplaced, List.filterMap_map, List.map_filterMap]
  congr 1
  funext e
  cases e <;> rfl

theorem objects_unplaced (s : Schema) : s.unplaced.objects = s.objects.map ObjectDecl.unplaced := by
  simp only [objects, unplaced, List.filterMap_map, List.map_filterMap]
  congr 1
  funext e
  cases e <;> rfl

theorem enums_of_unplaced {s s' : Schema} (h : s.unplaced = s'.unplaced) :
    s.enums.map EnumDecl.unplaced = s'.enums.map EnumDecl.unplaced := by
  rw [← enums_unplaced, h, enums_unplaced]

theorem objects_of_unplaced {s s' : Schema} (h : s.unplaced = s'.unplaced) :
    s.objects.map ObjectDecl.unplaced = s'.objects.map ObjectDecl.unplaced := by
  rw [← objects_unplaced, h, objects_unplaced]

@[simp] theorem package_unplaced (s : Schema) : s.unplaced.package = s.package := rfl

@[simp] theorem enumType?_unplaced (s : Schema) (name : String) :
    s.unplaced.enumType? name = s.enumType? name := by
  rw [enumType?, enums_unplaced, ← List.map_reverse, List.find?_map, Option.map_map]
  rfl

@[simp] theorem hasEnums_unplaced (s : Schema) : s.unplaced.hasEnums = s.hasEnums := by
  simp [hasEnums, enums_unplaced]

@[simp] theorem hasObjects_unplaced (s : Schema) : s.unplaced.hasObjects = s.hasObjects := by
  simp [hasObjects, objects_unplaced]

theorem anyType_unplaced (s : Schema) (p : FieldType → Bool) :
    (s.unplaced.objects.any fun o => o.fields.any fun f => p f.type) =
      s.objects.any fun o => o.fields.any fun f => p f.type := by
  simp [objects_unplaced, ObjectDecl.unplaced, Field.unplaced, Function.comp_def]

@[simp] theorem usesMaps_unplaced (s : Schema) : s.unplaced.usesMaps = s.usesMaps :=
  s.anyType_unplaced fun t => t.mapKey?.isSome

end Schema

/-! ## Rules -/

/-- A defect without its position. -/
def Defect.unplaced : Defect → Defect
  | misfit cause _ => misfit cause .start
  | valueTwice value enum _ => valueTwice value enum .start
  | d => d

@[simp] theorem Entry.names_unplaced (e : Entry) : e.unplaced.names = e.names := by
  cases e with
  | const c => simp only [unplaced, names, ConstGroup.unplaced, List.map_map]; rfl
  | enum e => rfl
  | object o => rfl

theorem checkMembers_mapError (owner : String) (names : List String) :
    (checkMembers owner names).mapError Defect.unplaced = checkMembers owner names := by
  unfold checkMembers
  cases firstRepeat? [] names <;> rfl

theorem checkLiteral_unplaced (type : Primitive) (m : Member) :
    checkLiteral type m.unplaced = (checkLiteral type m).mapError Defect.unplaced := by
  simp only [checkLiteral, Member.unplaced]
  cases type.fit m.value <;> rfl

theorem checkValues_unplaced (e : EnumDecl) (seen : List Literal) (ms : List Member) :
    checkValues e.unplaced seen (ms.map Member.unplaced) =
      (checkValues e seen ms).mapError Defect.unplaced := by
  induction ms generalizing seen with
  | nil => rfl
  | cons m ms ih =>
    rw [List.map_cons, checkValues, checkValues, mapError_bind, ← checkLiteral_unplaced]
    congr 1
    funext _
    by_cases h : (seen.any (m.value.same ·)) = true
    · rw [if_pos h, if_pos (show (seen.any (m.unplaced.value.same ·)) = true from h)]
      rfl
    · rw [if_neg h, if_neg (show ¬ (seen.any (m.unplaced.value.same ·)) = true from h)]
      exact ih (m.value :: seen)

theorem Entry.validate_unplaced (e : Entry) :
    e.unplaced.validate = e.validate.mapError Defect.unplaced := by
  cases e with
  | const c =>
    simp only [unplaced, validate, ConstGroup.unplaced, List.map_map, mapError_bind,
      checkMembers_mapError, forM_map, mapError_forM, checkLiteral_unplaced]
    rfl
  | enum e =>
    have hnames : e.unplaced.members.map Member.name = e.members.map Member.name := by
      simp only [EnumDecl.unplaced, List.map_map]
      rfl
    by_cases h : e.members.isEmpty = true
    · have h' : e.unplaced.members.isEmpty = true := by simpa [EnumDecl.unplaced] using h
      simp only [unplaced, validate, if_pos h, if_pos h']
      rfl
    · have h' : ¬ e.unplaced.members.isEmpty = true := by simpa [EnumDecl.unplaced] using h
      simp only [unplaced, validate, if_neg h, if_neg h', hnames]
      rw [mapError_bind, checkMembers_mapError, ← checkValues_unplaced]
      rfl
  | object o =>
    simp only [unplaced, validate, ObjectDecl.unplaced, List.map_map, checkMembers_mapError]
    rfl

/-- **The rules do not depend on positions.** -/
theorem Schema.validate_unplaced (s : Schema) :
    s.unplaced.validate = s.validate.mapError Defect.unplaced := by
  simp only [validate, unplaced, List.flatMap_map, Entry.names_unplaced, forM_map,
    Entry.validate_unplaced]
  cases firstRepeat? [] (s.entries.flatMap Entry.names) with
  | some n => rfl
  | none => exact (mapError_forM ..).symm

end Idl
