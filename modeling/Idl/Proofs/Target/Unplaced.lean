import Idl.Proofs.Schema.Unplaced
import Idl.Proofs.Target.Scope

/-!
# Source text does not show positions

* `Decl.unplaced`: a declaration whose parts come from a schema without positions.
* `Dialect.Unplaced`: a dialect whose words do not depend on positions. Its declarations only pass
  positions on.
* `Target.check_unplaced`, `Target.lines_unplaced`, **`Target.render_unplaced`**: no target looks at
  them.
-/

namespace Idl

/-! ## Declarations -/

/-- A member of an object without the position of its field. -/
def Slot.unplaced (s : Slot) : Slot := { s with field := s.field.unplaced }

/-- Constants without positions. -/
def Constants.unplaced (g : Constants) : Constants := { g with source := g.source.unplaced }

/-- An enum without positions. -/
def Choice.unplaced (c : Choice) : Choice := { c with source := c.source.unplaced }

/-- An object without positions. -/
def Record.unplaced (r : Record) : Record :=
  { r with source := r.source.unplaced, slots := r.slots.map Slot.unplaced }

/-- A declaration without positions. -/
def Decl.unplaced : Decl → Decl
  | .constants g => .constants g.unplaced
  | .choice c => .choice c.unplaced
  | .record r => .record r.unplaced

/-- A dialect whose words do not depend on positions. -/
structure Dialect.Unplaced (d : Dialect) : Prop where
  named : ∀ s n, d.named s.unplaced n = d.named s n
  binding : ∀ c m, d.binding c.unplaced m.unplaced = d.binding c m
  variant : ∀ e m, d.variant e.unplaced m.unplaced = d.variant e m
  member : ∀ o f, d.member o.unplaced f.unplaced = d.member o f
  param : ∀ o f, d.param o.unplaced f.unplaced = d.param o f

namespace Dialect.Unplaced

variable {d : Dialect}

theorem type_eq (h : d.Unplaced) (s : Schema) (t : FieldType) :
    d.type s.unplaced t = d.type s t :=
  type_congr (h.named s) t

theorem constants_eq (h : d.Unplaced) (c : ConstGroup) :
    d.constants c.unplaced = (d.constants c).unplaced := by
  simp only [constants, Constants.unplaced, ConstGroup.unplaced, List.map_map, Constants.mk.injEq,
    true_and]
  exact List.map_congr_left fun m _ => congrArg (Constant.mk · _) (h.binding c m)

theorem choice_eq (h : d.Unplaced) (e : EnumDecl) :
    d.choice e.unplaced = (d.choice e).unplaced := by
  simp only [choice, Choice.unplaced, EnumDecl.unplaced, List.map_map, Choice.mk.injEq, true_and]
  exact List.map_congr_left fun m _ => congrArg (Variant.mk m.name · _) (h.variant e m)

theorem record_eq (h : d.Unplaced) (s : Schema) (o : ObjectDecl) :
    d.record s.unplaced o.unplaced = (d.record s o).unplaced := by
  simp only [record, Record.unplaced, ObjectDecl.unplaced, List.map_map, Record.mk.injEq, true_and]
  refine List.map_congr_left fun f _ => ?_
  simp only [Function.comp_apply, Slot.unplaced, Slot.mk.injEq, true_and]
  exact ⟨h.member o f, h.param o f, h.type_eq s f.type⟩

theorem decls_eq (h : d.Unplaced) (s : Schema) :
    d.decls s.unplaced = (d.decls s).map Decl.unplaced := by
  simp only [decls, Schema.unplaced, List.map_map]
  refine List.map_congr_left fun e _ => ?_
  cases e with
  | const c => exact congrArg Decl.constants (h.constants_eq c)
  | enum e => exact congrArg Decl.choice (h.choice_eq e)
  | object o => exact congrArg Decl.record (h.record_eq s o)

theorem forM_decls (h : d.Unplaced) (s : Schema) {check : Decl → Except Refusal Unit}
    (hcheck : ∀ x, check x.unplaced = check x) :
    (d.decls s.unplaced).forM check = (d.decls s).forM check := by
  rw [h.decls_eq, forM_map]
  simp only [hcheck]

theorem map_decls {α : Type} (h : d.Unplaced) (s : Schema) {f g : Decl → α}
    (hf : ∀ x, f x.unplaced = g x) : (d.decls s.unplaced).map f = (d.decls s).map g := by
  rw [h.decls_eq, List.map_map]
  exact List.map_congr_left fun x _ => hf x

end Dialect.Unplaced

/-! ## Checks that targets share -/

@[simp] theorem checkKeys_unplaced (o : ObjectDecl) : checkKeys o.unplaced = checkKeys o := by
  rw [checkKeys, checkKeys, ObjectDecl.unplaced, forM_map]
  rfl

@[simp] theorem Choice.checkVariants_unplaced (c : Choice) :
    c.unplaced.checkVariants = c.checkVariants := rfl

@[simp] theorem Record.source_unplaced (r : Record) : r.unplaced.source = r.source.unplaced := rfl

@[simp] theorem Record.checkMembers_unplaced (r : Record) :
    r.unplaced.checkMembers = r.checkMembers := by
  simp only [checkMembers, Record.unplaced, List.map_map]
  rfl

@[simp] theorem Record.checkParams_unplaced (r : Record) :
    r.unplaced.checkParams = r.checkParams := by
  simp only [checkParams, Record.unplaced, List.map_map]
  rfl

/-! ## Targets -/

namespace Rust

theorem dialect_unplaced : dialect.Unplaced where
  named _ _ := rfl
  binding _ _ := rfl
  variant _ _ := rfl
  member _ _ := rfl
  param _ _ := rfl

theorem checkDecl_unplaced (x : Decl) : checkDecl x.unplaced = checkDecl x := by
  cases x with
  | constants g => rfl
  | choice c => rfl
  | record r => simp [Decl.unplaced, checkDecl]

theorem declLines_unplaced (x : Decl) : declLines x.unplaced = declLines x := by
  cases x with
  | constants g => rfl
  | choice c => rfl
  | record r =>
    simp only [Decl.unplaced, declLines, recordLines, Record.unplaced, List.any_map, List.map_map,
      List.flatMap_map, List.length_map]
    rfl

theorem lines_unplaced (s : Schema) : lines s.unplaced = lines s := by
  simp only [lines, imports, List.flatMap_def, Schema.package_unplaced, Schema.usesMaps_unplaced,
    Schema.hasEnums_unplaced, Schema.hasObjects_unplaced,
    dialect_unplaced.map_decls s declLines_unplaced]

theorem check_unplaced (s : Schema) : check s.unplaced = check s :=
  dialect_unplaced.forM_decls s checkDecl_unplaced

end Rust

namespace Go

theorem dialect_unplaced : dialect.Unplaced where
  named _ _ := rfl
  binding _ _ := rfl
  variant _ _ := rfl
  member _ _ := rfl
  param _ _ := rfl

@[simp] theorem usesBytes_unplaced (s : Schema) : usesBytes s.unplaced = usesBytes s :=
  s.anyType_unplaced holdsBytes

@[simp] theorem packageName_unplaced (s : Schema) : packageName s.unplaced = packageName s := rfl

theorem declNames_unplaced (x : Decl) : declNames x.unplaced = declNames x := by
  cases x with
  | constants g =>
    simp only [Decl.unplaced, declNames, Constants.unplaced, ConstGroup.unplaced, List.map_map]
    rfl
  | choice c => rfl
  | record r => rfl

theorem checkDecl_unplaced (x : Decl) : checkDecl x.unplaced = checkDecl x := by
  cases x with
  | constants g => rfl
  | choice c => rfl
  | record r => simp [Decl.unplaced, checkDecl]

theorem topNames_unplaced (s : Schema) : topNames s.unplaced = topNames s := by
  simp only [topNames, List.flatMap_def, usesBytes_unplaced,
    dialect_unplaced.map_decls s declNames_unplaced]

theorem check_unplaced (s : Schema) : check s.unplaced = check s := by
  simp only [check, topNames_unplaced, packageName_unplaced,
    dialect_unplaced.forM_decls s checkDecl_unplaced]

theorem declLines_unplaced (x : Decl) : declLines x.unplaced = declLines x := by
  cases x with
  | constants g => rfl
  | choice c => rfl
  | record r =>
    simp only [Decl.unplaced, declLines, recordLines, slotLines, resultLines, Record.unplaced,
      List.map_map, List.isEmpty_map]
    rfl

theorem lines_unplaced (s : Schema) : lines s.unplaced = lines s := by
  simp only [lines, imports, usesBytes_unplaced, packageName_unplaced, Schema.hasEnums_unplaced,
    Schema.hasObjects_unplaced, dialect_unplaced.map_decls s declLines_unplaced]

end Go

namespace CSharp

theorem dialect_unplaced : dialect.Unplaced where
  named s n := by simp [dialect, named]
  binding _ _ := rfl
  variant _ _ := rfl
  member _ _ := rfl
  param _ _ := rfl

theorem checkDecl_unplaced (x : Decl) : checkDecl x.unplaced = checkDecl x := by
  cases x with
  | constants g =>
    simp only [Decl.unplaced, checkDecl, Constants.unplaced, ConstGroup.unplaced, List.map_map]
    rfl
  | choice c => rfl
  | record r => simp [Decl.unplaced, checkDecl]

theorem check_unplaced (s : Schema) : check s.unplaced = check s := by
  have hname : ∀ e : Entry, e.unplaced.name? = e.name? := by intro e; cases e <;> rfl
  have hunnamed : ∀ e : Entry, isUnnamed e.unplaced = isUnnamed e := by intro e; cases e <;> rfl
  simp only [check, dialect_unplaced.forM_decls s checkDecl_unplaced]
  simp only [Schema.unplaced, List.any_map, Function.comp_def, hname, hunnamed]

theorem declLines_unplaced (x : Decl) : declLines x.unplaced = declLines x := by
  cases x with
  | constants g => rfl
  | choice c => rfl
  | record r =>
    simp only [Decl.unplaced, declLines, recordLines, Record.unplaced, List.map_map,
      List.flatMap_map]
    rfl

theorem lines_unplaced (s : Schema) : lines s.unplaced = lines s := by
  simp only [lines, Schema.package_unplaced, dialect_unplaced.map_decls s declLines_unplaced]

end CSharp

namespace Dart

theorem dialect_unplaced : dialect.Unplaced where
  named _ _ := rfl
  binding _ _ := rfl
  variant _ _ := rfl
  member _ _ := rfl
  param _ _ := rfl

theorem checkDecl_unplaced (x : Decl) : checkDecl x.unplaced = checkDecl x := by
  cases x with
  | constants g => rfl
  | choice c => rfl
  | record r => simp [Decl.unplaced, checkDecl]

theorem check_unplaced (s : Schema) : check s.unplaced = check s :=
  dialect_unplaced.forM_decls s checkDecl_unplaced

theorem encode_unplaced (s : Schema) (t : FieldType) (e : Expr) (depth : Nat) :
    encode s.unplaced t e depth = encode s t e depth :=
  encode_congr s.enumType?_unplaced t e depth

theorem decode_unplaced (s : Schema) (t : FieldType) (e : Expr) (depth : Nat) :
    decode s.unplaced t e depth = decode s t e depth :=
  decode_congr s.enumType?_unplaced t e depth

theorem declLines_unplaced (s : Schema) (x : Decl) :
    declLines s.unplaced x.unplaced = declLines s x := by
  cases x with
  | constants g => rfl
  | choice c => rfl
  | record r =>
    simp only [Decl.unplaced, declLines, recordLines, Record.unplaced, List.map_map,
      List.isEmpty_map, Function.comp_def, encodeLine, decodeLine, encode_unplaced, decode_unplaced]
    rfl

theorem lines_unplaced (s : Schema) : lines s.unplaced = lines s := by
  rw [lines, lines, dialect_unplaced.map_decls s (declLines_unplaced s), Schema.hasObjects_unplaced,
    Schema.package_unplaced]

end Dart

namespace TypeScript

theorem dialect_unplaced : dialect.Unplaced where
  named _ _ := rfl
  binding _ _ := rfl
  variant _ _ := rfl
  member _ _ := rfl
  param _ _ := rfl

theorem checkDecl_unplaced (x : Decl) : checkDecl x.unplaced = checkDecl x := by
  cases x with
  | constants g => rfl
  | choice c => rfl
  | record r => simp [Decl.unplaced, checkDecl]

theorem check_unplaced (s : Schema) : check s.unplaced = check s :=
  dialect_unplaced.forM_decls s checkDecl_unplaced

theorem encode_unplaced (s : Schema) (t : FieldType) (e : Expr) (depth : Nat) :
    encode s.unplaced t e depth = encode s t e depth :=
  encode_congr s.enumType?_unplaced t e depth

theorem decode?_unplaced (s : Schema) (t : FieldType) (e : Expr) (depth : Nat) :
    decode? s.unplaced t e depth = decode? s t e depth :=
  decode?_congr s.enumType?_unplaced t e depth

theorem declLines_unplaced (s : Schema) (x : Decl) :
    declLines s.unplaced x.unplaced = declLines s x := by
  cases x with
  | constants g => rfl
  | choice c => rfl
  | record r =>
    simp only [Decl.unplaced, declLines, recordLines, encodeLines, decodeLines, Record.unplaced,
      List.map_map, List.isEmpty_map, Function.comp_def, encodeLine, argument, encode_unplaced,
      decode?_unplaced]
    rfl

theorem body_unplaced (s : Schema) : body s.unplaced = body s := by
  rw [body, body, dialect_unplaced.map_decls s (declLines_unplaced s), Schema.package_unplaced]

theorem lines_unplaced (s : Schema) : lines s.unplaced = lines s := by
  rw [lines, lines, body_unplaced]

end TypeScript

namespace Target

theorem check_unplaced (t : Target) (s : Schema) : t.check s.unplaced = t.check s := by
  cases t with
  | rust => exact Rust.check_unplaced s
  | go => exact Go.check_unplaced s
  | csharp => exact CSharp.check_unplaced s
  | dart => exact Dart.check_unplaced s
  | typescript => exact TypeScript.check_unplaced s

theorem lines_unplaced (t : Target) (s : Schema) : t.lines s.unplaced = t.lines s := by
  cases t with
  | rust => exact Rust.lines_unplaced s
  | go => exact Go.lines_unplaced s
  | csharp => exact CSharp.lines_unplaced s
  | dart => exact Dart.lines_unplaced s
  | typescript => exact TypeScript.lines_unplaced s

/-- **Source text does not show positions.** -/
theorem render_unplaced (t : Target) (s : Schema) : t.render s.unplaced = t.render s := by
  rw [render, render, check_unplaced, lines_unplaced]

end Target

end Idl
