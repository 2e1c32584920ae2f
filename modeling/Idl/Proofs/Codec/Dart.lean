import Mathlib
import Idl.Proofs.Decimal.Layout
import Idl.Proofs.Target.EnumValues

/-!
# What Dart codecs compute

The expressions that encode and decode a field, run on the values of a program. A value goes from
the encoding program to the decoding one as JSON. Types and variables share their names: a variable
hides a type of its name, and a type of the program hides one of the language.

* `Value`, `Scope`: what a running program computes with.
* `Classes`: the enums and classes of a program, with the laws that their own codecs obey.
* `Expr.eval`: the value of an expression. Lambdas see the scope around them.
* `Sent`: what a value comes back as from JSON.
* `Encodes`, `Decodes`: no name that a value is encoded or decoded with is hidden.
* **`exists_eval_encode_iff`**, **`travels_of_eval_encode`**: what is encoded, and what comes back.
-/

namespace Idl

/-- A number that JSON has. -/
def Binary64.IsFinite : Binary64 → Prop
  | .finite .. => True
  | _ => False

/-! ## Lists in step -/

theorem mapM_eq_some_iff {α β : Type} {f : α → Option β} {as : List α} {bs : List β} :
    as.mapM f = some bs ↔ List.Forall₂ (fun a b => f a = some b) as bs := by
  induction as generalizing bs with
  | nil =>
    rw [List.mapM_nil, List.forall₂_nil_left_iff]
    exact Option.some_inj.trans eq_comm
  | cons a as ih =>
    rw [List.mapM_cons, List.forall₂_cons_left_iff]
    simp only [Option.bind_eq_bind, Option.bind_eq_some_iff, ih, Option.pure_def, Option.some.injEq]
    exact ⟨fun ⟨b, hb, bs, hbs, h⟩ => ⟨b, bs, hb, hbs, h.symm⟩,
      fun ⟨b, bs, hb, hbs, h⟩ => ⟨b, hb, bs, hbs, h.symm⟩⟩

theorem exists_mapM_iff {α β : Type} {f : α → Option β} {as : List α} :
    (∃ bs, as.mapM f = some bs) ↔ ∀ a ∈ as, ∃ b, f a = some b := by
  induction as with
  | nil => simp
  | cons a as ih => simp [Option.bind_eq_some_iff, ← ih]

theorem forall₂_iff_forall_mem {α β : Type} {R : α → β → Prop} {P : β → Prop} {as : List α}
    {bs : List β} (h : List.Forall₂ (fun a b => R a b ↔ P b) as bs) :
    List.Forall₂ R as bs ↔ ∀ b ∈ bs, P b := by
  induction h with
  | nil => simp
  | cons hab _ ih => simp [hab, ih]

theorem exists_forall₂ {α β : Type} {R : α → β → Prop} {as : List α}
    (h : ∀ a ∈ as, ∃ b, R a b) : ∃ bs, List.Forall₂ R as bs := by
  induction as with
  | nil => exact ⟨[], .nil⟩
  | cons a as ih =>
    obtain ⟨b, hb⟩ := h a List.mem_cons_self
    obtain ⟨bs, hbs⟩ := ih fun a' ha' => h a' (List.mem_cons_of_mem a ha')
    exact ⟨b :: bs, .cons hb hbs⟩

theorem exists_of_forall₂ {α β : Type} {R : α → β → Prop} {as : List α} {bs : List β} {b : β}
    (h : List.Forall₂ R as bs) (hb : b ∈ bs) : ∃ a ∈ as, R a b := by
  induction h with
  | nil => cases hb
  | cons hab _ ih =>
    rcases List.mem_cons.1 hb with rfl | hb
    · exact ⟨_, List.mem_cons_self, hab⟩
    · obtain ⟨a, ha, hR⟩ := ih hb
      exact ⟨a, List.mem_cons_of_mem _ ha, hR⟩

theorem forall₂_trans {α β γ : Type} {R : α → β → Prop} {S : β → γ → Prop} {T : α → γ → Prop}
    {as : List α} {bs : List β} {cs : List γ} (hrs : ∀ a b c, R a b → S b c → T a c)
    (h : List.Forall₂ R as bs) (h' : List.Forall₂ S bs cs) : List.Forall₂ T as cs := by
  induction h generalizing cs with
  | nil => cases h'; exact .nil
  | cons hab _ ih =>
    cases h' with
    | cons hbc hrest => exact .cons (hrs _ _ _ hab hbc) (ih hrest)

namespace Dart

/-! ## Values -/

/-- A key of a map. -/
inductive Key where
  | int (i : ℤ)
  | double (x : Binary64)
  | text (s : String)
  | bool (b : Bool)
  deriving DecidableEq

/-- A value, where `M` are the members of enums and `O` the objects of classes. -/
inductive Value (M O : Type) where
  | int (i : ℤ)
  | double (x : Binary64)
  | text (s : String)
  | bool (b : Bool)
  | list (elements : List (Value M O))
  | map (entries : List (Key × Value M O))
  | member (m : M)
  | object (o : O)

variable {M O : Type}

/-- A key as a value. -/
def Key.toValue : Key → Value M O
  | int i => .int i
  | double x => .double x
  | text s => .text s
  | bool b => .bool b

/-- A value as a key. -/
def Value.key? : Value M O → Option Key
  | int i => some (.int i)
  | double x => some (.double x)
  | text s => some (.text s)
  | bool b => some (.bool b)
  | _ => none

/-- The entries of a map whose keys are texts. -/
def keyed (es : List (String × Value M O)) : List (Key × Value M O) :=
  es.map fun e => (.text e.1, e.2)

/-- The entries of a map, if all its keys are texts. -/
def unkeyed? (es : List (Key × Value M O)) : Option (List (String × Value M O)) :=
  es.mapM fun
    | (.text k, v) => some (k, v)
    | _ => none

/-- The value is of a type, by the name of the type. -/
def Value.isA (type : String) : Value M O → Bool
  | int _ => type = "int" || type = "num"
  | double _ => type = "double" || type = "num"
  | text _ => type = "String"
  | bool _ => type = "bool"
  | list _ => type = "List"
  | map es => type = "Map" || (type = "Map<String, dynamic>" && (unkeyed? es).isSome)
  | member _ => false
  | object _ => false

/-- A map with one more entry. A key that is there keeps its place. -/
def insertEntry (es : List (Key × Value M O)) (e : Key × Value M O) : List (Key × Value M O) :=
  if es.any fun f => f.1 = e.1 then es.map fun f => if f.1 = e.1 then e else f else es ++ [e]

/-- The map of entries that come one after the other. -/
def ofEntries (es : List (Key × Value M O)) : List (Key × Value M O) :=
  es.foldl insertEntry []

/-! ## Programs -/

/-- The enums and classes of a program. -/
structure Classes (M O : Type) where
  /-- The member is one of the enum with this name. -/
  IsMember : String → M → Prop
  /-- The object is one of the class with this name. -/
  IsObject : String → O → Prop
  value : M → Value M O
  fromValue : String → Value M O → Option M
  toMap : O → List (String × Value M O)
  fromMap : String → List (String × Value M O) → Option O
  /-- A type or a constant of the program has this name. -/
  isDeclared : String → Bool

/-- The variables, parameters and fields in sight. -/
abbrev Scope (M O : Type) := String → Option (Value M O)

/-- The names of what is in sight. They hide types of the same names. -/
def Scope.names (scope : Scope M O) : Set String := {n | scope n ≠ none}

/-- The name stands for the type of the language that is called so. -/
def Classes.sees (C : Classes M O) (scope : Scope M O) (n : String) : Bool :=
  (scope n).isNone && !C.isDeclared n

/-- The names in the text of a type. -/
def typeNames (type : String) : List String :=
  if type = "Map<String, dynamic>" then ["Map", "String", "dynamic"] else [type]

/-- The value of an expression, unless it throws. -/
def Expr.eval (C : Classes M O) (scope : Scope M O) : Expr → Option (Value M O)
  | var x => scope x
  | entry k =>
    match scope "map" with
    | some (.map es) => es.lookup (.text k)
    | _ => none
  | value e =>
    match e.eval C scope with
    | some (.member m) => some (C.value m)
    | _ => none
  | toMap e =>
    match e.eval C scope with
    | some (.object o) => some (.map (keyed (C.toMap o)))
    | _ => none
  | cast e type =>
    if (typeNames type).all (C.sees scope) then (e.eval C scope).filter (Value.isA type) else none
  | toDouble e =>
    match e.eval C scope with
    | some (.int i) => some (.double (.ofInt i))
    | some (.double x) => some (.double x)
    | _ => none
  | toText e =>
    match e.eval C scope with
    | some (.int i) => some (.text (toString i))
    | some (.text s) => some (.text s)
    | _ => none
  | parseInt e =>
    match C.sees scope "int", e.eval C scope with
    | true, some (.text s) => (readInt? s).map .int
    | _, _ => none
  | fromValue n e =>
    match scope n, e.eval C scope with
    | none, some v => (C.fromValue n v).map .member
    | _, _ => none
  | fromMap n e =>
    match scope n, e.eval C scope with
    | none, some (.map es) => (unkeyed? es).bind fun fs => (C.fromMap n fs).map .object
    | _, _ => none
  | each e x body =>
    match e.eval C scope with
    | some (.list vs) => (vs.mapM fun v => body.eval C (Function.update scope x (some v))).map .list
    | _ => none
  | entries e k v key val =>
    match e.eval C scope with
    | some (.map es) =>
      (es.mapM fun (f : Key × Value M O) =>
        let inner := Function.update (Function.update scope k (some f.1.toValue)) v (some f.2)
        if C.sees inner "MapEntry" then
          (key.eval C inner).bind fun newKey => newKey.key?.bind fun newKey =>
            (val.eval C inner).map (newKey, ·)
        else none).map fun fs => .map (ofEntries fs)
    | _ => none

/-! ## Types -/

/-- A value of a primitive type. -/
def Value.IsPrimitive (p : Primitive) : Value M O → Prop
  | int _ => p.isInteger = true
  | double _ => p.isFloat = true
  | text _ => p = .string
  | bool _ => p = .bool
  | _ => False

/-- A value of a type. The keys of a map are different. -/
def HasType (s : Schema) (C : Classes M O) : FieldType → Value M O → Prop
  | .primitive p, v => v.IsPrimitive p
  | .list t, v => ∃ vs, v = .list vs ∧ ∀ w ∈ vs, HasType s C t w
  | .map k p, v => ∃ es, v = .map es ∧ (es.map Prod.fst).Nodup ∧
      ∀ e ∈ es, (e.1.toValue : Value M O).IsPrimitive k ∧ e.2.IsPrimitive p
  | .named n, v =>
    if (s.enumType? n).isSome then ∃ m, v = .member m ∧ C.IsMember n m
    else ∃ o, v = .object o ∧ C.IsObject n o

/-! ## JSON -/

/-- JSON has the numbers in the value. -/
inductive Value.Finite : Value M O → Prop
  | int (i : ℤ) : Finite (.int i)
  | double {x : Binary64} (finite : x.IsFinite) : Finite (.double x)
  | text (s : String) : Finite (.text s)
  | bool (b : Bool) : Finite (.bool b)
  | list {vs : List (Value M O)} (elements : ∀ v ∈ vs, Finite v) : Finite (.list vs)
  | map {es : List (Key × Value M O)} (values : ∀ e ∈ es, Finite e.2) : Finite (.map es)
  | member (m : M) : Finite (.member m)
  | object (o : O) : Finite (.object o)

/-- The second value is what the first comes back as from JSON. A whole number may come back as an
integer, and only maps with texts as keys can be sent. -/
inductive Sent : Value M O → Value M O → Prop
  | int (i : ℤ) : Sent (.int i) (.int i)
  | double {x : Binary64} (finite : x.IsFinite) : Sent (.double x) (.double x)
  | whole {x : Binary64} {i : ℤ} (whole : x.IsInt i) : Sent (.double x) (.int i)
  | text (s : String) : Sent (.text s) (.text s)
  | bool (b : Bool) : Sent (.bool b) (.bool b)
  | list {vs ws : List (Value M O)} (elements : List.Forall₂ Sent vs ws) :
    Sent (.list vs) (.list ws)
  | map {es fs : List (Key × Value M O)} (texts : ∀ e ∈ es, ∃ s, e.1 = .text s)
    (keys : es.map Prod.fst = fs.map Prod.fst)
    (values : List.Forall₂ Sent (es.map Prod.snd) (fs.map Prod.snd)) : Sent (.map es) (.map fs)

/-- The codecs of enums and classes undo each other. -/
structure Classes.Lawful (C : Classes M O) (s : Schema) : Prop where
  isPrimitive_value : ∀ n p m, s.enumType? n = some p → C.IsMember n m → (C.value m).IsPrimitive p
  finite_value : ∀ n m, C.IsMember n m → (C.value m).Finite
  fromValue_value : ∀ n m, C.IsMember n m → C.fromValue n (C.value m) = some m
  sent_toMap : ∀ n o, C.IsObject n o → ∃ es, Sent (.map (keyed (C.toMap o))) (.map (keyed es))
  fromMap_toMap : ∀ n o es, C.IsObject n o →
    Sent (.map (keyed (C.toMap o))) (.map (keyed es)) → C.fromMap n es = some o

/-! ## Hidden names -/

/-- The name stands for the type of the language that is called so, among variables of these names. -/
def Classes.Core (C : Classes M O) (vars : Set String) (n : String) : Prop :=
  n ∉ vars ∧ C.isDeclared n = false

/-- The type that a value of a primitive type is taken for. -/
def castName (p : Primitive) : String := if p.isFloat then "num" else primitive p

/-- The types that the entries of a map are decoded with. -/
def entryNames (k q : Primitive) : List String :=
  ["MapEntry", "String", castName q] ++ if k.isInteger then ["int"] else []

/-- Where a value is encoded among variables of these names, no name that it needs is hidden. -/
def Encodes (C : Classes M O) : Set String → FieldType → ℕ → Value M O → Prop
  | vars, .map k _, depth, v => k.isInteger = true → ∀ es, v = .map es → es ≠ [] →
    C.Core (insert (valueVar depth) (insert (keyVar depth) vars)) "MapEntry"
  | vars, .list t, depth, v => ∀ vs, v = .list vs → ∀ w ∈ vs,
    Encodes C (insert (elementVar depth) vars) t (depth + 1) w
  | _, _, _, _ => True

/-- Where a value is decoded among variables of these names, no name that it needs is hidden. The
elements of a list are decoded among one variable more. -/
def Decodes (s : Schema) (C : Classes M O) : Set String → FieldType → ℕ → Value M O → Prop
  | vars, .primitive p, _, _ => C.Core vars (castName p)
  | vars, .named n, _, _ => n ∉ vars ∧
    match s.enumType? n with
    | some p => C.Core vars (castName p)
    | none => ∀ m ∈ typeNames "Map<String, dynamic>", C.Core vars m
  | vars, .list t, depth, v => C.Core vars "List" ∧ ∀ vs, v = .list vs → ∀ w ∈ vs,
    Decodes s C (insert (elementVar depth) vars) t (depth + 1) w
  | vars, .map k q, depth, v => C.Core vars "Map" ∧ ∀ es, v = .map es → es ≠ [] →
    ∀ n ∈ entryNames k q, C.Core (insert (valueVar depth) (insert (keyVar depth) vars)) n

theorem sees_iff {C : Classes M O} {scope : Scope M O} {n : String} :
    C.sees scope n = true ↔ C.Core scope.names n := by
  simp [Classes.sees, Classes.Core, Scope.names]

theorem names_update (scope : Scope M O) (x : String) (v : Value M O) :
    Scope.names (Function.update scope x (some v)) = insert x scope.names := by
  ext n
  by_cases hn : n = x
  · subst n
    simp [Scope.names]
  · simp [Scope.names, hn]

/-! ## Maps -/

theorem foldl_insertEntry (acc es : List (Key × Value M O))
    (h : ((acc ++ es).map Prod.fst).Nodup) : es.foldl insertEntry acc = acc ++ es := by
  induction es generalizing acc with
  | nil => simp
  | cons e es ih =>
    have hnew : acc.any (fun f => f.1 = e.1) = false := by
      rw [List.any_eq_false]
      intro f hf heq
      rw [List.map_append, List.nodup_append] at h
      exact h.2.2 f.1 (List.mem_map_of_mem hf) e.1 (by simp) (by simpa using heq)
    rw [List.foldl_cons, insertEntry, hnew, if_neg Bool.false_ne_true, ih _ (by simpa using h)]
    simp

theorem ofEntries_of_nodup {es : List (Key × Value M O)} (h : (es.map Prod.fst).Nodup) :
    ofEntries es = es := by
  simpa [ofEntries] using foldl_insertEntry [] es h

theorem unkeyed?_keyed (es : List (String × Value M O)) : unkeyed? (keyed es) = some es := by
  unfold unkeyed?
  rw [mapM_eq_some_iff]
  rw [keyed, List.forall₂_map_left_iff, List.forall₂_same]
  exact fun e _ => rfl

/-- What a map comes back as has texts as keys. -/
theorem Sent.exists_keyed {es : List (Key × Value M O)} {j : Value M O} (h : Sent (.map es) j) :
    ∃ fs, j = .map (keyed fs) := by
  cases h with
  | @map _ fs texts keys _ =>
    obtain ⟨gs, hgs⟩ : ∃ gs : List (String × Value M O),
        List.Forall₂ (fun f g => f = (.text g.1, g.2)) fs gs := by
      apply exists_forall₂
      intro f hf
      have hmem : f.1 ∈ es.map Prod.fst := keys ▸ List.mem_map_of_mem hf
      obtain ⟨e, he, heq⟩ := List.mem_map.1 hmem
      obtain ⟨s, hs⟩ := texts e he
      exact ⟨(s, f.2), by rw [← hs, heq]⟩
    have heq : List.Forall₂ Eq fs (keyed gs) := List.forall₂_map_right_iff.2 hgs
    rw [List.forall₂_eq_eq_eq] at heq
    exact ⟨gs, heq ▸ rfl⟩

/-! ## Numbers -/

theorem ofInt_of_isInt {i : ℤ} {x : Binary64} (h : x.IsInt i) : Binary64.ofInt i = x := by
  cases x with
  | nan => exact h.elim
  | infinite => exact h.elim
  | finite negative units fits =>
    obtain ⟨hnegative, hunits⟩ := h
    have hround := Binary64.ofRatio_of_fits negative fits Nat.one_pos
    rw [Binary64.ofInt, ← hnegative, ← hunits]
    rwa [Nat.mul_one] at hround

/-! ## Expressions -/

section Eval

variable {s : Schema} {C : Classes M O} {scope : Scope M O} {e body : Expr} {p : Primitive}
  {v j : Value M O} {x : String}

theorem eval_cast {type : String} (htype : ∀ n ∈ typeNames type, C.Core scope.names n)
    (he : e.eval C scope = some v) (hv : v.isA type = true) :
    (Expr.cast e type).eval C scope = some v := by
  have hall : (typeNames type).all (C.sees scope) = true :=
    List.all_eq_true.2 fun n hn => sees_iff.2 (htype n hn)
  rw [Expr.eval, if_pos hall, he, Option.filter_some, if_pos hv]

theorem eval_cast_hidden {type : String} (htype : ¬ ∀ n ∈ typeNames type, C.Core scope.names n) :
    (Expr.cast e type).eval C scope = none := by
  rw [Expr.eval, if_neg]
  exact fun hall => htype fun n hn => sees_iff.1 (List.all_eq_true.1 hall n hn)

theorem typeNames_of_ne {type : String} (h : type ≠ "Map<String, dynamic>") :
    typeNames type = [type] := if_neg h

theorem eval_update_self (scope : Scope M O) (x : String) :
    (Expr.var x).eval C (Function.update scope x (some v)) = some v := Function.update_self ..

theorem eval_each_iff {vs ws : List (Value M O)} (he : e.eval C scope = some (.list vs)) :
    (Expr.each e x body).eval C scope = some (.list ws) ↔
      List.Forall₂ (fun v w => body.eval C (Function.update scope x (some v)) = some w) vs ws := by
  simp only [Expr.eval, he, Option.map_eq_some_iff, Value.list.injEq, exists_eq_right]
  exact mapM_eq_some_iff

/-! ## Primitive types -/

theorem not_isFloat (hp : p.isInteger = true) : p.isFloat = false := by
  cases p <;> first | rfl | cases hp

theorem castName_ne (p : Primitive) : castName p ≠ "Map<String, dynamic>" := by
  cases p <;> decide

theorem decodePrimitive_eq (p : Primitive) (e : Expr) :
    decodePrimitive p e =
      if p.isFloat then .toDouble (.cast e (castName p)) else .cast e (castName p) := by
  unfold decodePrimitive castName
  split <;> rfl

theorem eval_decodePrimitive_hidden (hp : ¬ C.Core scope.names (castName p)) :
    (decodePrimitive p e).eval C scope = none := by
  have hcast : (Expr.cast e (castName p)).eval C scope = none :=
    eval_cast_hidden (by simpa [typeNames_of_ne (castName_ne p)] using hp)
  rw [decodePrimitive_eq]
  split
  · rw [Expr.eval, hcast]
  · exact hcast

theorem eval_decodePrimitive (hp : C.Core scope.names (castName p)) (hv : v.IsPrimitive p)
    (hj : Sent v j) (he : e.eval C scope = some j) :
    (decodePrimitive p e).eval C scope = some v := by
  have hcast : j.isA (castName p) = true → (Expr.cast e (castName p)).eval C scope = some j :=
    eval_cast (by simpa [typeNames_of_ne (castName_ne p)] using hp) he
  have hfloat : p.isFloat = true → castName p = "num" := fun h => if_pos h
  have hother : p.isFloat = false → castName p = primitive p := fun h => if_neg (by simp [h])
  rw [decodePrimitive_eq]
  cases hj with
  | int i =>
    have hint : primitive p = "int" := by cases p <;> first | rfl | cases hv
    rw [if_neg (by simp [not_isFloat hv])]
    exact hcast (by rw [hother (not_isFloat hv), hint]; rfl)
  | double finite =>
    have hp : p.isFloat = true := hv
    rw [if_pos hp, Expr.eval, hcast (by rw [hfloat hp]; rfl)]
  | whole whole =>
    have hp : p.isFloat = true := hv
    rw [if_pos hp, Expr.eval, hcast (by rw [hfloat hp]; rfl)]
    exact congrArg (some ∘ Value.double) (ofInt_of_isInt whole)
  | text t =>
    obtain rfl : p = .string := hv
    exact hcast rfl
  | bool b =>
    obtain rfl : p = .bool := hv
    exact hcast rfl
  | list => exact hv.elim
  | map => exact hv.elim

theorem exists_sent_iff_of_isPrimitive (hv : v.IsPrimitive p) : (∃ j, Sent v j) ↔ v.Finite := by
  cases v with
  | int i => exact iff_of_true ⟨_, .int i⟩ (.int i)
  | double x =>
    constructor
    · rintro ⟨j, hj⟩
      cases hj with
      | double finite => exact .double finite
      | whole whole =>
        cases x with
        | finite => exact .double trivial
        | nan => exact whole.elim
        | infinite => exact whole.elim
    · intro h
      cases h with
      | double finite => exact ⟨_, .double finite⟩
  | text t => exact iff_of_true ⟨_, .text t⟩ (.text t)
  | bool b => exact iff_of_true ⟨_, .bool b⟩ (.bool b)
  | list => exact hv.elim
  | map => exact hv.elim
  | member => exact hv.elim
  | object => exact hv.elim

/-! ## Types -/

/-- The value `v` is encoded as `w`. This can be sent if JSON has its numbers, and what comes back is
decoded as `v` if no name that is needed there is hidden. -/
structure Travels (s : Schema) (C : Classes M O) (t : FieldType) (v w : Value M O) : Prop where
  exists_sent_iff : (∀ k, t.mapKey? = some k → k.isKey = true) → ((∃ j, Sent w j) ↔ v.Finite)
  eval_decode_iff : ∀ j, Sent w j → ∀ (e : Expr) (scope : Scope M O) (depth : ℕ),
    e.eval C scope = some j →
      ((decode s t e depth).eval C scope = some v ↔ Decodes s C scope.names t depth v)

theorem travels_primitive (hv : v.IsPrimitive p) : Travels s C (.primitive p) v v where
  exists_sent_iff _ := exists_sent_iff_of_isPrimitive hv
  eval_decode_iff j hj e scope depth he := by
    unfold decode Decodes
    by_cases hp : C.Core scope.names (castName p)
    · exact iff_of_true (eval_decodePrimitive hp hv hj he) hp
    · rw [eval_decodePrimitive_hidden hp]
      exact iff_of_false (by simp) hp

theorem travels_member (hC : C.Lawful s) {n : String} {m : M} (hn : s.enumType? n = some p)
    (hm : C.IsMember n m) : Travels s C (.named n) (.member m) (C.value m) where
  exists_sent_iff _ := by
    rw [exists_sent_iff_of_isPrimitive (hC.isPrimitive_value n p m hn hm)]
    exact iff_of_true (hC.finite_value n m hm) (.member m)
  eval_decode_iff j hj e scope depth he := by
    simp only [decode, Decodes, hn, Expr.eval]
    by_cases hscope : scope n = none
    · rw [hscope]
      by_cases hp : C.Core scope.names (castName p)
      · rw [eval_decodePrimitive hp (hC.isPrimitive_value n p m hn hm) hj he]
        simp only [hC.fromValue_value n m hm]
        exact iff_of_true rfl ⟨fun h => h hscope, hp⟩
      · rw [eval_decodePrimitive_hidden hp]
        exact iff_of_false (by simp) fun h => hp h.2
    · obtain ⟨w, hw⟩ := Option.ne_none_iff_exists'.1 hscope
      rw [hw]
      exact iff_of_false (by simp) fun h => h.1 hscope

theorem travels_object (hC : C.Lawful s) {n : String} {o : O} (hn : s.enumType? n = none)
    (ho : C.IsObject n o) :
    Travels s C (.named n) (.object o) (.map (keyed (C.toMap o))) where
  exists_sent_iff _ := by
    obtain ⟨_, h⟩ := hC.sent_toMap n o ho
    exact iff_of_true ⟨_, h⟩ (.object o)
  eval_decode_iff j hj e scope depth he := by
    obtain ⟨fs, rfl⟩ := hj.exists_keyed
    simp only [decode, Decodes, hn]
    rw [Expr.eval]
    by_cases hscope : scope n = none
    · rw [hscope]
      by_cases hcore : ∀ m ∈ typeNames "Map<String, dynamic>", C.Core scope.names m
      · rw [eval_cast hcore he (by simp [Value.isA, unkeyed?_keyed])]
        simp only [unkeyed?_keyed, Option.bind_some, hC.fromMap_toMap n o fs ho hj]
        exact iff_of_true rfl ⟨fun h => h hscope, hcore⟩
      · rw [eval_cast_hidden hcore]
        exact iff_of_false (by simp) fun h => hcore h.2
    · obtain ⟨w, hw⟩ := Option.ne_none_iff_exists'.1 hscope
      rw [hw]
      exact iff_of_false (by simp) fun h => h.1 hscope

theorem travels_list {t : FieldType} {vs ws : List (Value M O)}
    (h : List.Forall₂ (Travels s C t) vs ws) : Travels s C (.list t) (.list vs) (.list ws) where
  exists_sent_iff hkeys := by
    have hboth : List.Forall₂ (fun v w => (∃ j, Sent w j) ↔ v.Finite) vs ws :=
      h.imp fun v w hvw => hvw.exists_sent_iff hkeys
    constructor
    · rintro ⟨j, hj⟩
      cases hj with
      | list hjs =>
        refine .list fun v hv => ?_
        obtain ⟨w, hw, hvw⟩ := exists_of_forall₂ hboth.flip hv
        obtain ⟨j, -, hj⟩ := exists_of_forall₂ hjs.flip hw
        exact hvw.1 ⟨j, hj⟩
    · intro hfinite
      cases hfinite with
      | list elements =>
        obtain ⟨js, hjs⟩ : ∃ js, List.Forall₂ Sent ws js := by
          apply exists_forall₂
          intro w hw
          obtain ⟨v, hv, hvw⟩ := exists_of_forall₂ hboth hw
          exact hvw.2 (elements v hv)
        exact ⟨_, .list hjs⟩
  eval_decode_iff j hj e scope depth he := by
    cases hj with
    | @list _ js hjs =>
      have hdecode : List.Forall₂ (fun j v =>
          (decode s t (.var (elementVar depth)) (depth + 1)).eval C
            (Function.update scope (elementVar depth) (some j)) = some v ↔
          Decodes s C (insert (elementVar depth) scope.names) t (depth + 1) v) js vs := by
        apply List.Forall₂.flip
        refine forall₂_trans (fun v w j hvw hj => ?_) h hjs
        have hback := hvw.eval_decode_iff j hj _ _ (depth + 1)
          (eval_update_self scope (elementVar depth))
        rwa [names_update] at hback
      unfold decode Decodes
      by_cases hlist : C.Core scope.names "List"
      · rw [eval_each_iff (eval_cast (by simpa [typeNames] using hlist) he rfl),
          forall₂_iff_forall_mem hdecode]
        simp [hlist]
      · rw [Expr.eval, eval_cast_hidden (by simpa [typeNames] using hlist)]
        exact iff_of_false (by simp) fun h => hlist h.1

/-! ### Maps -/

/-- A key as it is sent. -/
def Key.encoded : Key → Key
  | int i => text (toString i)
  | k => k

theorem Key.exists_int {k : Key} (hk : (k.toValue : Value M O).IsPrimitive p)
    (hp : p.isInteger = true) : ∃ i, k = int i := by
  cases k with
  | int i => exact ⟨i, rfl⟩
  | double =>
    have hfloat : p.isFloat = true := hk
    rw [not_isFloat hp] at hfloat
    cases hfloat
  | text =>
    obtain rfl : p = .string := hk
    cases hp
  | bool =>
    obtain rfl : p = .bool := hk
    cases hp

theorem Key.encoded_of_not_isInteger {k : Key} (hk : (k.toValue : Value M O).IsPrimitive p)
    (hp : ¬ p.isInteger = true) : k.encoded = k := by
  cases k with
  | int => exact absurd hk hp
  | double => rfl
  | text => rfl
  | bool => rfl

theorem Key.exists_text {k : Key} (hk : (k.toValue : Value M O).IsPrimitive p)
    (hp : p.isKey = true) : ∃ t, k.encoded = text t := by
  cases k with
  | int i => exact ⟨toString i, rfl⟩
  | double =>
    have hfloat : p.isFloat = true := hk
    have hnone : p.isKey = false := by cases p <;> first | rfl | cases hfloat
    rw [hnone] at hp
    cases hp
  | text t => exact ⟨t, rfl⟩
  | bool =>
    obtain rfl : p = .bool := hk
    cases hp

theorem Key.encoded_int_inj {i i' : ℤ} (h : (int i).encoded = (int i').encoded) : i = i' := by
  have htext : toString i = toString i' := by simpa [encoded] using h
  have hread := readInt?_toString i
  rw [htext, readInt?_toString] at hread
  exact (Option.some.inj hread).symm

theorem eval_decodeKey {k : Key} {t : String} (hstring : C.Core scope.names "String")
    (hint : p.isInteger = true → C.Core scope.names "int")
    (hk : (k.toValue : Value M O).IsPrimitive p) (ht : k.encoded = .text t)
    (he : e.eval C scope = some (.text t)) :
    (if p.isInteger then Expr.parseInt (.cast e "String") else .cast e "String").eval C scope =
      some k.toValue := by
  have hcast : (Expr.cast e "String").eval C scope = some (.text t) :=
    eval_cast (by simpa [typeNames] using hstring) he rfl
  cases k with
  | int i =>
    have hp : p.isInteger = true := hk
    obtain rfl : toString i = t := by simpa [Key.encoded] using ht
    rw [if_pos hp, Expr.eval, hcast, sees_iff.2 (hint hp)]
    simp only [readInt?_toString]
    rfl
  | double => cases ht
  | text u =>
    obtain rfl : u = t := by simpa [Key.encoded] using ht
    obtain rfl : p = .string := hk
    exact hcast
  | bool => cases ht

theorem eval_decodeKey_hidden (h : ¬ (C.Core scope.names "String" ∧
      (p.isInteger = true → C.Core scope.names "int"))) :
    (if p.isInteger then Expr.parseInt (.cast e "String") else .cast e "String").eval C scope =
      none := by
  by_cases hstring : C.Core scope.names "String"
  · have hint : p.isInteger = true ∧ ¬ C.Core scope.names "int" := by tauto
    rw [if_pos hint.1, Expr.eval, Bool.eq_false_iff.2 (mt sees_iff.1 hint.2)]
  · have hcast : (Expr.cast e "String").eval C scope = none :=
      eval_cast_hidden (by simpa [typeNames] using hstring)
    split
    · rw [Expr.eval, hcast]
      split <;> first | rfl | contradiction
    · exact hcast

theorem sent_map_iff {es fs : List (Key × Value M O)} :
    Sent (.map es) (.map fs) ↔ (∀ e ∈ es, ∃ s, e.1 = .text s) ∧
      List.Forall₂ (fun e f => e.1 = f.1 ∧ Sent e.2 f.2) es fs := by
  have hkeys : es.map Prod.fst = fs.map Prod.fst ↔
      List.Forall₂ (fun e f => e.1 = f.1) es fs := by
    rw [← List.forall₂_eq_eq_eq, List.forall₂_map_left_iff, List.forall₂_map_right_iff]
  constructor
  · intro h
    cases h with
    | map texts keys values =>
      rw [List.forall₂_map_left_iff, List.forall₂_map_right_iff] at values
      exact ⟨texts, (hkeys.1 keys).mp (fun e f => And.intro) values⟩
  · rintro ⟨texts, h⟩
    refine .map texts (hkeys.2 (h.imp fun e f => And.left)) ?_
    rw [List.forall₂_map_left_iff, List.forall₂_map_right_iff]
    exact h.imp fun e f => And.right

/-- The entries of a map as they are sent. -/
def encodedEntries (es : List (Key × Value M O)) : List (Key × Value M O) :=
  es.map fun e => (e.1.encoded, e.2)

theorem keyVar_ne_valueVar (depth : ℕ) : keyVar depth ≠ valueVar depth := by
  intro h
  have hhead := (String.append_left_inj _).1 h
  exact absurd hhead (by decide)

/-- The scope of an entry. -/
def inner (scope : Scope M O) (depth : ℕ) (f : Key × Value M O) : Scope M O :=
  Function.update (Function.update scope (keyVar depth) (some f.1.toValue)) (valueVar depth) (some f.2)

theorem names_inner (scope : Scope M O) (depth : ℕ) (f : Key × Value M O) :
    (inner scope depth f).names = insert (valueVar depth) (insert (keyVar depth) scope.names) := by
  rw [inner, names_update, names_update]

theorem eval_keyVar (depth : ℕ) (f : Key × Value M O) :
    (Expr.var (keyVar depth)).eval C (inner scope depth f) = some f.1.toValue := by
  rw [Expr.eval, inner, Function.update_of_ne (keyVar_ne_valueVar depth), Function.update_self]

theorem eval_valueVar (depth : ℕ) (f : Key × Value M O) :
    (Expr.var (valueVar depth)).eval C (inner scope depth f) = some f.2 := eval_update_self ..

variable {k q : Primitive} {es fs : List (Key × Value M O)} {key val : Expr} {depth : ℕ}

theorem eval_entries (he : e.eval C scope = some (.map es)) (hfs : (fs.map Prod.fst).Nodup)
    (hentry : List.Forall₂ (fun f g => C.Core (inner scope depth f).names "MapEntry" ∧
      key.eval C (inner scope depth f) = some g.1.toValue ∧
      val.eval C (inner scope depth f) = some g.2) es fs) :
    (Expr.entries e (keyVar depth) (valueVar depth) key val).eval C scope = some (.map fs) := by
  have hkey : ∀ g : Key, (g.toValue : Value M O).key? = some g := fun g => by cases g <;> rfl
  simp only [Expr.eval, he]
  rw [mapM_eq_some_iff.2 (hentry.imp fun f g h => ?_), Option.map_some, ofEntries_of_nodup hfs]
  change (if C.sees (inner scope depth f) "MapEntry" = true then
    (key.eval C (inner scope depth f)).bind _ else none) = _
  rw [if_pos (sees_iff.2 h.1), h.2.1, Option.bind_some, hkey, Option.bind_some]
  exact congrArg (Option.map _) h.2.2

theorem eval_entries_hidden (he : e.eval C scope = some (.map es)) {f : Key × Value M O} (hf : f ∈ es)
    (hhidden : ¬ C.Core (inner scope depth f).names "MapEntry" ∨
      key.eval C (inner scope depth f) = none ∨ val.eval C (inner scope depth f) = none) :
    (Expr.entries e (keyVar depth) (valueVar depth) key val).eval C scope = none := by
  simp only [Expr.eval, he]
  rw [Option.map_eq_none_iff, Option.eq_none_iff_forall_ne_some]
  intro fs hfs
  obtain ⟨g, -, hg⟩ := exists_of_forall₂ (mapM_eq_some_iff.1 hfs).flip hf
  change (if C.sees (inner scope depth f) "MapEntry" = true then
    (key.eval C (inner scope depth f)).bind fun k => k.key?.bind fun k =>
      (val.eval C (inner scope depth f)).map (k, ·) else none) = some g at hg
  rcases hhidden with h | h | h
  · rw [if_neg (mt sees_iff.1 h)] at hg
    cases hg
  · rw [h] at hg
    split at hg <;> cases hg
  · rw [h] at hg
    simp at hg

theorem eval_encode_map (hes : (es.map Prod.fst).Nodup)
    (htypes : ∀ f ∈ es, (f.1.toValue : Value M O).IsPrimitive k ∧ f.2.IsPrimitive q)
    (he : e.eval C scope = some (.map es)) (hencodes : Encodes C scope.names (.map k q) depth (.map es)) :
    (encode s (.map k q) e depth).eval C scope = some (.map (encodedEntries es)) := by
  unfold encode encodedEntries
  by_cases hk : k.isInteger = true
  · rw [if_pos hk]
    have hint : ∀ a ∈ es.map Prod.fst, ∃ i, a = Key.int i := by
      intro a ha
      obtain ⟨f, hf, rfl⟩ := List.mem_map.1 ha
      exact Key.exists_int (htypes f hf).1 hk
    apply eval_entries he
    · rw [List.map_map, show (Prod.fst ∘ fun f : Key × Value M O => (f.1.encoded, f.2)) =
        Key.encoded ∘ Prod.fst from rfl, ← List.map_map]
      apply hes.map_on
      intro a ha b hb hab
      obtain ⟨i, rfl⟩ := hint a ha
      obtain ⟨i', rfl⟩ := hint b hb
      rw [Key.encoded_int_inj hab]
    · rw [List.forall₂_map_right_iff, List.forall₂_same]
      intro f hf
      obtain ⟨i, hi⟩ := hint f.1 (List.mem_map_of_mem hf)
      refine ⟨?_, ?_, eval_valueVar depth f⟩
      · rw [names_inner]
        exact hencodes hk es rfl (List.ne_nil_of_mem hf)
      · rw [Expr.eval, eval_keyVar, hi]
        rfl
  · rw [if_neg hk, List.map_congr_left fun f hf => ?_, List.map_id]
    · exact he
    · rw [Key.encoded_of_not_isInteger (htypes f hf).1 hk]
      rfl

theorem exists_sent_map_iff (hkey : k.isKey = true)
    (htypes : ∀ f ∈ es, (f.1.toValue : Value M O).IsPrimitive k ∧ f.2.IsPrimitive q) :
    (∃ j, Sent (.map (encodedEntries es)) j) ↔ (Value.map es).Finite := by
  constructor
  · rintro ⟨j, hj⟩
    obtain ⟨fs, rfl⟩ := hj.exists_keyed
    have hsent := (sent_map_iff.1 hj).2
    rw [encodedEntries, List.forall₂_map_left_iff] at hsent
    refine .map fun f hf => ?_
    obtain ⟨g, -, -, hg⟩ := exists_of_forall₂ hsent.flip hf
    exact (exists_sent_iff_of_isPrimitive (htypes f hf).2).1 ⟨_, hg⟩
  · intro hfinite
    cases hfinite with
    | map values =>
      obtain ⟨fs, hfs⟩ : ∃ fs : List (Key × Value M O),
          List.Forall₂ (fun e f => e.1.encoded = f.1 ∧ Sent e.2 f.2) es fs := by
        apply exists_forall₂
        intro f hf
        obtain ⟨j, hj⟩ := (exists_sent_iff_of_isPrimitive (htypes f hf).2).2 (values f hf)
        exact ⟨(f.1.encoded, j), rfl, hj⟩
      refine ⟨.map fs, sent_map_iff.2 ⟨?_, List.forall₂_map_left_iff.2 hfs⟩⟩
      intro f hf
      obtain ⟨g, hg, rfl⟩ := List.mem_map.1 hf
      exact Key.exists_text (htypes g hg).1 hkey

/-- The entries of a map come back where no name that they need is hidden. -/
theorem eval_decode_entries (hes : (es.map Prod.fst).Nodup)
    (htypes : ∀ f ∈ es, (f.1.toValue : Value M O).IsPrimitive k ∧ f.2.IsPrimitive q)
    (hsent : Sent (.map (encodedEntries es)) (.map fs)) (he : e.eval C scope = some (.map fs))
    (hnames : es ≠ [] → ∀ n ∈ entryNames k q,
      C.Core (insert (valueVar depth) (insert (keyVar depth) scope.names)) n) :
    (Expr.entries e (keyVar depth) (valueVar depth)
      (if k.isInteger then .parseInt (.cast (.var (keyVar depth)) "String")
        else .cast (.var (keyVar depth)) "String")
      (decodePrimitive q (.var (valueVar depth)))).eval C scope = some (.map es) := by
  obtain ⟨htexts, hsent⟩ := sent_map_iff.1 hsent
  rw [encodedEntries, List.forall₂_map_left_iff] at hsent
  have hboth : ∀ f ∈ es, (f.1.toValue : Value M O).IsPrimitive k ∧ f.2.IsPrimitive q ∧
      es ≠ [] ∧ ∃ t, f.1.encoded = .text t := fun f hf =>
    ⟨(htypes f hf).1, (htypes f hf).2, List.ne_nil_of_mem hf,
      htexts (f.1.encoded, f.2) (List.mem_map.2 ⟨f, hf, rfl⟩)⟩
  apply eval_entries he hes
  apply List.Forall₂.flip
  refine ((List.forall₂_and_left ..).2 ⟨hboth, hsent⟩).imp ?_
  rintro f g ⟨⟨hkey, hvalue, hne, t, ht⟩, heq, hfg⟩
  have hcore : ∀ n ∈ entryNames k q, C.Core (inner scope depth g).names n := by
    rw [names_inner]
    exact hnames hne
  refine ⟨hcore _ (by simp [entryNames]), ?_, ?_⟩
  · apply eval_decodeKey (hcore _ (by simp [entryNames])) _ hkey ht
    · rw [eval_keyVar, ← show f.1.encoded = g.1 from heq, ht]
      rfl
    · exact fun hk => hcore _ (by simp [entryNames, hk])
  · exact eval_decodePrimitive (hcore _ (by simp [entryNames])) hvalue hfg (eval_valueVar depth g)

theorem eval_decode_entries_hidden (he : e.eval C scope = some (.map fs)) (hfs : fs ≠ [])
    (hnames : ¬ ∀ n ∈ entryNames k q,
      C.Core (insert (valueVar depth) (insert (keyVar depth) scope.names)) n) :
    (Expr.entries e (keyVar depth) (valueVar depth)
      (if k.isInteger then .parseInt (.cast (.var (keyVar depth)) "String")
        else .cast (.var (keyVar depth)) "String")
      (decodePrimitive q (.var (valueVar depth)))).eval C scope = none := by
  obtain ⟨f, fs', rfl⟩ := List.exists_cons_of_ne_nil hfs
  apply eval_entries_hidden he List.mem_cons_self
  rw [← names_inner scope depth f] at hnames
  by_cases hentry : C.Core (inner scope depth f).names "MapEntry"
  · refine .inr ?_
    by_cases hkey : C.Core (inner scope depth f).names "String" ∧
        (k.isInteger = true → C.Core (inner scope depth f).names "int")
    · refine .inr (eval_decodePrimitive_hidden fun hq => hnames ?_)
      simp only [entryNames, List.cons_append, List.nil_append, List.forall_mem_cons]
      refine ⟨hentry, hkey.1, hq, ?_⟩
      split <;> simp_all
    · exact .inl (eval_decodeKey_hidden hkey)
  · exact .inl hentry

theorem travels_map (hes : (es.map Prod.fst).Nodup)
    (htypes : ∀ f ∈ es, (f.1.toValue : Value M O).IsPrimitive k ∧ f.2.IsPrimitive q) :
    Travels s C (.map k q) (.map es) (.map (encodedEntries es)) where
  exists_sent_iff hkey := exists_sent_map_iff (hkey k rfl) htypes
  eval_decode_iff j hj e scope depth he := by
    obtain ⟨fs, rfl⟩ : ∃ fs, j = .map fs := by cases hj; exact ⟨_, rfl⟩
    have hfs : es ≠ [] → fs ≠ [] := by
      have hlength := (sent_map_iff.1 hj).2.length_eq
      rw [encodedEntries, List.length_map] at hlength
      exact fun hne => mt (fun h => List.eq_nil_of_length_eq_zero (hlength.trans (by simp [h]))) hne
    unfold decode Decodes
    by_cases hmap : C.Core scope.names "Map"
    · have hcast : (Expr.cast e "Map").eval C scope = some (.map fs) :=
        eval_cast (by simpa [typeNames] using hmap) he rfl
      by_cases hnames : es ≠ [] → ∀ n ∈ entryNames k q,
          C.Core (insert (valueVar depth) (insert (keyVar depth) scope.names)) n
      · refine iff_of_true (eval_decode_entries hes htypes hj hcast hnames) ⟨hmap, ?_⟩
        rintro _ ⟨⟩
        exact hnames
      · push Not at hnames
        obtain ⟨hne, hhidden⟩ := hnames
        rw [eval_decode_entries_hidden hcast (hfs hne) (by push Not; exact hhidden)]
        refine iff_of_false (by simp) fun h => ?_
        obtain ⟨n, hn, hcore⟩ := hhidden
        exact hcore (h.2 es rfl hne n hn)
    · rw [Expr.eval, eval_cast_hidden (by simpa [typeNames] using hmap)]
      exact iff_of_false (by simp) fun h => hmap h.1

/-! ## Encoding -/

/-- A value of a type is encoded exactly if no name that it needs is hidden. -/
theorem exists_eval_encode_iff (t : FieldType) (hv : HasType s C t v)
    (he : e.eval C scope = some v) (depth : ℕ) :
    (∃ w, (encode s t e depth).eval C scope = some w) ↔ Encodes C scope.names t depth v := by
  induction t generalizing v e scope depth with
  | primitive p => exact iff_of_true ⟨v, he⟩ trivial
  | map k q =>
    obtain ⟨es, rfl, hes, htypes⟩ := hv
    by_cases hencodes : Encodes C scope.names (.map k q) depth (.map es)
    · exact iff_of_true ⟨_, eval_encode_map hes htypes he hencodes⟩ hencodes
    · refine iff_of_false ?_ hencodes
      simp only [Encodes, Value.map.injEq, forall_eq', not_forall] at hencodes
      obtain ⟨hk, hne, hhidden⟩ := hencodes
      obtain ⟨f, fs, rfl⟩ := List.exists_cons_of_ne_nil hne
      rw [encode, if_pos hk, eval_entries_hidden he List.mem_cons_self (.inl ?_)]
      · simp
      · rwa [names_inner]
  | named n =>
    unfold HasType at hv
    refine iff_of_true ?_ trivial
    unfold encode
    split at hv
    · rename_i hn
      obtain ⟨m, rfl, -⟩ := hv
      exact ⟨C.value m, by simp [Expr.eval, he, hn]⟩
    · rename_i hn
      obtain ⟨o, rfl, -⟩ := hv
      exact ⟨.map (keyed (C.toMap o)), by simp [Expr.eval, he, hn]⟩
  | list t ih =>
    obtain ⟨vs, rfl, hvs⟩ := hv
    -- The body of the lambda sees its element under its own name, whatever is around it.
    have hbody : ∀ w ∈ vs, (∃ u, (encode s t (.var (elementVar depth)) (depth + 1)).eval C
          (Function.update scope (elementVar depth) (some w)) = some u) ↔
        Encodes C (insert (elementVar depth) scope.names) t (depth + 1) w := by
      intro w hw
      have h := ih (hvs w hw) (eval_update_self scope (elementVar depth)) (depth + 1)
      rwa [names_update] at h
    have hall : Encodes C scope.names (.list t) depth (.list vs) ↔
        ∀ w ∈ vs, Encodes C (insert (elementVar depth) scope.names) t (depth + 1) w := by
      simp [Encodes]
    rw [hall, encode]
    by_cases hvar : encode s t (.var (elementVar depth)) (depth + 1) = .var (elementVar depth)
    · refine iff_of_true ⟨.list vs, by rw [if_pos hvar, he]⟩ fun w hw => (hbody w hw).1 ?_
      exact ⟨w, by rw [hvar, eval_update_self]⟩
    · simp only [if_neg hvar, Expr.eval, he, Option.map_eq_some_iff]
      rw [← forall₂_congr hbody, ← exists_mapM_iff]
      constructor
      · rintro ⟨_, ws, hws, -⟩
        exact ⟨ws, hws⟩
      · rintro ⟨ws, hws⟩
        exact ⟨_, ws, hws, rfl⟩

/-- **What a value of a type is encoded as travels.** -/
theorem travels_of_eval_encode (hC : C.Lawful s) (t : FieldType) (hv : HasType s C t v)
    (he : e.eval C scope = some v) {depth : ℕ} {w : Value M O}
    (hw : (encode s t e depth).eval C scope = some w) : Travels s C t v w := by
  induction t generalizing v e scope depth w with
  | primitive p =>
    obtain rfl : v = w := Option.some.inj (he.symm.trans hw)
    exact travels_primitive hv
  | map k q =>
    have hencodes := (exists_eval_encode_iff (.map k q) hv he depth).1 ⟨w, hw⟩
    obtain ⟨es, rfl, hes, htypes⟩ := hv
    rw [eval_encode_map hes htypes he hencodes] at hw
    exact Option.some.inj hw ▸ travels_map hes htypes
  | named n =>
    unfold HasType at hv
    unfold encode at hw
    cases hn : s.enumType? n with
    | some p =>
      rw [hn] at hv hw
      obtain ⟨m, rfl, hm⟩ := hv
      obtain rfl : C.value m = w := by simpa [Expr.eval, he] using hw
      exact travels_member hC hn hm
    | none =>
      rw [hn] at hv hw
      obtain ⟨o, rfl, ho⟩ := hv
      obtain rfl : .map (keyed (C.toMap o)) = w := by simpa [Expr.eval, he] using hw
      exact travels_object hC hn ho
  | list t ih =>
    obtain ⟨vs, rfl, hvs⟩ := hv
    rw [encode] at hw
    by_cases hvar : encode s t (.var (elementVar depth)) (depth + 1) = .var (elementVar depth)
    · rw [if_pos hvar, he] at hw
      obtain rfl := Option.some.inj hw
      refine travels_list (List.forall₂_same.2 fun v hv => ?_)
      have hsame : (encode s t (.var (elementVar depth)) (depth + 1)).eval C
          (Function.update scope (elementVar depth) (some v)) = some v := by
        rw [hvar, eval_update_self]
      exact ih (hvs v hv) (eval_update_self scope (elementVar depth)) hsame
    · rw [if_neg hvar] at hw
      obtain ⟨ws, hws, rfl⟩ : ∃ ws, vs.mapM _ = some ws ∧ Value.list ws = w := by
        simpa only [Expr.eval, he, Option.map_eq_some_iff] using hw
      refine travels_list (List.Forall₂.imp (fun v w h => ?_)
        ((List.forall₂_and_left ..).2 ⟨hvs, mapM_eq_some_iff.1 hws⟩))
      exact ih h.1 (eval_update_self scope (elementVar depth)) h.2

end Eval

end Dart

end Idl
