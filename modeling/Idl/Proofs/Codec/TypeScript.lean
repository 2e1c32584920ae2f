import Mathlib
import Idl.Proofs.Codec.Dart
import Idl.Target.TypeScript

/-!
# What TypeScript codecs compute

The expressions that encode and decode a member, run on the values of a program. Assertions about
types are gone when a program runs. Classes and variables share their names, and a variable hides a
class of its name.

* `Value`, `Scope`, `Classes`: what a running program computes with.
* `Expr.eval`: the value of an expression.
* `Sent`: what a value comes back as from JSON. `Value.Kept`: the values that come back as they were.
* `Decodes`: no class that a value is decoded with is hidden.
* `decode?_eq_none_iff`: a value is taken as it is exactly if it was left as it was.
* **`decode_undoes_encode`**: in both targets a value of a type comes back as it was exactly if JSON
  keeps it and no name that it needs is hidden.
-/

namespace Idl

namespace TypeScript

/-! ## Values -/

/-- A value, where `O` are the objects of classes. -/
inductive Value (O : Type) where
  | null
  | number (x : Binary64)
  | text (s : String)
  | bool (b : Bool)
  | array (elements : List (Value O))
  | plain (entries : List (String × Value O))
  | object (o : O)

/-- The classes of a program. -/
structure Classes (O : Type) where
  /-- The object is one of the class with this name. -/
  IsObject : String → O → Prop
  toObject : O → List (String × Value O)
  fromObject : String → Value O → Option O

/-- What is in sight: variables, and the members of the object that is encoded. -/
structure Scope (O : Type) where
  var : String → Option (Value O)
  own : String → Option (Value O)

variable {O : Type}

/-- A scope with one more variable, which hides one of the same name. -/
def Scope.bind (scope : Scope O) (x : String) (v : Value O) : Scope O :=
  { scope with var := Function.update scope.var x (some v) }

/-- The names of variables in sight. They hide classes of the same names. -/
def Scope.names (scope : Scope O) : Set String := {n | scope.var n ≠ none}

/-- The value of an expression, unless it throws. -/
def Expr.eval (C : Classes O) (scope : Scope O) : Expr → Option (Value O)
  | var x => scope.var x
  | own m => scope.own m
  | entry k =>
    match scope.var "data" with
    | some (.plain es) => es.lookup k
    | _ => none
  | toObject e =>
    match e.eval C scope with
    | some (.object o) => some (.plain (C.toObject o))
    | _ => none
  | fromObject n e =>
    match scope.var n, e.eval C scope with
    | none, some v => (C.fromObject n v).map .object
    | _, _ => none
  | asArray e => e.eval C scope
  | each e x _ body =>
    match e.eval C scope with
    | some (.array vs) => (vs.mapM fun v => body.eval C (scope.bind x v)).map .array
    | _ => none

/-! ## Types -/

/-- A value of a primitive type. There is one type of numbers. -/
def Value.IsPrimitive (p : Primitive) : Value O → Prop
  | number _ => p.isInteger = true ∨ p.isFloat = true
  | text _ => p = .string
  | bool _ => p = .bool
  | _ => False

/-- A value of a type. The members of an enum are its values. -/
def HasType (s : Schema) (C : Classes O) : FieldType → Value O → Prop
  | .primitive p, v => v.IsPrimitive p
  | .list t, v => ∃ vs, v = .array vs ∧ ∀ w ∈ vs, HasType s C t w
  | .map _ p, v => ∃ es, v = .plain es ∧ ∀ e ∈ es, e.2.IsPrimitive p
  | .named n, v =>
    match s.enumType? n with
    | some p => v.IsPrimitive p
    | none => ∃ o, v = .object o ∧ C.IsObject n o

/-! ## JSON -/

/-- JSON keeps the number: it is finite, and not the negative zero. -/
def IsKept (x : Binary64) : Prop := x.IsFinite ∧ x ≠ .zero true

/-- The second value is what the first comes back as from JSON. A number that is not finite comes back
as nothing, and a zero without sign. No object of a class can be sent. -/
inductive Sent : Value O → Value O → Prop
  | null : Sent .null .null
  | number {x : Binary64} (kept : IsKept x) : Sent (.number x) (.number x)
  | zero : Sent (.number (.zero true)) (.number (.zero false))
  | lost {x : Binary64} (infinite : ¬ x.IsFinite) : Sent (.number x) .null
  | text (s : String) : Sent (.text s) (.text s)
  | bool (b : Bool) : Sent (.bool b) (.bool b)
  | array {vs ws : List (Value O)} (elements : List.Forall₂ Sent vs ws) : Sent (.array vs) (.array ws)
  | plain {es fs : List (String × Value O)} (keys : es.map Prod.fst = fs.map Prod.fst)
    (values : List.Forall₂ Sent (es.map Prod.snd) (fs.map Prod.snd)) : Sent (.plain es) (.plain fs)

/-- JSON keeps the numbers in the value. -/
inductive Value.Kept : Value O → Prop
  | number {x : Binary64} (kept : IsKept x) : Kept (.number x)
  | text (s : String) : Kept (.text s)
  | bool (b : Bool) : Kept (.bool b)
  | array {vs : List (Value O)} (elements : ∀ v ∈ vs, Kept v) : Kept (.array vs)
  | plain {es : List (String × Value O)} (values : ∀ e ∈ es, Kept e.2) : Kept (.plain es)
  | object (o : O) : Kept (.object o)

/-- The codecs of classes undo each other. -/
structure Classes.Lawful (C : Classes O) : Prop where
  sent_toObject : ∀ n o, C.IsObject n o → ∃ j, Sent (.plain (C.toObject o)) j
  fromObject_toObject : ∀ n o j, C.IsObject n o → Sent (.plain (C.toObject o)) j →
    C.fromObject n j = some o

/-- Where a value is decoded among variables of these names, no class that it needs is hidden. The
elements of a list are decoded among one variable more. -/
def Decodes (s : Schema) : Set String → FieldType → ℕ → Value O → Prop
  | vars, .named n, _, _ => s.enumType? n = none → n ∉ vars
  | vars, .list t, depth, v => ∀ vs, v = .array vs → ∀ w ∈ vs,
    Decodes s (insert (elementVar depth) vars) t (depth + 1) w
  | _, _, _, _ => True

theorem names_bind (scope : Scope O) (x : String) (v : Value O) :
    (scope.bind x v).names = insert x scope.names := by
  ext n
  by_cases hn : n = x
  · subst n
    simp [Scope.names, Scope.bind]
  · simp [Scope.names, Scope.bind, hn]

/-! ## Values as they are -/

theorem toObject_ne (e : Expr) : Expr.toObject e ≠ e := by
  intro h
  have hsize := congrArg sizeOf h
  simp at hsize

theorem each_ne (e body : Expr) (x : String) (isOpen : Bool) : Expr.each e x isOpen body ≠ e := by
  intro h
  have hsize := congrArg sizeOf h
  simp at hsize
  omega

/-- A value is taken as it is exactly if it was left as it was. -/
theorem decode?_eq_none_iff (s : Schema) (t : FieldType) (e e' : Expr) (depth depth' : ℕ) :
    decode? s t e' depth' = none ↔ encode s t e depth = e := by
  induction t generalizing e e' depth depth' with
  | primitive p => simp [decode?, encode]
  | map k q => simp [decode?, encode]
  | named n => by_cases hn : (s.enumType? n).isSome = true <;> simp [decode?, encode, hn, toObject_ne]
  | list t ih =>
    have hinner := ih (.var (elementVar depth)) (.var (elementVar depth')) (depth + 1) (depth' + 1)
    rw [decode?, encode, Option.map_eq_none_iff, hinner]
    by_cases hbody : encode s t (.var (elementVar depth)) (depth + 1) = .var (elementVar depth)
    · simp [hbody]
    · simp [hbody, each_ne]

/-! ## Expressions -/

section Eval

variable {s : Schema} {C : Classes O} {scope : Scope O} {e body : Expr} {p : Primitive}
  {v j : Value O} {x : String}

theorem eval_bind_self (scope : Scope O) (x : String) :
    (Expr.var x).eval C (scope.bind x v) = some v := Function.update_self ..

theorem eval_each_iff {vs ws : List (Value O)} {isOpen : Bool}
    (he : e.eval C scope = some (.array vs)) :
    (Expr.each e x isOpen body).eval C scope = some (.array ws) ↔
      List.Forall₂ (fun v w => body.eval C (scope.bind x v) = some w) vs ws := by
  simp only [Expr.eval, he, Option.map_eq_some_iff, Value.array.injEq, exists_eq_right]
  exact mapM_eq_some_iff

/-! ## Values as they come back -/

theorem exists_sent_number (x : Binary64) : ∃ j : Value O, Sent (.number x) j := by
  by_cases hfinite : x.IsFinite
  · by_cases hzero : x = .zero true
    · rw [hzero]
      exact ⟨_, .zero⟩
    · exact ⟨_, .number ⟨hfinite, hzero⟩⟩
  · exact ⟨_, .lost hfinite⟩

theorem exists_sent_of_isPrimitive (hv : v.IsPrimitive p) : ∃ j, Sent v j := by
  cases v with
  | number x => exact exists_sent_number x
  | text t => exact ⟨_, .text t⟩
  | bool b => exact ⟨_, .bool b⟩
  | null => exact hv.elim
  | array => exact hv.elim
  | plain => exact hv.elim
  | object => exact hv.elim

/-- A value of a primitive type comes back as it was exactly if JSON keeps it. -/
theorem Sent.eq_iff_kept (hj : Sent v j) (hv : v.IsPrimitive p) : j = v ↔ v.Kept := by
  cases hj with
  | number kept => exact iff_of_true rfl (.number kept)
  | zero =>
    refine iff_of_false (by simp [Binary64.zero]) ?_
    rintro ⟨kept⟩
    exact kept.2 rfl
  | lost infinite =>
    refine iff_of_false (by simp) ?_
    rintro ⟨kept⟩
    exact infinite kept.1
  | text t => exact iff_of_true rfl (.text t)
  | bool b => exact iff_of_true rfl (.bool b)
  | null => exact hv.elim
  | array => exact hv.elim
  | plain => exact hv.elim

theorem sent_plain_iff {es : List (String × Value O)} :
    Sent (.plain es) j ↔ ∃ fs, j = .plain fs ∧
      List.Forall₂ (fun e f => e.1 = f.1 ∧ Sent e.2 f.2) es fs := by
  have hkeys : ∀ fs : List (String × Value O), es.map Prod.fst = fs.map Prod.fst ↔
      List.Forall₂ (fun e f => e.1 = f.1) es fs := fun fs => by
    rw [← List.forall₂_eq_eq_eq, List.forall₂_map_left_iff, List.forall₂_map_right_iff]
  constructor
  · intro h
    cases h with
    | @plain _ fs keys values =>
      rw [List.forall₂_map_left_iff, List.forall₂_map_right_iff] at values
      exact ⟨fs, rfl, ((hkeys fs).1 keys).mp (fun e f => And.intro) values⟩
  · rintro ⟨fs, rfl, h⟩
    refine .plain ((hkeys fs).2 (h.imp fun e f => And.left)) ?_
    rw [List.forall₂_map_left_iff, List.forall₂_map_right_iff]
    exact h.imp fun e f => And.right

theorem exists_sent_plain {es : List (String × Value O)} (hes : ∀ f ∈ es, f.2.IsPrimitive p) :
    ∃ j, Sent (.plain es) j := by
  obtain ⟨fs, hfs⟩ : ∃ fs : List (String × Value O),
      List.Forall₂ (fun e f => e.1 = f.1 ∧ Sent e.2 f.2) es fs := by
    apply exists_forall₂
    intro f hf
    obtain ⟨j, hj⟩ := exists_sent_of_isPrimitive (hes f hf)
    exact ⟨(f.1, j), rfl, hj⟩
  exact ⟨_, sent_plain_iff.2 ⟨fs, rfl, hfs⟩⟩

theorem Sent.eq_iff_kept_plain {es : List (String × Value O)} (hj : Sent (.plain es) j)
    (hes : ∀ f ∈ es, f.2.IsPrimitive p) : j = .plain es ↔ (Value.plain es).Kept := by
  obtain ⟨fs, rfl, hfs⟩ := sent_plain_iff.1 hj
  have hback : List.Forall₂ (fun f e => f = e ↔ e.2.Kept) fs es := by
    apply List.Forall₂.flip
    refine ((List.forall₂_and_left ..).2 ⟨hes, hfs⟩).imp ?_
    rintro ⟨k, v⟩ ⟨k', j⟩ ⟨hv, hk, hj⟩
    obtain rfl : k = k' := hk
    show (k, j) = (k, v) ↔ v.Kept
    rw [← hj.eq_iff_kept hv]
    simp
  rw [Value.plain.injEq, ← List.forall₂_eq_eq_eq, forall₂_iff_forall_mem hback]
  constructor
  · exact .plain
  · rintro ⟨⟩
    assumption

/-! ## Types -/

/-- The value `v` is encoded as `w`. This can be sent, and what comes back is decoded as `v` exactly if
JSON keeps `v` and no class that is needed there is hidden. -/
structure Travels (s : Schema) (C : Classes O) (t : FieldType) (v w : Value O) : Prop where
  exists_sent : ∃ j, Sent w j
  eval_decode_iff : ∀ j, Sent w j → ∀ (e : Expr) (scope : Scope O) (depth : ℕ),
    e.eval C scope = some j →
      (((decode? s t e depth).getD e).eval C scope = some v ↔
        v.Kept ∧ Decodes s scope.names t depth v)

theorem travels_object (hC : C.Lawful) {n : String} {o : O} (hn : s.enumType? n = none)
    (ho : C.IsObject n o) : Travels s C (.named n) (.object o) (.plain (C.toObject o)) where
  exists_sent := hC.sent_toObject n o ho
  eval_decode_iff j hj e scope depth he := by
    have hdecodes : Decodes s scope.names (.named n) depth (.object o) ↔ scope.var n = none := by
      simp [Decodes, hn, Scope.names]
    have hdecode : (decode? s (.named n) e depth).getD e = .fromObject n e := by simp [decode?, hn]
    rw [hdecodes, hdecode, Expr.eval, he]
    cases hscope : scope.var n with
    | none =>
      simp only [hC.fromObject_toObject n o j ho hj]
      exact iff_of_true rfl ⟨.object o, trivial⟩
    | some w => exact iff_of_false (by simp) fun h => absurd h.2 (by simp)

theorem travels_list {t : FieldType} {vs ws : List (Value O)}
    (h : List.Forall₂ (Travels s C t) vs ws) : Travels s C (.list t) (.array vs) (.array ws) where
  exists_sent := by
    obtain ⟨js, hjs⟩ : ∃ js, List.Forall₂ Sent ws js := by
      apply exists_forall₂
      intro w hw
      obtain ⟨v, -, hvw⟩ := exists_of_forall₂ h hw
      exact hvw.exists_sent
    exact ⟨_, .array hjs⟩
  eval_decode_iff j hj e scope depth he := by
    cases hj with
    | @array _ js hjs =>
      have hback : List.Forall₂ (fun j v =>
          ((decode? s t (.var (elementVar depth)) (depth + 1)).getD (.var (elementVar depth))).eval C
            (scope.bind (elementVar depth) j) = some v ↔
          v.Kept ∧ Decodes s (insert (elementVar depth) scope.names) t (depth + 1) v) js vs := by
        apply List.Forall₂.flip
        refine forall₂_trans (fun v w j hvw hj => ?_) h hjs
        have hback := hvw.eval_decode_iff j hj _ _ (depth + 1)
          (eval_bind_self scope (elementVar depth))
        rwa [names_bind] at hback
      have hall : ((Value.array vs).Kept ∧ Decodes s scope.names (.list t) depth (.array vs)) ↔
          ∀ v ∈ vs, v.Kept ∧ Decodes s (insert (elementVar depth) scope.names) t (depth + 1) v := by
        simp only [Decodes, Value.array.injEq, forall_eq']
        constructor
        · rintro ⟨⟨⟩, hdecodes⟩ v hv
          rename_i hkept
          exact ⟨hkept v hv, hdecodes v hv⟩
        · exact fun h => ⟨.array fun v hv => (h v hv).1, fun v hv => (h v hv).2⟩
      rw [hall, ← forall₂_iff_forall_mem hback, decode?]
      cases hbody : decode? s t (.var (elementVar depth)) (depth + 1) with
      | some body => exact eval_each_iff he
      | none =>
        simp only [Option.map_none, Option.getD_none, he, eval_bind_self, Option.some.injEq,
          List.forall₂_eq_eq_eq, Value.array.injEq]

/-- **What a value of a type is encoded as travels.** -/
theorem exists_eval_encode (hC : C.Lawful) (t : FieldType) (hv : HasType s C t v)
    (he : e.eval C scope = some v) (depth : ℕ) :
    ∃ w, (encode s t e depth).eval C scope = some w ∧ Travels s C t v w := by
  induction t generalizing v e scope depth with
  | primitive p =>
    refine ⟨v, he, exists_sent_of_isPrimitive hv, fun j hj e' scope' depth' he' => ?_⟩
    show e'.eval C scope' = some v ↔ _
    rw [he', Option.some_inj, hj.eq_iff_kept hv, Decodes]
    · exact (and_iff_left trivial).symm
    all_goals rintro _ ⟨⟩
  | map k q =>
    obtain ⟨es, rfl, hes⟩ := hv
    refine ⟨_, he, exists_sent_plain hes, fun j hj e' scope' depth' he' => ?_⟩
    show e'.eval C scope' = some _ ↔ _
    rw [he', Option.some_inj, hj.eq_iff_kept_plain hes, Decodes]
    · exact (and_iff_left trivial).symm
    all_goals rintro _ ⟨⟩
  | named n =>
    unfold HasType at hv
    cases hn : s.enumType? n with
    | some p =>
      rw [hn] at hv
      refine ⟨v, ?_, exists_sent_of_isPrimitive hv, fun j hj e' scope' depth' he' => ?_⟩
      · simpa [encode, hn] using he
      · have hdecode : (decode? s (.named n) e' depth').getD e' = e' := by simp [decode?, hn]
        rw [hdecode, he', Option.some_inj, hj.eq_iff_kept hv, Decodes, hn]
        exact (and_iff_left (by simp)).symm
    | none =>
      rw [hn] at hv
      obtain ⟨o, rfl, ho⟩ := hv
      exact ⟨.plain (C.toObject o), by simp [encode, hn, Expr.eval, he], travels_object hC hn ho⟩
  | list t ih =>
    obtain ⟨vs, rfl, hvs⟩ := hv
    obtain ⟨ws, hws⟩ := exists_forall₂ fun v hmem =>
      ih (hvs v hmem) (eval_bind_self scope (elementVar depth)) (depth + 1)
    have htravels := travels_list (hws.imp fun v w h => h.2)
    unfold encode
    by_cases hbody : encode s t (.var (elementVar depth)) (depth + 1) = .var (elementVar depth)
    · have hsame : List.Forall₂ Eq vs ws := hws.imp fun v w h => by
        rw [hbody, eval_bind_self] at h
        exact Option.some.inj h.1
      rw [List.forall₂_eq_eq_eq] at hsame
      exact ⟨.array vs, by rw [if_pos hbody, he], hsame ▸ htravels⟩
    · refine ⟨.array ws, ?_, htravels⟩
      rw [if_neg hbody]
      exact (eval_each_iff he).2 (hws.imp fun v w h => h.1)

end Eval

end TypeScript

/-! ## Both targets -/

/-- **What comes back is what was sent**, unless a name is hidden or JSON does not have a number. In both
targets what a value of a type is encoded as comes back and is decoded as the value exactly if no name
that is needed on the way is hidden and JSON keeps the numbers in it. A value is taken from JSON as it
is exactly if it was left as it was. -/
theorem decode_undoes_encode (s : Schema) (t : FieldType) :
    (∀ (M O : Type) (C : Dart.Classes M O), C.Lawful s → ∀ v, Dart.HasType s C t v →
      ∀ (e : Dart.Expr) (scope : Dart.Scope M O) (depth : ℕ), e.eval C scope = some v →
        ((∃ w, (Dart.encode s t e depth).eval C scope = some w) ↔
          Dart.Encodes C scope.names t depth v) ∧
        ∀ w, (Dart.encode s t e depth).eval C scope = some w → Dart.Travels s C t v w) ∧
    (∀ (O : Type) (C : TypeScript.Classes O), C.Lawful → ∀ v, TypeScript.HasType s C t v →
      ∀ (e : TypeScript.Expr) (scope : TypeScript.Scope O) (depth : ℕ), e.eval C scope = some v →
        ∃ w, (TypeScript.encode s t e depth).eval C scope = some w ∧
          TypeScript.Travels s C t v w) ∧
    ∀ (e e' : TypeScript.Expr) (depth depth' : ℕ),
      TypeScript.decode? s t e' depth' = none ↔ TypeScript.encode s t e depth = e :=
  ⟨fun _ _ _ hC _ hv _ _ depth he =>
      ⟨Dart.exists_eval_encode_iff t hv he depth, fun _ hw => Dart.travels_of_eval_encode hC t hv he hw⟩,
    fun _ _ hC _ hv _ _ depth he => TypeScript.exists_eval_encode hC t hv he depth,
    TypeScript.decode?_eq_none_iff s t⟩

/-- Classes of one text each, under any name. -/
def Dart.notes : Dart.Classes Empty String where
  IsMember _ _ := False
  IsObject _ _ := True
  value m := m.elim
  fromValue _ _ := none
  toMap text := [("text", .text text)]
  fromMap _ es := match es with
    | [(_, .text text)] => some text
    | _ => none
  isDeclared n := n = "Card" || n = "e0"

theorem Dart.notes_lawful : Dart.notes.Lawful ⟨[], []⟩ where
  isPrimitive_value := by rintro n p ⟨⟩
  finite_value := by rintro n ⟨⟩
  fromValue_value := by rintro n ⟨⟩
  sent_toMap n text _ := by
    refine ⟨[("text", .text text)], .map ?_ rfl (.cons (.text text) .nil)⟩
    simp [keyed, notes]
  fromMap_toMap := by
    rintro n text es - hsent
    obtain ⟨-, hsent⟩ := sent_map_iff.1 hsent
    cases es with
    | nil => cases hsent
    | cons e es =>
      cases hsent with
      | cons he hnil =>
        cases es with
        | cons => cases hnil
        | nil =>
          obtain ⟨k, v⟩ := e
          obtain ⟨-, hv : Sent (.text text) v⟩ := he
          cases hv
          rfl

/-- Classes of one text each, under any name. -/
def TypeScript.notes : TypeScript.Classes String where
  IsObject _ _ := True
  toObject text := [("text", .text text)]
  fromObject _ v := match v with
    | .plain [(_, .text text)] => some text
    | _ => none

theorem TypeScript.notes_lawful : TypeScript.notes.Lawful where
  sent_toObject n text _ := by
    have hvalue : Sent (.text text : TypeScript.Value String) (.text text) := .text text
    exact ⟨.plain [("text", .text text)], .plain rfl (.cons hvalue .nil)⟩
  fromObject_toObject := by
    rintro n text j - hsent
    obtain ⟨fs, rfl, hfs⟩ := sent_plain_iff.1 hsent
    cases hfs with
    | @cons _ f _ fs hf hnil =>
      cases hnil
      obtain ⟨k, v⟩ := f
      obtain ⟨-, hv : Sent (.text text) v⟩ := hf
      cases hv
      rfl

/-- What is in sight where a map or a plain object with one entry is decoded. -/
def Dart.received (j : Dart.Value Empty String) : Dart.Scope Empty String :=
  Function.update (fun _ => none) "map" (some (.map [(.text "xs", j)]))

def TypeScript.received (j : TypeScript.Value String) : TypeScript.Scope String :=
  TypeScript.Scope.bind ⟨fun _ => none, fun _ => none⟩ "data" (.plain [("xs", j)])

/-- A list of cards comes back, and a list of objects whose class is called like the variable for its
elements does not. Nothing comes back as what is no number. -/
theorem decode_undoes_encode_hidden :
    (∃ w, (Dart.encode ⟨[], []⟩ (.list (.named "Card")) (.var "xs") 0).eval Dart.notes
        (fun _ => some (.list [.object "a"])) = some w ∧ ∀ j, Dart.Sent w j →
      (Dart.decode ⟨[], []⟩ (.list (.named "Card")) (.entry "xs") 0).eval Dart.notes (Dart.received j) =
        some (.list [.object "a"])) ∧
    (∃ w, (Dart.encode ⟨[], []⟩ (.list (.named "e0")) (.var "xs") 0).eval Dart.notes
        (fun _ => some (.list [.object "a"])) = some w ∧ ∀ j, Dart.Sent w j →
      (Dart.decode ⟨[], []⟩ (.list (.named "e0")) (.entry "xs") 0).eval Dart.notes (Dart.received j) ≠
        some (.list [.object "a"])) ∧
    (∃ w, (TypeScript.encode ⟨[], []⟩ (.list (.named "Card")) (.own "xs") 0).eval TypeScript.notes
        ⟨fun _ => none, fun _ => some (.array [.object "a"])⟩ = some w ∧ ∀ j, TypeScript.Sent w j →
      ((TypeScript.decode? ⟨[], []⟩ (.list (.named "Card")) (.entry "xs") 0).getD (.entry "xs")).eval
        TypeScript.notes (TypeScript.received j) = some (.array [.object "a"])) ∧
    (∃ w, (TypeScript.encode ⟨[], []⟩ (.list (.named "e0")) (.own "xs") 0).eval TypeScript.notes
        ⟨fun _ => none, fun _ => some (.array [.object "a"])⟩ = some w ∧ ∀ j, TypeScript.Sent w j →
      ((TypeScript.decode? ⟨[], []⟩ (.list (.named "e0")) (.entry "xs") 0).getD (.entry "xs")).eval
        TypeScript.notes (TypeScript.received j) ≠ some (.array [.object "a"])) ∧
    ∃ w, (TypeScript.encode ⟨[], []⟩ (.primitive .float64) (.own "xs") 0).eval TypeScript.notes
        ⟨fun _ => none, fun _ => some (.number .nan)⟩ = some w ∧ ∀ j, TypeScript.Sent w j →
      ((TypeScript.decode? ⟨[], []⟩ (.primitive .float64) (.entry "xs") 0).getD (.entry "xs")).eval
        TypeScript.notes (TypeScript.received j) ≠ some (.number .nan) := by
  have henum : ∀ n, (⟨[], []⟩ : Schema).enumType? n = none := fun _ => rfl
  have hdart : ∀ n, ∃ w, (Dart.encode ⟨[], []⟩ (.list (.named n)) (.var "xs") 0).eval Dart.notes
      (fun _ => some (.list [.object "a"])) = some w ∧
      Dart.Travels ⟨[], []⟩ Dart.notes (.list (.named n)) (.list [.object "a"]) w := by
    intro n
    obtain ⟨hencodes, htravels⟩ := (decode_undoes_encode ⟨[], []⟩ (.list (.named n))).1 _ _ Dart.notes
      Dart.notes_lawful (.list [.object "a"]) (by simp [Dart.HasType, henum, Dart.notes]) (.var "xs")
      (fun _ => some (.list [.object "a"])) 0 rfl
    obtain ⟨w, hw⟩ := hencodes.2 (by simp [Dart.Encodes])
    exact ⟨w, hw, htravels w hw⟩
  have hscript : ∀ n, ∃ w, (TypeScript.encode ⟨[], []⟩ (.list (.named n)) (.own "xs") 0).eval
      TypeScript.notes ⟨fun _ => none, fun _ => some (.array [.object "a"])⟩ = some w ∧
      TypeScript.Travels ⟨[], []⟩ TypeScript.notes (.list (.named n)) (.array [.object "a"]) w :=
    fun n => (decode_undoes_encode ⟨[], []⟩ (.list (.named n))).2.1 _ TypeScript.notes
      TypeScript.notes_lawful (.array [.object "a"])
      (by simp [TypeScript.HasType, henum, TypeScript.notes]) _ _ 0 rfl
  have hnames : ∀ j, (Dart.received j).names = {"map"} := by
    intro j
    rw [Dart.received, Dart.names_update]
    simp [Dart.Scope.names]
  have hnames' : ∀ j, (TypeScript.received j).names = {"data"} := by
    intro j
    rw [TypeScript.received, TypeScript.names_bind]
    simp [TypeScript.Scope.names]
  have hx : Dart.elementVar 0 = "e0" := rfl
  have hx' : TypeScript.elementVar 0 = "e0" := rfl
  refine ⟨?_, ?_, ?_, ?_, ?_⟩
  · obtain ⟨w, hw, htravels⟩ := hdart "Card"
    refine ⟨w, hw, fun j hj => (htravels.eval_decode_iff j hj _ _ 0 rfl).2 ?_⟩
    rw [hnames]
    simp [Dart.Decodes, Dart.Classes.Core, henum, hx, Dart.typeNames, Dart.notes]
  · obtain ⟨w, hw, htravels⟩ := hdart "e0"
    refine ⟨w, hw, fun j hj => mt (htravels.eval_decode_iff j hj _ _ 0 rfl).1 ?_⟩
    rw [hnames]
    simp [Dart.Decodes, hx]
  · obtain ⟨w, hw, htravels⟩ := hscript "Card"
    refine ⟨w, hw, fun j hj => (htravels.eval_decode_iff j hj _ _ 0 rfl).2 ⟨?_, ?_⟩⟩
    · exact .array (by simpa using .object "a")
    · rw [hnames']
      simp [TypeScript.Decodes, hx']
  · obtain ⟨w, hw, htravels⟩ := hscript "e0"
    refine ⟨w, hw, fun j hj => mt (htravels.eval_decode_iff j hj _ _ 0 rfl).1 fun h => ?_⟩
    have hdecodes := h.2
    rw [hnames'] at hdecodes
    simp [TypeScript.Decodes, henum, hx'] at hdecodes
  · obtain ⟨w, hw, htravels⟩ := (decode_undoes_encode ⟨[], []⟩ (.primitive .float64)).2.1 _
      TypeScript.notes TypeScript.notes_lawful (.number .nan) (.inr rfl) (.own "xs")
      ⟨fun _ => none, fun _ => some (.number .nan)⟩ 0 rfl
    refine ⟨w, hw, fun j hj => mt (htravels.eval_decode_iff j hj _ _ 0 rfl).1 fun h => ?_⟩
    obtain ⟨kept⟩ := h.1
    exact kept.1

end Idl
