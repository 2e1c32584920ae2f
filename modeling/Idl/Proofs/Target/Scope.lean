import Idl.Target.Render

/-!
# What declarations look up

A declaration is written from its entry. Of the rest of the schema it needs only the types that names
of enums stand for.

* `Target.dialect`, `Target.keywords`, `Target.declLines`: the words of a target, its reserved words and the
  lines of a declaration.
* `Schema.Agrees`: schemas in which names of enums stand for the same types.
* **`Target.declare_congr`**, **`Target.declLines_congr`**: an entry is written alike in such schemas.
-/

namespace Idl

/-- The words of a target. -/
def Target.dialect : Target → Dialect
  | rust => Rust.dialect
  | go => Go.dialect
  | csharp => CSharp.dialect
  | dart => Dart.dialect
  | typescript => TypeScript.dialect

/-- Reserved words. -/
def Target.keywords : Target → List String
  | rust => Rust.keywords
  | go => Go.keywords
  | csharp => CSharp.keywords
  | dart => Dart.keywords
  | typescript => TypeScript.keywords

/-- The lines of a declaration in a file. -/
def Target.declLines : Target → Schema → Decl → List String
  | rust, _ => Rust.declLines
  | go, _ => Go.declLines
  | csharp, _ => CSharp.declLines
  | dart, s => Dart.declLines s
  | typescript, s => TypeScript.declLines s

/-- Names of enums stand for the same types. -/
def Schema.Agrees (s s' : Schema) : Prop := ∀ n, s'.enumType? n = s.enumType? n

variable {s s' : Schema}

/-! ## Types -/

theorem Dialect.type_congr {d : Dialect} (h : ∀ n, d.named s' n = d.named s n) (t : FieldType) :
    d.type s' t = d.type s t := by
  induction t with
  | primitive p => rfl
  | list t ih => rw [type, type, ih]
  | map k v => rfl
  | named n => exact h n

theorem Target.named_congr (t : Target) (h : s.Agrees s') (n : String) :
    t.dialect.named s' n = t.dialect.named s n := by
  cases t with
  | csharp =>
    show CSharp.named s' n = CSharp.named s n
    rw [CSharp.named, CSharp.named, h n]
  | _ => rfl

/-- **An entry has one form** in schemas whose enums agree. -/
theorem Target.declare_congr (t : Target) (h : s.Agrees s') (e : Entry) :
    t.dialect.declare s' e = t.dialect.declare s e := by
  cases e with
  | const c => rfl
  | enum e => rfl
  | object o =>
    simp only [Dialect.declare, Dialect.record, Dialect.type_congr (t.named_congr h)]

/-! ## Encoding and decoding -/

namespace Dart

theorem encode_congr (h : s.Agrees s') (t : FieldType) (e : Expr) (depth : Nat) :
    encode s' t e depth = encode s t e depth := by
  induction t generalizing e depth with
  | primitive p => rfl
  | list t ih => simp only [encode, ih]
  | map k v => rfl
  | named n => rw [encode, encode, h n]

theorem decode_congr (h : s.Agrees s') (t : FieldType) (e : Expr) (depth : Nat) :
    decode s' t e depth = decode s t e depth := by
  induction t generalizing e depth with
  | primitive p => rfl
  | list t ih => simp only [decode, ih]
  | map k v => rfl
  | named n => rw [decode, decode, h n]

theorem declLines_congr (h : s.Agrees s') (x : Decl) : declLines s' x = declLines s x := by
  have hencode : encodeLine s' = encodeLine s := by
    funext slot
    rw [encodeLine, encodeLine, encode_congr h]
  have hdecode : decodeLine s' = decodeLine s := by
    funext slot
    rw [decodeLine, decodeLine, decode_congr h]
  cases x with
  | constants g => rfl
  | choice c => rfl
  | record r => simp only [declLines, recordLines, hencode, hdecode]

end Dart

namespace TypeScript

theorem encode_congr (h : s.Agrees s') (t : FieldType) (e : Expr) (depth : Nat) :
    encode s' t e depth = encode s t e depth := by
  induction t generalizing e depth with
  | primitive p => rfl
  | list t ih => simp only [encode, ih]
  | map k v => rfl
  | named n => rw [encode, encode, h n]

theorem decode?_congr (h : s.Agrees s') (t : FieldType) (e : Expr) (depth : Nat) :
    decode? s' t e depth = decode? s t e depth := by
  induction t generalizing e depth with
  | primitive p => rfl
  | list t ih => simp only [decode?, ih]
  | map k v => rfl
  | named n => rw [decode?, decode?, h n]

theorem declLines_congr (h : s.Agrees s') (x : Decl) : declLines s' x = declLines s x := by
  have hencode : encodeLine s' = encodeLine s := by
    funext slot
    rw [encodeLine, encodeLine, encode_congr h]
  have hargument : argument s' = argument s := by
    funext slot
    rw [argument, argument, decode?_congr h]
  cases x with
  | constants g => rfl
  | choice c => rfl
  | record r => simp only [declLines, recordLines, encodeLines, decodeLines, hencode, hargument]

end TypeScript

/-- **A declaration has one text** in schemas whose enums agree. -/
theorem Target.declLines_congr (t : Target) (h : s.Agrees s') (x : Decl) :
    t.declLines s' x = t.declLines s x := by
  cases t with
  | rust => rfl
  | go => rfl
  | csharp => rfl
  | dart => exact Dart.declLines_congr h x
  | typescript => exact TypeScript.declLines_congr h x

end Idl
