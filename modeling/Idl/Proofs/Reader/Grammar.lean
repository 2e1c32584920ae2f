import Mathlib.Algebra.Group.Int.Defs
import Idl.Proofs.Schema.Unplaced
import Idl.Schema.Reader

/-!
# The grammar of schemas

Which texts spell which schema. Positions in a schema are free, since texts do not fix them.

* `Name`, `Value`: the texts of identifiers and of literals.
* `Many`: one thing after the other.
* `TypeOf`, `MemberOf`, `FieldOf`, `ConstOf`, `EnumOf`, `ObjectOf`, `EntryOf`, `PackageOf`: the parts
  of a schema.
* **`Derives`**: the texts of a schema.
-/

namespace Idl.Grammar

/-- An identifier, which may be spelled like a keyword. -/
def Name (w : String) : Prop := Cursor.isName w = true

instance : DecidablePred Name := fun w => inferInstanceAs (Decidable (Cursor.isName w = true))

/-- A literal with its value: an integer of 64 bits, a number with a fraction or an exponent, a
quoted text or a truth value. -/
inductive Value : String → Literal → Prop
  | integer {w : String} {n : Int} (digits : readInt? w = some n) (low : -2 ^ 63 ≤ n)
    (high : n < 2 ^ 63) : Value w (.int (.ofInt n))
  | float {w : String} {x : Binary64} (look : Literal.isWhole Literal.anyNumber w = true)
    (notInteger : Literal.isWhole Lexeme.integer w = false)
    (digits : Binary64.ofText? w = some x) : Value w (.float x)
  | string {w s : String} (quoted : Text.unquote? w = some s) : Value w (.string s)
  | true : Value "true" (.bool true)
  | false : Value "false" (.bool false)

/-- One thing after the other. -/
inductive Many {α : Type} (G : List String → α → Prop) : List String → List α → Prop
  | nil : Many G [] []
  | cons {us ws : List String} {a : α} {as : List α} (head : G us a) (tail : Many G ws as) :
    Many G (us ++ ws) (a :: as)

/-- A type. -/
inductive TypeOf : List String → FieldType → Prop
  | primitive (p : Primitive) : TypeOf [p.keyword] (.primitive p)
  | list {ws : List String} {t : FieldType} (element : TypeOf ws t) :
    TypeOf ("list" :: "of" :: ws) (.list t)
  | map (k v : Primitive) : TypeOf ["map", k.keyword, "for", v.keyword] (.map k v)
  | named {n : String} (name : Name n) (notPrimitive : ∀ p : Primitive, n ≠ p.keyword)
    (notList : n ≠ "list") (notMap : n ≠ "map") : TypeOf [n] (.named n)

/-- A name with its value. -/
inductive MemberOf : List String → Member → Prop
  | mk {n w : String} {v : Literal} (name : Name n) (value : Value w v) (position : Position) :
    MemberOf [n, "=", w] ⟨n, v, position⟩

/-- A field. -/
inductive FieldOf : List String → Field → Prop
  | mk {ws : List String} {t : FieldType} {n : String} (type : TypeOf ws t) (name : Name n)
    (position : Position) : FieldOf (ws ++ [n]) ⟨t, n, position⟩

/-- Things between braces. -/
inductive Braced {α : Type} (G : List String → α → Prop) : List String → List α → Prop
  | mk {ws : List String} {as : List α} (many : Many G ws as) :
    Braced G ("\x7b" :: (ws ++ ["\x7d"])) as

/-- What follows the keyword of a group of constants. -/
inductive ConstOf : List String → ConstGroup → Prop
  | named {n : String} {ws : List String} {ms : List Member} (name : Name n) (p : Primitive)
    (members : Braced MemberOf ws ms) (position : Position) :
    ConstOf (n :: "for" :: p.keyword :: ws) ⟨some n, p, ms, position⟩
  | unnamed {ws : List String} {ms : List Member} (p : Primitive)
    (members : Braced MemberOf ws ms) (position : Position) :
    ConstOf (p.keyword :: ws) ⟨none, p, ms, position⟩

/-- What follows the keyword of an enum. -/
inductive EnumOf : List String → EnumDecl → Prop
  | mk {n : String} {ws : List String} {ms : List Member} (name : Name n) (p : Primitive)
    (members : Braced MemberOf ws ms) (position : Position) :
    EnumOf (n :: "for" :: p.keyword :: ws) ⟨n, p, ms, position⟩

/-- What follows the keyword of an object. -/
inductive ObjectOf : List String → ObjectDecl → Prop
  | mk {n : String} {ws : List String} {fs : List Field} (name : Name n)
    (fields : Braced FieldOf ws fs) (position : Position) :
    ObjectOf (n :: ws) ⟨n, fs, position⟩

/-- An entry. -/
inductive EntryOf : List String → Entry → Prop
  | const {ws : List String} {c : ConstGroup} (group : ConstOf ws c) :
    EntryOf ("const" :: ws) (.const c)
  | enum {ws : List String} {e : EnumDecl} (decl : EnumOf ws e) : EntryOf ("enum" :: ws) (.enum e)
  | object {ws : List String} {o : ObjectDecl} (decl : ObjectOf ws o) :
    EntryOf ("object" :: ws) (.object o)

/-- A package path, which may be missing. -/
inductive PackageOf : List String → List String → Prop
  | none : PackageOf [] []
  | path {n : String} {ns : List String} (first : Name n) (others : ∀ m ∈ ns, Name m) :
    PackageOf ("package" :: n :: ns.flatMap fun m => [".", m]) (n :: ns)

/-- **The texts of a schema.** -/
inductive Derives : List String → Schema → Prop
  | mk {us ws path : List String} {es : List Entry} (package : PackageOf us path)
    (entries : Many EntryOf ws es) : Derives (us ++ ws) ⟨path, es⟩

/-! ## Positions are free -/

theorem Many.of_map_eq {α β : Type} {G : List String → α → Prop} {view : α → β}
    (hG : ∀ ws a a', G ws a → view a = view a' → G ws a') {ws : List String} {as : List α}
    (h : Many G ws as) : ∀ {as' : List α}, as.map view = as'.map view → Many G ws as' := by
  induction h with
  | nil =>
    intro as' he
    obtain rfl : as' = [] := by simpa using he.symm
    exact .nil
  | cons ha _ ih =>
    rintro (_ | ⟨a', as'⟩) he
    · exact absurd he (by simp)
    · obtain ⟨hv, he⟩ := List.cons.inj he
      exact .cons (hG _ _ _ ha hv) (ih he)

theorem Braced.of_map_eq {α β : Type} {G : List String → α → Prop} {view : α → β}
    (hG : ∀ ws a a', G ws a → view a = view a' → G ws a') {ws : List String} {as as' : List α}
    (h : Braced G ws as) (he : as.map view = as'.map view) : Braced G ws as' := by
  obtain ⟨h⟩ := h
  exact .mk (h.of_map_eq hG he)

theorem MemberOf.of_unplaced_eq (ws : List String) (m m' : Member) (h : MemberOf ws m)
    (he : m.unplaced = m'.unplaced) : MemberOf ws m' := by
  obtain ⟨hn, hv, p⟩ := h
  obtain ⟨n', v', p'⟩ := m'
  simp only [Member.unplaced, Member.mk.injEq] at he
  obtain ⟨rfl, rfl, -⟩ := he
  exact .mk hn hv p'

theorem FieldOf.of_unplaced_eq (ws : List String) (f f' : Field) (h : FieldOf ws f)
    (he : f.unplaced = f'.unplaced) : FieldOf ws f' := by
  obtain ⟨ht, hn, p⟩ := h
  obtain ⟨t', n', p'⟩ := f'
  simp only [Field.unplaced, Field.mk.injEq] at he
  obtain ⟨rfl, rfl, -⟩ := he
  exact .mk ht hn p'

theorem ConstOf.of_unplaced_eq {ws : List String} {c c' : ConstGroup} (h : ConstOf ws c)
    (he : c.unplaced = c'.unplaced) : ConstOf ws c' := by
  obtain ⟨n', p', ms', pos'⟩ := c'
  cases h with
  | named hn p hms pos =>
    simp only [ConstGroup.unplaced, ConstGroup.mk.injEq] at he
    obtain ⟨rfl, rfl, hms', -⟩ := he
    exact .named hn p (hms.of_map_eq MemberOf.of_unplaced_eq hms') pos'
  | unnamed p hms pos =>
    simp only [ConstGroup.unplaced, ConstGroup.mk.injEq] at he
    obtain ⟨rfl, rfl, hms', -⟩ := he
    exact .unnamed p (hms.of_map_eq MemberOf.of_unplaced_eq hms') pos'

theorem EnumOf.of_unplaced_eq {ws : List String} {e e' : EnumDecl} (h : EnumOf ws e)
    (he : e.unplaced = e'.unplaced) : EnumOf ws e' := by
  obtain ⟨hn, p, hms, pos⟩ := h
  obtain ⟨n', p', ms', pos'⟩ := e'
  simp only [EnumDecl.unplaced, EnumDecl.mk.injEq] at he
  obtain ⟨rfl, rfl, hms', -⟩ := he
  exact .mk hn p (hms.of_map_eq MemberOf.of_unplaced_eq hms') pos'

theorem ObjectOf.of_unplaced_eq {ws : List String} {o o' : ObjectDecl} (h : ObjectOf ws o)
    (he : o.unplaced = o'.unplaced) : ObjectOf ws o' := by
  obtain ⟨hn, hfs, pos⟩ := h
  obtain ⟨n', fs', pos'⟩ := o'
  simp only [ObjectDecl.unplaced, ObjectDecl.mk.injEq] at he
  obtain ⟨rfl, hfs', -⟩ := he
  exact .mk hn (hfs.of_map_eq FieldOf.of_unplaced_eq hfs') pos'

theorem EntryOf.of_unplaced_eq (ws : List String) (e e' : Entry) (h : EntryOf ws e)
    (he : e.unplaced = e'.unplaced) : EntryOf ws e' := by
  rcases h with h | h | h <;> cases e' <;> simp only [Entry.unplaced, Entry.const.injEq,
    Entry.enum.injEq, Entry.object.injEq, reduceCtorEq] at he
  · exact .const (h.of_unplaced_eq he)
  · exact .enum (h.of_unplaced_eq he)
  · exact .object (h.of_unplaced_eq he)

theorem Derives.of_unplaced_eq {ws : List String} {s s' : Schema} (h : Derives ws s)
    (he : s.unplaced = s'.unplaced) : Derives ws s' := by
  obtain ⟨hp, hes⟩ := h
  obtain ⟨path', es'⟩ := s'
  simp only [Schema.unplaced, Schema.mk.injEq] at he
  obtain ⟨rfl, hes'⟩ := he
  exact .mk hp (hes.of_map_eq EntryOf.of_unplaced_eq hes')

end Idl.Grammar
