import Mathlib
import Idl.Proofs.Outline.References

/-!
# Slices of bytes

A slice whose elements are `uint8` underneath would be encoded as text. Which slices there are is read
from the words for a type, and what is underneath a name from the definitions of types in a file.

* `Go.Slices`: the types whose slices stand in the words for a type.
* `Go.defined`, `Go.OfBytes`: the definitions of types, and the types that are `uint8` underneath.
* `Go.ofBytes_lines`: those of a file are its enums for `uint8`.
* `Go.BytesSpelled`: which types of fields have slices of bytes in their words.
* **`Go.slices_of_bytes`**: source text for a compiled schema has these and no others.
-/

namespace Idl.Go

open Outline Lexeme Grammar

/-! ## Words for types -/

/-- A slice of the type `x` stands in the words for a type. A pair of brackets is about all that
follows it. -/
def Slices (words x : Line) : Prop := ∃ u, words = u ++ '[' :: ']' :: x

theorem slices_cons {c : Char} {words x : Line} :
    Slices (c :: words) x ↔ c = '[' ∧ words = ']' :: x ∨ Slices words x := by
  constructor
  · rintro ⟨u, hu⟩
    cases u with
    | nil =>
      cases hu
      exact .inl ⟨rfl, rfl⟩
    | cons d u =>
      cases hu
      exact .inr ⟨u, rfl⟩
  · rintro (⟨rfl, rfl⟩ | ⟨u, rfl⟩)
    · exact ⟨[], rfl⟩
    · exact ⟨c :: u, rfl⟩

theorem not_slices {words : Line} (h : '[' ∉ words) (x : Line) : ¬ Slices words x := by
  rintro ⟨u, rfl⟩
  simp at h

theorem not_slices_of_isWord {words : Line} (h : IsWord words) (x : Line) : ¬ Slices words x :=
  not_slices (h.not_mem (by decide)) x

theorem slices_slice {words : String} {x : Line} :
    Slices ("[]" ++ words).toList x ↔ x = words.toList ∨ Slices words.toList x := by
  rw [String.toList_append, String.toList_ofList]
  simp [slices_cons, eq_comm]

/-- The words for a map have brackets around a word. -/
theorem not_slices_map {key value : String} (hkey : IsWord key.toList) (hvalue : IsWord value.toList)
    (x : Line) : ¬ Slices (dialect.map key value).toList x := by
  obtain ⟨c, cs, hcs, hc⟩ := hkey.exists_cons
  have hrest : ¬ Slices (key.toList ++ ']' :: value.toList) x := by
    refine not_slices ?_ x
    rw [List.mem_append, List.mem_cons, not_or, not_or]
    exact ⟨hkey.not_mem (by decide), by decide, hvalue.not_mem (by decide)⟩
  have hwords : (dialect.map key value).toList =
      'm' :: 'a' :: 'p' :: '[' :: (key.toList ++ ']' :: value.toList) := by simp [dialect]
  rw [hwords]
  simp only [slices_cons, hrest, or_false, false_or, Char.reduceEq, false_and, true_and]
  rw [hcs]
  intro heq
  cases heq
  cases hc

/-! ## Definitions of types -/

/-- The name that a line defines as a type. -/
def definedBy (type : String) (l : Line) : List String :=
  ((named? "type " (" " ++ type) l).map .ofList).toList

/-- The names that a source text defines as a type. -/
def defined (source type : String) : List String := (rowsOf source).flatMap (definedBy type)

/-- The types that are `uint8` underneath. -/
inductive OfBytes (source : String) : String → Prop
  | uint8 : OfBytes source "uint8"
  /-- Another name for `uint8`. -/
  | byte : OfBytes source "byte"
  | defined {n type : String} : n ∈ Go.defined source type → OfBytes source type → OfBytes source n

/-- The names of types with a method that encodes them. -/
def encoded (source : String) : List String :=
  (rowsOf source).flatMap fun l =>
    ((named? "func (l " ") MarshalJSON() ([]byte, error) \x7b" l).map .ofList).toList

@[simp] theorem definedBy_eq_nil (type : String) {l : Line} (h : after? "type " l = none) :
    definedBy type l = [] := by
  rw [definedBy, named?_eq_none h]
  rfl

theorem leftmost_definedBy (type : String) : Leftmost (definedBy type) :=
  .of_blank (by simp) (by simp) (by simp)

theorem definedBy_type (type : String) {n : String} (hn : IsWord n.toList) (x : String) :
    definedBy type ("type ".toList ++ (n.toList ++ (" ".toList ++ x.toList))) =
      if x = type then [n] else [] := by
  have hstops : Stops isNamePart (" ".toList ++ x.toList) := stops_ofList_append rfl
  rw [definedBy, named?, after?_append, Option.bind_some, word?_append hn hstops, Option.bind_some,
    String.toList_append]
  by_cases hx : x = type
  · subst hx
    rw [if_pos rfl, if_pos rfl, Option.map_some, String.ofList_toList, Option.toList_some]
  · have hne : " ".toList ++ x.toList ≠ " ".toList ++ type.toList := fun heq =>
      hx (String.toList_inj.1 (List.append_cancel_left heq))
    rw [if_neg hx, if_neg hne]
    rfl

/-- The names that a declaration defines as a type. -/
def definedIn (type : String) : Decl → List String
  | .constants _ => []
  | .choice c => if c.type = type then [c.name] else []
  | .record r => if "struct \x7b" = type then [r.name] else []

theorem definedBy_declLines (type : String) {d : Decl} (h : Tidy spelling d) :
    (declLines d).flatMap (fun l => definedBy type l.toList) = definedIn type d := by
  have hnest := (leftmost_definedBy type).flatMap_block (m := margin) (by simp)
    String.toList_ofList rfl
  have hindent := (leftmost_definedBy type).flatMap_indent (m := margin) String.toList_ofList rfl
  cases d with
  | constants g =>
    simp [declLines, constantsLines, group, hindent, definedIn]
  | choice c =>
    have htype : definedBy type (s!"type {c.name} {c.type}").toList =
        if c.type = type then [c.name] else [] := by
      simp only [toString_text, String.toList_append, List.append_assoc]
      exact definedBy_type type h.1 c.type
    simp only [declLines, choiceLines, group, List.flatMap_append, hnest, List.flatMap_cons, hindent,
      List.flatMap_nil, htype, definedIn, List.append_nil]
    simp
  | record r =>
    have htype : definedBy type (s!"type {r.name} struct" ++ " \x7b").toList =
        if "struct \x7b" = type then [r.name] else [] := by
      have hwords : (s!"type {r.name} struct" ++ " \x7b").toList =
          "type ".toList ++ (r.name.toList ++ (" ".toList ++ "struct \x7b".toList)) := by simp
      rw [hwords]
      exact definedBy_type type h.1 _
    simp only [declLines, recordLines, List.flatMap_append, hnest, List.flatMap_cons,
      List.flatMap_nil, htype, definedIn, List.append_nil]
    simp

theorem definedBy_importLines (type : String) (packages : List String) :
    (importLines packages).flatMap (fun l => definedBy type l.toList) = [] := by
  have hindent := (leftmost_definedBy type).flatMap_indent (m := margin) String.toList_ofList rfl
  unfold importLines
  split
  · rfl
  · simp
  · simp [group, hindent]

theorem isWord_bytes : IsWord ("Uint8List" : String).toList := by
  rw [String.toList_ofList]
  exact isWord_of_all (by simp) rfl

theorem definedBy_bytesLines (type : String) :
    bytesLines.flatMap (fun l => definedBy type l.toList) =
      if "[]uint8" = type then ["Uint8List"] else [] := by
  have hnest := (leftmost_definedBy type).flatMap_block (m := margin) (by simp)
    String.toList_ofList rfl
  have htype : definedBy type "type Uint8List []uint8".toList =
      if "[]uint8" = type then ["Uint8List"] else [] := by
    have hwords : "type Uint8List []uint8".toList =
        "type ".toList ++ ("Uint8List".toList ++ (" ".toList ++ "[]uint8".toList)) := by simp
    rw [hwords]
    exact definedBy_type type isWord_bytes _
  simp only [bytesLines, List.flatMap_append, hnest, List.flatMap_cons, List.flatMap_nil, htype,
    List.append_nil]
  simp

theorem definedBy_opening (type : String) (s : Schema) :
    (Target.go.opening s).flatMap (fun l => definedBy type l.toList) =
      if usesBytes s ∧ "[]uint8" = type then ["Uint8List"] else [] := by
  by_cases hbytes : usesBytes s = true
  · simp [Target.opening, definedBy_importLines, hbytes, definedBy_bytesLines]
  · simp [Target.opening, definedBy_importLines, hbytes]

theorem defined_lines {s : Schema} (hs : s.Spelled) (type : String) :
    defined (sourceText (lines s)) type =
      (if usesBytes s ∧ "[]uint8" = type then ["Uint8List"] else [])
        ++ (dialect.decls s).flatMap (definedIn type) := by
  have hrows := (leftmost_definedBy type).flatMap_rows
  refine Target.go.flatMap_rowsOf hs ((hrows _).trans (definedBy_opening type s)) ?_ rfl
  exact fun d hd => (hrows _).trans (definedBy_declLines type (tidy_dialect.decls hs d hd))

theorem mem_defined_iff {s : Schema} (hs : s.Spelled) {n type : String} :
    n ∈ defined (sourceText (lines s)) type ↔
      (usesBytes s = true ∧ type = "[]uint8" ∧ n = "Uint8List") ∨
      (∃ e ∈ s.enums, e.type.keyword = type ∧ n = Naming.pascal e.name) ∨
      (type = "struct \x7b" ∧ ∃ o ∈ s.objects, n = Naming.pascal o.name) := by
  rw [defined_lines hs, List.mem_append, Dialect.decls, List.flatMap_map, List.mem_flatMap]
  constructor
  · rintro (hn | ⟨x, hx, hn⟩)
    · split_ifs at hn with h
      · exact .inl ⟨h.1, h.2.symm, List.mem_singleton.1 hn⟩
      · cases hn
    · cases x with
      | const c => cases hn
      | enum e =>
        simp only [Dialect.declare, definedIn] at hn
        split_ifs at hn with htype
        · exact .inr (.inl ⟨e, Schema.mem_enums.2 hx, htype, List.mem_singleton.1 hn⟩)
        · cases hn
      | object o =>
        simp only [Dialect.declare, definedIn] at hn
        split_ifs at hn with htype
        · exact .inr (.inr ⟨htype.symm, o, Schema.mem_objects.2 hx, List.mem_singleton.1 hn⟩)
        · cases hn
  · rintro (⟨hbytes, rfl, rfl⟩ | ⟨e, he, rfl, rfl⟩ | ⟨rfl, o, ho, rfl⟩)
    · exact .inl (by simp [hbytes])
    · exact .inr ⟨_, Schema.mem_enums.1 he, by simp [Dialect.declare, definedIn, Dialect.choice, dialect]⟩
    · exact .inr ⟨_, Schema.mem_objects.1 ho, by
        simp [Dialect.declare, definedIn, Dialect.record, dialect]⟩

/-! ## Types that are bytes underneath -/

theorem pascal_ne {n w : String} (hw : (w.toList.head?.any Char.isLower) = true) :
    Naming.pascal n ≠ w := by
  rintro rfl
  rw [Naming.pascal, String.toList_ofList] at hw
  cases hn : Naming.joinWords n.toList with
  | nil =>
    rw [hn] at hw
    cases hw
  | cons c cs =>
    rw [hn, Naming.capitalise, List.head?_cons, Option.any_some,
      Char.isLower_toUpper_eq_false] at hw
    cases hw

theorem pascal_ne_keyword (n : String) (p : Primitive) : Naming.pascal n ≠ p.keyword :=
  pascal_ne (by cases p <;> decide)

theorem keyword_inj {p q : Primitive} (h : p.keyword = q.keyword) : p = q := by
  have hsome := congrArg Primitive.ofKeyword? h
  rwa [Primitive.ofKeyword?_keyword, Primitive.ofKeyword?_keyword, Option.some.injEq] at hsome

theorem keyword_ne_byte (p : Primitive) : p.keyword ≠ "byte" := by
  cases p <;> decide

theorem isWord_enum {s : Schema} (hs : s.Spelled) {e : EnumDecl} (he : e ∈ s.enums) :
    IsWord (Naming.pascal e.name).toList :=
  isWord_pascal (hs.entry _ (Schema.mem_enums.1 he)).1

/-- Of the types in a file, the enums for `uint8` are bytes underneath, and no others. -/
theorem ofBytes_lines {s : Schema} (hs : s.Spelled) {x : String} :
    OfBytes (sourceText (lines s)) x ↔
      x = "uint8" ∨ x = "byte" ∨ ∃ e ∈ s.enums, e.type = .uint8 ∧ Naming.pascal e.name = x := by
  constructor
  · intro h
    induction h with
    | uint8 => exact .inl rfl
    | byte => exact .inr (.inl rfl)
    | @defined n type hn _ ih =>
      -- what a name is defined as is a type of values, a slice or a struct
      rcases (mem_defined_iff hs).1 hn with ⟨-, rfl, -⟩ | ⟨e, he, rfl, rfl⟩ | ⟨rfl, -⟩
      · rcases ih with h | h | ⟨d, hd, -, h⟩
        · exact absurd h (by decide)
        · exact absurd h (by decide)
        · have hword := isWord_enum hs hd
          rw [h, String.toList_ofList] at hword
          exact absurd (hword.2 '[' (by simp)) (by decide)
      · rcases ih with h | h | ⟨d, hd, -, h⟩
        · exact .inr (.inr ⟨e, he, keyword_inj h, rfl⟩)
        · exact absurd h (keyword_ne_byte _)
        · exact absurd h (pascal_ne_keyword _ _)
      · rcases ih with h | h | ⟨d, hd, -, h⟩
        · exact absurd h (by decide)
        · exact absurd h (by decide)
        · exact absurd h (pascal_ne (by decide))
  · rintro (rfl | rfl | ⟨e, he, htype, rfl⟩)
    · exact .uint8
    · exact .byte
    · exact .defined ((mem_defined_iff hs).2 (.inr (.inl ⟨e, he, rfl, rfl⟩))) (htype ▸ .uint8)

theorem OfBytes.isWord {s : Schema} (hs : s.Spelled) {x : String}
    (h : OfBytes (sourceText (lines s)) x) : IsWord x.toList := by
  rcases (ofBytes_lines hs).1 h with rfl | rfl | ⟨e, he, -, rfl⟩
  · exact isWord_keyword .uint8
  · rw [String.toList_ofList]
    exact isWord_of_all (by simp) rfl
  · exact isWord_enum hs he

/-! ## Types of fields -/

/-- The name stands for an enum for `uint8`, under whatever spelling. -/
def NamesBytes (s : Schema) (n : String) : Prop :=
  ∃ e ∈ s.enums, e.type = .uint8 ∧ Naming.pascal e.name = Naming.pascal n

/-- No enum is called like the type of lists of `uint8`. -/
def Clear (s : Schema) : Prop := ∀ e ∈ s.enums, Naming.pascal e.name ≠ "Uint8List"

theorem type_list {s : Schema} {t : FieldType} (ht : t ≠ .primitive .uint8) :
    dialect.type s (.list t) = "[]" ++ dialect.type s t := if_neg ht

theorem type_bytes (s : Schema) : dialect.type s (.list (.primitive .uint8)) = "Uint8List" := rfl

theorem ofBytes_type {s : Schema} (hs : s.Spelled) {t : FieldType} (ht : t ≠ .primitive .uint8)
    (hclear : holdsBytes t = true → Clear s) :
    OfBytes (sourceText (lines s)) (dialect.type s t) ↔ ∃ n, t = .named n ∧ NamesBytes s n := by
  cases t with
  | primitive p =>
    refine iff_of_false (fun h => ?_) (by rintro ⟨n, hn, -⟩; cases hn)
    rcases (ofBytes_lines hs).1 h with h | h | ⟨e, -, -, h⟩
    · exact ht (congrArg FieldType.primitive (keyword_inj h))
    · exact keyword_ne_byte p h
    · exact pascal_ne_keyword e.name p h
  | list t =>
    refine iff_of_false (fun h => ?_) (by rintro ⟨n, hn, -⟩; cases hn)
    by_cases hbytes : t = .primitive .uint8
    · subst hbytes
      rw [type_bytes] at h
      rcases (ofBytes_lines hs).1 h with h | h | ⟨e, he, -, h⟩
      · exact absurd h (by decide)
      · exact absurd h (by decide)
      · exact hclear rfl e he h
    · rw [type_list hbytes] at h
      have hword := h.isWord hs
      rw [String.toList_append, String.toList_ofList] at hword
      exact absurd (hword.2 '[' (by simp)) (by decide)
  | map k v =>
    refine iff_of_false (fun h => ?_) (by rintro ⟨n, hn, -⟩; cases hn)
    have hword := h.isWord hs
    exact absurd (hword.2 '[' (by simp [Dialect.type, dialect])) (by decide)
  | named n =>
    rw [ofBytes_lines hs]
    constructor
    · rintro (h | h | ⟨e, he, htype, h⟩)
      · exact absurd h (pascal_ne (by decide))
      · exact absurd h (pascal_ne (by decide))
      · exact ⟨n, rfl, e, he, htype, h⟩
    · rintro ⟨m, hm, e, he, htype, h⟩
      cases hm
      exact .inr (.inr ⟨e, he, htype, h⟩)

theorem slices_type {s : Schema} (hs : s.Spelled) {t : FieldType} (ht : t.Spelled)
    (hclear : holdsBytes t = true → Clear s) :
    (∃ x : String, Slices (dialect.type s t).toList x.toList ∧ OfBytes (sourceText (lines s)) x) ↔
      (∃ e, t = .list e) ∧ ∃ n, t.core = .named n ∧ NamesBytes s n := by
  induction t with
  | primitive p =>
    refine iff_of_false ?_ (by rintro ⟨⟨e, he⟩, -⟩; cases he)
    rintro ⟨x, hx, -⟩
    exact not_slices_of_isWord (isWord_keyword p) _ hx
  | map k v =>
    refine iff_of_false ?_ (by rintro ⟨⟨e, he⟩, -⟩; cases he)
    rintro ⟨x, hx, -⟩
    exact not_slices_map (isWord_keyword k) (isWord_keyword v) _ hx
  | named n =>
    refine iff_of_false ?_ (by rintro ⟨⟨e, he⟩, -⟩; cases he)
    rintro ⟨x, hx, -⟩
    exact not_slices_of_isWord (isWord_pascal ht) _ hx
  | list t ih =>
    by_cases hbytes : t = .primitive .uint8
    · subst hbytes
      refine iff_of_false ?_ (by rintro ⟨-, n, hn, -⟩; cases hn)
      rintro ⟨x, hx, -⟩
      exact not_slices_of_isWord isWord_bytes _ hx
    · have hholds : holdsBytes t = true → Clear s := fun h => hclear (by simp [holdsBytes, h])
      have hsplit : (∃ x : String, Slices (dialect.type s (.list t)).toList x.toList ∧
          OfBytes (sourceText (lines s)) x) ↔
          OfBytes (sourceText (lines s)) (dialect.type s t) ∨
            ∃ x : String, Slices (dialect.type s t).toList x.toList ∧
              OfBytes (sourceText (lines s)) x := by
        rw [type_list hbytes]
        simp only [slices_slice, String.toList_inj, or_and_right, exists_or, exists_eq_left]
      rw [hsplit, ofBytes_type hs hbytes hholds, ih ht hholds]
      -- the list is one of an enum, or one of lists
      constructor
      · rintro (⟨n, rfl, hn⟩ | ⟨-, hn⟩)
        · exact ⟨⟨_, rfl⟩, n, rfl, hn⟩
        · exact ⟨⟨_, rfl⟩, hn⟩
      · rintro ⟨-, n, hcore, hn⟩
        cases t with
        | named m => exact .inl ⟨m, rfl, FieldType.named.inj hcore ▸ hn⟩
        | list t => exact .inr ⟨⟨t, rfl⟩, n, hcore, hn⟩
        | primitive p => cases hcore
        | map k v => cases hcore

/-! ## Lists of bytes -/

theorem holdsBytes_iff {t : FieldType} :
    holdsBytes t = true ↔ (∃ e, t = .list e) ∧ t.core = .primitive .uint8 := by
  induction t with
  | list t ih =>
    rw [holdsBytes, Bool.or_eq_true, decide_eq_true_iff, ih]
    constructor
    · rintro (rfl | ⟨-, hcore⟩)
      · exact ⟨⟨_, rfl⟩, rfl⟩
      · exact ⟨⟨_, rfl⟩, hcore⟩
    · rintro ⟨-, hcore⟩
      cases t with
      | primitive p => exact .inl hcore
      | list t => exact .inr ⟨⟨t, rfl⟩, hcore⟩
      | map k v => cases hcore
      | named n => cases hcore
  | primitive | map | named => simp [holdsBytes]

theorem endsIn_bytes {s : Schema} {t : FieldType} (h : holdsBytes t = true) :
    EndsIn "Uint8List" (dialect.type s t) := by
  induction t with
  | list t ih =>
    by_cases hbytes : t = .primitive .uint8
    · subst hbytes
      exact endsIn_self _
    · rw [holdsBytes, Bool.or_eq_true, decide_eq_true_iff, or_iff_right hbytes] at h
      have hrest := (ih h).wrap (p := "[]") (q := "") (by decide) (by decide)
      rwa [String.append_empty, ← type_list hbytes] at hrest
  | primitive | map | named => cases h

theorem clear_of_check {s : Schema} (h : check s = .ok ()) (hbytes : usesBytes s = true) : Clear s := by
  intro e he hname
  rw [check, bind_unit_eq_ok_iff, distinct_eq_ok_iff, topNames, if_pos hbytes, List.map_append] at h
  have hdisjoint := (List.nodup_append.1 h.1).2.2
  refine hdisjoint "Uint8List" (by simp) "Uint8List" ?_ rfl
  rw [List.map_flatMap, List.mem_flatMap]
  refine ⟨_, dialect.choice_mem_decls he, ?_⟩
  rw [← hname]
  simp [declNames, Dialect.choice, dialect]

/-- The type of lists of `uint8` has a method that encodes it. -/
theorem mem_encoded {s : Schema} (hs : s.Spelled) (hbytes : usesBytes s = true) :
    "Uint8List" ∈ encoded (sourceText (lines s)) := by
  have hwords : ("func (l Uint8List) MarshalJSON() ([]byte, error)" ++ " \x7b").toList =
      "func (l ".toList ++ ("Uint8List".toList ++
        ") MarshalJSON() ([]byte, error) \x7b".toList) := by simp
  have hline : ("func (l Uint8List) MarshalJSON() ([]byte, error)" ++ " \x7b").toList ∈
      rowsOf (sourceText (lines s)) := by
    have hrows := Target.go.rowsOf_sourceText hs
    rw [Target.lines] at hrows
    rw [hrows, List.append_assoc]
    refine List.mem_append_left _ (List.mem_filter.2 ⟨List.mem_map.2 ⟨_, ?_, rfl⟩, ?_⟩)
    · simp [Target.opening, hbytes, bytesLines, nest, block]
    · simp [isFilled]
  refine List.mem_flatMap.2 ⟨_, hline, ?_⟩
  rw [hwords, named?_append _ _ isWord_bytes]
  · simp
  · rw [String.toList_ofList]
    rfl

/-! ## Files -/

/-- How the words for a type spell lists of bytes. -/
structure BytesSpelled (s : Schema) (source : String) (type : FieldType) (words : String) : Prop where
  /-- A slice of bytes stands for a list of an enum for `uint8`, and for nothing else. -/
  slices : (∃ x : String, Slices words.toList x.toList ∧ OfBytes source x) ↔
    (∃ e, type = .list e) ∧ ∃ n, type.core = .named n ∧ NamesBytes s n
  /-- A list of `uint8` has a type of its own that encodes it. -/
  bytes : (∃ e, type = .list e) → type.core = .primitive .uint8 →
    lastWord words = "Uint8List" ∧ "Uint8List" ∈ defined source "[]uint8" ∧
      "Uint8List" ∈ encoded source

theorem bytesSpelled_type {s : Schema} (hs : s.Spelled) (hcheck : check s = .ok ()) {t : FieldType}
    (ht : t.Spelled) (hbytes : holdsBytes t = true → usesBytes s = true) :
    BytesSpelled s (sourceText (lines s)) t (dialect.type s t) where
  slices := slices_type hs ht fun h => clear_of_check hcheck (hbytes h)
  bytes hlist hcore := by
    have hholds := holdsBytes_iff.2 ⟨hlist, hcore⟩
    exact ⟨(endsIn_bytes hholds).lastWord_eq isWord_bytes,
      (mem_defined_iff hs).2 (.inl ⟨hbytes hholds, rfl, rfl⟩), mem_encoded hs (hbytes hholds)⟩

/-- **Slices of bytes.** In Go source text for a compiled schema the words for the type of a field have
a slice whose elements are `uint8` underneath exactly if the type is a list, to whatever depth, of an
enum for `uint8`. For lists of `uint8` itself they end in a type with an encoding of its own. -/
theorem slices_of_bytes (text : String) (s : Schema) (hs : Schema.compile text = .ok s)
    (source : String) (hsource : Target.go.render s = .ok source) :
    ∃ record, Target.go.records source = some (s.objects.map record) ∧
      ∀ o ∈ s.objects, TypesAre (BytesSpelled s source) o (record o) := by
  obtain ⟨hcheck, rfl⟩ := Target.render_eq_ok_iff.1 hsource
  have hspelled := Schema.spelled_of_compile hs
  obtain ⟨record, hrecords, hfollows⟩ := Target.go.followsFields_lines hspelled
  refine ⟨record, hrecords, fun o ho => (hfollows o).typesAre fun f hf => ?_⟩
  refine bytesSpelled_type hspelled hcheck (hspelled.type ho hf) fun hholds => ?_
  exact List.any_eq_true.2 ⟨o, ho, List.any_eq_true.2 ⟨f, hf, hholds⟩⟩

/-- A list of an enum for `uint8` is a slice of bytes. -/
theorem slices_of_bytes_enum :
    ∃ s source r m, Schema.compile
        "enum E for uint8 \x7b A = 1 \x7d object O \x7b list of E xs \x7d" = .ok s ∧
      Target.go.render s = .ok source ∧ Target.go.records source = some [r] ∧ r.members = [m] ∧
      ∃ x : String, Slices m.type.toList x.toList ∧ OfBytes source x := by
  have hone : MemberOf ["A", "=", "1"] ⟨"A", .int (.ofInt 1), .start⟩ :=
    .mk (by decide) (.integer (by decide +kernel) (by decide) (by decide)) _
  have hlist : FieldOf ["list", "of", "E", "xs"] ⟨.list (.named "E"), "xs", .start⟩ :=
    .mk (.list (.named (by decide) (by intro p; cases p <;> decide) (by decide) (by decide)))
      (by decide) _
  have hderives : Derives _ _ := .mk .none
    (.cons (.enum (.mk (n := "E") (by decide) .uint8 (.mk (.cons hone .nil)) .start))
      (.cons (.object (.mk (n := "O") (by decide) (.mk (.cons hlist .nil)) .start)) .nil))
  obtain ⟨s, source, hs, hsource, hplaced⟩ := Target.render_of_derives .go
    "enum E for uint8 \x7b A = 1 \x7d object O \x7b list of E xs \x7d" (by cbv) hderives
    (by decide +kernel) (by decide +kernel)
  obtain ⟨record, hrecords, hspelled⟩ := slices_of_bytes _ s hs source hsource
  -- the compiled schema has the same enum and object, placed
  obtain ⟨p, q, henums⟩ : ∃ p q, s.enums = [⟨"E", .uint8, [⟨"A", .int (.ofInt 1), p⟩], q⟩] := by
    simpa [List.map_eq_cons_iff] using Schema.enums_of_unplaced hplaced
  obtain ⟨x, y, hobjects⟩ : ∃ x y, s.objects = [⟨"O", [⟨.list (.named "E"), "xs", x⟩], y⟩] := by
    simpa [List.map_eq_cons_iff] using Schema.objects_of_unplaced hplaced
  obtain ⟨m, ms, hm, hnil, hmembers⟩ := List.forall₂_cons_left_iff.1
    (hspelled _ (hobjects ▸ List.mem_singleton_self _)).members
  obtain rfl := List.forall₂_nil_left_iff.1 hnil
  refine ⟨s, source, _, m, hs, hsource, by rw [hrecords, hobjects]; rfl, hmembers, ?_⟩
  exact hm.slices.2 ⟨⟨_, rfl⟩, "E", rfl, _, henums ▸ List.mem_singleton_self _, rfl, rfl⟩

end Idl.Go
