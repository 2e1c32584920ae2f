import Mathlib
import Idl.Proofs.Outline.Reading

/-!
# Texts within lines

* `FlatLines`: lines without line ends.
* `flat_literal`: literals have no line ends.
* `TypeText`, `type_induction`: what the words for types have in common.
* `Tidy`, `TidyDialect.decls`: what the declarations of a target have in common.
* `choice?_eq`: an enum that is read part by part.
* `choices_decls`, `records_decls`: the enums and the objects of a file.
-/

namespace Idl

open Lexeme

namespace Outline

/-! ## Texts without line ends -/

theorem flat_append_iff {l l' : String} : Flat (l ++ l') ↔ Flat l ∧ Flat l' := by
  rw [Flat, String.toList_append, List.mem_append, not_or]
  rfl

theorem flat_ofList {l : List Char} (h : l.all (· != '\n') = true) : Flat (String.ofList l) := by
  rw [Flat, String.toList_ofList]
  intro hmem
  have hne := List.all_eq_true.1 h _ hmem
  exact absurd hne (by decide)

theorem flat_of_isWord {n : String} (hn : IsWord n.toList) : Flat n := hn.not_mem (by decide)

theorem flat_toString (i : ℤ) : Flat (toString i) := by
  have hdigits : ∀ n, '\n' ∉ Nat.toDigits 10 n := fun n hmem =>
    absurd (Decimal.digits_toDigits n _ hmem) (by decide)
  rw [Flat, Decimal.toList_toString_int]
  split
  · exact hdigits _
  · rw [List.mem_cons, not_or]
    exact ⟨by decide, hdigits _⟩

theorem flat_toString_nat (n : ℕ) : Flat (toString n) := flat_toString n

theorem flat_quote (s : String) : Flat (Text.quote s) := by
  have h : ∀ c ∈ s.toList, '\n' ∉ Text.quoteChar c := fun c _ hmem =>
    absurd (Text.toNat_ge_of_mem_quoteChar hmem) (by decide)
  rw [Flat, Text.quote, String.toList_ofList, Text.quoteChars]
  simpa using h

theorem flat_stringText (s : String) : Flat (Dart.stringText s) := by
  have hquote : '\n' ∉ Text.quoteChars s.toList := by
    have h := flat_quote s
    rwa [Flat, Text.quote, String.toList_ofList] at h
  rw [Flat, Dart.stringText, String.toList_ofList, List.mem_flatMap]
  rintro ⟨c, hc, hmem⟩
  split at hmem
  · exact absurd hmem (by decide)
  · rw [List.mem_singleton.1 hmem] at hquote
    exact hquote hc

theorem flat_escapeAscii (s : String) : Flat (Text.escapeAscii s) := by
  rw [Flat, Text.escapeAscii, String.toList_ofList, List.mem_flatMap]
  rintro ⟨c, -, hmem⟩
  exact absurd (Text.toNat_ge_of_mem_escapeAsciiChar hmem) (by decide)

theorem newline_not_mem_digits {ds : List Char} (h : Decimal.Digits ds) : '\n' ∉ ds :=
  fun hmem => absurd (h _ hmem) (by decide)

theorem flat_plainText (wholePoint : Bool) {ds : List Char} (hds : Decimal.Digits ds) (x : ℤ) :
    Flat (Decimal.plainText wholePoint ds x) := by
  have h := newline_not_mem_digits hds
  have htake : ∀ k, '\n' ∉ ds.take k := fun k hmem => h (List.mem_of_mem_take hmem)
  have hdrop : ∀ k, '\n' ∉ ds.drop k := fun k hmem => h (List.mem_of_mem_drop hmem)
  unfold Decimal.plainText
  simp only
  split_ifs <;> simp [Flat, h, htake, hdrop]

theorem flat_powerText (plus : Bool) {ds : List Char} (hds : Decimal.Digits ds) (x : ℤ) :
    Flat (Decimal.powerText plus ds x) := by
  have h := newline_not_mem_digits hds
  have htake : '\n' ∉ ds.take 1 := fun hmem => h (List.mem_of_mem_take hmem)
  have htail : '\n' ∉ ds.tail := fun hmem => h (List.mem_of_mem_tail hmem)
  have hx := flat_toString x
  unfold Decimal.powerText
  simp only [flat_append_iff]
  refine ⟨⟨⟨⟨?_, ?_⟩, ?_⟩, ?_⟩, hx⟩
  · simp [Flat, htake]
  · split_ifs <;> simp [Flat, htail]
  · simp [Flat]
  · split_ifs <;> simp [Flat]

theorem flat_write (layout : Decimal.Layout) (x : Binary64) : Flat (layout.write x) := by
  cases x with
  | nan => simp [Decimal.Layout.write, Flat]
  | infinite negative => cases negative <;> simp [Decimal.Layout.write, Flat]
  | finite negative units fits =>
    rw [Decimal.Layout.write, flat_append_iff]
    constructor
    · cases negative <;> simp [Flat]
    · unfold Decimal.Layout.writeUnits
      simp only
      split_ifs
      · exact flat_plainText _ (Decimal.digits_zeros 1) 0
      · exact flat_plainText _ (Decimal.digits_significant _) _
      · exact flat_powerText _ (Decimal.digits_significant _) _

theorem flat_literal {d : Dialect} (htext : ∀ s, Flat (d.text s)) (hsuffix : ∀ p, Flat (d.suffix p))
    (p : Primitive) (v : Literal) : Flat (d.literal p v) := by
  cases v with
  | string s => exact htext s
  | bool b => cases b <;> simp [Dialect.literal, Literal.boolText, Flat]
  | int i =>
    have hpoint : Flat ".0" := by simp [Flat]
    rw [Dialect.literal]
    split
    · rw [flat_append_iff, flat_append_iff]
      exact ⟨⟨flat_toString _, hpoint⟩, hsuffix p⟩
    · exact flat_toString _
  | float x =>
    rw [Dialect.literal, flat_append_iff]
    exact ⟨flat_write _ x, hsuffix p⟩

/-! ## Lines without line ends -/

/-- Lines without line ends. -/
def FlatLines (ls : List String) : Prop := ∀ l ∈ ls, Flat l

theorem flatLines_nil : FlatLines [] := by simp [FlatLines]

theorem flatLines_cons {l : String} {ls : List String} :
    FlatLines (l :: ls) ↔ Flat l ∧ FlatLines ls := List.forall_mem_cons

theorem flatLines_append {ls ls' : List String} :
    FlatLines (ls ++ ls') ↔ FlatLines ls ∧ FlatLines ls' := List.forall_mem_append

theorem flatLines_map {α : Type} {f : α → String} {as : List α} :
    FlatLines (as.map f) ↔ ∀ a ∈ as, Flat (f a) := List.forall_mem_map

theorem flatLines_flatMap {α : Type} {f : α → List String} {as : List α} :
    FlatLines (as.flatMap f) ↔ ∀ a ∈ as, FlatLines (f a) := by
  simp only [FlatLines, List.mem_flatMap]
  exact ⟨fun h a ha l hl => h l ⟨a, ha, hl⟩, fun h l ⟨a, ha, hl⟩ => h a ha l hl⟩

theorem flatLines_singleton {l : String} : FlatLines [l] ↔ Flat l := List.forall_mem_singleton

theorem flatLines_ite {p : Prop} [Decidable p] {ls ls' : List String} (hls : FlatLines ls)
    (hls' : FlatLines ls') : FlatLines (if p then ls else ls') := by
  split
  · exact hls
  · exact hls'

theorem flatLines_indent {m : String} {ls : List String} (hm : Flat m) :
    FlatLines (indent m ls) ↔ FlatLines ls := by
  rw [indent, flatLines_map]
  apply forall₂_congr
  intro l _
  split
  · rfl
  · rw [flat_append_iff]
    exact and_iff_right hm

theorem flatLines_arrows {l : Lookup} {f : String → String} (hf : ∀ x, Flat x → Flat (f x))
    (harms : ∀ a ∈ l.arms, Flat a.1 ∧ Flat a.2) (hother : FlatLines l.otherwise) :
    FlatLines (l.arrows f) := by
  simp only [Lookup.arrows, flatLines_append, flatLines_map, flat_append_iff, toString_text]
  refine ⟨?_, ?_⟩
  · intro a ha
    exact ⟨⟨⟨(harms a ha).1, flat_ofList rfl⟩, hf _ (harms a ha).2⟩, flat_ofList rfl⟩
  · intro e he
    exact ⟨⟨flat_ofList rfl, hother e he⟩, flat_ofList rfl⟩

theorem flatLines_labels {l : Lookup} {m : String} {f : String → String} (hm : Flat m)
    (hf : ∀ x, Flat x → Flat (f x)) (harms : ∀ a ∈ l.arms, Flat a.1 ∧ Flat a.2)
    (hother : FlatLines l.otherwise) : FlatLines (l.labels m f) := by
  rw [Lookup.labels, flatLines_append, flatLines_flatMap]
  refine ⟨?_, ?_⟩
  · intro a ha
    simp only [flatLines_cons, flat_append_iff, toString_text]
    exact ⟨⟨⟨flat_ofList rfl, (harms a ha).1⟩, flat_ofList rfl⟩, ⟨hm, hf _ (harms a ha).2⟩,
      flatLines_nil⟩
  · split
    · exact flatLines_nil
    · rw [flatLines_cons, flatLines_indent hm]
      exact ⟨flat_ofList rfl, hother⟩

theorem flat_indexArms {names : List String} (h : ∀ n ∈ names, Flat n) :
    ∀ a ∈ indexArms names, Flat a.1 ∧ Flat a.2 := by
  rw [indexArms, List.forall_mem_map]
  exact fun p hp => ⟨h p.1 (List.fst_mem_of_mem_zipIdx hp), flat_toString_nat p.2⟩

theorem flat_valueArms {names : List String} (h : ∀ n ∈ names, Flat n) :
    ∀ a ∈ valueArms names, Flat a.1 ∧ Flat a.2 := by
  rw [valueArms, List.forall_mem_map]
  exact fun p hp => ⟨flat_toString_nat p.2, h p.1 (List.fst_mem_of_mem_zipIdx hp)⟩

theorem not_mem_intercalate {c : Char} {sep : String} {xs : List String} (hsep : c ∉ sep.toList)
    (h : ∀ x ∈ xs, c ∉ x.toList) : c ∉ (sep.intercalate xs).toList := by
  rw [String.toList_intercalate]
  induction xs with
  | nil => simp
  | cons x xs ih =>
    have hx := h x List.mem_cons_self
    have hrest := ih fun y hy => h y (List.mem_cons_of_mem x hy)
    cases xs with
    | nil => simpa using hx
    | cons y xs =>
      rw [List.map_cons] at hrest
      rw [List.map_cons, List.map_cons, List.intercalate_cons_cons, List.mem_append, not_or,
        List.mem_append, not_or]
      exact ⟨⟨hx, hsep⟩, hrest⟩

theorem flat_intercalate {sep : String} {xs : List String} (hsep : Flat sep)
    (h : ∀ x ∈ xs, Flat x) : Flat (sep.intercalate xs) :=
  not_mem_intercalate hsep h

/-! ## Types -/

/-- The words for a type: no comma outside angle brackets, no closing parenthesis and no line end. -/
structure TypeText (x : Line) : Prop extends ItemText x where
  flat : '\n' ∉ x
  paren : ')' ∉ x

theorem typeText_of_isWord {x : Line} (hx : IsWord x) : TypeText x where
  whole := whole_of_plain fun _ hc =>
    ⟨hx.ne_of_mem hc (by decide), hx.ne_of_mem hc (by decide), hx.ne_of_mem hc (by decide)⟩
  flat := hx.not_mem (by decide)
  paren := hx.not_mem (by decide)
  ne_nil := hx.1
  stops := by
    have h := (unbroken_of_isWord hx).stops (y := [])
    rwa [List.append_nil] at h

theorem typeText_angle {n x : Line} (hn : IsWord n) (hx : Inner x) (hflat : '\n' ∉ x)
    (hparen : ')' ∉ x) : TypeText (n ++ '<' :: (x ++ ['>'])) where
  whole := (typeText_of_isWord hn).whole.append hx.whole
  flat := by
    have h := (typeText_of_isWord hn).flat
    simp [h, hflat]
  paren := by
    have h := (typeText_of_isWord hn).paren
    simp [h, hparen]
  ne_nil := by simp
  stops := (unbroken_of_isWord hn).stops

theorem typeText_angle_one {n x : Line} (hn : IsWord n) (hx : TypeText x) :
    TypeText (n ++ '<' :: (x ++ ['>'])) :=
  typeText_angle hn hx.whole.inner hx.flat hx.paren

theorem typeText_angle_two {n x y : Line} (hn : IsWord n) (hx : TypeText x) (hy : TypeText y) :
    TypeText (n ++ '<' :: ((x ++ ',' :: ' ' :: y) ++ ['>'])) := by
  have hblank : Whole [' '] := whole_of_plain (by simp)
  apply typeText_angle hn
  · exact hx.whole.inner.append (inner_comma.append (hblank.inner.append hy.whole.inner))
  · simp [hx.flat, hy.flat]
  · simp [hx.paren, hy.paren]

theorem typeText_list {p x : String} {w : Line} (hp : p.toList = w ++ ['<']) (hw : IsWord w)
    (hx : TypeText x.toList) : TypeText (p ++ x ++ ">").toList := by
  have hclose : (">" : String).toList = ['>'] := String.toList_ofList
  rw [String.toList_append, String.toList_append, hp, hclose, List.append_assoc, List.append_assoc]
  exact typeText_angle_one hw hx

theorem typeText_map {p x y : String} {w : Line} (hp : p.toList = w ++ ['<']) (hw : IsWord w)
    (hx : TypeText x.toList) (hy : TypeText y.toList) :
    TypeText (p ++ x ++ ", " ++ y ++ ">").toList := by
  have hclose : (">" : String).toList = ['>'] := String.toList_ofList
  have hsep : (", " : String).toList = [',', ' '] := String.toList_ofList
  have h := typeText_angle_two hw hx hy
  simp only [String.toList_append, hp, hclose, hsep]
  simpa using h

/-- What holds of the parts of a type's words holds of the words. -/
theorem type_induction {d : Dialect} {s : Schema} {P : String → Prop}
    (hprimitive : ∀ p, P (d.primitive p)) (hlist : ∀ t x, P x → P (d.list t x))
    (hmap : ∀ k v, P (d.map (d.primitive k) (d.primitive v)))
    (hnamed : ∀ n : String, IsWord n.toList → P (d.named s n)) {t : FieldType} (ht : t.Spelled) :
    P (d.type s t) := by
  induction t with
  | primitive p => exact hprimitive p
  | list t ih => exact hlist t _ (ih ht)
  | map k v => exact hmap k v
  | named n => exact hnamed n ht

/-! ## Names -/

/-- A name, which may be marked as one that is spelled like a keyword. -/
def NameText (x : Line) : Prop := ∃ w, IsWord w ∧ (x = w ∨ x = '@' :: w)

theorem nameText_of_isWord {x : Line} (hx : IsWord x) : NameText x := ⟨x, hx, .inl rfl⟩

theorem NameText.unbroken {x : Line} (hx : NameText x) : Unbroken x := by
  obtain ⟨w, hw, rfl | rfl⟩ := hx
  · exact unbroken_of_isWord hw
  · refine ⟨by simp, ?_⟩
    intro c hc
    rcases List.mem_cons.1 hc with rfl | hc
    · rfl
    · exact (unbroken_of_isWord hw).2 c hc

theorem NameText.not_mem {x : Line} {c : Char} (hx : NameText x) (hc : isNamePart c = false)
    (hne : c ≠ '@') : c ∉ x := by
  obtain ⟨w, hw, rfl | rfl⟩ := hx
  · exact hw.not_mem hc
  · rw [List.mem_cons, not_or]
    exact ⟨hne, hw.not_mem hc⟩

theorem NameText.whole {x : Line} (hx : NameText x) : Whole x := by
  have hne : ∀ {d : Char}, isNamePart d = false → d ≠ '@' → ∀ c ∈ x, c ≠ d := by
    rintro d hd hmark c hc rfl
    exact hx.not_mem hd hmark hc
  exact whole_of_plain fun c hc =>
    ⟨hne (by decide) (by decide) c hc, hne (by decide) (by decide) c hc,
      hne (by decide) (by decide) c hc⟩

theorem NameText.flat {n : String} (hn : NameText n.toList) : Flat n :=
  hn.not_mem (by decide) (by decide)

theorem constant?_member {n : String} (hn : NameText n.toList) (x : String) :
    constant? (bare s!"{n} = {x},") = some n.toList := by
  have hline : bare s!"{n} = {x}," = n.toList ++ (" = ".toList ++ (x.toList ++ ",".toList)) := by
    simp only [bare, toString_text, String.toList_append, List.append_assoc]
    exact dropWhile_isMargin hn.unbroken.stops
  have hblank : " = ".toList ++ (x.toList ++ ",".toList) =
      ' ' :: ("= ".toList ++ (x.toList ++ ",".toList)) := by
    rw [String.toList_ofList, String.toList_ofList]
    rfl
  have hconst : after? "public const " (bare s!"{n} = {x},") = none := by
    have hp : ("public const " : String).toList =
        ['p', 'u', 'b', 'l', 'i', 'c'] ++ ' ' :: "const ".toList := by
      rw [String.toList_ofList, String.toList_ofList]
      rfl
    rw [hline, hblank, after?, hp,
      isPrefixOf?_blank (unbroken_of_isWord (isWord_of_all (by simp) rfl)) hn.unbroken,
      String.toList_ofList, String.toList_ofList]
    exact ite_self none
  have hcut : cut (bare s!"{n} = {x},") =
      (n.toList, " = ".toList ++ (x.toList ++ ",".toList)) := by
    rw [hline]
    apply cut_append hn.unbroken
    rw [hblank]
    rfl
  rw [constant?, hconst]
  simp only [hcut, after?_append, Option.map_some]

/-! ## Declarations -/

/-- What the words of a target are like. -/
structure Spelling where
  /-- Names that may be spelled like keywords in a schema. -/
  name : Line → Prop
  /-- Types of fields. -/
  type : Line → Prop
  /-- Types of constants. -/
  constant : Line → Prop

/-- Names are words. -/
def Spelling.plain : Spelling := ⟨IsWord, TypeText, fun x => '\n' ∉ x⟩

/-- A declaration made of names, types and literals that source text can hold. -/
def Tidy (p : Spelling) : Decl → Prop
  | .constants g => p.constant g.type.toList ∧ (∀ n, g.source.name = some n → IsWord n.toList) ∧
      ∀ c ∈ g.rows, p.name c.name.toList ∧ Flat c.literal
  | .choice c => IsWord c.name.toList ∧ p.constant c.type.toList ∧
      ∀ v ∈ c.variants, IsWord v.source.toList ∧ p.name v.name.toList ∧ Flat v.literal
  | .record r => IsWord r.name.toList ∧
      ∀ f ∈ r.slots, f.field.type.Spelled ∧ IsWord f.key.toList ∧ IsWord f.member.toList ∧
        p.name f.param.toList ∧ p.type f.type.toList

/-- The words of a dialect are such names, types and literals. -/
structure TidyDialect (p : Spelling) (d : Dialect) : Prop where
  title : ∀ n : String, IsWord n.toList → IsWord (d.title n).toList
  variant : ∀ e m, IsWord e.name.toList → IsWord m.name.toList → p.name (d.variant e m).toList
  member : ∀ o f, IsWord o.name.toList → IsWord f.name.toList → IsWord (d.member o f).toList
  param : ∀ o f, IsWord o.name.toList → IsWord f.name.toList → p.name (d.param o f).toList
  binding : ∀ c m, (∀ n, c.name = some n → IsWord n.toList) → IsWord m.name.toList →
    p.name (d.binding c m).toList
  type : ∀ s t, FieldType.Spelled t → p.type (d.type s t).toList
  constant : ∀ t, p.constant (d.constant t).toList
  text : ∀ s, Flat (d.text s)
  suffix : ∀ t, Flat (d.suffix t)

theorem TidyDialect.decls {p : Spelling} {d : Dialect} (hd : TidyDialect p d) {s : Schema}
    (hs : s.Spelled) : ∀ decl ∈ d.decls s, Tidy p decl := by
  rw [Dialect.decls, List.forall_mem_map]
  intro e he
  have hspelled := hs.entry e he
  have hliteral := flat_literal hd.text hd.suffix
  cases e with
  | const c =>
    refine ⟨hd.constant c.type, hspelled.1, ?_⟩
    intro row hrow
    obtain ⟨m, hm, rfl⟩ := List.mem_map.1 hrow
    exact ⟨hd.binding c m hspelled.1 (hspelled.2 m hm), hliteral c.type m.value⟩
  | enum e =>
    refine ⟨hd.title e.name hspelled.1, hd.constant e.type, ?_⟩
    intro v hv
    obtain ⟨m, hm, rfl⟩ := List.mem_map.1 hv
    exact ⟨hspelled.2 m hm, hd.variant e m hspelled.1 (hspelled.2 m hm), hliteral e.type m.value⟩
  | object o =>
    refine ⟨hd.title o.name hspelled.1, ?_⟩
    intro slot hslot
    obtain ⟨f, hf, rfl⟩ := List.mem_map.1 hslot
    obtain ⟨hname, htype⟩ := hspelled.2 f hf
    exact ⟨htype, hname, hd.member o f hspelled.1 hname, hd.param o f hspelled.1 hname,
      hd.type s f.type htype⟩

theorem flat_qualified {c : Choice} {mark : String} (h : Tidy .plain (.choice c)) (hmark : Flat mark) :
    ∀ n ∈ c.variants.map fun v => c.name ++ mark ++ v.name, Flat n := by
  rw [List.forall_mem_map]
  intro v hv
  rw [flat_append_iff, flat_append_iff]
  exact ⟨⟨flat_of_isWord h.1, hmark⟩, flat_of_isWord (h.2.2 v hv).2.1⟩

theorem unbroken_qualified {c : Choice} {mark : String} (h : Tidy .plain (.choice c))
    (hmark : ∀ a ∈ mark.toList, isMargin a = false) :
    ∀ n ∈ c.variants.map fun v => c.name ++ mark ++ v.name, Unbroken n.toList := by
  rw [List.forall_mem_map]
  intro v hv
  rw [String.toList_append, String.toList_append]
  exact ((unbroken_of_isWord h.1).append hmark).append (unbroken_of_isWord (h.2.2 v hv).2.1).2

theorem flat_params {slots : List Slot} {sep : String} (hsep : Flat sep)
    (h : ∀ f ∈ slots, Flat f.param ∧ Flat f.type) :
    Flat (commas (slots.map fun f => f.param ++ sep ++ f.type)) := by
  apply flat_intercalate (flat_ofList rfl)
  rw [List.forall_mem_map]
  intro f hf
  rw [flat_append_iff, flat_append_iff]
  exact ⟨⟨(h f hf).1, hsep⟩, (h f hf).2⟩

theorem itemText_param {x y z : Line} (hx : IsWord x) (hy : ∀ c ∈ y, c ≠ ',' ∧ c ≠ '<' ∧ c ≠ '>')
    (hz : TypeText z) : ItemText (x ++ (y ++ z)) :=
  (typeText_of_isWord hx).toItemText.append ((whole_of_plain hy).append hz.whole)

theorem mapM_annotated? {r : Record} (h : Tidy .plain (.record r)) :
    (items (commas (r.slots.map fun f => f.param ++ ": " ++ f.type)).toList).mapM
      (fun l => (annotated? l).map fun p => (String.ofList p.1, some (String.ofList p.2))) =
      some (r.slots.map fun f => (f.param, some f.type)) := by
  apply mapM_items
  · intro f hf
    obtain ⟨-, -, -, hparam, htype⟩ := h.2 f hf
    rw [String.toList_append, String.toList_append, List.append_assoc]
    refine itemText_param hparam ?_ htype
    rw [String.toList_ofList]
    simp
  · intro f hf
    obtain ⟨-, -, -, hparam, -⟩ := h.2 f hf
    rw [String.toList_append, String.toList_append, List.append_assoc, annotated?_append hparam]
    simp

/-! ## Enums -/

/-- The index of each member, in cases of a given form. -/
def indexed (arm : String → String → Arm) (ids : List String) : List Arm :=
  ids.zipIdx.map fun p => arm p.1 (toString p.2)

/-- The member at each index. -/
def located (ids : List String) : List Arm := ids.zipIdx.map fun p => .maps (toString p.2) p.1

end Outline

open Outline

/-- What source text says about an enum. A look-up of an index has cases of a given form, and if it is
total then it has no case for other values. -/
def Choice.outline (arm : String → String → Arm) (isTotal : Bool) (c : Choice) : ChoiceOutline where
  name := c.name
  members := c.variants.map Variant.name
  index := indexed arm (c.variants.map Variant.name) ++ if isTotal then [] else [.fails]
  value := located (c.variants.map Variant.name) ++ [.fails]

/-- What source text says about the enum of a declaration. -/
def Decl.choiceOutlines (f : Choice → ChoiceOutline) : Decl → List ChoiceOutline
  | .choice c => [f c]
  | _ => []

/-- What source text says about the object of a declaration. -/
def Decl.recordOutlines (f : Record → RecordOutline) : Decl → List RecordOutline
  | .record r => [f r]
  | _ => []

theorem Dialect.flatMap_choiceOutlines (d : Dialect) (f : Choice → ChoiceOutline) (s : Schema) :
    (d.decls s).flatMap (Decl.choiceOutlines f) = s.enums.map fun e => f (d.choice e) := by
  rw [decls, Schema.enums, List.flatMap_map]
  induction s.entries with
  | nil => rfl
  | cons e es ih =>
    rw [List.flatMap_cons, ih]
    cases e <;> rfl

theorem Dialect.flatMap_recordOutlines (d : Dialect) (f : Record → RecordOutline) (s : Schema) :
    (d.decls s).flatMap (Decl.recordOutlines f) = s.objects.map fun o => f (d.record s o) := by
  rw [decls, Schema.objects, List.flatMap_map]
  induction s.entries with
  | nil => rfl
  | cons e es ih =>
    rw [List.flatMap_cons, ih]
    cases e <;> rfl

namespace Outline

/-- An enum is read part by part. -/
theorem choice?_eq {L : Language} {c : Choice} {f : String → String}
    {members index value : List Line} {isTotal : Bool} {g arm : String → String → Arm}
    (hmembers : L.members members = some (c.variants.map fun v => v.name.toList))
    (hindex : L.indexArms index =
      some ((indexArms (c.variants.map fun v => f v.name)).map (fun a => g a.1 a.2)
        ++ if isTotal then [] else [.fails]))
    (hvalue : L.valueArms value =
      some ((valueArms (c.variants.map fun v => f v.name)).map (fun a => .maps a.1 a.2) ++ [.fails]))
    (hf : ∀ v ∈ c.variants, unqualified c.name L.mark (f v.name) = v.name)
    (harm : ∀ v ∈ c.variants, ∀ result,
      (g (f v.name) result).mapPattern (unqualified c.name L.mark) = arm v.name result) :
    L.choice? c.name.toList members index value = some (c.outline arm isTotal) := by
  have hids : (c.variants.map fun v => v.name.toList).map String.ofList =
      c.variants.map Variant.name := by simp [Function.comp_def]
  unfold Language.choice? Choice.outline
  simp only [hmembers, hindex, hvalue, hids, String.ofList_toList, Option.bind_eq_bind,
    Option.bind_some, Option.pure_def, Option.some.injEq, ChoiceOutline.mk.injEq, true_and,
    List.map_append, List.map_singleton]
  constructor
  · congr 1
    · rw [indexArms, indexed, List.zipIdx_map, List.zipIdx_map, List.map_map, List.map_map,
        List.map_map, List.map_map]
      apply List.map_congr_left
      intro p hp
      exact harm p.1 (List.fst_mem_of_mem_zipIdx hp) (toString p.2)
    · cases isTotal <;> rfl
  · congr 1
    rw [valueArms, located, List.zipIdx_map, List.zipIdx_map, List.map_map, List.map_map,
      List.map_map, List.map_map]
    apply List.map_congr_left
    intro p hp
    exact congrArg (Arm.maps (toString p.2)) (hf p.1 (List.fst_mem_of_mem_zipIdx hp))

/-! ## Declarations in source text -/

section Declarations

variable {p : Spelling} {d : Dialect} {s : Schema} {ss : Decl → List (Heading × List Line)}

/-- The enums of a file are read declaration by declaration. -/
theorem choices_decls {F : List (Heading × List Line) → Option (List ChoiceOutline)}
    {f : Choice → ChoiceOutline} (hd : TidyDialect p d) (hs : s.Spelled) (hnil : F [] = some [])
    (hfresh : ∀ x, Fresh (ss x))
    (hconstants : ∀ g rest, Fresh rest → F (ss (.constants g) ++ rest) = F rest)
    (hchoice : ∀ c, Tidy p (.choice c) → ∀ rest cs, F rest = some cs →
      F (ss (.choice c) ++ rest) = some (f c :: cs))
    (hrecord : ∀ r rest, Fresh rest → F (ss (.record r) ++ rest) = F rest) :
    F ((d.decls s).flatMap ss) = some (s.enums.map fun e => f (d.choice e)) := by
  rw [← d.flatMap_choiceOutlines f]
  refine flatMap_eq_some hnil (fun x _ => hfresh x) ?_
  intro x hx rest cs hrest hcs
  cases x with
  | constants g => exact (hconstants g rest hrest).trans hcs
  | choice c => exact hchoice c (hd.decls hs _ hx) rest cs hcs
  | record r => exact (hrecord r rest hrest).trans hcs

theorem records_decls {F : List (Heading × List Line) → Option (List RecordOutline)}
    {f : Record → RecordOutline} (hd : TidyDialect p d) (hs : s.Spelled) (hnil : F [] = some [])
    (hfresh : ∀ x, Fresh (ss x))
    (hconstants : ∀ g rest, Fresh rest → F (ss (.constants g) ++ rest) = F rest)
    (hchoice : ∀ c, Tidy p (.choice c) → ∀ rest, F (ss (.choice c) ++ rest) = F rest)
    (hrecord : ∀ r, Tidy p (.record r) → ∀ rest rs, Fresh rest → F rest = some rs →
      F (ss (.record r) ++ rest) = some (f r :: rs)) :
    F ((d.decls s).flatMap ss) = some (s.objects.map fun o => f (d.record s o)) := by
  rw [← d.flatMap_recordOutlines]
  refine flatMap_eq_some hnil (fun x _ => hfresh x) ?_
  intro x hx rest rs hrest hrs
  cases x with
  | constants g => exact (hconstants g rest hrest).trans hrs
  | choice c => exact (hchoice c (hd.decls hs _ hx) rest).trans hrs
  | record r => exact hrecord r (hd.decls hs _ hx) rest rs hrest hrs

end Declarations

end Outline

end Idl
