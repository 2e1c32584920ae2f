import Mathlib
import Idl.Proofs.Outline.Fields
import Idl.Proofs.Outline.Lookups
import Idl.Proofs.Outline.Unique

/-!
# References to declarations

The type of a field may be the name of an object or of an enum, under any number of lists. The words
for it and the declaration of the name are made apart from each other, and one target replaces some
enums by the types of their values. Nothing looks for a declaration of the name.

* `lastWord`: the innermost type in the words for lists.
* `Refers`: source text refers to objects and enums by the names that it declares them under.
* `CSharp.UsesStatic`: the fields whose innermost type is the name of a static class.
* **`refers_declared`**: source text for a compiled schema refers to its declarations in this way.
-/

namespace Idl

open Outline Grammar Lexeme

/-- The type under all lists. -/
def FieldType.core : FieldType → FieldType
  | .list t => t.core
  | t => t

theorem FieldType.Spelled.core {t : FieldType} (h : t.Spelled) {n : String} (hn : t.core = .named n) :
    IsWord n.toList := by
  induction t with
  | list t ih => exact ih h hn
  | named m =>
    cases hn
    exact h
  | primitive p => cases hn
  | map k v => cases hn

/-! ## Last words -/

namespace Outline

/-- The last word of a text. -/
def lastWord (text : String) : String :=
  .ofList ((text.toList.reverse.dropWhile fun c => !isNamePart c).takeWhile isNamePart).reverse

/-- A text ends in a word and in characters that are not part of one. -/
def EndsIn (w text : String) : Prop :=
  ∃ a z, text.toList = a ++ w.toList ++ z ∧ (∀ c ∈ a.getLast?, isNamePart c = false) ∧
    ∀ c ∈ z, isNamePart c = false

theorem EndsIn.lastWord_eq {w text : String} (h : EndsIn w text) (hw : IsWord w.toList) :
    lastWord text = w := by
  obtain ⟨a, z, htext, ha, hz⟩ := h
  have hword : ∀ c ∈ w.toList.reverse, isNamePart c = true := fun c hc => hw.2 c (List.mem_reverse.1 hc)
  have hstart : (w.toList.reverse ++ a.reverse).dropWhile (fun c => !isNamePart c) =
      w.toList.reverse ++ a.reverse := by
    obtain ⟨c, cs, hrev⟩ := List.exists_cons_of_ne_nil (List.reverse_ne_nil_iff.2 hw.1)
    rw [hrev, List.cons_append, List.dropWhile_cons_of_neg]
    simp [hword c (hrev ▸ List.mem_cons_self)]
  have hstop : a.reverse.takeWhile isNamePart = [] := by
    rw [← List.head?_reverse] at ha
    cases hrev : a.reverse with
    | nil => rfl
    | cons d ds =>
      rw [List.takeWhile_cons_of_neg]
      simp [ha d (by rw [hrev, List.head?_cons, Option.mem_some_iff])]
  rw [lastWord, htext, List.reverse_append, List.reverse_append,
    List.dropWhile_append_of_pos (by simpa using hz), hstart, List.takeWhile_append_of_pos hword, hstop,
    List.append_nil, List.reverse_reverse, String.ofList_toList]

theorem endsIn_self (w : String) : EndsIn w w := ⟨[], [], by simp, by simp, by simp⟩

theorem EndsIn.wrap {w text : String} (h : EndsIn w text) {p q : String}
    (hp : (p.toList.getLast?.any fun c => !isNamePart c) = true)
    (hq : (q.toList.all fun c => !isNamePart c) = true) : EndsIn w (p ++ text ++ q) := by
  obtain ⟨a, z, htext, ha, hz⟩ := h
  obtain ⟨c, hlast, hc⟩ := (Option.any_eq_true _ _).1 hp
  refine ⟨p.toList ++ a, z ++ q.toList, by simp [htext], ?_, ?_⟩
  · rw [List.getLast?_append, hlast]
    cases hlast : a.getLast? with
    | none => simpa using hc
    | some d => simpa using ha d hlast
  · intro d hd
    rcases List.mem_append.1 hd with hd | hd
    · exact hz d hd
    · simpa using List.all_eq_true.1 hq d hd

end Outline

/-! ## Types of fields -/

/-- The words for a type end in the name under all lists. -/
theorem Target.endsIn_type (t : Target) (s : Schema) {type : FieldType} {n : String}
    (h : type.core = .named n) : EndsIn (t.dialect.named s n) (t.dialect.type s type) := by
  induction type with
  | named m =>
    cases h
    exact endsIn_self _
  | primitive p => cases h
  | map k v => cases h
  | list e ih =>
    have hrest := ih h
    cases t with
    | rust => exact hrest.wrap (p := "Vec<") (q := ">") (by decide) (by decide)
    | csharp => exact hrest.wrap (p := "List<") (q := ">") (by decide) (by decide)
    | dart => exact hrest.wrap (p := "List<") (q := ">") (by decide) (by decide)
    | typescript => exact hrest.wrap (p := "Array<") (q := ">") (by decide) (by decide)
    | go =>
      have hbytes : e ≠ .primitive .uint8 := by
        rintro rfl
        cases h
      have htype : Target.go.dialect.type s (.list e) = "[]" ++ Target.go.dialect.type s e ++ "" := by
        rw [String.append_empty]
        exact if_neg hbytes
      rw [htype]
      exact hrest.wrap (by decide) (by decide)

theorem Target.isWord_named (t : Target) (s : Schema) {n : String} (hn : IsWord n.toList) :
    IsWord (t.dialect.named s n).toList := by
  cases t with
  | go => exact isWord_pascal hn
  | csharp =>
    show IsWord (CSharp.named s n).toList
    rw [CSharp.named]
    split
    · split
      · exact hn
      · exact CSharp.isWord_primitive _
    · exact hn
  | _ => exact hn

theorem Target.lastWord_type (t : Target) (s : Schema) {type : FieldType} (htype : type.Spelled)
    {n : String} (hn : type.core = .named n) :
    lastWord (t.dialect.type s type) = t.dialect.named s n :=
  (t.endsIn_type s hn).lastWord_eq (t.isWord_named s (htype.core hn))

/-! ## Declarations -/

/-- In a valid schema an entry is found by its name. -/
theorem Schema.Valid.eq_of_name? {s : Schema} (h : s.Valid) {x y : Entry} (hx : x ∈ s.entries)
    (hy : y ∈ s.entries) {n : String} (hxname : x.name? = some n) (hyname : y.name? = some n) :
    x = y := by
  by_contra hne
  have hpair := (List.nodup_flatMap.1 (CSharp.nodup_entryNames h)).2
  have hsymm : Std.Symm (Function.onFun List.Disjoint fun e : Entry => e.name?.toList) :=
    ⟨fun _ _ h => h.symm⟩
  have hdisjoint := hpair.forall hx hy hne
  exact hdisjoint (by simp [hxname]) (by simp [hyname] : n ∈ y.name?.toList)

theorem Schema.name_mem_titles {s : Schema} {e : EnumDecl} (he : e ∈ s.enums) : e.name ∈ s.titles :=
  List.mem_flatMap.2 ⟨_, Schema.mem_enums.1 he, List.mem_singleton_self _⟩

theorem Target.named_object (t : Target) {s : Schema} (hvalid : s.Valid) {o : ObjectDecl}
    (ho : o ∈ s.objects) : t.dialect.named s o.name = t.dialect.title o.name := by
  cases t with
  | csharp =>
    have hnone : s.enumType? o.name = none := by
      rw [Option.eq_none_iff_forall_ne_some]
      intro p hp
      obtain ⟨e, he, hname, -⟩ := hvalid.enumType?_eq_some_iff.1 hp
      have heq := hvalid.eq_of_name? (Schema.mem_enums.1 he) (Schema.mem_objects.1 ho)
        (congrArg some hname) rfl
      cases heq
    show CSharp.named s o.name = o.name
    rw [CSharp.named, hnone]
  | _ => rfl

theorem Target.named_enum (t : Target) {s : Schema} (hvalid : s.Valid) {e : EnumDecl}
    (he : e ∈ s.enums) :
    t.dialect.named s e.name =
      if t = .csharp ∧ e.type.isInteger = false then CSharp.primitive e.type
      else t.dialect.title e.name := by
  cases t with
  | csharp =>
    have hsome : s.enumType? e.name = some e.type := hvalid.enumType?_eq_some_iff.2 ⟨e, he, rfl, rfl⟩
    show CSharp.named s e.name = _
    rw [CSharp.named, hsome]
    cases hint : e.type.isInteger <;> simp [hint, dialect, CSharp.dialect]
  | _ => rfl

/-! ## Static classes -/

namespace CSharp

/-- The name of a static class. -/
def Introduced.static? : Introduced → Option String
  | static name => some name
  | part name => some name
  | _ => none

/-- The names of the static classes of a source text. -/
def staticClasses (source : String) : List String :=
  (introduced source).filterMap Introduced.static?

/-- The class with the look-ups of an enum over integers. -/
def HoldsLookups (s : Schema) (n : String) : Prop :=
  ∃ e ∈ s.enums, e.type.isInteger = true ∧ n = e.name ++ "Lookup"

/-- The class with the values of another enum. -/
def HoldsValues (s : Schema) (n : String) : Prop :=
  ∃ e ∈ s.enums, e.type.isInteger = false ∧ n = e.name

/-- A class with constants. -/
def HoldsConstants (s : Schema) (n : String) : Prop :=
  ∃ c, .const c ∈ s.entries ∧ n = ownerOf c

/-- The static class of an entry. -/
def staticOf : Entry → List String
  | .const c => [ownerOf c]
  | .enum e => [if e.type.isInteger then e.name ++ "Lookup" else e.name]
  | .object _ => []

theorem filterMap_static? (s : Schema) (e : Entry) :
    (introducedBy (dialect.declare s e)).filterMap Introduced.static? = staticOf e := by
  cases e with
  | const c =>
    cases hname : c.name <;>
      simp [Dialect.declare, Dialect.constants, introducedBy, hname, staticOf, ownerOf,
        Introduced.static?]
  | enum e =>
    by_cases hint : e.type.isInteger = true <;>
      simp [Dialect.declare, Dialect.choice, introducedBy, hint, staticOf, Introduced.static?,
        List.filterMap_cons, dialect]
  | object o =>
    simp [Dialect.declare, Dialect.record, introducedBy, staticOf, Introduced.static?,
      List.filterMap_cons]

theorem mem_staticOf_iff {s : Schema} {n : String} : n ∈ s.entries.flatMap staticOf ↔
    HoldsLookups s n ∨ HoldsValues s n ∨ HoldsConstants s n := by
  rw [List.mem_flatMap]
  constructor
  · rintro ⟨x, hx, hn⟩
    cases x with
    | const c => exact .inr (.inr ⟨c, hx, List.mem_singleton.1 hn⟩)
    | enum e =>
      have he := Schema.mem_enums.2 hx
      rw [staticOf] at hn
      split at hn
      · rename_i hint
        exact .inl ⟨e, he, hint, List.mem_singleton.1 hn⟩
      · rename_i hint
        exact .inr (.inl ⟨e, he, eq_false_of_ne_true hint, List.mem_singleton.1 hn⟩)
    | object o => cases hn
  · rintro (⟨e, he, hint, rfl⟩ | ⟨e, he, hint, rfl⟩ | ⟨c, hc, rfl⟩)
    · exact ⟨_, Schema.mem_enums.1 he, by simp [staticOf, hint]⟩
    · exact ⟨_, Schema.mem_enums.1 he, by simp [staticOf, hint]⟩
    · exact ⟨_, hc, by simp [staticOf]⟩

theorem mem_staticClasses_iff {s : Schema} (hs : s.Spelled) {n : String} :
    n ∈ staticClasses (sourceText (lines s)) ↔
      HoldsLookups s n ∨ HoldsValues s n ∨ HoldsConstants s n := by
  rw [staticClasses, introduced_lines hs, Dialect.decls, List.flatMap_map, List.filterMap_flatMap]
  simp only [filterMap_static?]
  exact mem_staticOf_iff

/-- No constants stand in a class that is called like an enum or an object. -/
theorem not_holdsConstants {s : Schema} (hvalid : s.Valid) (hcheck : check s = .ok ()) {x : Entry}
    (hx : x ∈ s.entries) {n : String} (hname : x.name? = some n) (hconst : ∀ c, x ≠ .const c) :
    ¬ HoldsConstants s n := by
  rintro ⟨c, hc, rfl⟩
  cases hcname : c.name with
  | none =>
    refine (check_eq_ok_iff.1 hcheck).1 ⟨List.any_eq_true.2 ⟨x, hx, ?_⟩, List.any_eq_true.2 ⟨_, hc, ?_⟩⟩
    · rw [hname, ownerOf, hcname]
      rfl
    · rw [isUnnamed, hcname]
      rfl
  | some m =>
    rw [ownerOf, hcname] at hname
    exact hconst c (hvalid.eq_of_name? hx hc hname hcname)

/-- The values of an enum stand in a class that is called like the enum only. -/
theorem not_holdsValues {s : Schema} (hvalid : s.Valid) {x : Entry} (hx : x ∈ s.entries) {n : String}
    (hname : x.name? = some n) (henum : ∀ e : EnumDecl, x = .enum e → e.type.isInteger = true) :
    ¬ HoldsValues s n := by
  rintro ⟨e, he, hint, rfl⟩
  have heq := hvalid.eq_of_name? hx (Schema.mem_enums.1 he) hname rfl
  rw [henum e heq] at hint
  cases hint

theorem not_holdsLookups_primitive (s : Schema) (p : Primitive) : ¬ HoldsLookups s (primitive p) := by
  rintro ⟨e, -, -, heq⟩
  have hlast := congrArg (List.getLast? ∘ String.toList) heq
  cases p <;> simp [primitive] at hlast

/-- Where the words for a type in source text end in the name of a static class. An enum over integers
or an object is named like a class of look-ups. The type of values is named like a class of values or
of constants. Any other name is that of a class of look-ups or of constants. -/
structure UsesStatic (s : Schema) (source : String) (type : FieldType) (words : String) : Prop where
  object : ∀ o ∈ s.objects, type.core = .named o.name →
    (lastWord words ∈ staticClasses source ↔ HoldsLookups s o.name)
  integer : ∀ e ∈ s.enums, e.type.isInteger = true → type.core = .named e.name →
    (lastWord words ∈ staticClasses source ↔ HoldsLookups s e.name)
  value : ∀ e ∈ s.enums, e.type.isInteger = false → type.core = .named e.name →
    (lastWord words ∈ staticClasses source ↔
      HoldsValues s (primitive e.type) ∨ HoldsConstants s (primitive e.type))
  other : ∀ n ∉ s.titles, type.core = .named n →
    (lastWord words ∈ staticClasses source ↔ HoldsLookups s n ∨ HoldsConstants s n)

end CSharp

/-! ## References -/

/-- The words for a type end in the name that the source text declares an object or an enum under. In
one target they end in the type of the values of an enum that has none of its own. -/
structure Refers (t : Target) (s : Schema) (record : ObjectDecl → RecordOutline)
    (choice : EnumDecl → ChoiceOutline) (type : FieldType) (words : String) : Prop where
  object : ∀ o ∈ s.objects, type.core = .named o.name → lastWord words = (record o).name
  enum : ∀ e ∈ s.enums, type.core = .named e.name →
    lastWord words = if t = .csharp ∧ e.type.isInteger = false then CSharp.primitive e.type
      else (choice e).name

/-- All words for the types of the fields of an object are as said: those of its members and those of
the parameters that have any. -/
structure TypesAre (P : FieldType → String → Prop) (o : ObjectDecl) (r : RecordOutline) : Prop where
  members : List.Forall₂ (fun f m => P f.type m.type) o.fields r.members
  params : List.Forall₂ (fun f p => ∀ words ∈ p.2, P f.type words) o.fields r.params

theorem FollowsFields.typesAre {t : Target} {s : Schema} {o : ObjectDecl} {r : RecordOutline}
    (h : FollowsFields t s o r) {P : FieldType → String → Prop}
    (hP : ∀ f ∈ o.fields, P f.type (t.dialect.type s f.type)) : TypesAre P o r := by
  constructor
  · rw [h.members, List.forall₂_map_right_iff, List.forall₂_same]
    exact hP
  · rw [h.params, List.forall₂_map_right_iff, List.forall₂_same]
    intro f hf words hwords
    dsimp only at hwords
    split at hwords
    · cases hwords
    · cases hwords
      exact hP f hf

theorem Schema.Spelled.type {s : Schema} (h : s.Spelled) {o : ObjectDecl} (ho : o ∈ s.objects)
    {f : Field} (hf : f ∈ o.fields) : f.type.Spelled :=
  ((h.entry _ (Schema.mem_objects.1 ho)).2 f hf).2

theorem CSharp.usesStatic_type {s : Schema} (hs : s.Spelled) (hvalid : s.Valid)
    (hcheck : check s = .ok ()) {type : FieldType} (htype : type.Spelled) :
    UsesStatic s (sourceText (lines s)) type (dialect.type s type) := by
  have hmem : ∀ {n w}, type.core = .named n → dialect.named s n = w →
      (lastWord (dialect.type s type) ∈ staticClasses (sourceText (lines s)) ↔
        HoldsLookups s w ∨ HoldsValues s w ∨ HoldsConstants s w) := by
    intro n w hn hw
    have hlast : lastWord (dialect.type s type) = dialect.named s n :=
      Target.csharp.lastWord_type s htype hn
    rw [hlast, hw, mem_staticClasses_iff hs]
  constructor
  · intro o ho hn
    have hentry := Schema.mem_objects.1 ho
    exact (hmem hn (Target.csharp.named_object hvalid ho)).trans (or_iff_left (not_or.2
      ⟨not_holdsValues hvalid hentry rfl nofun, not_holdsConstants hvalid hcheck hentry rfl nofun⟩))
  · intro e he hint hn
    have hentry := Schema.mem_enums.1 he
    have hnamed : dialect.named s e.name = e.name :=
      (Target.csharp.named_enum hvalid he).trans (if_neg fun h => by simp [hint] at h)
    refine (hmem hn hnamed).trans (or_iff_left (not_or.2
      ⟨not_holdsValues hvalid hentry rfl ?_, not_holdsConstants hvalid hcheck hentry rfl nofun⟩))
    rintro _ ⟨⟩
    exact hint
  · intro e he hint hn
    have hnamed : dialect.named s e.name = primitive e.type :=
      (Target.csharp.named_enum hvalid he).trans (if_pos ⟨rfl, hint⟩)
    exact (hmem hn hnamed).trans (or_iff_right (not_holdsLookups_primitive s e.type))
  · intro n hn hcore
    have hnone : s.enumType? n = none := by
      rw [Option.eq_none_iff_forall_ne_some]
      intro p hp
      obtain ⟨e, he, rfl, -⟩ := hvalid.enumType?_eq_some_iff.1 hp
      exact hn (Schema.name_mem_titles he)
    have hnamed : dialect.named s n = n := by
      show named s n = n
      rw [named, hnone]
    have hvalues : ¬ HoldsValues s n := by
      rintro ⟨e, he, -, rfl⟩
      exact hn (Schema.name_mem_titles he)
    rw [hmem hcore hnamed, or_iff_right_of_imp fun h => absurd h hvalues]

/-- **References agree with declarations.** In source text for a compiled schema the words for the type
of a field end in the name that its object or enum is declared under, whatever lists stand around it,
unless the enum is replaced by the type of its values. In C# they may still end in the name of a static
class, which is no type of a field, in the cases of `CSharp.UsesStatic` and in no others. -/
theorem refers_declared (text : String) (s : Schema) (hs : Schema.compile text = .ok s) (t : Target)
    (source : String) (hsource : t.render s = .ok source) :
    ∃ record choice, t.records source = some (s.objects.map record) ∧
      t.choices source = some (s.enums.map choice) ∧
      (∀ o ∈ s.objects, TypesAre (Refers t s record choice) o (record o)) ∧
      (t = .csharp → ∀ o ∈ s.objects, TypesAre (CSharp.UsesStatic s source) o (record o)) := by
  obtain ⟨hcheck, rfl⟩ := Target.render_eq_ok_iff.1 hsource
  have hspelled := Schema.spelled_of_compile hs
  have hvalid := Schema.validate_eq_ok_iff.1 (Schema.validate_of_compile hs)
  obtain ⟨record, hrecords, hfollows⟩ := t.followsFields_lines hspelled
  refine ⟨record, _, hrecords, t.choices_lines hspelled
    fun e he => EnumDecl.distinct_of_compile hs he, ?_, ?_⟩
  · refine fun o ho => (hfollows o).typesAre fun f hf => ?_
    have hlast : ∀ {n}, f.type.core = .named n →
        lastWord (t.dialect.type s f.type) = t.dialect.named s n :=
      fun hn => t.lastWord_type s (hspelled.type ho hf) hn
    constructor
    · intro d hd hn
      rw [hlast hn, t.named_object hvalid hd, (hfollows d).name]
    · intro e he hn
      rw [hlast hn, t.named_enum hvalid he]
      rfl
  · rintro rfl o ho
    exact (hfollows o).typesAre fun f hf =>
      CSharp.usesStatic_type hspelled hvalid hcheck (hspelled.type ho hf)

/-- A list of objects that are called like a class of look-ups, and an enum that is replaced. -/
theorem refers_declared_lookup : ∃ s source q r,
    Schema.compile ("enum E for int8 \x7b A = 1 \x7d enum Flag for bool \x7b on = true \x7d " ++
      "object ELookup \x7b \x7d object O \x7b list of ELookup x Flag y \x7d") = .ok s ∧
    Target.csharp.render s = .ok source ∧ Target.csharp.records source = some [q, r] ∧
    (r.members.map fun m => lastWord m.type) = [q.name, "bool"] ∧
    q.name ∈ CSharp.staticClasses source := by
  have hone : MemberOf ["A", "=", "1"] ⟨"A", .int (.ofInt 1), .start⟩ :=
    .mk (by decide) (.integer (by decide +kernel) (by decide) (by decide)) _
  have htrue : MemberOf ["on", "=", "true"] ⟨"on", .bool true, .start⟩ := .mk (by decide) .true _
  have hlist : FieldOf ["list", "of", "ELookup", "x"] ⟨.list (.named "ELookup"), "x", .start⟩ :=
    .mk (.list (.named (by decide) (by intro p; cases p <;> decide) (by decide) (by decide)))
      (by decide) _
  have hflag : FieldOf ["Flag", "y"] ⟨.named "Flag", "y", .start⟩ :=
    .mk (.named (by decide) (by intro p; cases p <;> decide) (by decide) (by decide)) (by decide) _
  have hderives : Derives _ _ := .mk .none
    (.cons (.enum (.mk (n := "E") (by decide) .int8 (.mk (.cons hone .nil)) .start))
      (.cons (.enum (.mk (n := "Flag") (by decide) .bool (.mk (.cons htrue .nil)) .start))
        (.cons (.object (.mk (n := "ELookup") (by decide) (.mk .nil) .start))
          (.cons (.object (.mk (n := "O") (by decide) (.mk (.cons hlist (.cons hflag .nil))) .start))
            .nil))))
  obtain ⟨s, source, hs, hsource, hplaced⟩ := Target.render_of_derives .csharp
    ("enum E for int8 \x7b A = 1 \x7d enum Flag for bool \x7b on = true \x7d " ++
      "object ELookup \x7b \x7d object O \x7b list of ELookup x Flag y \x7d")
    (by cbv) hderives (by decide +kernel) (by decide +kernel)
  obtain ⟨record, choice, hrecords, -, hrefers, hstatic⟩ :=
    refers_declared _ s hs .csharp source hsource
  -- the compiled schema has the same enums and objects, placed
  obtain ⟨a, p, b, q, henums⟩ : ∃ a p b q, s.enums = [⟨"E", .int8, [⟨"A", .int (.ofInt 1), a⟩], p⟩,
      ⟨"Flag", .bool, [⟨"on", .bool true, b⟩], q⟩] := by
    simpa [List.map_eq_cons_iff] using Schema.enums_of_unplaced hplaced
  obtain ⟨z, x, y, w, hobjects⟩ : ∃ z x y w, s.objects = [⟨"ELookup", [], z⟩,
      ⟨"O", [⟨.list (.named "ELookup"), "x", x⟩, ⟨.named "Flag", "y", y⟩], w⟩] := by
    simpa [List.map_eq_cons_iff] using Schema.objects_of_unplaced hplaced
  have hmem := hobjects ▸ List.mem_cons_of_mem _ (List.mem_singleton_self _)
  have husesStatic := (hstatic rfl _ hmem).members
  obtain ⟨m, ms, hx, hms, heq⟩ := List.forall₂_cons_left_iff.1 (hrefers _ hmem).members
  obtain ⟨m', ms, hy, hnil, rfl⟩ := List.forall₂_cons_left_iff.1 hms
  obtain rfl := List.forall₂_nil_left_iff.1 hnil
  rw [heq, List.forall₂_cons] at husesStatic
  have hfirst := hobjects ▸ List.mem_cons_self
  have hlookup := hx.object _ hfirst rfl
  have hflagMem := henums ▸ List.mem_cons_of_mem _ (List.mem_singleton_self _)
  have hvalue : lastWord m'.type = "bool" := (hy.enum _ hflagMem rfl).trans rfl
  refine ⟨s, source, _, _, hs, hsource, hobjects ▸ hrecords, ?_, ?_⟩
  · rw [heq, List.map_cons, List.map_cons, List.map_nil, hlookup, hvalue]
  · rw [← hlookup, husesStatic.1.object _ hfirst rfl]
    exact ⟨_, henums ▸ List.mem_cons_self, rfl, rfl⟩

end Idl
