import Mathlib
import Idl.Proofs.Naming
import Idl.Proofs.Outline.References

/-!
# Names of members

The members of an object or an enum get names that the type made of it can hold. In Go the name decides
who sees the member. In C# and Dart the type has methods and a name of its own that its members have to
be set apart from.

* `Go.isExported`, `Go.encodedKeys`: the members that other packages see, and their keys.
* **`Go.members_exported`**: all members but those with hidden names.
* `avoid_not_mem`, `avoid_cons_eq_iff`: names that are set apart from taken ones.
* `Surroundings`: what the types of a target have beside their members, and the members that are called
  like their type all the same.
* **`members_apart`**: the surroundings of members in C# and in Dart.
-/

namespace Idl

open Outline Grammar

theorem Target.eq_of_render {t : Target} {s : Schema} {source : String}
    (h : t.render s = .ok source) : source = sourceText (t.lines s.unplaced) := by
  rw [t.lines_unplaced]
  exact (Target.render_eq_ok_iff.1 h).2.symm

/-! ## Members that other packages see -/

theorem Grammar.EntryOf.name (ws : List String) (e : Entry) (h : EntryOf ws e) :
    ∀ o, e = .object o → ∀ f ∈ o.fields, Name f.name := by
  rintro o rfl
  cases h with
  | object decl =>
    obtain ⟨-, fields, -⟩ := decl
    refine fields.forall (P := fun f => Name f.name) ?_
    intro ws f hf
    obtain ⟨-, name, -⟩ := hf
    exact name

theorem Schema.name_of_compile {text : String} {s : Schema} (h : Schema.compile text = .ok s)
    {o : ObjectDecl} (ho : o ∈ s.objects) {f : Field} (hf : f ∈ o.fields) : Name f.name := by
  obtain ⟨ws, -, entries⟩ := Schema.derives_of_compile h
  exact entries.forall EntryOf.name _ (Schema.mem_objects.1 ho) o rfl f hf

namespace Go

/-- Other packages see a name that begins with a capital. -/
def isExported (name : String) : Bool := name.toList.head?.any Char.isUpper

/-- The keys that an object is encoded and decoded with. A library does so from another package, which
sees exported members only. -/
def encodedKeys (r : RecordOutline) : List String :=
  (r.members.filter fun m => isExported m.name).filterMap MemberOutline.key

/-- An identifier becomes the name of an exported member unless it is hidden. -/
theorem isExported_member {o : ObjectDecl} {f : Field} (hf : Name f.name) :
    isExported (dialect.member o f) = !Naming.isHidden f.name := by
  have hword : (Naming.pascal f.name).toList ≠ [] := (isWord_pascal (isWord_of_name hf)).1
  have hmember : isExported (dialect.member o f) = isExported (Naming.pascal f.name) := by
    show isExported (avoid ["ToJSON"] (Naming.pascal f.name)) = _
    unfold avoid
    split
    · rw [isExported, isExported, String.toList_append, List.head?_append_of_ne_nil _ hword]
    · rfl
  rw [hmember]
  unfold Name Cursor.isName at hf
  split at hf
  · cases hf
  · rename_i c cs hname
    exact Naming.isUpper_head?_pascal hname (Bool.and_eq_true_iff.1 hf).1

/-- **Members are exported.** In Go source text for a compiled schema a member begins with a capital, and
is encoded and decoded, exactly if the name of its field does not begin with an underscore that no small
letter follows. -/
theorem members_exported (text : String) (s : Schema) (hs : Schema.compile text = .ok s)
    (source : String) (hsource : Target.go.render s = .ok source) :
    ∃ record, Target.go.records source = some (s.objects.map record) ∧
      ∀ o ∈ s.objects,
        List.Forall₂ (fun f m => isExported m.name = !Naming.isHidden f.name) o.fields
          (record o).members ∧
        encodedKeys (record o) = (o.fields.map Field.name).filter fun n => !Naming.isHidden n := by
  obtain ⟨-, rfl⟩ := Target.render_eq_ok_iff.1 hsource
  obtain ⟨record, hrecords, hfollows⟩ := Target.go.followsFields_lines (Schema.spelled_of_compile hs)
  refine ⟨record, hrecords, fun o ho => ?_⟩
  have hexported : ∀ f ∈ o.fields,
      isExported (Target.go.dialect.member o f) = !Naming.isHidden f.name :=
    fun f hf => isExported_member (Schema.name_of_compile hs ho hf)
  have hmembers : (record o).members = o.fields.map fun f =>
      ⟨Target.go.dialect.member o f, Target.go.dialect.type s f.type, some f.name⟩ :=
    (hfollows o).members
  have hkeys : encodedKeys (record o) =
      (o.fields.filter fun f => isExported (Target.go.dialect.member o f)).map Field.name := by
    rw [encodedKeys, hmembers, List.filter_map, List.filterMap_map, ← List.filterMap_eq_map]
    simp only [Function.comp_def]
  constructor
  · rw [hmembers, List.forall₂_map_right_iff, List.forall₂_same]
    exact hexported
  · rw [hkeys, List.filter_congr hexported, List.filter_map]
    rfl

/-- Of two members with an underscore only the one with a small letter after it is encoded. -/
theorem members_exported_marks :
    ∃ s source r, Schema.compile "object O \x7b int8 _A int8 _b \x7d" = .ok s ∧
      Target.go.render s = .ok source ∧ Target.go.records source = some [r] ∧
      r.members.map MemberOutline.name = ["_A", "B"] ∧ encodedKeys r = ["_b"] := by
  have hkept : FieldOf ["int8", "_A"] ⟨.primitive .int8, "_A", .start⟩ :=
    .mk (.primitive .int8) (by decide) _
  have hjoined : FieldOf ["int8", "_b"] ⟨.primitive .int8, "_b", .start⟩ :=
    .mk (.primitive .int8) (by decide) _
  have hderives : Derives _ _ := .mk .none (.cons (.object (.mk (n := "O") (by decide)
    (.mk (.cons hkept (.cons hjoined .nil))) .start)) .nil)
  obtain ⟨s, source, hs, hsource, hplaced⟩ := Target.render_of_derives .go
    "object O \x7b int8 _A int8 _b \x7d" (by cbv) hderives (by decide +kernel) (by decide +kernel)
  obtain ⟨record, hrecords, hexported⟩ := members_exported _ s hs source hsource
  have hread := (congrArg Target.go.records (hplaced ▸ Target.eq_of_render hsource)).trans
    (Go.records_lines hderives.spelled)
  -- the compiled schema has the same object, placed
  obtain ⟨p, q, z, hobjects⟩ : ∃ p q z, s.objects =
      [⟨"O", [⟨.primitive .int8, "_A", p⟩, ⟨.primitive .int8, "_b", q⟩], z⟩] := by
    simpa [List.map_eq_cons_iff] using Schema.objects_of_unplaced hplaced
  rw [hobjects, List.map_singleton] at hrecords
  refine ⟨s, source, record _, hs, hsource, hrecords, ?_, ?_⟩
  · have hrecord := List.singleton_inj.1 (Option.some.inj (hrecords.symm.trans hread))
    rw [hrecord]
    decide +kernel
  · rw [(hexported _ (hobjects ▸ List.mem_singleton_self _)).2]
    show (["_A", "_b"].filter fun n => !Naming.isHidden n) = ["_b"]
    decide +kernel

end Go

/-! ## Names that are set apart -/

section Avoid

variable {taken items : List String} {n x owner : String}

theorem ne_append_mark (hx : x.toList.getLast? ≠ some '_') (n : String) : x ≠ n ++ "_" := by
  rintro rfl
  exact hx (by simp)

/-- No name that is set apart is a taken one that does not end with the mark. -/
theorem avoid_not_mem (hitems : items ⊆ taken) (hlast : ∀ k ∈ items, k.toList.getLast? ≠ some '_') :
    avoid taken n ∉ items :=
  fun hmem => CSharp.avoid_ne (hitems hmem) (ne_append_mark (hlast _ hmem)) rfl

/-- A name that is set apart from its owner is that of the owner only if it is set apart from something
else and the owner is called like what it becomes. -/
theorem avoid_cons_eq_iff : avoid (owner :: items) n = owner ↔ n ∈ items ∧ owner = n ++ "_" := by
  have hne : n ++ "_" ≠ n := fun h => by simpa using congrArg String.length h
  rw [avoid_eq_iff, List.mem_cons]
  constructor
  · rintro (⟨rfl | hn, heq⟩ | ⟨hn, rfl⟩)
    · exact absurd heq.symm hne
    · exact ⟨hn, heq⟩
    · exact absurd (.inl rfl) hn
  · rintro ⟨hn, heq⟩
    exact .inl ⟨.inr hn, heq⟩

end Avoid

/-! ## Types around members -/

/-- What the types of a target have beside their members, and which members are called like their type
all the same. -/
structure Surroundings where
  /-- The identifier that is written in this way. -/
  identifier : String → String
  /-- What every type made of an object has. -/
  classItems : List String
  /-- What the type made of an enum has. -/
  enumItems : EnumDecl → List String
  /-- The member for a field is called like its type. -/
  MeetsClass : ObjectDecl → Field → Prop
  /-- The member of an enum is called like its type. -/
  MeetsEnum : EnumDecl → Member → Prop

/-- The members in a source text have these surroundings. -/
def Surroundings.Surround (p : Surroundings) (t : Target) (s : Schema) (source : String) : Prop :=
  ∃ record choice, t.records source = some (s.objects.map record) ∧
    t.choices source = some (s.enums.map choice) ∧
    (∀ o ∈ s.objects, List.Forall₂ (fun f m => p.identifier m.name ∉ p.classItems ∧
      (p.identifier m.name = (record o).name ↔ p.MeetsClass o f)) o.fields (record o).members) ∧
    ∀ e ∈ s.enums, List.Forall₂ (fun m n => p.identifier n ∉ p.enumItems e ∧
      (p.identifier n = (choice e).name ↔ p.MeetsEnum e m)) e.members (choice e).members

/-- The surroundings of the names that a target makes. -/
structure Surroundings.Suit (p : Surroundings) (d : Dialect) : Prop where
  member : ∀ o f, IsWord f.name.toList → p.identifier (d.member o f) ∉ p.classItems ∧
    (p.identifier (d.member o f) = d.title o.name ↔ p.MeetsClass o f)
  variant : ∀ e m, IsWord m.name.toList → p.identifier (d.variant e m) ∉ p.enumItems e ∧
    (p.identifier (d.variant e m) = d.title e.name ↔ p.MeetsEnum e m)

theorem Surroundings.Suit.surround {p : Surroundings} {t : Target} (h : p.Suit t.dialect)
    {text : String} {s : Schema} (hs : Schema.compile text = .ok s) :
    p.Surround t s (sourceText (t.lines s)) := by
  have hspelled := Schema.spelled_of_compile hs
  obtain ⟨record, hrecords, hfollows⟩ := t.followsFields_lines hspelled
  refine ⟨record, _, hrecords, t.choices_lines hspelled
    fun e he => EnumDecl.distinct_of_compile hs he, ?_, ?_⟩
  · intro o ho
    rw [(hfollows o).members, (hfollows o).name, List.forall₂_map_right_iff, List.forall₂_same]
    exact fun f hf => h.member o f ((hspelled.entry _ (Schema.mem_objects.1 ho)).2 f hf).1
  · intro e he
    rw [Choice.outline, Dialect.map_name_variants, List.forall₂_map_right_iff, List.forall₂_same]
    exact fun m hm => h.variant e m ((hspelled.entry _ (Schema.mem_enums.1 he)).2 m hm)

namespace CSharp

/-- What every class has beside its properties. -/
def classItems : List String := ["ToJson", "FromJson"]

/-- A mark at the beginning of a name is no part of it. A property or a constant is called like its class
if it was spelled like a method and the class is called like what becomes of the method's name. -/
def surroundings : Surroundings where
  identifier n := unmarked n.toList
  classItems := classItems
  enumItems := enumItems
  MeetsClass o f := Naming.pascal f.name ∈ classItems ∧ o.name = Naming.pascal f.name ++ "_"
  MeetsEnum e m := m.name ∈ enumItems e ∧ e.name = m.name ++ "_"

theorem suit_dialect : surroundings.Suit dialect where
  member o f hf := by
    have hproperty : unmarked (property o f).toList = avoid (o.name :: classItems) (Naming.pascal f.name) :=
      unmarked_of_isWord (isWord_avoid (isWord_pascal hf))
    have hlast : ∀ k ∈ classItems, k.toList.getLast? ≠ some '_' := by decide +kernel
    show unmarked (property o f).toList ∉ classItems ∧ (unmarked (property o f).toList = o.name ↔ _)
    rw [hproperty]
    exact ⟨avoid_not_mem (List.subset_cons_self _ _) hlast, avoid_cons_eq_iff⟩
  variant e m hm := by
    have hvariant : unmarked (dialect.variant e m).toList = avoid (e.name :: enumItems e) m.name :=
      unmarked_verbatim (isWord_avoid hm)
    have hlast : ∀ k ∈ enumItems e, k.toList.getLast? ≠ some '_' := by
      unfold enumItems
      split <;> decide +kernel
    show unmarked (dialect.variant e m).toList ∉ enumItems e ∧
      (unmarked (dialect.variant e m).toList = e.name ↔ _)
    rw [hvariant]
    exact ⟨avoid_not_mem (List.subset_cons_self _ _) hlast, avoid_cons_eq_iff⟩

end CSharp

namespace Dart

/-- A field is called like its class if it was set apart from something else and the class is called like
what it becomes. The members of an enum are not set apart from its name. -/
def surroundings : Surroundings where
  identifier := id
  classItems := classItems
  enumItems _ := enumItems
  MeetsClass o f :=
    Naming.camel f.name ∈ classItems ++ keywords ∧ o.name = Naming.camel f.name ++ "_"
  MeetsEnum e m := m.name ∈ enumItems ++ keywords ∧ e.name = m.name ++ "_" ∨
    m.name ∉ enumItems ++ keywords ∧ e.name = m.name

theorem suit_dialect : surroundings.Suit dialect where
  member o f _ := by
    have hlast : ∀ k ∈ classItems, k.toList.getLast? ≠ some '_' := by decide +kernel
    have hitems : classItems ⊆ o.name :: (classItems ++ keywords) :=
      fun k hk => List.mem_cons_of_mem _ (List.mem_append_left _ hk)
    exact ⟨avoid_not_mem hitems hlast, avoid_cons_eq_iff⟩
  variant e m _ := by
    have hlast : ∀ k ∈ enumItems, k.toList.getLast? ≠ some '_' := by decide +kernel
    exact ⟨avoid_not_mem (List.subset_append_left _ _) hlast, avoid_eq_iff⟩

end Dart

/-- **Members are set apart from their surroundings.** In C# and Dart source text for a compiled schema no
member is called like something else that its type has. A member is called like its type itself in the
cases of `CSharp.surroundings` and `Dart.surroundings` and in no others. -/
theorem members_apart (text : String) (s : Schema) (hs : Schema.compile text = .ok s) :
    (∀ source, Target.csharp.render s = .ok source →
      CSharp.surroundings.Surround .csharp s source) ∧
    (∀ source, Target.dart.render s = .ok source → Dart.surroundings.Surround .dart s source) := by
  constructor
  all_goals
    intro source hsource
    obtain ⟨-, rfl⟩ := Target.render_eq_ok_iff.1 hsource
  · exact CSharp.suit_dialect.surround (t := .csharp) hs
  · exact Dart.suit_dialect.surround (t := .dart) hs

/-- A property that is set apart from a method and meets its class, and the member of an enum that is
called like the enum. -/
theorem members_apart_same : ∃ s csharp dart r m c,
    Schema.compile "object ToJson_ \x7b int8 to_json \x7d enum E for int8 \x7b E = 1 \x7d" = .ok s ∧
    Target.csharp.render s = .ok csharp ∧ Target.csharp.records csharp = some [r] ∧
    r.members = [m] ∧ CSharp.unmarked m.name.toList = r.name ∧
    Target.dart.render s = .ok dart ∧ Target.dart.choices dart = some [c] ∧ c.members = [c.name] := by
  have hfield : FieldOf ["int8", "to_json"] ⟨.primitive .int8, "to_json", .start⟩ :=
    .mk (.primitive .int8) (by decide) _
  have hone : MemberOf ["E", "=", "1"] ⟨"E", .int (.ofInt 1), .start⟩ :=
    .mk (by decide) (.integer (by decide +kernel) (by decide) (by decide)) _
  have hderives : Derives _ _ := .mk .none
    (.cons (.object (.mk (n := "ToJson_") (by decide) (.mk (.cons hfield .nil)) .start))
      (.cons (.enum (.mk (n := "E") (by decide) .int8 (.mk (.cons hone .nil)) .start)) .nil))
  have hrender := fun t hcheck => Target.render_of_derives t
    "object ToJson_ \x7b int8 to_json \x7d enum E for int8 \x7b E = 1 \x7d" (by cbv) hderives
    (by decide +kernel) hcheck
  obtain ⟨s, csharp, hs, hcsharp, hplaced⟩ := hrender .csharp (by decide +kernel)
  obtain ⟨s', dart, hs', hdart, -⟩ := hrender .dart (by decide +kernel)
  obtain rfl := Except.ok.inj (hs.symm.trans hs')
  obtain ⟨hinCSharp, hinDart⟩ := members_apart _ s hs
  obtain ⟨record, -, hrecords, -, hclass, -⟩ := hinCSharp csharp hcsharp
  obtain ⟨-, choice, -, hchoices, -, henum⟩ := hinDart dart hdart
  -- the compiled schema has the same object and enum, placed
  obtain ⟨p, q, hobjects⟩ : ∃ p q, s.objects = [⟨"ToJson_", [⟨.primitive .int8, "to_json", p⟩], q⟩] := by
    simpa [List.map_eq_cons_iff] using Schema.objects_of_unplaced hplaced
  obtain ⟨p', q', henums⟩ : ∃ p q, s.enums = [⟨"E", .int8, [⟨"E", .int (.ofInt 1), p⟩], q⟩] := by
    simpa [List.map_eq_cons_iff] using Schema.enums_of_unplaced hplaced
  obtain ⟨m, ms, hmeets, hnil, hmembers⟩ := List.forall₂_cons_left_iff.1
    (hclass _ (hobjects ▸ List.mem_singleton_self _))
  obtain rfl := List.forall₂_nil_left_iff.1 hnil
  obtain ⟨n, ns, hmeets', hnil, hvariants⟩ := List.forall₂_cons_left_iff.1
    (henum _ (henums ▸ List.mem_singleton_self _))
  obtain rfl := List.forall₂_nil_left_iff.1 hnil
  rw [hobjects] at hrecords
  rw [henums] at hchoices
  have hitem : Naming.pascal "to_json" ∈ CSharp.classItems ∧
      "ToJson_" = Naming.pascal "to_json" ++ "_" := by decide +kernel
  have hfree : "E" ∉ Dart.enumItems ++ Dart.keywords := by decide +kernel
  refine ⟨s, csharp, dart, _, m, _, hs, hcsharp, hrecords, hmembers, hmeets.2.2 hitem, hdart,
    hchoices, ?_⟩
  rw [hvariants, ← hmeets'.2.2 (.inr ⟨hfree, rfl⟩)]
  rfl

end Idl
