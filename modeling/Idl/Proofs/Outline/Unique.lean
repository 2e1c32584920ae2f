import Mathlib
import Idl.Proofs.Outline.Classes
import Idl.Proofs.Target.Names

/-!
# Names that are introduced once

The names of a schema are different, but a target adds names, changes some of them and puts some into
one class. What it adds and changes is looked at within each declaration only, so that two declarations
may still introduce one name.

* `Rust.Clashes`, `CSharp.Clashes`, `Dart.Clashes`, `TypeScript.Clashes`: the schemas for which they do.
* **`introduced_once`**: for all other schemas every name is introduced once.
-/

namespace Idl

open Outline Grammar

/-! ## Names of a schema -/

/-- The names of constants outside their groups. -/
def Entry.bindings : Entry → List String
  | .const c => c.members.map c.binding
  | _ => []

/-- The names of enums and objects. -/
def Entry.titles : Entry → List String
  | .const _ => []
  | .enum e => [e.name]
  | .object o => [o.name]

namespace Schema

variable {s : Schema}

/-- The names of constants outside their groups. -/
def bindings (s : Schema) : List String := s.entries.flatMap Entry.bindings

/-- The names of enums and objects. -/
def titles (s : Schema) : List String := s.entries.flatMap Entry.titles

/-- The names of constants, enums and objects. -/
def declared (s : Schema) : List String := s.bindings ++ s.titles

theorem Valid.nodup_declared (h : s.Valid) : s.declared.Nodup := by
  have hperm : s.declared.Perm (s.entries.flatMap fun e => e.bindings ++ e.titles) :=
    List.flatMap_append_perm s.entries _ _
  refine hperm.nodup_iff.2 (h.names.sublist (List.Sublist.flatMap_right _ ?_))
  intro e _
  cases e with
  | const c =>
    rw [Entry.titles, List.append_nil]
    exact List.sublist_append_right _ _
  | enum e => exact .refl _
  | object o => exact .refl _

theorem bindings_unplaced (s : Schema) : s.unplaced.bindings = s.bindings := by
  rw [bindings, bindings, unplaced, List.flatMap_map]
  apply List.flatMap_congr
  intro e _
  cases e with
  | const c => exact List.map_map
  | enum e => rfl
  | object o => rfl

theorem titles_unplaced (s : Schema) : s.unplaced.titles = s.titles := by
  rw [titles, titles, unplaced, List.flatMap_map]
  apply List.flatMap_congr
  intro e _
  cases e <;> rfl

theorem entryNames_unplaced (s : Schema) :
    s.unplaced.entries.filterMap Entry.name? = s.entries.filterMap Entry.name? := by
  rw [unplaced, List.filterMap_map]
  congr 1
  funext e
  cases e <;> rfl

theorem flatMap_enums {α : Type} (s : Schema) (f : EnumDecl → List α) :
    s.enums.flatMap f = s.entries.flatMap fun
      | .enum e => f e
      | _ => [] := by
  rw [enums]
  induction s.entries with
  | nil => rfl
  | cons e es ih =>
    rw [List.flatMap_cons, ← ih]
    cases e <;> rfl

end Schema

/-- The names of declarations, if a target has other names for constants only. -/
theorem Dialect.names_perm {d : Dialect} (s : Schema) {f : String → String}
    (hbinding : ∀ c m, d.binding c m = f (c.binding m)) (htitle : ∀ n, d.title n = n) :
    ((d.decls s).flatMap Decl.names).Perm (s.bindings.map f ++ s.titles) := by
  have hdecls : (d.decls s).flatMap Decl.names =
      s.entries.flatMap fun e => e.bindings.map f ++ e.titles := by
    rw [decls, List.flatMap_map]
    apply List.flatMap_congr
    intro e _
    cases e with
    | const c => simp [declare, constants, Decl.names, Entry.bindings, Entry.titles, hbinding]
    | enum e => simp [declare, choice, Decl.names, Entry.bindings, Entry.titles, htitle]
    | object o => simp [declare, record, Decl.names, Entry.bindings, Entry.titles, htitle]
  rw [hdecls, Schema.bindings, List.map_flatMap]
  exact (List.flatMap_append_perm s.entries _ _).symm

/-! ## Names that are set apart -/

section Avoid

variable {taken bs ts : List String}

/-- Names that are set apart from taken ones stay different unless one of them is spelled like another
that is set apart. -/
theorem nodup_avoid_iff (htaken : ∀ k ∈ taken, k ++ "_" ∉ taken) (h : (bs ++ ts).Nodup) :
    (bs.map (avoid taken) ++ ts).Nodup ↔ ¬ ∃ b ∈ bs, b ∈ taken ∧ b ++ "_" ∈ bs ++ ts := by
  have hkept : ∀ {x}, x ∉ taken → avoid taken x = x := fun hx => if_neg hx
  have happend : ∀ {x}, x ∈ taken → avoid taken x = x ++ "_" := fun hx => if_pos hx
  rw [List.nodup_append'] at h
  obtain ⟨hbs, hts, hdisjoint⟩ := h
  constructor
  · rintro hnodup ⟨b, hb, hbtaken, hmem⟩
    obtain ⟨hmap, -, hapart⟩ := List.nodup_append'.1 hnodup
    rcases List.mem_append.1 hmem with hmem | hmem
    · have heq : b = b ++ "_" := List.inj_on_of_nodup_map hmap hb hmem
        ((happend hbtaken).trans (hkept (htaken b hbtaken)).symm)
      exact htaken b hbtaken (heq ▸ hbtaken)
    · exact hapart (List.mem_map.2 ⟨b, hb, happend hbtaken⟩) hmem
  · intro hclash
    rw [List.nodup_append']
    have hne : ∀ x ∈ bs, x ∈ taken → ∀ y ∈ bs ++ ts, x ++ "_" ≠ y :=
      fun x hx hxtaken y hy heq => hclash ⟨x, hx, hxtaken, heq ▸ hy⟩
    refine ⟨hbs.map_on ?_, hts, ?_⟩
    · intro x hx y hy heq
      by_cases hxtaken : x ∈ taken <;> by_cases hytaken : y ∈ taken
      · rw [happend hxtaken, happend hytaken] at heq
        exact String.append_left_inj _ |>.1 heq
      · rw [happend hxtaken, hkept hytaken] at heq
        exact absurd heq (hne x hx hxtaken y (List.mem_append_left ts hy))
      · rw [hkept hxtaken, happend hytaken] at heq
        exact absurd heq.symm (hne y hy hytaken x (List.mem_append_left ts hx))
      · rwa [hkept hxtaken, hkept hytaken] at heq
    · intro y hy hyts
      obtain ⟨x, hx, rfl⟩ := List.mem_map.1 hy
      by_cases hxtaken : x ∈ taken
      · exact hne x hx hxtaken _ (List.mem_append_right bs hyts) (happend hxtaken).symm
      · rw [hkept hxtaken] at hyts
        exact hdisjoint hx hyts

theorem mem_map_avoid_iff {n : String} (hn : ∀ k ∈ taken, n ≠ k ∧ n ≠ k ++ "_") :
    n ∈ bs.map (avoid taken) ↔ n ∈ bs := by
  constructor
  · intro h
    obtain ⟨b, hb, rfl⟩ := List.mem_map.1 h
    by_cases htaken : b ∈ taken
    · exact absurd (if_pos htaken) (hn b htaken).2
    · rwa [avoid, if_neg htaken]
  · exact fun h => List.mem_map.2 ⟨n, h, if_neg fun htaken => (hn n htaken).1 rfl⟩

end Avoid

/-! ## Rust -/

/-- A name of the schema is one of those that the file imports. -/
def Rust.Clashes (s : Schema) : Prop := ∃ n ∈ importedNames s, n ∈ s.declared

theorem Rust.nodup_introduced_iff {s : Schema} (hs : s.Spelled) (hvalid : s.Valid) :
    (introduced (sourceText (lines s))).Nodup ↔ ¬ Clashes s := by
  have hperm : ((dialect.decls s).flatMap Decl.names).Perm s.declared := by
    have h := Dialect.names_perm (d := dialect) s (f := id) (fun _ _ => rfl) (fun _ => rfl)
    rwa [List.map_id] at h
  have himported : (importedNames s).Nodup := by
    unfold importedNames
    split_ifs <;> decide
  rw [introduced_lines hs, (hperm.append_left (importedNames s)).nodup_iff, List.nodup_append']
  simp only [himported, hvalid.nodup_declared, true_and, Clashes, not_exists, not_and]
  rfl

/-! ## Dart -/

/-- A constant is spelled like a reserved word, and another name like what becomes of the word. -/
def Dart.Clashes (s : Schema) : Prop := ∃ b ∈ s.bindings, b ∈ keywords ∧ b ++ "_" ∈ s.declared

theorem Dart.nodup_introduced_iff {s : Schema} (hs : s.Spelled) (hvalid : s.Valid) :
    (introduced (sourceText (lines s))).Nodup ↔ ¬ Clashes s := by
  have hperm := Dialect.names_perm (d := dialect) s (f := avoid keywords) (fun _ _ => rfl) (fun _ => rfl)
  have hkeywords : ∀ k ∈ keywords, k ++ "_" ∉ keywords := by decide +kernel
  rw [introduced_lines hs, hperm.nodup_iff, nodup_avoid_iff hkeywords hvalid.nodup_declared]
  rfl

/-! ## TypeScript -/

namespace TypeScript

/-- A constant is spelled like a reserved word, and another name like what becomes of the word, or a
name of the schema is that of a function of an enum. -/
def Clashes (s : Schema) : Prop :=
  (∃ b ∈ s.bindings, b ∈ keywords ∧ b ++ "_" ∈ s.declared) ∨
    ∃ e ∈ s.enums, "indexOf" ++ e.name ∈ s.declared ∨ "valueAt" ++ e.name ∈ s.declared

/-- The functions of the enums of a schema. -/
def lookups (s : Schema) : List String :=
  s.enums.flatMap fun e => ["indexOf" ++ e.name, "valueAt" ++ e.name]

theorem flatMap_lookupNames (s : Schema) : (dialect.decls s).flatMap lookupNames = lookups s := by
  rw [lookups, Schema.flatMap_enums, Dialect.decls, List.flatMap_map]
  apply List.flatMap_congr
  intro e _
  cases e <;> rfl

/-- No reserved word, nor what becomes of it, is the name of a function. -/
theorem ne_keyword {p : String} (hp : p ∈ ["indexOf", "valueAt"]) (n : String) :
    ∀ k ∈ keywords, p ++ n ≠ k ∧ p ++ n ≠ k ++ "_" := by
  have hkeywords : ∀ p ∈ ["indexOf", "valueAt"], ∀ k ∈ keywords,
      p.toList.isPrefixOf (k ++ "_").toList = false := by decide +kernel
  have hprefix : ∀ x, p.toList.isPrefixOf (p ++ x).toList = true := by
    intro x
    rw [String.toList_append, List.isPrefixOf_iff_prefix]
    exact List.prefix_append _ _
  intro k hk
  have hno := hkeywords p hp k hk
  constructor
  · rintro rfl
    rw [String.append_assoc, hprefix] at hno
    cases hno
  · intro heq
    rw [← heq, hprefix] at hno
    cases hno

theorem nodup_lookups {s : Schema} (hvalid : s.Valid) : (lookups s).Nodup := by
  have hnames : (s.enums.map EnumDecl.name).Nodup := hvalid.names.sublist s.sublist_enumNames
  have hperm : (lookups s).Perm ((s.enums.map EnumDecl.name).map ("indexOf" ++ ·)
      ++ (s.enums.map EnumDecl.name).map ("valueAt" ++ ·)) := by
    rw [List.map_map, List.map_map, List.map_eq_flatMap, List.map_eq_flatMap]
    exact (List.flatMap_append_perm s.enums (fun e => ["indexOf" ++ e.name])
      fun e => ["valueAt" ++ e.name]).symm
  have hinj : ∀ p : String, Function.Injective (p ++ ·) := fun p x y h => String.append_right_inj p |>.1 h
  rw [hperm.nodup_iff, List.nodup_append']
  refine ⟨hnames.map (hinj _), hnames.map (hinj _), ?_⟩
  intro n hindex hvalue
  obtain ⟨x, -, rfl⟩ := List.mem_map.1 hindex
  obtain ⟨y, -, heq⟩ := List.mem_map.1 hvalue
  have hchars := congrArg String.toList heq
  simp at hchars

theorem nodup_introduced_iff {s : Schema} (hs : s.Spelled) (hvalid : s.Valid) :
    (introduced (sourceText (lines s))).Nodup ↔ ¬ Clashes s := by
  have hnames := Dialect.names_perm (d := dialect) s (f := avoid keywords) (fun _ _ => rfl) (fun _ => rfl)
  have hperm : ((dialect.decls s).flatMap fun d => d.names ++ lookupNames d).Perm
      (s.bindings.map (avoid keywords) ++ s.titles ++ lookups s) := by
    rw [← flatMap_lookupNames]
    exact (List.flatMap_append_perm _ _ _).symm.trans (hnames.append_right _)
  have hkeywords : ∀ k ∈ keywords, k ++ "_" ∉ keywords := by decide +kernel
  have hmem : ∀ p ∈ ["indexOf", "valueAt"], ∀ n,
      p ++ n ∈ s.bindings.map (avoid keywords) ++ s.titles ↔ p ++ n ∈ s.declared := by
    intro p hp n
    rw [List.mem_append, mem_map_avoid_iff (ne_keyword hp n), ← List.mem_append]
    rfl
  have hdisjoint : (s.bindings.map (avoid keywords) ++ s.titles).Disjoint (lookups s) ↔
      ¬ ∃ e ∈ s.enums, "indexOf" ++ e.name ∈ s.declared ∨ "valueAt" ++ e.name ∈ s.declared := by
    constructor
    · rintro h ⟨e, he, hindex | hvalue⟩
      · exact h ((hmem _ (by simp) _).2 hindex) (List.mem_flatMap.2 ⟨e, he, by simp⟩)
      · exact h ((hmem _ (by simp) _).2 hvalue) (List.mem_flatMap.2 ⟨e, he, by simp⟩)
    · intro h n hn hlookup
      obtain ⟨e, he, hlookup⟩ := List.mem_flatMap.1 hlookup
      rw [List.mem_cons, List.mem_singleton] at hlookup
      rcases hlookup with rfl | rfl
      · exact h ⟨e, he, .inl ((hmem _ (by simp) _).1 hn)⟩
      · exact h ⟨e, he, .inr ((hmem _ (by simp) _).1 hn)⟩
  rw [introduced_lines hs, hperm.nodup_iff, List.nodup_append',
    nodup_avoid_iff hkeywords hvalid.nodup_declared, hdisjoint, Clashes, not_or]
  exact and_congr_right fun _ => and_iff_right (nodup_lookups hvalid)

end TypeScript

/-! ## C# -/

namespace CSharp

/-- The names of constants without a group. -/
def looseNames : Entry → List String
  | .const c => if c.name.isNone then c.members.map Member.name else []
  | .enum _ | .object _ => []

/-- The class with the look-ups of an enum over integers is named like an entry, or the class of the
constants without a group has one that is set apart from the class and one that is spelled alike. -/
def Clashes (s : Schema) : Prop :=
  (∃ e ∈ s.enums, e.type.isInteger = true ∧ ∃ x ∈ s.entries, x.name? = some (e.name ++ "Lookup")) ∨
    constantsClass ∈ s.entries.flatMap looseNames ∧
      constantsClass ++ "_" ∈ s.entries.flatMap looseNames

/-- The class with the look-ups of an enum over integers. -/
def lookupClass : Entry → List String
  | .enum e => if e.type.isInteger then [e.name ++ "Lookup"] else []
  | .const _ | .object _ => []

/-- The types of an entry. -/
def typesOf (e : Entry) : List String := e.name?.toList ++ lookupClass e

/-- The members of the classes of an entry. -/
def membersOf : Entry → List (String × String)
  | .const c => c.members.map fun m => (ownerOf c, avoid [ownerOf c] m.name)
  | .enum e =>
    if e.type.isInteger then
      [(e.name ++ "Lookup", "IndexOf"), (e.name ++ "Lookup", "ValueAt")]
    else
      (e.members.map fun m => (e.name, avoid (e.name :: enumItems e) m.name))
        ++ [(e.name, "IndexOf"), (e.name, "ValueAt")]
  | .object o =>
    (o.fields.map fun f => (o.name, property o f)) ++ [(o.name, "ToJson"), (o.name, "FromJson")]

/-! ### What the declarations of a schema introduce -/

theorem filterMap_part? (s : Schema) (e : Entry) :
    (introducedBy (dialect.declare s e)).filterMap Introduced.part? =
      if isUnnamed e then [constantsClass] else [] := by
  cases e with
  | const c =>
    cases hname : c.name <;>
      simp [Dialect.declare, Dialect.constants, introducedBy, hname, isUnnamed, Introduced.part?,
        List.filterMap_cons]
  | enum e =>
    by_cases hint : e.type.isInteger = true <;>
      simp [Dialect.declare, Dialect.choice, introducedBy, hint, isUnnamed, Introduced.part?,
        List.filterMap_cons]
  | object o =>
    simp [Dialect.declare, Dialect.record, introducedBy, isUnnamed, Introduced.part?,
      List.filterMap_cons]

theorem filterMap_type? (s : Schema) (e : Entry) :
    (introducedBy (dialect.declare s e)).filterMap Introduced.type? = typesOf e := by
  cases e with
  | const c =>
    cases hname : c.name <;>
      simp [Dialect.declare, Dialect.constants, introducedBy, hname, typesOf, Entry.name?, lookupClass,
        Introduced.type?, List.filterMap_cons]
  | enum e =>
    by_cases hint : e.type.isInteger = true <;>
      simp [Dialect.declare, Dialect.choice, introducedBy, hint, typesOf, Entry.name?, lookupClass,
        Introduced.type?, List.filterMap_cons, dialect]
  | object o =>
    simp [Dialect.declare, Dialect.record, introducedBy, typesOf, Entry.name?, lookupClass,
      Introduced.type?, List.filterMap_cons, dialect]

theorem filterMap_members {α : Type} (as : List α) (owner : String) (f : α → String) :
    (as.map fun a => Introduced.member owner (f a)).filterMap Introduced.member? =
      as.map fun a => (owner, f a) := by
  rw [List.filterMap_map, ← List.filterMap_eq_map]
  rfl

theorem filterMap_member? (s : Schema) {e : Entry} (he : e.Spelled) :
    (introducedBy (dialect.declare s e)).filterMap Introduced.member? = membersOf e := by
  cases e with
  | const c =>
    have hrows : ((dialect.constants c).rows.map fun row =>
        Introduced.member (ownerOf c) (unmarked row.name.toList)) =
          c.members.map fun m => .member (ownerOf c) (avoid [ownerOf c] m.name) := by
      rw [Dialect.constants, List.map_map]
      exact List.map_congr_left fun m hm =>
        congrArg (Introduced.member _) (unmarked_verbatim (isWord_avoid (he.2 m hm)))
    rw [Dialect.declare, introducedBy, membersOf, ← filterMap_members, ← hrows]
    cases hname : (dialect.constants c).source.name <;> rfl
  | enum e =>
    have hvariants : ((dialect.choice e).variants.map fun v =>
        Introduced.member e.name (unmarked v.name.toList)) =
          e.members.map fun m => .member e.name (avoid (e.name :: enumItems e) m.name) := by
      rw [Dialect.choice, List.map_map]
      exact List.map_congr_left fun m hm =>
        congrArg (Introduced.member _) (unmarked_verbatim (isWord_avoid (he.2 m hm)))
    rw [membersOf, ← filterMap_members, ← hvariants]
    by_cases hint : e.type.isInteger = true
    · rw [Dialect.declare, introducedBy, if_pos hint]
      exact congrArg (List.filterMap Introduced.member?) (if_pos hint)
    · rw [Dialect.declare, introducedBy, if_neg hint]
      refine (congrArg (List.filterMap Introduced.member?) (if_neg hint)).trans ?_
      rw [List.filterMap_append]
      rfl
  | object o =>
    rw [membersOf, ← filterMap_members, Dialect.declare, introducedBy, List.filterMap_append,
      Dialect.record, List.map_map]
    rfl

theorem types_lines {s : Schema} (hs : s.Spelled) :
    types (sourceText (lines s)) =
      (s.entries.flatMap fun e => if isUnnamed e then [constantsClass] else []).dedup
        ++ s.entries.flatMap typesOf := by
  rw [types, introduced_lines hs, Dialect.decls, List.flatMap_map, List.filterMap_flatMap,
    List.filterMap_flatMap]
  simp only [filterMap_part?, filterMap_type?]

theorem members_lines {s : Schema} (hs : s.Spelled) :
    members (sourceText (lines s)) = s.entries.flatMap membersOf := by
  rw [members, introduced_lines hs, Dialect.decls, List.flatMap_map, List.filterMap_flatMap]
  exact List.flatMap_congr fun e he => filterMap_member? s (hs.entry e he)

/-! ### Types -/

theorem nodup_entryNames {s : Schema} (hvalid : s.Valid) :
    (s.entries.flatMap fun e => e.name?.toList).Nodup := by
  refine hvalid.names.sublist (List.Sublist.flatMap_right _ ?_)
  intro e _
  cases e with
  | const c => exact List.sublist_append_left _ _
  | enum e => exact .refl _
  | object o => exact .refl _

theorem nodup_lookupClasses {s : Schema} (hvalid : s.Valid) : (s.entries.flatMap lookupClass).Nodup := by
  have hnames : (s.enums.map EnumDecl.name).Nodup := hvalid.names.sublist s.sublist_enumNames
  have hinj : Function.Injective (· ++ "Lookup") := fun x y h => String.append_left_inj _ |>.1 h
  have hmap : (s.enums.flatMap fun e => [e.name ++ "Lookup"]).Nodup := by
    rw [← List.map_eq_flatMap]
    have h := hnames.map hinj
    rwa [List.map_map] at h
  rw [Schema.flatMap_enums] at hmap
  refine hmap.sublist (List.Sublist.flatMap_right _ ?_)
  intro e _
  cases e with
  | enum e =>
    rw [lookupClass]
    split
    · exact .refl _
    · exact List.nil_sublist _
  | _ => exact .refl _

theorem mem_lookupClasses {s : Schema} {n : String} :
    n ∈ s.entries.flatMap lookupClass ↔
      ∃ e ∈ s.enums, e.type.isInteger = true ∧ n = e.name ++ "Lookup" := by
  rw [List.mem_flatMap]
  constructor
  · rintro ⟨x, hx, hn⟩
    cases x with
    | enum e =>
      rw [lookupClass] at hn
      split at hn
      · rename_i hint
        exact ⟨e, Schema.mem_enums.2 hx, hint, List.mem_singleton.1 hn⟩
      · cases hn
    | _ => cases hn
  · rintro ⟨e, he, hint, rfl⟩
    exact ⟨_, Schema.mem_enums.1 he, by rw [lookupClass, if_pos hint]; exact List.mem_singleton_self _⟩

theorem typesOf_perm (s : Schema) : (s.entries.flatMap typesOf).Perm
    ((s.entries.flatMap fun e => e.name?.toList) ++ s.entries.flatMap lookupClass) :=
  (List.flatMap_append_perm s.entries _ _).symm

/-- The class of the constants without a group is no other type. -/
theorem constantsClass_not_mem {s : Schema} (hcheck : check s = .ok ())
    (hunnamed : ∃ e ∈ s.entries, isUnnamed e = true) : constantsClass ∉ s.entries.flatMap typesOf := by
  obtain ⟨hconstants, -⟩ := check_eq_ok_iff.1 hcheck
  rw [(typesOf_perm s).mem_iff, List.mem_append, not_or]
  constructor
  · intro hmem
    obtain ⟨e, he, hname⟩ := List.mem_flatMap.1 hmem
    refine hconstants ⟨List.any_eq_true.2 ⟨e, he, ?_⟩, List.any_eq_true.2 hunnamed⟩
    simpa using hname
  · rw [mem_lookupClasses]
    rintro ⟨e, -, -, heq⟩
    have hlast := congrArg (List.getLast? ∘ String.toList) heq
    simp [constantsClass] at hlast

/-- The types of the entries are different unless a class of look-ups is named like an entry. -/
theorem nodup_typesOf_iff {s : Schema} (hvalid : s.Valid) :
    (s.entries.flatMap typesOf).Nodup ↔
      ¬ ∃ e ∈ s.enums, e.type.isInteger = true ∧
        ∃ x ∈ s.entries, x.name? = some (e.name ++ "Lookup") := by
  have hmem : ∀ {n}, (n ∈ s.entries.flatMap fun e => e.name?.toList) ↔
      ∃ x ∈ s.entries, x.name? = some n := by simp
  rw [(typesOf_perm s).nodup_iff, List.nodup_append']
  constructor
  · rintro ⟨-, -, hdisjoint⟩ ⟨e, he, hint, hname⟩
    exact hdisjoint (hmem.2 hname) (mem_lookupClasses.2 ⟨e, he, hint, rfl⟩)
  · intro hclash
    refine ⟨nodup_entryNames hvalid, nodup_lookupClasses hvalid, ?_⟩
    intro n hn hlookup
    obtain ⟨e, he, hint, rfl⟩ := mem_lookupClasses.1 hlookup
    exact hclash ⟨e, he, hint, hmem.1 hn⟩

theorem nodup_types_iff {s : Schema} (hs : s.Spelled) (hcheck : check s = .ok ()) :
    (types (sourceText (lines s))).Nodup ↔ (s.entries.flatMap typesOf).Nodup := by
  rw [types_lines hs, List.nodup_append']
  constructor
  · exact fun h => h.2.1
  · refine fun h => ⟨List.nodup_dedup _, h, ?_⟩
    intro n hpart htype
    obtain ⟨e, he, hn⟩ := List.mem_flatMap.1 (List.mem_dedup.1 hpart)
    split at hn
    · rename_i hunnamed
      rw [List.mem_singleton.1 hn] at htype
      exact constantsClass_not_mem hcheck ⟨e, he, hunnamed⟩ htype
    · cases hn

/-! ### Members -/

theorem avoid_ne {taken : List String} {n k : String} (hk : k ∈ taken)
    (hlast : ∀ x : String, k ≠ x ++ "_") : avoid taken n ≠ k := by
  unfold avoid
  split
  · exact fun h => hlast n h.symm
  · rename_i hn
    rintro rfl
    exact hn hk

/-- Members of one class, and two more that are set apart from them. -/
theorem nodup_class {α : Type} {as : List α} {f : α → String} (hf : (as.map f).Nodup) {owner k l : String}
    (hne : k ≠ l) (hk : ∀ a ∈ as, f a ≠ k) (hl : ∀ a ∈ as, f a ≠ l) :
    ((as.map fun a => (owner, f a)) ++ [(owner, k), (owner, l)]).Nodup := by
  have hmap : (as.map fun a => (owner, f a)).Nodup := by
    have h := hf.map (Prod.mk_right_injective owner)
    rwa [List.map_map] at h
  rw [List.nodup_append']
  refine ⟨hmap, by simp [hne], ?_⟩
  intro p hp hmem
  obtain ⟨a, ha, rfl⟩ := List.mem_map.1 hp
  simp only [List.mem_cons, Prod.mk.injEq, true_and, List.not_mem_nil, or_false] at hmem
  exact hmem.elim (hk a ha) (hl a ha)

/-- The members of the classes of an entry are different. -/
theorem nodup_membersOf {s : Schema} (hcheck : check s = .ok ()) {e : Entry} (he : e ∈ s.entries) :
    (membersOf e).Nodup := by
  obtain ⟨-, hdecls⟩ := check_eq_ok_iff.1 hcheck
  have hdecl := hdecls _ (List.mem_map_of_mem he)
  have hlast : ∀ k ∈ ["IndexOf", "ValueAt", "ToJson", "FromJson"], ∀ x : String, k ≠ x ++ "_" := by
    intro k hk x heq
    have hchar := congrArg (List.getLast? ∘ String.toList) heq
    revert hchar
    fin_cases hk <;> simp
  cases e with
  | const c =>
    rw [Dialect.declare, checkDecl, distinct_eq_ok_iff, List.map_snd_zip (by simp [Dialect.constants]),
      Dialect.constants, List.map_map] at hdecl
    have hnames : (c.members.map fun m => avoid [ownerOf c] m.name).Nodup := by
      refine List.Nodup.of_map verbatim ?_
      rwa [List.map_map]
    have h := hnames.map (Prod.mk_right_injective (ownerOf c))
    rwa [List.map_map] at h
  | enum e =>
    rw [membersOf]
    split
    · simp
    · rename_i hint
      rw [Dialect.declare, checkDecl, Choice.checkVariants_eq_ok_iff, Dialect.map_name_variants] at hdecl
      have hnames : (e.members.map fun m => avoid (e.name :: enumItems e) m.name).Nodup := by
        refine List.Nodup.of_map verbatim ?_
        rwa [List.map_map]
      have hitems : enumItems e = ["IndexOf", "ValueAt"] := if_neg hint
      exact nodup_class hnames (by decide)
        (fun m _ => avoid_ne (by simp [hitems]) (hlast _ (by simp)))
        (fun m _ => avoid_ne (by simp [hitems]) (hlast _ (by simp)))
  | object o =>
    rw [Dialect.declare, checkDecl, bind_unit_eq_ok_iff, Record.checkMembers, distinct_eq_ok_iff,
      List.map_map, Dialect.record, List.map_map] at hdecl
    exact nodup_class hdecl.2 (by decide)
      (fun f _ => avoid_ne (by simp) (hlast _ (by simp)))
      (fun f _ => avoid_ne (by simp) (hlast _ (by simp)))

/-- The members of a class with a name of its own belong to a type of the entry. -/
theorem owner_mem_typesOf {e : Entry} (he : isUnnamed e = false) {p : String × String}
    (hp : p ∈ membersOf e) : p.1 ∈ typesOf e := by
  cases e with
  | const c =>
    obtain ⟨m, -, rfl⟩ := List.mem_map.1 hp
    cases hname : c.name with
    | none => simp [isUnnamed, hname] at he
    | some n => simp [typesOf, Entry.name?, ownerOf, hname]
  | enum e =>
    have howner : p.1 = e.name ∨ e.type.isInteger = true ∧ p.1 = e.name ++ "Lookup" := by
      rw [membersOf] at hp
      split at hp
      · rename_i hint
        right
        simp only [List.mem_cons, List.not_mem_nil, or_false] at hp
        rcases hp with rfl | rfl <;> exact ⟨hint, rfl⟩
      · left
        simp only [List.mem_append, List.mem_map, List.mem_cons, List.not_mem_nil, or_false] at hp
        rcases hp with ⟨m, -, rfl⟩ | rfl | rfl <;> rfl
    rcases howner with howner | ⟨hint, howner⟩
    · simp [typesOf, Entry.name?, howner]
    · simp [typesOf, lookupClass, hint, howner]
  | object o =>
    simp only [membersOf, List.mem_append, List.mem_map, List.mem_cons, List.not_mem_nil,
      or_false] at hp
    rcases hp with ⟨f, -, rfl⟩ | rfl | rfl <;> simp [typesOf, Entry.name?]

/-- The members of classes with names of their own are different if the types are. -/
theorem nodup_boundMembers {s : Schema} (hcheck : check s = .ok ())
    (htypes : (s.entries.flatMap typesOf).Nodup) :
    (s.entries.flatMap fun e => if isUnnamed e then [] else membersOf e).Nodup := by
  rw [List.nodup_flatMap] at htypes ⊢
  constructor
  · intro e he
    split
    · exact List.nodup_nil
    · exact nodup_membersOf hcheck he
  · refine htypes.2.imp ?_
    intro e e' hdisjoint p hp hp'
    simp only at hp hp'
    split at hp
    · cases hp
    · split at hp'
      · cases hp'
      · rename_i he he'
        exact hdisjoint (owner_mem_typesOf (by simpa using he) hp)
          (owner_mem_typesOf (by simpa using he') hp')

theorem nodup_looseNames {s : Schema} (hvalid : s.Valid) : (s.entries.flatMap looseNames).Nodup := by
  refine hvalid.names.sublist (List.Sublist.flatMap_right _ ?_)
  intro e _
  cases e with
  | const c =>
    cases hname : c.name with
    | none =>
      have hbinding : c.members.map c.binding = c.members.map Member.name := by
        simp [ConstGroup.binding, hname]
      simp [looseNames, Entry.names, hname, hbinding]
    | some n => simp [looseNames, hname]
  | _ => exact List.nil_sublist _

/-- The constants without a group stay different unless one is set apart from their class and another is
spelled alike. -/
theorem nodup_avoid_looseNames_iff {s : Schema} (hvalid : s.Valid) :
    ((s.entries.flatMap looseNames).map (avoid [constantsClass])).Nodup ↔
      ¬ (constantsClass ∈ s.entries.flatMap looseNames ∧
        constantsClass ++ "_" ∈ s.entries.flatMap looseNames) := by
  have hmarked : ∀ k ∈ [constantsClass], k ++ "_" ∉ [constantsClass] := by decide +kernel
  have hloose : (s.entries.flatMap looseNames ++ []).Nodup := by
    rw [List.append_nil]
    exact nodup_looseNames hvalid
  have h := nodup_avoid_iff hmarked hloose
  rw [List.append_nil, List.append_nil] at h
  rw [h]
  simp only [List.mem_singleton]
  constructor
  · exact fun hno hyes => hno ⟨_, hyes.1, rfl, hyes.2⟩
  · rintro hno ⟨b, hb, rfl, hmem⟩
    exact hno ⟨hb, hmem⟩

theorem isUnnamed_of_mem_looseNames {e : Entry} {n : String} (hn : n ∈ looseNames e) :
    isUnnamed e = true := by
  cases e with
  | const c =>
    rw [looseNames] at hn
    split at hn
    · assumption
    · cases hn
  | _ => cases hn

theorem looseMembers (s : Schema) :
    (s.entries.flatMap fun e => if isUnnamed e then membersOf e else []) =
      ((s.entries.flatMap looseNames).map (avoid [constantsClass])).map (constantsClass, ·) := by
  rw [List.map_map, List.map_flatMap]
  apply List.flatMap_congr
  intro e _
  cases e with
  | const c =>
    cases hname : c.name with
    | none => simp [isUnnamed, hname, membersOf, looseNames, ownerOf]
    | some n => simp [isUnnamed, hname, looseNames]
  | _ => rfl

/-- The members of one class are different unless two constants without a group become one. -/
theorem nodup_members_iff {s : Schema} (hs : s.Spelled) (hvalid : s.Valid) (hcheck : check s = .ok ())
    (htypes : (s.entries.flatMap typesOf).Nodup) :
    (members (sourceText (lines s))).Nodup ↔
      ¬ (constantsClass ∈ s.entries.flatMap looseNames ∧
        constantsClass ++ "_" ∈ s.entries.flatMap looseNames) := by
  have hperm : (s.entries.flatMap membersOf).Perm
      ((s.entries.flatMap fun e => if isUnnamed e then membersOf e else [])
        ++ s.entries.flatMap fun e => if isUnnamed e then [] else membersOf e) := by
    refine List.Perm.trans (List.Perm.of_eq ?_) (List.flatMap_append_perm s.entries _ _).symm
    apply List.flatMap_congr
    intro e _
    split <;> simp
  rw [members_lines hs, hperm.nodup_iff, List.nodup_append', ← nodup_avoid_looseNames_iff hvalid,
    looseMembers, List.nodup_map_iff (Prod.mk_right_injective _)]
  constructor
  · exact fun h => h.1
  · refine fun h => ⟨h, nodup_boundMembers hcheck htypes, ?_⟩
    intro p hloose hbound
    obtain ⟨n, hn, rfl⟩ := List.mem_map.1 hloose
    obtain ⟨b, hb, -⟩ := List.mem_map.1 hn
    obtain ⟨e, he, hbe⟩ := List.mem_flatMap.1 hb
    obtain ⟨e', he', hp⟩ := List.mem_flatMap.1 hbound
    split at hp
    · cases hp
    · rename_i hnamed
      exact constantsClass_not_mem hcheck ⟨e, he, isUnnamed_of_mem_looseNames hbe⟩
        (List.mem_flatMap.2 ⟨e', he', owner_mem_typesOf (by simpa using hnamed) hp⟩)

theorem nodup_introduced_iff {s : Schema} (hs : s.Spelled) (hvalid : s.Valid)
    (hcheck : check s = .ok ()) :
    (types (sourceText (lines s))).Nodup ∧ (members (sourceText (lines s))).Nodup ↔ ¬ Clashes s := by
  rw [nodup_types_iff hs hcheck, Clashes, not_or, ← nodup_typesOf_iff hvalid]
  exact and_congr_right fun htypes => nodup_members_iff hs hvalid hcheck htypes

end CSharp

/-! ## Source texts -/

/-- **A name is introduced once**, beside the others of a source text or among the members of its class,
exactly if the schema has no clash. -/
theorem introduced_once (text : String) (s : Schema) (hs : Schema.compile text = .ok s) :
    (∀ source, Target.rust.render s = .ok source →
      ((Rust.introduced source).Nodup ↔ ¬ Rust.Clashes s)) ∧
    (∀ source, Target.csharp.render s = .ok source →
      ((CSharp.types source).Nodup ∧ (CSharp.members source).Nodup ↔ ¬ CSharp.Clashes s)) ∧
    (∀ source, Target.dart.render s = .ok source →
      ((Dart.introduced source).Nodup ↔ ¬ Dart.Clashes s)) ∧
    (∀ source, Target.typescript.render s = .ok source →
      ((TypeScript.introduced source).Nodup ↔ ¬ TypeScript.Clashes s)) := by
  have hspelled := Schema.spelled_of_compile hs
  have hvalid := Schema.validate_eq_ok_iff.1 (Schema.validate_of_compile hs)
  refine ⟨?_, ?_, ?_, ?_⟩
  all_goals
    intro source hsource
    obtain ⟨hcheck, rfl⟩ := Target.render_eq_ok_iff.1 hsource
  · exact Rust.nodup_introduced_iff hspelled hvalid
  · exact CSharp.nodup_introduced_iff hspelled hvalid hcheck
  · exact Dart.nodup_introduced_iff hspelled hvalid
  · exact TypeScript.nodup_introduced_iff hspelled hvalid

/-- A schema with a clash in each of these targets. -/
theorem introduced_twice : ∃ s rust csharp dart typescript,
    Schema.compile ("const bool \x7b class = true class_ = false \x7d enum E for int8 \x7b A = 1 \x7d " ++
      "object ELookup \x7b \x7d object Serialize \x7b \x7d") = .ok s ∧
    Target.rust.render s = .ok rust ∧ ¬ (Rust.introduced rust).Nodup ∧
    Target.csharp.render s = .ok csharp ∧
      ¬ ((CSharp.types csharp).Nodup ∧ (CSharp.members csharp).Nodup) ∧
    Target.dart.render s = .ok dart ∧ ¬ (Dart.introduced dart).Nodup ∧
    Target.typescript.render s = .ok typescript ∧ ¬ (TypeScript.introduced typescript).Nodup := by
  have hclass : MemberOf ["class", "=", "true"] ⟨"class", .bool true, .start⟩ := .mk (by decide) .true _
  have hmark : MemberOf ["class_", "=", "false"] ⟨"class_", .bool false, .start⟩ :=
    .mk (by decide) .false _
  have hvalue : MemberOf ["A", "=", "1"] ⟨"A", .int (.ofInt 1), .start⟩ :=
    .mk (by decide) (.integer (by decide +kernel) (by decide) (by decide)) _
  have hderives : Derives _ _ := .mk .none
    (.cons (.const (.unnamed .bool (.mk (.cons hclass (.cons hmark .nil))) .start))
      (.cons (.enum (.mk (n := "E") (by decide) .int8 (.mk (.cons hvalue .nil)) .start))
        (.cons (.object (.mk (n := "ELookup") (by decide) (.mk .nil) .start))
          (.cons (.object (.mk (n := "Serialize") (by decide) (.mk .nil) .start)) .nil))))
  have hrender := fun t hcheck => Target.render_of_derives t
    ("const bool \x7b class = true class_ = false \x7d enum E for int8 \x7b A = 1 \x7d " ++
      "object ELookup \x7b \x7d object Serialize \x7b \x7d") (by cbv) hderives (by decide +kernel) hcheck
  obtain ⟨s, rust, hs, hrust, hplaced⟩ := hrender .rust (by decide +kernel)
  obtain ⟨s₁, csharp, hs₁, hcsharp, -⟩ := hrender .csharp (by decide +kernel)
  obtain ⟨s₂, dart, hs₂, hdart, -⟩ := hrender .dart (by decide +kernel)
  obtain ⟨s₃, typescript, hs₃, htypescript, -⟩ := hrender .typescript (by decide +kernel)
  obtain rfl := Except.ok.inj (hs.symm.trans hs₁)
  obtain rfl := Except.ok.inj (hs.symm.trans hs₂)
  obtain rfl := Except.ok.inj (hs.symm.trans hs₃)
  -- The names and types are those of the schema without positions.
  have hbindings : s.bindings = ["class", "class_"] := by
    rw [← s.bindings_unplaced, hplaced]
    decide
  have htitles : s.titles = ["E", "ELookup", "Serialize"] := by
    rw [← s.titles_unplaced, hplaced]
    decide
  have himported : "Serialize" ∈ Rust.importedNames s := by
    have hobjects : s.hasObjects = true := by
      rw [← s.hasObjects_unplaced, hplaced]
      decide
    simp [Rust.importedNames, hobjects]
  obtain ⟨p, q, henums⟩ : ∃ p q, s.enums = [⟨"E", .int8, [⟨"A", .int (.ofInt 1), p⟩], q⟩] := by
    simpa [List.map_eq_cons_iff] using Schema.enums_of_unplaced hplaced
  have hlookup : "ELookup" ∈ s.entries.filterMap Entry.name? := by
    rw [← s.entryNames_unplaced, hplaced]
    decide
  obtain ⟨x, hx, hxname⟩ := List.mem_filterMap.1 hlookup
  have hkeyword : "class" ∈ s.bindings ∧ "class" ++ "_" ∈ s.declared := by
    rw [Schema.declared, hbindings, htitles]
    decide
  have hrustClash : Rust.Clashes s := ⟨"Serialize", himported, by simp [Schema.declared, htitles]⟩
  have hmem := henums ▸ List.mem_singleton_self _
  have hcsharpClash : CSharp.Clashes s := .inl ⟨_, hmem, rfl, x, hx, hxname⟩
  obtain ⟨honceRust, honceCSharp, honceDart, honceTypeScript⟩ := introduced_once _ s hs
  exact ⟨s, rust, csharp, dart, typescript, hs,
    hrust, fun h => (honceRust rust hrust).1 h hrustClash,
    hcsharp, fun h => (honceCSharp csharp hcsharp).1 h hcsharpClash,
    hdart, fun h => (honceDart dart hdart).1 h ⟨"class", hkeyword.1, by decide, hkeyword.2⟩,
    htypescript, fun h => (honceTypeScript typescript htypescript).1 h
      (.inl ⟨"class", hkeyword.1, by decide, hkeyword.2⟩)⟩

end Idl
