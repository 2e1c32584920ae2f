import Mathlib
import Idl.Proofs.Outline.Modules
import Idl.Proofs.Outline.Package
import Idl.Proofs.Outline.Parameters

/-!
# Reserved words

Every name of a schema can be a reserved word of some target. A target marks such names where it declares
something, but not at all places. Names are read from the source text, as they are written there.

* `Target.introduced`: the types and constants of a source text.
* `Target.plainModules`, `Target.plainNames`: the names that a target writes without a mark.
* **`reserved_declared_iff`**: these are the only reserved words that a source text declares.
-/

namespace Idl

open Outline Grammar

namespace Target

theorem mark_not_mem {t : Target} {k : String} (hk : k ∈ t.keywords) : '_' ∉ k.toList := by
  have hwords : ∀ k ∈ t.keywords, '_' ∉ k.toList := by cases t <;> decide +kernel
  exact hwords k hk

/-- Outside of Rust, reserved words have small letters only. -/
theorem isLower_of_mem {t : Target} (ht : t ≠ rust) {k : String} (hk : k ∈ t.keywords) :
    k.toList.head?.any Char.isLower = true ∧ k.toList.all Char.isLower = true := by
  have hwords : ∀ k ∈ t.keywords,
      (k.toList.head?.any Char.isLower && k.toList.all Char.isLower) = true := by
    cases t with
    | rust => exact absurd rfl ht
    | _ => decide +kernel
  exact Bool.and_eq_true_iff.1 (hwords k hk)

end Target

/-! ## Constants as they are written -/

namespace CSharp

/-- The constants of a section, as they are written. -/
def constantsIn : Heading × List Line → List String
  | (.group _, body) => ((csharp.members body).getD []).map .ofList
  | _ => []

/-- The constants of a source text, as they are written. -/
def constants (source : String) : List String :=
  (sections csharp.reader none (linesOf source)).flatMap constantsIn

/-- The constants of a declaration. -/
def constantsOf : Decl → List String
  | .constants g => g.rows.map Constant.name
  | .choice c => if c.source.type.isInteger then [] else c.variants.map Variant.name
  | .record _ => []

theorem constantsIn_group {n : Line} {body : List Line} {names : List String}
    (h : csharp.members body = some (names.map String.toList)) : constantsIn (.group n, body) = names := by
  rw [constantsIn, h, Option.getD_some, List.map_map]
  exact (List.map_congr_left fun n _ => String.ofList_toList).trans (List.map_id _)

theorem members_constants {α : Type} {as : List α} {name literal : α → String} {type : String}
    (htype : IsWord type.toList) (hname : ∀ a ∈ as, NameText (name a).toList) :
    csharp.members ("\x7b".toList :: bareLines (as.map fun a => constantLine type (name a) (literal a))) =
      some ((as.map name).map String.toList) := by
  simp only [csharp, under?_cons, Option.bind_some, bareLines, List.map_map]
  exact mapM_map fun a ha => constant?_constantLine htype (hname a ha) (literal a)

theorem constants_lines {s : Schema} (hs : s.Spelled) :
    constants (sourceText (lines s)) = (dialect.decls s).flatMap constantsOf := by
  have hbrace : csharp.members ["\x7b".toList] = some (([] : List String).map String.toList) := by
    simp only [csharp, under?_cons, Option.bind_some]
    rfl
  rw [constants, sections_lines hs, List.flatMap_assoc]
  refine List.flatMap_congr fun d hd => ?_
  have h := tidy_dialect.decls hs d hd
  cases d with
  | constants g =>
    rw [declSections, List.flatMap_singleton]
    exact constantsIn_group (members_constants h.1 fun c hc => (h.2.2 c hc).1)
  | choice c =>
    have hlookups : (lookupSections c).flatMap constantsIn = [] := rfl
    rw [declSections, List.flatMap_append, hlookups, List.append_nil, constantsOf]
    split
    · rw [List.flatMap_cons, List.flatMap_singleton, constantsIn_group hbrace]
      rfl
    · rw [List.flatMap_singleton]
      exact constantsIn_group (members_constants h.2.1 fun v hv => (h.2.2 v hv).2.1)
  | record r => rfl

/-- No constant is spelled like a reserved word. -/
theorem constants_not_mem {s : Schema} (hs : s.Spelled) :
    ∀ n ∈ constants (sourceText (lines s)), n ∉ keywords := by
  rw [constants_lines hs]
  intro n hn
  obtain ⟨d, hd, hn⟩ := List.mem_flatMap.1 hn
  obtain ⟨e, -, rfl⟩ := List.mem_map.1 hd
  cases e with
  | const c =>
    rw [Dialect.declare, constantsOf, Dialect.constants, List.map_map] at hn
    obtain ⟨m, -, rfl⟩ := List.mem_map.1 hn
    exact verbatim_not_mem _
  | enum e =>
    rw [Dialect.declare, constantsOf, Dialect.map_name_variants] at hn
    split at hn
    · cases hn
    · obtain ⟨m, -, rfl⟩ := List.mem_map.1 hn
      exact verbatim_not_mem _
  | object o => cases hn

end CSharp

/-! ## Types and constants -/

/-- A name without underscores is what becomes of a name exactly if it was that name and is not taken. -/
theorem avoid_eq_word_iff {taken : List String} {n k : String} (hk : '_' ∉ k.toList) :
    avoid taken n = k ↔ n = k ∧ k ∉ taken := by
  have hmark : k ≠ n ++ "_" := ne_append_mark (fun h => hk (List.mem_of_getLast? h)) n
  rw [avoid_eq_iff]
  constructor
  · rintro (⟨-, heq⟩ | ⟨hn, rfl⟩)
    · exact absurd heq hmark
    · exact ⟨rfl, hn⟩
  · rintro ⟨rfl, hn⟩
    exact .inr ⟨hn, rfl⟩

/-- A name with another letter than small ones is no reserved word outside of Rust. -/
theorem Target.ne_keyword {t : Target} (ht : t ≠ rust) {k n : String} (hk : k ∈ t.keywords) {c : Char}
    (hc : c ∈ n.toList) (hlower : c.isLower = false) : n ≠ k := by
  rintro rfl
  rw [List.all_eq_true.1 (isLower_of_mem ht hk).2 c hc] at hlower
  cases hlower

/-- The names of constants without a group. -/
def Schema.looseNames (s : Schema) : List String := s.entries.flatMap CSharp.looseNames

/-- The name of a constant in a group has an underscore. -/
theorem Schema.mem_bindings_iff {s : Schema} {k : String} (hk : '_' ∉ k.toList) :
    k ∈ s.bindings ↔ k ∈ s.looseNames := by
  have hentry : ∀ e : Entry, k ∈ e.bindings ↔ k ∈ CSharp.looseNames e := by
    intro e
    cases e with
    | const c =>
      cases hname : c.name with
      | none => simp [Entry.bindings, CSharp.looseNames, ConstGroup.binding, hname]
      | some n =>
        have hgrouped : ∀ m, c.binding m ≠ k := by
          rintro m rfl
          exact hk (by simp [ConstGroup.binding, hname])
        simp [Entry.bindings, CSharp.looseNames, hname, hgrouped]
    | _ => rfl
  simp only [bindings, looseNames, List.mem_flatMap, hentry]

/-- The reserved words among the names of declarations, if constants are set apart from them. -/
theorem Dialect.mem_names_iff {d : Dialect} {taken : List String} {k : String} (s : Schema)
    (hbinding : ∀ c m, d.binding c m = avoid taken (c.binding m)) (htitle : ∀ n, d.title n = n)
    (hk : '_' ∉ k.toList) (htaken : k ∈ taken) :
    k ∈ (d.decls s).flatMap Decl.names ↔ k ∈ s.titles := by
  rw [(Dialect.names_perm s hbinding htitle).mem_iff, List.mem_append, List.mem_map]
  simp only [avoid_eq_word_iff hk, htaken, not_true_eq_false, and_false, exists_false, false_or]

namespace Target

/-- The types, constants and functions of a source text. -/
def introduced : Target → String → List String
  | rust, source => Rust.introduced source
  | go, source => Go.declared source
  | csharp, source => CSharp.types source ++ CSharp.constants source
  | dart, source => Dart.introduced source
  | typescript, source => TypeScript.introduced source

/-- The names of types and constants that a target writes without a mark. -/
def plainNames : Target → Schema → List String
  | rust, s => s.looseNames ++ s.titles
  | go, s => s.looseNames
  | csharp, s => s.entries.filterMap Entry.name?
  | dart, s | typescript, s => s.titles

end Target

section Introduced

variable {s : Schema} {k : String}

theorem Rust.mem_introduced_iff (hs : s.Spelled) (hk : k ∈ keywords) :
    k ∈ introduced (sourceText (lines s)) ↔ k ∈ s.looseNames ++ s.titles := by
  have himported : k ∉ importedNames s := by
    have hnames : importedNames s ⊆ ["HashMap", "Deserialize", "Serialize", "LookupError"] := by
      unfold importedNames
      split_ifs <;> decide
    have hwords : ∀ n ∈ ["HashMap", "Deserialize", "Serialize", "LookupError"], n ∉ keywords := by
      decide +kernel
    exact fun hmem => hwords k (hnames hmem) hk
  have hperm := Dialect.names_perm (d := dialect) s (f := id) (fun _ _ => rfl) (fun _ => rfl)
  rw [List.map_id] at hperm
  rw [introduced_lines hs, List.mem_append, hperm.mem_iff, List.mem_append, List.mem_append,
    Schema.mem_bindings_iff (Target.mark_not_mem (t := .rust) hk)]
  simp only [himported, false_or]

theorem Dart.mem_introduced_iff (hs : s.Spelled) (hk : k ∈ keywords) :
    k ∈ introduced (sourceText (lines s)) ↔ k ∈ s.titles := by
  rw [introduced_lines hs]
  exact Dialect.mem_names_iff s (fun _ _ => rfl) (fun _ => rfl) (Target.mark_not_mem (t := .dart) hk) hk

theorem TypeScript.mem_introduced_iff (hs : s.Spelled) (hk : k ∈ keywords) :
    k ∈ introduced (sourceText (lines s)) ↔ k ∈ s.titles := by
  have hne : ∀ {n : String} {c : Char}, c ∈ n.toList → c.isLower = false → n ≠ k :=
    Target.ne_keyword (t := .typescript) (by decide) hk
  have hfunctions : ∀ d, k ∉ lookupNames d := by
    intro d hmem
    cases d with
    | choice c =>
      rw [lookupNames, List.mem_cons, List.mem_singleton] at hmem
      rcases hmem with heq | heq
      · exact hne (c := 'O') (by simp) (by decide) heq.symm
      · exact hne (c := 'A') (by simp) (by decide) heq.symm
    | _ => cases hmem
  have hnames : k ∈ (dialect.decls s).flatMap Decl.names ↔ k ∈ s.titles :=
    Dialect.mem_names_iff s (fun _ _ => rfl) (fun _ => rfl) (Target.mark_not_mem (t := .typescript) hk) hk
  rw [introduced_lines hs, ← hnames]
  simp only [List.mem_flatMap, List.mem_append, hfunctions, or_false]

theorem CSharp.mem_introduced_iff (hs : s.Spelled) (hk : k ∈ keywords) :
    k ∈ types (sourceText (lines s)) ++ constants (sourceText (lines s)) ↔
      k ∈ s.entries.filterMap Entry.name? := by
  have hne : ∀ {n : String} {c : Char}, c ∈ n.toList → c.isLower = false → n ≠ k :=
    Target.ne_keyword (t := .csharp) (by decide) hk
  have hconstants : k ∉ constants (sourceText (lines s)) := fun hmem => constants_not_mem hs k hmem hk
  have hparts : ∀ e, k ∉ if isUnnamed e then [constantsClass] else [] := by
    intro e hmem
    split at hmem
    · exact hne (c := 'C') (by decide) (by decide) (List.mem_singleton.1 hmem).symm
    · cases hmem
  have hlookups : ∀ e, k ∉ lookupClass e := by
    intro e hmem
    cases e with
    | enum e =>
      rw [lookupClass] at hmem
      split at hmem
      · exact hne (c := 'L') (by simp) (by decide) (List.mem_singleton.1 hmem).symm
      · cases hmem
    | _ => cases hmem
  rw [types_lines hs, List.mem_append, List.mem_append, List.mem_dedup]
  simp only [List.mem_flatMap, typesOf, List.mem_append, hparts, hlookups, hconstants, and_false,
    exists_false, false_or, or_false, List.mem_filterMap, Option.mem_toList]

theorem Go.mem_declNames_iff (hk : k ∈ keywords) (e : Entry) :
    k ∈ (declNames (dialect.declare s e)).map Prod.snd ↔ k ∈ CSharp.looseNames e := by
  have hne : ∀ {n : String} {c : Char}, c ∈ n.toList → c.isLower = false → n ≠ k :=
    Target.ne_keyword (t := .go) (by decide) hk
  have htitle : ∀ n, Naming.pascal n ≠ k :=
    fun n => pascal_ne (Target.isLower_of_mem (t := .go) (by decide) hk).1
  cases e with
  | const c =>
    rw [Dialect.declare, declNames, List.map_snd_zip (by simp [Dialect.constants]), Dialect.constants,
      List.map_map, CSharp.looseNames]
    cases hname : c.name with
    | none => simp [dialect, hname]
    | some n =>
      have hgrouped : ∀ m, Naming.pascal n ++ "_" ++ m ≠ k := fun m => hne (c := '_') (by simp) (by decide)
      simp [dialect, hname, hgrouped]
  | enum e =>
    have hmember : ∀ m, Naming.pascal e.name ++ "_" ++ m ≠ k :=
      fun m => hne (c := '_') (by simp) (by decide)
    have hindex : ∀ n, "IndexOf" ++ n ≠ k := fun n => hne (c := 'I') (by simp) (by decide)
    have hvalue : ∀ n, "ValueAt" ++ n ≠ k := fun n => hne (c := 'V') (by simp) (by decide)
    simp [Dialect.declare, Dialect.choice, declNames, dialect, CSharp.looseNames,
      (htitle _).symm, (hindex _).symm, (hvalue _).symm, hmember]
  | object o =>
    have hnew : ∀ n, "New" ++ n ≠ k := fun n => hne (c := 'N') (by simp) (by decide)
    have hdecode : ∀ n, n ++ "FromJSON" ≠ k := fun n => hne (c := 'F') (by simp) (by decide)
    simp [Dialect.declare, Dialect.record, declNames, dialect, CSharp.looseNames, (htitle _).symm,
      (hnew _).symm, (hdecode _).symm]

theorem Go.mem_declared_iff (hs : s.Spelled) (hk : k ∈ keywords) :
    k ∈ declared (sourceText (lines s)) ↔ k ∈ s.looseNames := by
  have hbytes : k ∉ (if usesBytes s then [("list of uint8", "Uint8List")] else []).map Prod.snd := by
    split
    · have hne := Target.ne_keyword (t := .go) (n := "Uint8List") (c := 'U') (by decide) hk (by decide)
        (by decide)
      simpa using hne.symm
    · exact List.not_mem_nil
  rw [declared_lines hs, topNames, List.map_append, List.mem_append, Dialect.decls, List.flatMap_map,
    List.map_flatMap]
  simp only [hbytes, false_or, List.mem_flatMap, mem_declNames_iff hk]
  rw [Schema.looseNames, List.mem_flatMap]

end Introduced

theorem Target.mem_introduced_iff (t : Target) {s : Schema} (hs : s.Spelled) {k : String}
    (hk : k ∈ t.keywords) : k ∈ t.introduced (sourceText (t.lines s)) ↔ k ∈ t.plainNames s := by
  cases t with
  | rust => exact Rust.mem_introduced_iff hs hk
  | go => exact Go.mem_declared_iff hs hk
  | csharp => exact CSharp.mem_introduced_iff hs hk
  | dart => exact Dart.mem_introduced_iff hs hk
  | typescript => exact TypeScript.mem_introduced_iff hs hk

/-! ## Modules, members and parameters -/

theorem mem_map_iff_and {α : Type} {as : List α} {f g : α → String} {k : String} {p : Prop}
    (h : ∀ a, f a = k ↔ p ∧ g a = k) : k ∈ as.map f ↔ p ∧ k ∈ as.map g := by
  simp only [List.mem_map, h]
  constructor
  · rintro ⟨a, ha, hp, heq⟩
    exact ⟨hp, a, ha, heq⟩
  · rintro ⟨hp, a, ha, heq⟩
    exact ⟨a, ha, hp, heq⟩

namespace Target

variable {t : Target} {k : String}

/-- The names of modules that a target writes without a mark. -/
def plainModules : Target → Schema → List String
  | rust, _ => []
  | go, s => [Go.packageName s]
  | csharp, s | dart, s | typescript, s => s.package

theorem mem_modules_iff (t : Target) {s : Schema} (hs : s.Spelled) (hk : k ∈ t.keywords) :
    k ∈ t.modules (sourceText (t.lines s)) ↔ k ∈ t.plainModules s := by
  rw [t.modules_lines hs]
  cases t with
  | rust =>
    rw [moduleNames, List.mem_map]
    simp only [avoid_eq_word_iff (mark_not_mem hk)]
    exact iff_of_false (fun ⟨_, _, _, hfree⟩ => hfree hk) List.not_mem_nil
  | _ => rfl

/-- No name that is set apart from reserved words is one. -/
theorem avoid_ne_keyword {taken : List String} (hk : k ∈ t.keywords) (htaken : k ∈ taken) (n : String) :
    avoid taken n ≠ k :=
  fun h => ((avoid_eq_word_iff (mark_not_mem hk)).1 h).2 htaken

/-- A name with a capital at its beginning stays one when it is set apart. -/
theorem avoid_pascal_ne_keyword {taken : List String} (ht : t ≠ rust) (hk : k ∈ t.keywords) (n : String) :
    avoid taken (Naming.pascal n) ≠ k :=
  fun h => Go.pascal_ne (isLower_of_mem ht hk).1 ((avoid_eq_word_iff (mark_not_mem hk)).1 h).1

/-- The members of enums keep their names in TypeScript. -/
theorem variant_eq_iff (hk : k ∈ t.keywords) (e : EnumDecl) (m : Member) :
    t.dialect.variant e m = k ↔ t = typescript ∧ m.name = k := by
  cases t with
  | typescript => exact (and_iff_right rfl).symm
  | rust => exact iff_of_false (avoid_ne_keyword hk (List.mem_append_right _ hk) _) fun h => nomatch h.1
  | go =>
    have hmark : Naming.pascal e.name ++ "_" ++ m.name ≠ k :=
      ne_keyword (c := '_') (by decide) hk (by simp) (by decide)
    exact iff_of_false hmark fun h => nomatch h.1
  | csharp =>
    exact iff_of_false (fun h => CSharp.verbatim_not_mem _ (h ▸ hk)) fun h => nomatch h.1
  | dart => exact iff_of_false (avoid_ne_keyword hk (List.mem_append_right _ hk) _) fun h => nomatch h.1

/-- The members of objects keep reserved words as names in TypeScript, where they may have them. -/
theorem member_eq_iff (hk : k ∈ t.keywords) (o : ObjectDecl) (f : Field) :
    t.dialect.member o f = k ↔ t = typescript ∧ f.name = k := by
  cases t with
  | typescript =>
    have hfree : ∀ k ∈ TypeScript.keywords, k ∉ TypeScript.classItems := by decide +kernel
    rw [and_iff_right rfl]
    exact (avoid_eq_word_iff (mark_not_mem hk)).trans (and_iff_left (hfree k hk))
  | rust => exact iff_of_false (avoid_ne_keyword hk hk _) fun h => nomatch h.1
  | go => exact iff_of_false (avoid_pascal_ne_keyword (by decide) hk _) fun h => nomatch h.1
  | csharp => exact iff_of_false (avoid_pascal_ne_keyword (by decide) hk _) fun h => nomatch h.1
  | dart => exact iff_of_false (avoid_ne_keyword hk (List.mem_append_right _ hk) _) fun h => nomatch h.1

theorem param_ne_keyword (hk : k ∈ t.keywords) (o : ObjectDecl) (f : Field) :
    t.dialect.param o f ≠ k := by
  cases t with
  | rust | go | typescript => exact avoid_ne_keyword hk hk _
  | csharp => exact fun h => CSharp.verbatim_not_mem _ (h ▸ hk)
  | dart => exact avoid_ne_keyword hk (List.mem_append_right _ hk) _

end Target

/-- **Reserved words that are declared.** Of the reserved words of a target, source text for a compiled
schema declares those modules, types and constants that the target writes without a mark and no others.
Only TypeScript has members of enums or objects that are called like reserved words, namely those that the
schema calls so. No parameter is called like one. -/
theorem reserved_declared_iff (t : Target) (text : String) (s : Schema)
    (hs : Schema.compile text = .ok s) (source : String) (hsource : t.render s = .ok source) :
    (∀ k ∈ t.keywords, k ∈ t.modules source ↔ k ∈ t.plainModules s) ∧
    (∀ k ∈ t.keywords, k ∈ t.introduced source ↔ k ∈ t.plainNames s) ∧
    ∃ record choice, t.records source = some (s.objects.map record) ∧
      t.choices source = some (s.enums.map choice) ∧
      (∀ e ∈ s.enums, ∀ k ∈ t.keywords,
        k ∈ (choice e).members ↔ t = .typescript ∧ k ∈ e.members.map Member.name) ∧
      ∀ o ∈ s.objects, ∀ k ∈ t.keywords,
        (k ∈ (record o).members.map MemberOutline.name ↔
          t = .typescript ∧ k ∈ o.fields.map Field.name) ∧
        k ∉ (record o).params.map Prod.fst := by
  obtain ⟨-, rfl⟩ := Target.render_eq_ok_iff.1 hsource
  have hspelled := Schema.spelled_of_compile hs
  obtain ⟨record, hrecords, hfollows⟩ := t.followsFields_lines hspelled
  refine ⟨fun k => t.mem_modules_iff hspelled, fun k => t.mem_introduced_iff hspelled, record, _, hrecords,
    t.choices_lines hspelled fun e he => EnumDecl.distinct_of_compile hs he, ?_, ?_⟩
  · intro e _ k hk
    rw [Choice.outline, Dialect.map_name_variants]
    exact mem_map_iff_and (Target.variant_eq_iff hk e)
  · intro o _ k hk
    rw [(hfollows o).members, (hfollows o).params, List.map_map, List.map_map]
    constructor
    · exact mem_map_iff_and (Target.member_eq_iff hk o)
    · intro hmem
      obtain ⟨f, -, heq⟩ := List.mem_map.1 hmem
      exact Target.param_ne_keyword hk o f heq

/-- A package, a constant and an object that are called like reserved words of all targets. Every target
writes some of them without a mark. -/
theorem reserved_declared_everywhere : ∃ s,
    Schema.compile "package break const bool \x7b const = true \x7d object return \x7b \x7d" = .ok s ∧
    ∀ t : Target, ∃ source, t.render s = .ok source ∧ ("break" ∈ t.modules source ↔ t ≠ .rust) ∧
      ("const" ∈ t.introduced source ↔ t = .rust ∨ t = .go) ∧
      ("return" ∈ t.introduced source ↔ t ≠ .go) := by
  have hconst : MemberOf ["const", "=", "true"] ⟨"const", .bool true, .start⟩ := .mk (by decide) .true _
  have hderives : Derives _ _ := .mk (.path (n := "break") (by decide) (List.forall_mem_nil _))
    (.cons (.const (.unnamed .bool (.mk (.cons hconst .nil)) .start))
      (.cons (.object (.mk (n := "return") (by decide) (.mk .nil) .start)) .nil))
  have hrender := fun t hcheck => Target.render_of_derives t
    "package break const bool \x7b const = true \x7d object return \x7b \x7d" (by cbv) hderives
    (by decide +kernel) hcheck
  obtain ⟨s, -, hs, -, hplaced⟩ := hrender .rust (by decide +kernel)
  have hpackage : s.package = ["break"] := congrArg Schema.package hplaced
  have htitles : s.titles = ["return"] := by
    rw [← s.titles_unplaced, hplaced]
    decide
  have hentries : s.entries.filterMap Entry.name? = ["return"] := by
    rw [← s.entryNames_unplaced, hplaced]
    decide
  have hloose : ∀ k, '_' ∉ k.toList → (k ∈ s.looseNames ↔ k = "const") := by
    intro k hk
    rw [← Schema.mem_bindings_iff hk, ← s.bindings_unplaced, hplaced]
    exact List.mem_singleton
  refine ⟨s, hs, fun t => ?_⟩
  obtain ⟨s', source, hs', hsource, -⟩ := hrender t (by cases t <;> decide +kernel)
  obtain rfl := Except.ok.inj (hs.symm.trans hs')
  obtain ⟨hmodules, hintroduced, -⟩ := reserved_declared_iff t _ s hs source hsource
  obtain ⟨hbreak, hconst, hreturn⟩ :
      "break" ∈ t.keywords ∧ "const" ∈ t.keywords ∧ "return" ∈ t.keywords := by
    cases t <;> decide
  refine ⟨source, hsource, ?_⟩
  rw [hmodules _ hbreak, hintroduced _ hconst, hintroduced _ hreturn]
  cases t
  all_goals
    simp [Target.plainModules, Target.plainNames, Go.packageName, hpackage, htitles, hentries,
      hloose _ (Target.mark_not_mem hconst), hloose _ (Target.mark_not_mem hreturn)]

end Idl
