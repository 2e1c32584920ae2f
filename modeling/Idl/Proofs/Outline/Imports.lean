import Mathlib
import Idl.Proofs.Outline.Calls

/-!
# Imports and support types

What a file takes from elsewhere, or defines for its own use, stands before its declarations. Which
imports a source text has is read from its lines.

* `Outline.Avoids`: no line begins with a character. No declaration looks like an import.
* `Rust.mentions_type_iff`, `Rust.mem_rowsOf_iff`: where maps are mentioned, and their import.
* `Go.imported`, `Go.imported_lines`: the packages that a source text imports.
* `Go.mem_defined_bytes_iff`: the definition of the type of lists of `uint8`.
* **`support_follows_use`**: imports and support types stand in source text for a compiled schema
  exactly if they are used.
-/

namespace Idl

open Outline Lexeme Grammar

/-! ## First characters -/

namespace Outline

/-- No line begins with the character. -/
def Avoids (c : Char) (ls : List String) : Prop := ∀ l ∈ ls, l.toList.head?.all (· != c) = true

variable {c : Char} {l : String} {ls ls' : List String}

@[simp] theorem avoids_nil : Avoids c [] := List.forall_mem_nil _

@[simp] theorem avoids_cons : Avoids c (l :: ls) ↔ l.toList.head?.all (· != c) = true ∧ Avoids c ls :=
  List.forall_mem_cons

@[simp] theorem avoids_append : Avoids c (ls ++ ls') ↔ Avoids c ls ∧ Avoids c ls' :=
  List.forall_mem_append

@[simp] theorem avoids_flatMap {α : Type} {f : α → List String} {as : List α} :
    Avoids c (as.flatMap f) ↔ ∀ a ∈ as, Avoids c (f a) :=
  List.forall_mem_flatMap

@[simp] theorem avoids_ite {p : Prop} {_ : Decidable p} :
    Avoids c (if p then ls else ls') ↔ (p → Avoids c ls) ∧ (¬ p → Avoids c ls') := by
  by_cases hp : p
  · simp [hp]
  · simp [hp]

theorem avoids_indent {m : String} {d : Char} {v : Line} (hm : m.toList = d :: v)
    (hd : (d != c) = true) (ls : List String) : Avoids c (indent m ls) := by
  rw [Avoids, indent, List.forall_mem_map]
  intro l _
  split
  · rename_i hl
    rw [String.isEmpty_iff.1 hl]
    rfl
  · rw [String.toList_append, hm]
    exact hd

theorem Avoids.rows (h : Avoids c ls) : ∀ l ∈ rows ls, l.head?.all (· != c) = true := by
  intro l hl
  obtain ⟨x, hx, rfl⟩ := List.mem_map.1 (List.mem_filter.1 hl).1
  exact h x hx

end Outline

/-! ## Rust -/

namespace Rust

theorem avoids_declLines (d : Decl) : Avoids 'u' (declLines d) := by
  have hindent := avoids_indent (c := 'u') (m := margin) String.toList_ofList rfl
  cases d with
  | constants g => simp [declLines, constantsLines, constantLines]
  | choice c => simp [declLines, choiceLines, enumImpl, nest, block, hindent]
  | record r => simp [declLines, recordLines, nest, block, hindent]

/-- The line that imports maps. -/
def mapImport : String := "use std::collections::HashMap;"

theorem mem_lines_iff {s : Schema} : mapImport ∈ lines s ↔ s.usesMaps = true := by
  have hno : ∀ {ls}, Avoids 'u' ls → mapImport ∉ ls := fun h hmem =>
    absurd (h _ hmem) (by decide)
  have hheader : Avoids 'u' ["// Code generated by bidl. DO NOT EDIT.", ""] := by simp
  have hmods : Avoids 'u' (s.package.map fun name => s!"pub mod {avoid keywords name} \x7b") := by
    rw [Avoids, List.forall_mem_map]
    intro n _
    simp
  have hends : Avoids 'u' (s.package.map fun _ => "\x7d") := by
    rw [Avoids, List.forall_mem_map]
    exact fun _ _ => rfl
  have hdecls : Avoids 'u' ((dialect.decls s).flatMap declLines) :=
    avoids_flatMap.2 fun d _ => avoids_declLines d
  simp only [lines, List.mem_append, hno hheader, hno hmods, hno hdecls, hno hends, false_or,
    or_false]
  unfold imports mapImport
  simp only
  split_ifs <;> simp_all

theorem mem_rowsOf_iff {s : Schema} (hs : s.Spelled) :
    mapImport.toList ∈ rowsOf (sourceText (lines s)) ↔ s.usesMaps = true := by
  have hfilled : isFilled mapImport.toList = true := by decide
  have hrows : rowsOf (sourceText (lines s)) = rows (lines s) :=
    rowsOf_sourceText (Target.rust.lines_ne_nil s) (flat_lines hs)
  rw [hrows, rows, List.mem_filter, and_iff_left hfilled, List.mem_map, ← mem_lines_iff]
  constructor
  · rintro ⟨l, hl, heq⟩
    rwa [String.toList_injective heq] at hl
  · exact fun h => ⟨_, h, rfl⟩

/-- The words mention a map. -/
def Mentions (words : String) : Prop := "HashMap<".toList <:+: words.toList

theorem not_mentions {words : String} (h : '<' ∉ words.toList) : ¬ Mentions words := fun hwords =>
  h (hwords.subset (by decide))

/-- The words for a list have the same maps in them as those for its elements. -/
theorem mentions_list {words : String} : Mentions ("Vec<" ++ words ++ ">") ↔ Mentions words := by
  have hfirst : ∀ {c : Char} {x : Line}, c ≠ 'H' →
      ("HashMap<".toList <:+: c :: x ↔ "HashMap<".toList <:+: x) := by
    intro c x hc
    rw [List.infix_cons_iff, or_iff_right]
    rw [String.toList_ofList]
    exact fun h => hc (List.cons_prefix_cons.1 h).1.symm
  have hlast : ¬ "HashMap<".toList <:+ words.toList ++ ['>'] := by
    rintro ⟨u, hu⟩
    simpa using congrArg List.getLast? hu
  have hchars : ("Vec<" ++ words ++ ">").toList =
      'V' :: 'e' :: 'c' :: '<' :: (words.toList ++ ['>']) := by simp
  rw [Mentions, Mentions, hchars, hfirst (by decide), hfirst (by decide), hfirst (by decide),
    hfirst (by decide), List.infix_concat_iff, or_iff_right hlast]

theorem mentions_type_iff (s : Schema) {t : FieldType} (ht : t.Spelled) :
    Mentions (dialect.type s t) ↔ t.mapKey?.isSome = true := by
  induction t with
  | primitive p =>
    exact iff_of_false (not_mentions ((isWord_owned p).not_mem (by decide)))
      (by simp [FieldType.mapKey?])
  | named n =>
    exact iff_of_false (not_mentions (IsWord.not_mem ht (by decide))) (by simp [FieldType.mapKey?])
  | map k v =>
    refine iff_of_true ⟨[], (owned k).toList ++ (", ".toList ++ ((owned v).toList ++ ">".toList)),
      ?_⟩ rfl
    simp only [Dialect.type, dialect, toString_text, String.toList_append, List.append_assoc]
    rfl
  | list t ih =>
    rw [FieldType.mapKey?, ← ih ht]
    exact mentions_list

/-- The import of maps stands in a source text exactly if the type of some member mentions a map. -/
def MapsFollowUse (source : String) : Prop :=
  ∃ records, Target.rust.records source = some records ∧
    (mapImport.toList ∈ rowsOf source ↔ ∃ r ∈ records, ∃ m ∈ r.members, Mentions m.type)

theorem mapsFollowUse_lines {s : Schema} (hs : s.Spelled) :
    MapsFollowUse (sourceText (lines s)) := by
  obtain ⟨record, hrecords, hfollows⟩ := Target.rust.followsFields_lines hs
  have hmembers : ∀ o ∈ s.objects, (∃ m ∈ (record o).members, Mentions m.type) ↔
      ∃ f ∈ o.fields, f.type.mapKey?.isSome = true := by
    intro o ho
    rw [(hfollows o).members]
    simp only [List.mem_map, exists_exists_and_eq_and]
    exact exists_congr fun f => and_congr_right fun hf => mentions_type_iff s (hs.type ho hf)
  refine ⟨_, hrecords, ?_⟩
  rw [mem_rowsOf_iff hs, Schema.usesMaps]
  simp only [List.any_eq_true, List.mem_map, exists_exists_and_eq_and]
  exact exists_congr fun o => and_congr_right fun ho => (hmembers o ho).symm

end Rust

/-! ## Go -/

namespace Go

/-- The path between quotes. -/
def pathOf? (l : Line) : Option String := Text.unquote? (.ofList l)

/-- The paths in the rest of a text, which may begin in a group of imports. -/
def importedFrom : Bool → List Line → List String
  | _, [] => []
  | false, l :: ls =>
    if l = "import (".toList then importedFrom true ls
    else ((after? "import " l).bind pathOf?).toList ++ importedFrom false ls
  | true, l :: ls =>
    if l = ")".toList then importedFrom false ls
    else (pathOf? (l.dropWhile isMargin)).toList ++ importedFrom true ls

/-- The packages that a source text imports. -/
def imported (source : String) : List String := importedFrom false (rowsOf source)

theorem pathOf?_quote (p : String) : pathOf? (Text.quote p).toList = some p := by
  rw [pathOf?, String.ofList_toList, Text.unquote?_quote]

/-- Lines that begin with another letter. -/
theorem importedFrom_append {ls : List Line} (h : ∀ l ∈ ls, l.head?.all (· != 'i') = true)
    (rest : List Line) : importedFrom false (ls ++ rest) = importedFrom false rest := by
  induction ls with
  | nil => rfl
  | cons l ls ih =>
    rw [List.forall_mem_cons] at h
    have hopen : l ≠ "import (".toList := by
      rintro rfl
      exact absurd h.1 (by decide)
    have hafter : after? "import " l = none := by
      rw [after?, String.toList_ofList]
      cases l with
      | nil => rfl
      | cons c x =>
        have hc := h.1
        rw [List.head?_cons, Option.all_some, bne_iff_ne] at hc
        simp [List.isPrefixOf?, beq_false_of_ne hc.symm]
    rw [List.cons_append, importedFrom, if_neg hopen, hafter]
    exact ih h.2

theorem exists_toList_quote (p : String) : ∃ x, (Text.quote p).toList = '"' :: x :=
  ⟨_, by rw [Text.quote, String.toList_ofList]; rfl⟩

theorem rows_quote (p : String) (ls : List String) :
    rows (Text.quote p :: ls) = (Text.quote p).toList :: rows ls := by
  obtain ⟨x, hx⟩ := exists_toList_quote p
  rw [rows, List.map_cons, List.filter_cons_of_pos, ← rows]
  rw [hx]
  rfl

theorem importedFrom_quotes (ps : List String) (rest : List Line) :
    importedFrom true ((rows (ps.map Text.quote)).map (margin.toList ++ ·) ++ rest) =
      ps ++ importedFrom true rest := by
  induction ps with
  | nil => rfl
  | cons p ps ih =>
    obtain ⟨x, hx⟩ := exists_toList_quote p
    have hclose : margin.toList ++ (Text.quote p).toList ≠ ")".toList := by simp [margin]
    have hpath : (margin.toList ++ (Text.quote p).toList).dropWhile isMargin =
        (Text.quote p).toList := by
      rw [List.dropWhile_append_of_pos blank_margin, hx]
      rfl
    rw [List.map_cons, rows_quote, List.map_cons, List.cons_append, importedFrom, if_neg hclose,
      hpath, pathOf?_quote, ih]
    rfl

theorem importedFrom_importLines (ps : List String) (rest : List Line) :
    importedFrom false (rows (importLines ps) ++ rest) = ps ++ importedFrom false rest := by
  unfold importLines
  split
  · rfl
  · rename_i p
    obtain ⟨x, hx⟩ := exists_toList_quote p
    have hrows : rows ["", "import " ++ Text.quote p] =
        ["import ".toList ++ (Text.quote p).toList] := by simp [rows, isFilled]
    have hopen : "import ".toList ++ (Text.quote p).toList ≠ "import (".toList := by simp [hx]
    rw [hrows, List.singleton_append, importedFrom, if_neg hopen, after?_append, Option.bind_some,
      pathOf?_quote]
    rfl
  · have hrows : ∀ body, rows ("" :: group "import" body) =
        "import (".toList :: ((rows body).map (margin.toList ++ ·) ++ [")".toList]) := by
      intro body
      have hopen : rows ["import" ++ " ("] = ["import (".toList] := by simp [rows, isFilled]
      have hclose : rows [")"] = [")".toList] := by simp [rows, isFilled]
      rw [rows_blank, ← rows_indent blank_margin, ← hclose, ← rows_append, ← List.singleton_append,
        ← hopen, ← rows_append]
      rfl
    rw [hrows, List.cons_append, importedFrom, if_pos rfl, List.append_assoc, importedFrom_quotes,
      List.singleton_append, importedFrom, if_pos rfl]

theorem avoids_declLines (d : Decl) : Avoids 'i' (declLines d) := by
  have hindent := avoids_indent (c := 'i') (m := margin) String.toList_ofList rfl
  cases d with
  | constants g => simp [declLines, constantsLines, group, hindent]
  | choice c => simp [declLines, choiceLines, group, nest, block, hindent]
  | record r => simp [declLines, recordLines, nest, block, hindent]

theorem avoids_bytesLines : Avoids 'i' bytesLines := by
  have hindent := avoids_indent (c := 'i') (m := margin) String.toList_ofList rfl
  simp [bytesLines, nest, block, hindent]

/-- **A file imports the packages that it is to have**, in the same order. -/
theorem imported_lines {s : Schema} (hs : s.Spelled) :
    imported (sourceText (lines s)) = imports s := by
  have hheader : Avoids 'i'
      ["// Code generated by bidl. DO NOT EDIT.", "", s!"package {packageName s}"] := by simp
  have hblocks : Avoids 'i' (spaced
      ((if usesBytes s then [bytesLines] else []) ++ (dialect.decls s).map declLines)) := by
    rw [spaced, avoids_flatMap, List.forall_mem_append, List.forall_mem_map]
    constructor
    · split
      · exact List.forall_mem_singleton.2 (avoids_cons.2 ⟨rfl, avoids_bytesLines⟩)
      · exact List.forall_mem_nil _
    · exact fun d _ => avoids_cons.2 ⟨rfl, avoids_declLines d⟩
  have hrows : rowsOf (sourceText (lines s)) = rows (lines s) :=
    rowsOf_sourceText (Target.go.lines_ne_nil s) (flat_lines hs)
  have hrest := importedFrom_append hblocks.rows []
  rw [List.append_nil] at hrest
  rw [imported, hrows, lines, rows_append, rows_append, List.append_assoc,
    importedFrom_append hheader.rows, importedFrom_importLines, hrest]
  exact List.append_nil _

/-- Some field is a list of `uint8`, to whatever depth. -/
def HoldsByteLists (s : Schema) : Prop :=
  ∃ o ∈ s.objects, ∃ f ∈ o.fields, (∃ e, f.type = .list e) ∧ f.type.core = .primitive .uint8

theorem usesBytes_iff {s : Schema} : usesBytes s = true ↔ HoldsByteLists s := by
  simp only [usesBytes, List.any_eq_true, holdsBytes_iff, HoldsByteLists]

theorem mem_defined_bytes_iff {s : Schema} (hs : s.Spelled) :
    "Uint8List" ∈ defined (sourceText (lines s)) "[]uint8" ↔ HoldsByteLists s := by
  rw [mem_defined_iff hs, ← usesBytes_iff]
  constructor
  · rintro (⟨hbytes, -⟩ | ⟨e, -, htype, -⟩ | ⟨hstruct, -⟩)
    · exact hbytes
    · exact absurd htype (by cases e.type <;> decide)
    · exact absurd hstruct (by decide)
  · exact fun hbytes => .inl ⟨hbytes, rfl, rfl⟩

theorem count_declared_bytes {s : Schema} (hs : s.Spelled) (hcheck : check s = .ok ())
    (hbytes : HoldsByteLists s) : (declared (sourceText (lines s))).count "Uint8List" = 1 := by
  have hnodup := (nodup_declared_iff hs).2 (bind_unit_eq_ok_iff.1 hcheck).1
  refine List.count_eq_one_of_mem hnodup ?_
  rw [declared_lines hs, topNames, if_pos (usesBytes_iff.2 hbytes)]
  simp

/-- The type of lists of `uint8` is defined exactly if some field is such a list, and its name is
declared once then. -/
structure BytesFollowUse (s : Schema) (source : String) : Prop where
  defined : "Uint8List" ∈ Go.defined source "[]uint8" ↔ HoldsByteLists s
  once : HoldsByteLists s → (declared source).count "Uint8List" = 1

/-- A source text imports a package exactly if its code uses it. -/
structure ImportsFollowUse (source : String) : Prop where
  json : "encoding/json" ∈ imported source ↔ Uses "json" (code source)
  fmt : "fmt" ∈ imported source ↔ Uses "fmt" (code source)
  /-- No other package is imported. -/
  only : imported source ⊆ ["encoding/json", "fmt"]
  once : (imported source).Nodup

theorem importsFollowUse_lines {s : Schema} (hs : s.Spelled) :
    ImportsFollowUse (sourceText (lines s)) := by
  constructor
  all_goals
    simp only [imported_lines hs, imports, uses_json_iff hs, uses_fmt_iff hs]
    cases s.hasObjects <;> cases s.hasEnums <;> decide

end Go

/-! ## Files -/

/-- **Imports and support types are there when they are used.** Source text for a compiled schema
has the import of maps if the type of a member mentions a map, the type of lists of `uint8` if a
field is such a list, and the import of a package if its code uses the package, and only then. -/
theorem support_follows_use (text : String) (s : Schema) (hs : Schema.compile text = .ok s) :
    (∀ source, Target.rust.render s = .ok source → Rust.MapsFollowUse source) ∧
    (∀ source, Target.go.render s = .ok source →
      Go.BytesFollowUse s source ∧ Go.ImportsFollowUse source) := by
  have hspelled := Schema.spelled_of_compile hs
  constructor
  · intro source hsource
    obtain ⟨-, rfl⟩ := Target.render_eq_ok_iff.1 hsource
    exact Rust.mapsFollowUse_lines hspelled
  · intro source hsource
    obtain ⟨hcheck, rfl⟩ := Target.render_eq_ok_iff.1 hsource
    exact ⟨⟨Go.mem_defined_bytes_iff hspelled, Go.count_declared_bytes hspelled hcheck⟩,
      Go.importsFollowUse_lines hspelled⟩

/-- A constant whose text names a package, and an object with a map and lists of bytes. -/
theorem support_follows_use_quoted :
    ∃ s rust go records, Schema.compile ("const string \x7b A = \"fmt.Sprintf(\" \x7d " ++
        "object O \x7b list of list of uint8 xs map string for bool m \x7d") = .ok s ∧
      Target.rust.render s = .ok rust ∧ Target.rust.records rust = some records ∧
      (∃ r ∈ records, ∃ m ∈ r.members, Rust.Mentions m.type) ∧
      Target.go.render s = .ok go ∧ "Uint8List" ∈ Go.defined go "[]uint8" ∧
      (Go.declared go).count "Uint8List" = 1 ∧ Go.Uses "json" (Go.code go) ∧
      ¬ Go.Uses "fmt" (Go.code go) := by
  have htext : MemberOf ["A", "=", "\"fmt.Sprintf(\""] ⟨"A", .string "fmt.Sprintf(", .start⟩ :=
    .mk (by decide) (.string (by cbv)) _
  have hlist : FieldOf ["list", "of", "list", "of", "uint8", "xs"]
      ⟨.list (.list (.primitive .uint8)), "xs", .start⟩ :=
    .mk (.list (.list (.primitive .uint8))) (by decide) _
  have hmap : FieldOf ["map", "string", "for", "bool", "m"] ⟨.map .string .bool, "m", .start⟩ :=
    .mk (.map .string .bool) (by decide) _
  have hfields := Braced.mk (.cons hlist (.cons hmap .nil))
  have hderives : Derives _ _ := .mk .none
    (.cons (.const (.unnamed .string (.mk (.cons htext .nil)) .start))
      (.cons (.object (.mk (n := "O") (by decide) hfields .start)) .nil))
  obtain ⟨s, hs, hplaced⟩ := @Schema.compile_of_derives
    ("const string \x7b A = \"fmt.Sprintf(\" \x7d " ++
      "object O \x7b list of list of uint8 xs map string for bool m \x7d")
    _ _ (by cbv) hderives (by decide +kernel)
  have hrender : ∀ t ∈ [Target.rust, .go], t.render s = .ok (sourceText (t.lines s)) := by
    have hcheck : ∀ t ∈ [Target.rust, .go], t.check s.unplaced = .ok () := by
      rw [hplaced]
      decide +kernel
    intro t ht
    rw [Target.render_eq_ok_iff, ← t.check_unplaced]
    exact ⟨hcheck t ht, rfl⟩
  have hrust := hrender .rust (by simp)
  have hgo := hrender .go (by simp)
  obtain ⟨hmaps, hsupport⟩ := support_follows_use _ s hs
  obtain ⟨records, hrecords, hmaps⟩ := hmaps _ hrust
  obtain ⟨hbytes, himports⟩ := hsupport _ hgo
  have hspelled := Schema.spelled_of_compile hs
  have huses : s.usesMaps = true := by
    rw [← Schema.usesMaps_unplaced, hplaced]
    rfl
  have hholds : Go.HoldsByteLists s := by
    rw [← Go.usesBytes_iff, ← Go.usesBytes_unplaced, hplaced]
    rfl
  have himported : Go.imported (sourceText (Target.go.lines s)) = ["encoding/json"] := by
    refine (Go.imported_lines hspelled).trans ?_
    rw [Go.imports, ← Schema.hasObjects_unplaced, ← Schema.hasEnums_unplaced, hplaced]
    rfl
  refine ⟨s, _, _, records, hs, hrust, hrecords, ?_, hgo, hbytes.defined.2 hholds,
    hbytes.once hholds, ?_, ?_⟩
  · exact hmaps.1 ((Rust.mem_rowsOf_iff hspelled).2 huses)
  · rw [← himports.json, himported]
    decide
  · rw [← himports.fmt, himported]
    decide

end Idl
