import Mathlib
import Idl.Proofs.Outline.Blocks

/-!
# The names that a source text introduces

Which names a source text introduces beside each other is read from the text alone, line by line. Rust
and Dart have their declarations at the left margin, and TypeScript marks them as exported.

* `Rust.introduced`, `Dart.introduced`, `TypeScript.introduced`: the names of a source text.
* **`Rust.introduced_lines`**, **`Dart.introduced_lines`**, **`TypeScript.introduced_lines`**: the
  names of a file.
-/

namespace Idl

open Lexeme

namespace Outline

/-- The word after a text, if another text follows it. -/
def nameAt? (start stop : String) (l : Line) : Option String :=
  (after? start l).bind fun r => (word? r).bind fun w => (after? stop w.2).map fun _ => .ofList w.1

/-- The words of a line. -/
def wordsIn (l : Line) : List String :=
  ((l.splitOnP fun c => !isNamePart c).filter (· ≠ [])).map .ofList

theorem nameAt?_append {n q : String} {c : Char} {v : Line} (p : String) (hn : IsWord n.toList)
    (hq : q.toList = c :: v) (hc : isNamePart c = false) (x : Line) :
    nameAt? p q (p.toList ++ (n.toList ++ (q.toList ++ x))) = some n := by
  have hstops : Stops isNamePart (q.toList ++ x) := by
    rw [hq]
    exact stops_cons.2 hc
  rw [nameAt?, after?_append, Option.bind_some, word?_append hn hstops, Option.bind_some,
    after?_append, Option.map_some, String.ofList_toList]

@[simp] theorem nameAt?_eq_none {start : String} {l : Line} (h : after? start l = none)
    (stop : String) : nameAt? start stop l = none := by
  rw [nameAt?, h, Option.bind_none]

theorem filterMap_nameAt? {p q n : String} {l : Line} (before others : List (String × String))
    (hname : nameAt? p q l = some n) (hbefore : ∀ form ∈ before, after? form.1 l = none)
    (hothers : ∀ form ∈ others, after? form.1 l = none) :
    (before ++ (p, q) :: others).filterMap (fun form => nameAt? form.1 form.2 l) = [n] := by
  have hnone : ∀ forms : List (String × String), (∀ form ∈ forms, after? form.1 l = none) →
      forms.filterMap (fun form => nameAt? form.1 form.2 l) = [] :=
    fun forms h => List.filterMap_eq_nil_iff.2 fun form hform => nameAt?_eq_none (h form hform) form.2
  rw [List.filterMap_append, hnone before hbefore, List.filterMap_cons, hname, hnone others hothers]
  rfl

/-- A text that begins with a word and a blank does not begin with another mark in between. -/
theorem isPrefixOf?_mark {u v w x : Line} {c : Char} (hw : ' ' ∉ w) (hu : ' ' ∉ u)
    (hc : c ∉ w ++ [' ']) : (w ++ ' ' :: v).isPrefixOf? (u ++ c :: x) = none := by
  rw [Option.eq_none_iff_forall_ne_some]
  intro z hz
  rw [List.isPrefixOf?_eq_some_iff_append_eq, List.append_assoc] at hz
  have hblank : ∀ {y : Line}, ' ' ∉ y → ∀ d ∈ y, (d != ' ') = true := by
    rintro y hy d hd
    exact bne_iff_ne.2 fun h => hy (h ▸ hd)
  rw [List.mem_append, not_or] at hc
  have htake := congrArg (List.takeWhile (· != ' ')) hz
  rw [takeWhile_append_stops (hblank hw) (by exact rfl), List.takeWhile_append_of_pos (hblank hu),
    List.takeWhile_cons_of_pos (by simpa using hc.2)] at htake
  exact hc.1 (htake ▸ by simp)

/-! ## Lines at the left margin -/

/-- A reading that finds nothing on lines that begin with a blank. -/
structure Leftmost (f : Line → List String) : Prop where
  nil : f [] = []
  margin : ∀ c x, isMargin c = true → f (c :: x) = []

namespace Leftmost

variable {f : Line → List String}

theorem of_blank (hnil : f [] = []) (hspace : ∀ x, f (' ' :: x) = []) (htab : ∀ x, f ('\t' :: x) = []) :
    Leftmost f where
  nil := hnil
  margin c x hc := by
    rw [isMargin, Bool.or_eq_true, beq_iff_eq, beq_iff_eq] at hc
    rcases hc with rfl | rfl
    · exact hspace x
    · exact htab x

theorem flatMap_rows (hf : Leftmost f) (ls : List String) :
    (rows ls).flatMap f = ls.flatMap fun l => f l.toList := by
  induction ls with
  | nil => rfl
  | cons l ls ih =>
    have hrows : rows (l :: ls) = rows [l] ++ rows ls := rows_append [l] ls
    rw [hrows, List.flatMap_append, ih, List.flatMap_cons]
    congr 1
    rw [rows, List.map_singleton, List.filter_singleton]
    cases hl : isFilled l.toList with
    | true => exact List.flatMap_singleton f _
    | false =>
      -- a blank line is empty or begins with a blank
      cases hchars : l.toList with
      | nil => exact hf.nil.symm
      | cons c cs =>
        have hc : isMargin c = true := by
          rw [isFilled, hchars, List.all_cons, Bool.not_eq_false', Bool.and_eq_true] at hl
          exact hl.1
        exact (hf.margin c cs hc).symm

theorem flatMap_indent (hf : Leftmost f) {m : String} {c : Char} {v : Line} (hm : m.toList = c :: v)
    (hc : isMargin c = true) (ls : List String) : (indent m ls).flatMap (fun l => f l.toList) = [] := by
  rw [List.flatMap_eq_nil_iff, indent, List.forall_mem_map]
  intro l _
  split
  · rename_i hl
    rw [String.isEmpty_iff.1 hl]
    exact hf.nil
  · rw [String.toList_append, hm]
    exact hf.margin c _ hc

theorem flatMap_block (hf : Leftmost f) (hclose : f "\x7d".toList = []) {m : String} {c : Char} {v : Line}
    (hm : m.toList = c :: v) (hc : isMargin c = true) (head : String) (body : List String) :
    (block m head body).flatMap (fun l => f l.toList) = f (head ++ " \x7b").toList := by
  rw [block, List.flatMap_append, List.flatMap_cons, hf.flatMap_indent hm hc, List.flatMap_singleton,
    hclose, List.append_nil, List.append_nil]

end Leftmost

/-! ## Lines at any margin -/

theorem dropWhile_eq_nil {l : Line} (hl : isFilled l = false) : l.dropWhile isMargin = [] := by
  rw [isFilled, Bool.not_eq_false', List.all_eq_true] at hl
  exact List.dropWhile_eq_nil_iff.2 hl

/-- A reading that does not look at margins finds the same on the lines that are not blank. -/
theorem flatMap_filter_isFilled {f : Line → List String} (hf : f [] = []) (ls : List Line) :
    (ls.filter isFilled).flatMap (fun l => f (l.dropWhile isMargin)) =
      (ls.map (List.dropWhile isMargin)).flatMap f := by
  induction ls with
  | nil => rfl
  | cons l ls ih =>
    rw [List.map_cons, List.flatMap_cons, ← ih, List.filter_cons]
    split
    · rw [List.flatMap_cons]
    · rename_i hl
      rw [dropWhile_eq_nil (by simpa using hl), hf, List.nil_append]

theorem flatMap_rows_bare {f : Line → List String} (hf : f [] = []) (ls : List String) :
    (rows ls).flatMap (fun l => f (l.dropWhile isMargin)) = (bareLines ls).flatMap f := by
  rw [rows, flatMap_filter_isFilled hf, List.map_map]
  rfl

end Outline

open Outline

/-- What is read from the lines of a file is read from the lines before its declarations and from
these, if nothing is read from the lines after them. -/
theorem Target.flatMap_rowsOf (t : Target) {s : Schema} (hs : s.Spelled) {f : Line → List String}
    {first : List String} {names : Decl → List String}
    (hopening : (rows (t.opening s)).flatMap f = first)
    (hdecl : ∀ d ∈ t.dialect.decls s,
      (rows (t.declLines s d)).flatMap (fun l => f (t.inset s ++ l)) = names d)
    (hclosing : (rows (t.closing s)).flatMap f = []) :
    (rowsOf (sourceText (t.lines s))).flatMap f = first ++ (t.dialect.decls s).flatMap names := by
  have hblocks : (s.entries.flatMap (t.block s)).flatMap f = (t.dialect.decls s).flatMap names := by
    rw [t.flatMap_block, List.flatMap_map, List.flatMap_assoc]
    exact List.flatMap_congr hdecl
  rw [t.rowsOf_sourceText hs, List.flatMap_append, List.flatMap_append, hopening, hblocks, hclosing,
    List.append_nil]

/-- The names that a declaration introduces beside those of other declarations. -/
def Decl.names : Decl → List String
  | .constants g => g.rows.map Constant.name
  | .choice c => [c.name]
  | .record r => [r.name]

/-! ## Rust -/

namespace Rust

/-- The names that a line imports. -/
def importedBy (l : Line) : List String :=
  match between? "use " ";" l with
  | some path => wordsIn (path.reverse.takeWhile (· != ':')).reverse
  | none => []

/-- The names that a line introduces. -/
def introducedBy (l : Line) : List String :=
  importedBy l ++
    [("pub const ", ": "), ("pub enum ", " \x7b"), ("pub struct ", " \x7b")].filterMap fun form =>
      nameAt? form.1 form.2 l

/-- The names that a source text introduces. The modules of a package path stand around all of them. -/
def introduced (source : String) : List String := (rowsOf source).flatMap introducedBy

/-- The names that a file imports. -/
def importedNames (s : Schema) : List String :=
  (if s.usesMaps then ["HashMap"] else [])
    ++ (if s.hasEnums || s.hasObjects then ["Deserialize", "Serialize"] else [])
    ++ (if s.hasEnums then ["LookupError"] else [])

@[simp] theorem importedBy_eq_nil {l : Line} (h : after? "use " l = none) : importedBy l = [] := by
  rw [importedBy, between?_eq_none h]

@[simp] theorem introducedBy_eq_nil {l : Line} (huse : after? "use " l = none)
    (hconst : after? "pub const " l = none) (henum : after? "pub enum " l = none)
    (hstruct : after? "pub struct " l = none) : introducedBy l = [] := by
  rw [introducedBy, importedBy_eq_nil huse, List.filterMap_cons, nameAt?_eq_none hconst,
    List.filterMap_cons, nameAt?_eq_none henum, List.filterMap_cons, nameAt?_eq_none hstruct]
  rfl

theorem leftmost_introducedBy : Leftmost introducedBy := .of_blank (by simp) (by simp) (by simp)

theorem introducedBy_const {n : String} (hn : IsWord n.toList) (x : Line) :
    introducedBy ("pub const ".toList ++ (n.toList ++ (": ".toList ++ x))) = [n] := by
  rw [introducedBy, importedBy_eq_nil (by simp)]
  exact filterMap_nameAt? [] _ (nameAt?_append _ hn String.toList_ofList rfl _) (by simp) (by simp)

theorem introducedBy_enum {n : String} (hn : IsWord n.toList) :
    introducedBy (s!"pub enum {n}" ++ " \x7b").toList = [n] := by
  have hname := nameAt?_append "pub enum " hn (q := " \x7b") String.toList_ofList rfl []
  rw [List.append_nil] at hname
  simp only [toString_text, String.toList_append, List.append_assoc]
  rw [introducedBy, importedBy_eq_nil (by simp)]
  exact filterMap_nameAt? [("pub const ", ": ")] _ hname (by simp) (by simp)

theorem introducedBy_struct {n : String} (hn : IsWord n.toList) :
    introducedBy (s!"pub struct {n}" ++ " \x7b").toList = [n] := by
  have hname := nameAt?_append "pub struct " hn (q := " \x7b") String.toList_ofList rfl []
  rw [List.append_nil] at hname
  simp only [toString_text, String.toList_append, List.append_assoc]
  rw [introducedBy, importedBy_eq_nil (by simp)]
  exact filterMap_nameAt? [("pub const ", ": "), ("pub enum ", " \x7b")] _ hname (by simp) (by simp)

theorem introducedBy_imports (s : Schema) :
    (imports s).flatMap (fun l => introducedBy l.toList) = importedNames s := by
  have hmap : introducedBy "use std::collections::HashMap;".toList = ["HashMap"] := by decide +kernel
  have hserde : introducedBy "use serde::\x7bDeserialize, Serialize\x7d;".toList =
      ["Deserialize", "Serialize"] := by decide +kernel
  have herror : introducedBy "use brine_idl::LookupError;".toList = ["LookupError"] := by decide +kernel
  have hblank : introducedBy "".toList = [] := leftmost_introducedBy.nil
  unfold imports importedNames
  cases s.usesMaps <;> cases s.hasEnums <;> cases s.hasObjects
  all_goals simp only [reduceIte, Bool.or_self, Bool.or_true, Bool.true_or, Bool.false_eq_true,
    List.nil_append, List.append_nil, List.cons_append, List.isEmpty_nil, List.isEmpty_cons,
    List.flatMap_cons, List.flatMap_nil, hmap, hserde, herror, hblank]

theorem introducedBy_declLines {d : Decl} (h : Tidy .plain d) :
    (declLines d).flatMap (fun l => introducedBy l.toList) = d.names := by
  have hnest := leftmost_introducedBy.flatMap_block (m := margin) (by simp) String.toList_ofList rfl
  cases d with
  | constants g =>
    have hrow : ∀ c ∈ g.rows,
        (constantLines g.type c).flatMap (fun l => introducedBy l.toList) = [c.name] := by
      intro c hc
      simp only [constantLines, List.flatMap_append, List.flatMap_singleton, toString_text,
        String.toList_append, List.append_assoc, introducedBy_const (h.2.2 c hc).1]
      split <;> simp
    rw [declLines, constantsLines, List.flatMap_append, List.flatMap_assoc, List.flatMap_singleton,
      List.flatMap_congr hrow, Decl.names, List.map_eq_flatMap]
    simp
  | choice c =>
    simp only [declLines, choiceLines, enumImpl, List.flatMap_append, hnest, introducedBy_enum h.1,
      List.flatMap_cons, List.flatMap_nil]
    simp [Decl.names]
  | record r =>
    simp only [declLines, recordLines, List.flatMap_append, hnest, introducedBy_struct h.1,
      List.flatMap_cons, List.flatMap_nil]
    split <;> simp [Decl.names]

/-- **The names that a file introduces**: those it imports and those of its declarations. -/
theorem introduced_lines {s : Schema} (hs : s.Spelled) :
    introduced (sourceText (lines s)) = importedNames s ++ (dialect.decls s).flatMap Decl.names := by
  have hrows := leftmost_introducedBy.flatMap_rows
  have hopening : (rows (Target.rust.opening s)).flatMap introducedBy = importedNames s := by
    have hmodules : (s.package.map fun name => s!"pub mod {avoid keywords name} \x7b").flatMap
        (fun l => introducedBy l.toList) = [] := by simp [List.flatMap_map]
    rw [hrows, Target.opening, List.flatMap_append, List.flatMap_append, introducedBy_imports, hmodules]
    simp
  have hclosing : (rows (Target.rust.closing s)).flatMap introducedBy = [] := by
    simp [hrows, Target.closing]
  refine Target.rust.flatMap_rowsOf hs hopening ?_ hclosing
  exact fun d hd => (hrows _).trans (introducedBy_declLines (tidy_dialect.decls hs d hd))

end Rust

/-! ## Dart -/

namespace Dart

/-- The name that a line introduces, if there is one. -/
def introducedBy (l : Line) : List String :=
  ((((after? "const " l).bind word?).bind fun type => nameAt? " " " = " type.2).or <|
    (nameAt? "enum " " \x7b" l).or (nameAt? "class " " \x7b" l)).toList

/-- The names that a source text introduces. -/
def introduced (source : String) : List String := (rowsOf source).flatMap introducedBy

@[simp] theorem introducedBy_eq_nil {l : Line} (hconst : after? "const " l = none)
    (henum : after? "enum " l = none) (hclass : after? "class " l = none) : introducedBy l = [] := by
  rw [introducedBy, hconst, nameAt?_eq_none henum, nameAt?_eq_none hclass]
  rfl

theorem leftmost_introducedBy : Leftmost introducedBy := .of_blank (by simp) (by simp) (by simp)

theorem introducedBy_const {t n : String} (ht : IsWord t.toList) (hn : IsWord n.toList) (x : Line) :
    introducedBy ("const ".toList ++ (t.toList ++ (" ".toList ++ (n.toList ++ (" = ".toList ++ x))))) =
      [n] := by
  have hstops : Stops isNamePart (" ".toList ++ (n.toList ++ (" = ".toList ++ x))) :=
    stops_ofList_append rfl
  rw [introducedBy, after?_append, Option.bind_some, word?_append ht hstops, Option.bind_some,
    nameAt?_append _ hn String.toList_ofList rfl, Option.some_or, Option.toList_some]

theorem introducedBy_enum {n : String} (hn : IsWord n.toList) :
    introducedBy (s!"enum {n}" ++ " \x7b").toList = [n] := by
  have hname := nameAt?_append "enum " hn (q := " \x7b") String.toList_ofList rfl []
  simp only [toString_text, String.toList_append, List.append_assoc]
  rw [List.append_nil] at hname
  rw [introducedBy, hname]
  simp

theorem introducedBy_class {n : String} (hn : IsWord n.toList) :
    introducedBy (s!"class {n}" ++ " \x7b").toList = [n] := by
  have hname := nameAt?_append "class " hn (q := " \x7b") String.toList_ofList rfl []
  simp only [toString_text, String.toList_append, List.append_assoc]
  rw [List.append_nil] at hname
  rw [introducedBy, hname]
  simp

theorem introducedBy_declLines (s : Schema) {e : Entry} (h : Tidy .plain (dialect.declare s e)) :
    (declLines s (dialect.declare s e)).flatMap (fun l => introducedBy l.toList) =
      (dialect.declare s e).names := by
  have hnest := leftmost_introducedBy.flatMap_block (m := margin) (by simp) String.toList_ofList rfl
  cases e with
  | const c =>
    rw [Dialect.declare, declLines, constantsLines, List.flatMap_map, Decl.names, List.map_eq_flatMap]
    apply List.flatMap_congr
    intro row hrow
    simp only [toString_text, String.toList_append, List.append_assoc]
    exact introducedBy_const (isWord_primitive c.type) (h.2.2 row hrow).1 _
  | enum e => exact (hnest _ _).trans (introducedBy_enum h.1)
  | object o => exact (hnest _ _).trans (introducedBy_class h.1)

/-- **The names that a file introduces** are those of its declarations. -/
theorem introduced_lines {s : Schema} (hs : s.Spelled) :
    introduced (sourceText (lines s)) = (dialect.decls s).flatMap Decl.names := by
  have hrows := leftmost_introducedBy.flatMap_rows
  have hopening : (rows (Target.dart.opening s)).flatMap introducedBy = [] := by
    rw [hrows, Target.opening]
    split_ifs <;> simp
  refine Target.dart.flatMap_rowsOf hs hopening ?_ rfl
  intro d hd
  obtain ⟨e, he, rfl⟩ := List.mem_map.1 hd
  exact (hrows _).trans (introducedBy_declLines s (tidy_dialect.decls hs _ hd))

end Dart

/-! ## TypeScript -/

namespace TypeScript

/-- The name that a line introduces, if there is one. -/
def introducedBy (l : Line) : List String :=
  [("export const ", ": "), ("export enum ", " \x7b"), ("export function ", "("),
    ("export class ", " \x7b")].filterMap fun form => nameAt? form.1 form.2 l

/-- The names that a source text introduces. The namespaces of a package path stand around all of
them. -/
def introduced (source : String) : List String := (linesOf source).flatMap introducedBy

/-- The functions that a declaration introduces. -/
def lookupNames : Decl → List String
  | .choice c => ["indexOf" ++ c.name, "valueAt" ++ c.name]
  | .constants _ | .record _ => []

/-- A line exports nothing. A member of an enum may have the name of the word for exports. -/
def Unexported (l : Line) : Prop := ∀ r, after? "export " l = some r → r.head? = some '='

theorem unexported {l : Line} (hl : after? "export " l = none) : Unexported l := by
  intro r hr
  rw [hl] at hr
  cases hr

/-- What an export begins with is not found on a line without one. -/
theorem Unexported.after?_eq_none {l : Line} (hl : Unexported l) {p : String} {c : Char} {y : Line}
    (hp : p.toList = "export ".toList ++ c :: y) (hc : c ≠ '=') : after? p l = none := by
  rw [Option.eq_none_iff_forall_ne_some]
  intro z hz
  rw [after?, List.isPrefixOf?_eq_some_iff_append_eq, hp, List.append_assoc] at hz
  have hhead := hl (c :: (y ++ z)) (List.isPrefixOf?_eq_some_iff_append_eq.2 hz)
  exact hc (Option.some.inj hhead)

theorem introducedBy_eq_nil {l : Line} (hl : Unexported l) : introducedBy l = [] := by
  rw [introducedBy, List.filterMap_eq_nil_iff]
  simp only [List.forall_mem_cons, List.not_mem_nil, IsEmpty.forall_iff, implies_true, and_true]
  refine ⟨nameAt?_eq_none ?_ _, nameAt?_eq_none ?_ _, nameAt?_eq_none ?_ _, nameAt?_eq_none ?_ _⟩
  · exact hl.after?_eq_none (c := 'c') (y := "onst ".toList) (by simp) (by decide)
  · exact hl.after?_eq_none (c := 'e') (y := "num ".toList) (by simp) (by decide)
  · exact hl.after?_eq_none (c := 'f') (y := "unction ".toList) (by simp) (by decide)
  · exact hl.after?_eq_none (c := 'c') (y := "lass ".toList) (by simp) (by decide)

/-- Lines that export nothing. -/
def Quiet (ls : List String) : Prop := ∀ l ∈ bareLines ls, Unexported l

theorem Quiet.flatMap_eq_nil {f : Line → List String} (hf : ∀ l, Unexported l → f l = [])
    {ls : List String} (h : Quiet ls) : (bareLines ls).flatMap f = [] :=
  List.flatMap_eq_nil_iff.2 fun l hl => hf l (h l hl)

theorem unexported_close : Unexported (bare "\x7d") := by
  apply unexported
  simp

/-- What is read from a line and lines between braces, if these export nothing. -/
theorem flatMap_nest {f : Line → List String} (hf : ∀ l, Unexported l → f l = []) {head : String}
    {body : List String} (hbody : Quiet body) :
    (bareLines (nest head body)).flatMap f = f (bare (head ++ " \x7b")) := by
  rw [nest, block, bareLines_append, bareLines_cons, bareLines_indent blank_margin, bareLines_cons,
    bareLines_nil, List.flatMap_append, List.flatMap_cons, hbody.flatMap_eq_nil hf,
    List.flatMap_singleton, hf _ unexported_close, List.append_nil, List.append_nil]

theorem introducedBy_const {n : String} (hn : IsWord n.toList) (t x : String) :
    introducedBy (bare s!"export const {n}: {t} = {x};") = [n] := by
  have hline : bare s!"export const {n}: {t} = {x};" = "export const ".toList ++ (n.toList ++
      (": ".toList ++ (t.toList ++ (" = ".toList ++ (x.toList ++ ";".toList))))) := by simp
  rw [hline]
  exact filterMap_nameAt? [] _ (nameAt?_append _ hn String.toList_ofList rfl _) (by simp) (by simp)

theorem introducedBy_enum {n : String} (hn : IsWord n.toList) :
    introducedBy (bare (s!"export enum {n}" ++ " \x7b")) = [n] := by
  have hline : bare (s!"export enum {n}" ++ " \x7b") =
      "export enum ".toList ++ (n.toList ++ (" \x7b".toList ++ [])) := by simp
  rw [hline]
  exact filterMap_nameAt? [("export const ", ": ")] _ (nameAt?_append _ hn String.toList_ofList rfl _)
    (by simp) (by simp)

theorem introducedBy_class {n : String} (hn : IsWord n.toList) :
    introducedBy (bare (s!"export class {n}" ++ " \x7b")) = [n] := by
  have hline : bare (s!"export class {n}" ++ " \x7b") =
      "export class ".toList ++ (n.toList ++ (" \x7b".toList ++ [])) := by simp
  rw [hline]
  exact filterMap_nameAt? [("export const ", ": "), ("export enum ", " \x7b"), ("export function ", "(")]
    _ (nameAt?_append _ hn String.toList_ofList rfl _) (by simp) (by simp)

theorem introducedBy_function {n : String} (hn : IsWord n.toList) (x : Line) :
    introducedBy ("export function ".toList ++ (n.toList ++ ("(".toList ++ x))) = [n] :=
  filterMap_nameAt? [("export const ", ": "), ("export enum ", " \x7b")] _
    (nameAt?_append _ hn String.toList_ofList rfl _) (by simp) (by simp)

theorem introducedBy_indexOf {n : String} (hn : IsWord n.toList) (x : String) :
    introducedBy (bare (s!"export function indexOf{n}(value: {x}): number" ++ " \x7b")) =
      ["indexOf" ++ n] := by
  have hword : IsWord ("indexOf" ++ n).toList := by
    rw [String.toList_append, String.toList_ofList]
    exact IsWord.append (isWord_of_all (by simp) rfl) hn.2
  have hname := introducedBy_function hword ("value: ".toList ++ (x.toList ++ "): number \x7b".toList))
  refine Eq.trans ?_ hname
  congr 1
  simp

theorem introducedBy_valueAt {n : String} (hn : IsWord n.toList) (x : String) :
    introducedBy (bare (s!"export function valueAt{n}(index: number): {x}" ++ " \x7b")) =
      ["valueAt" ++ n] := by
  have hword : IsWord ("valueAt" ++ n).toList := by
    rw [String.toList_append, String.toList_ofList]
    exact IsWord.append (isWord_of_all (by simp) rfl) hn.2
  have hname := introducedBy_function hword ("index: number): ".toList ++ (x.toList ++ " \x7b".toList))
  refine Eq.trans ?_ hname
  congr 1
  simp

theorem quiet_append {ls ls' : List String} : Quiet (ls ++ ls') ↔ Quiet ls ∧ Quiet ls' := by
  rw [Quiet, bareLines_append, List.forall_mem_append]
  rfl

theorem quiet_indent {ls : List String} : Quiet (indent margin ls) ↔ Quiet ls := by
  rw [Quiet, bareLines_indent blank_margin]
  rfl

theorem quiet_singleton {l : String} : Quiet [l] ↔ Unexported (bare l) :=
  List.forall_mem_singleton

theorem quiet_blank : Quiet [""] := by
  rw [quiet_singleton]
  apply unexported
  simp

theorem quiet_nest {head : String} {body : List String} (hhead : Unexported (bare (head ++ " \x7b")))
    (hbody : Quiet body) : Quiet (nest head body) := by
  have hclose : Quiet ["\x7d"] := quiet_singleton.2 unexported_close
  exact quiet_append.2 ⟨List.forall_mem_cons.2 ⟨hhead, quiet_indent.2 hbody⟩, hclose⟩

/-- The members of an enum. One of them may have the name of the word for exports. -/
theorem unexported_variant {n : String} (hn : IsWord n.toList) (x : String) :
    Unexported (bare s!"{n} = {x},") := by
  have hline : bare s!"{n} = {x}," = n.toList ++ ' ' :: ("= ".toList ++ (x.toList ++ ",".toList)) := by
    simp only [toString_text]
    rw [bare, String.append_assoc, String.append_assoc, String.toList_append,
      dropWhile_isMargin (unbroken_of_isWord hn).stops, String.toList_append, String.toList_append]
    simp
  have hexport : ("export " : String).toList = ['e', 'x', 'p', 'o', 'r', 't'] ++ ' ' :: [] :=
    String.toList_ofList
  intro r hr
  rw [after?, hline, hexport, isPrefixOf?_blank (unbroken_of_isWord (isWord_of_all (by simp) rfl))
    (unbroken_of_isWord hn)] at hr
  split at hr
  · obtain rfl := Option.some.inj hr
    simp
  · cases hr

theorem unexported_mark {u x : Line} {c : Char} (hu : Unbroken u) (hc : c ∉ "export ".toList) :
    Unexported (u ++ c :: x) := by
  apply unexported
  rw [String.toList_ofList] at hc
  rw [after?, String.toList_ofList]
  exact isPrefixOf?_mark (w := ['e', 'x', 'p', 'o', 'r', 't']) (by simp)
    (fun h => absurd (hu.2 _ h) (by decide)) hc

theorem quiet_switch {subject : String} {l : Lookup} (hother : Quiet l.otherwise) :
    Quiet (switch subject l) := by
  refine quiet_nest (unexported ?_) (forall_labels (P := Unexported) blank_margin
    (fun a => unexported ?_) (fun a => unexported ?_) (unexported ?_) (forall_bareLines.1 hother))
  all_goals simp

theorem quiet_variants {c : Choice} (h : Tidy .plain (.choice c)) :
    Quiet (c.variants.map fun v => s!"{v.name} = {v.literal},") := by
  rw [Quiet, forall_bareLines, List.forall_mem_map]
  exact fun v hv => unexported_variant (h.2.2 v hv).2.1 v.literal

theorem quiet_lookups (c : Choice) :
    Quiet (switch "value" (indexLookup c)) ∧ Quiet (switch "index" (valueLookup c)) := by
  constructor
  all_goals
    apply quiet_switch
    apply quiet_singleton.2
    apply unexported
    simp

/-- What is read from the lines of an enum: the enum and two functions. -/
theorem flatMap_choiceLines {f : Line → List String} (hf : ∀ l, Unexported l → f l = []) {c : Choice}
    (h : Tidy .plain (.choice c)) :
    (bareLines (choiceLines c)).flatMap f =
      f (bare (s!"export enum {c.name}" ++ " \x7b"))
        ++ f (bare (s!"export function indexOf{c.name}(value: {c.name}): number" ++ " \x7b"))
        ++ f (bare (s!"export function valueAt{c.name}(index: number): {c.name}" ++ " \x7b")) := by
  simp only [choiceLines, bareLines_append, List.flatMap_append, flatMap_nest hf (quiet_variants h),
    flatMap_nest hf (quiet_lookups c).1, flatMap_nest hf (quiet_lookups c).2,
    quiet_blank.flatMap_eq_nil hf, List.append_nil]

theorem introducedBy_choiceLines {c : Choice} (h : Tidy .plain (.choice c)) :
    (bareLines (choiceLines c)).flatMap introducedBy =
      [c.name, "indexOf" ++ c.name, "valueAt" ++ c.name] := by
  rw [flatMap_choiceLines (fun _ => introducedBy_eq_nil) h, introducedBy_enum h.1,
    introducedBy_indexOf h.1, introducedBy_valueAt h.1]
  rfl

theorem quiet_decodeLines (s : Schema) {r : Record} (h : Tidy .plain (.record r)) :
    Quiet (decodeLines s r) := by
  have hargument : ∀ f ∈ r.slots, ∀ y, Unexported (bare (argument s f ++ y)) := by
    intro f hf y
    have htext := argumentText_argument s (h.2 f hf).1 (h.2 f hf).2.1
    obtain ⟨p, q, hsplit, hp, -⟩ := htext.split
    rw [htext.bare, hsplit, List.append_assoc]
    refine unexported_mark hp ?_
    simp
  have harguments : Quiet (separated (r.slots.map (argument s))) := by
    rw [Quiet, forall_bareLines]
    apply forall_separated
    rw [List.forall_mem_map]
    intro f hf
    have hself := hargument f hf ""
    rw [String.append_empty] at hself
    exact ⟨hself, hargument f hf ","⟩
  unfold decodeLines
  split
  · rw [quiet_singleton]
    apply unexported
    simp
  · rw [quiet_append, quiet_append, quiet_indent, quiet_singleton, quiet_singleton]
    refine ⟨⟨unexported ?_, harguments⟩, unexported ?_⟩
    · simp
    · simp

theorem quiet_encodeLines (s : Schema) (r : Record) : Quiet (encodeLines s r) := by
  have hrows : Quiet (r.slots.map (encodeLine s)) := by
    rw [Quiet, forall_bareLines, List.forall_mem_map]
    intro f _
    apply unexported
    unfold encodeLine
    simp [Text.quote, Text.quoteChars]
  unfold encodeLines
  split
  · rw [quiet_singleton]
    apply unexported
    simp
  · rw [quiet_append, quiet_append, quiet_indent, quiet_singleton, quiet_singleton]
    refine ⟨⟨unexported ?_, hrows⟩, unexported ?_⟩
    all_goals simp

/-- What is read from the lines of an object: its class. -/
theorem flatMap_recordLines {f : Line → List String} (hf : ∀ l, Unexported l → f l = []) (s : Schema)
    {r : Record} (h : Tidy .plain (.record r)) :
    (bareLines (recordLines s r)).flatMap f = f (bare (s!"export class {r.name}" ++ " \x7b")) := by
  have hslots : Quiet (r.slots.map fun f => s!"{f.member}: {f.type};") := by
    rw [Quiet, forall_bareLines, List.forall_mem_map]
    intro f hf
    have hmember := (h.2 f hf).2.2.1
    have hline : bare s!"{f.member}: {f.type};" =
        f.member.toList ++ ':' :: (' ' :: (f.type.toList ++ ";".toList)) := by
      simp only [toString_text]
      rw [bare, String.append_assoc, String.append_assoc, String.toList_append,
        dropWhile_isMargin (unbroken_of_isWord hmember).stops, String.toList_append,
        String.toList_append]
      simp
    rw [hline]
    refine unexported_mark (unbroken_of_isWord hmember) ?_
    simp
  have hassigned : Quiet (r.slots.map fun f => s!"this.{f.member} = {f.param};") := by
    rw [Quiet, forall_bareLines, List.forall_mem_map]
    intro f _
    apply unexported
    simp
  have hgap : Quiet (if r.slots.isEmpty then [] else [""]) := by
    split
    · exact List.forall_mem_nil _
    · exact quiet_blank
  refine flatMap_nest hf ?_
  simp only [quiet_append, and_assoc]
  refine ⟨hslots, hgap, quiet_nest ?_ hassigned, quiet_blank, quiet_nest ?_ (quiet_encodeLines s r),
    quiet_blank, quiet_nest ?_ (quiet_singleton.2 ?_), quiet_blank, quiet_nest ?_ (quiet_singleton.2 ?_),
    quiet_blank, quiet_nest ?_ (quiet_decodeLines s h)⟩
  all_goals
    apply unexported
    simp

theorem introducedBy_declLines (s : Schema) {d : Decl} (h : Tidy .plain d) :
    (bareLines (declLines s d)).flatMap introducedBy = d.names ++ lookupNames d := by
  cases d with
  | constants g =>
    rw [declLines, constantsLines, bareLines, List.flatMap_map, List.flatMap_map, lookupNames,
      List.append_nil, Decl.names, List.map_eq_flatMap]
    exact List.flatMap_congr fun c hc => introducedBy_const (h.2.2 c hc).1 g.type c.literal
  | choice c => exact introducedBy_choiceLines h
  | record r => exact (flatMap_recordLines (fun _ => introducedBy_eq_nil) s h).trans (introducedBy_class h.1)

theorem introducedBy_namespaceHeads (package : List String) :
    (bareLines (namespaceHeads package)).flatMap introducedBy = [] := by
  induction package with
  | nil => rfl
  | cons name package ih =>
    have hhead : introducedBy (bare s!"export namespace {name} \x7b") = [] := by
      rw [introducedBy, List.filterMap_eq_nil_iff]
      simp
    rw [namespaceHeads, bareLines_cons, bareLines_indent blank_margin, List.flatMap_cons, hhead, ih]
    rfl

theorem quiet_namespaceEnds (package : List String) : Quiet (namespaceEnds package) := by
  induction package with
  | nil => exact List.forall_mem_nil _
  | cons name package ih =>
    rw [namespaceEnds, quiet_append, quiet_indent, quiet_singleton]
    exact ⟨ih, unexported_close⟩

theorem quiet_comment : Quiet ["// Code generated by bidl. DO NOT EDIT."] := by
  apply quiet_singleton.2
  apply unexported
  simp

theorem unexported_nil : Unexported [] := unexported (by simp)

theorem inset_margin (s : Schema) : ∀ c ∈ Target.typescript.inset s, isMargin c = true := by
  intro c hc
  obtain ⟨_, -, hc⟩ := List.mem_flatMap.1 hc
  exact blank_margin c hc

/-- What is read from a file at any margin is read from its namespaces and from its declarations. -/
theorem flatMap_linesOf {s : Schema} (hs : s.Spelled) {f : Line → List String}
    (hf : ∀ l, Unexported l → f l = []) {first : List String} {names : Decl → List String}
    (hheads : (bareLines (namespaceHeads s.package)).flatMap f = first)
    (hdecl : ∀ d ∈ dialect.decls s, (bareLines (declLines s d)).flatMap f = names d) :
    (linesOf (sourceText (lines s))).flatMap f = first ++ (dialect.decls s).flatMap names := by
  have hnil := hf _ unexported_nil
  have hcomment := quiet_comment.flatMap_eq_nil hf
  rw [linesOf, ← flatMap_filter_isFilled hnil]
  refine Target.typescript.flatMap_rowsOf hs ?_ ?_ ?_
  · rw [flatMap_rows_bare hnil, Target.opening, ← List.singleton_append, bareLines_append,
      List.flatMap_append, hcomment, hheads, List.nil_append]
  · intro d hd
    simp only [List.dropWhile_append_of_pos (inset_margin s)]
    rw [flatMap_rows_bare hnil]
    exact hdecl d hd
  · rw [flatMap_rows_bare hnil]
    exact (quiet_namespaceEnds s.package).flatMap_eq_nil hf

/-- **The names that a file introduces** are those of its declarations, each with its functions. -/
theorem introduced_lines {s : Schema} (hs : s.Spelled) :
    introduced (sourceText (lines s)) =
      (dialect.decls s).flatMap fun d => d.names ++ lookupNames d :=
  flatMap_linesOf hs (fun _ => introducedBy_eq_nil) (introducedBy_namespaceHeads s.package)
    fun d hd => introducedBy_declLines s (tidy_dialect.decls hs d hd)

end TypeScript

end Idl
