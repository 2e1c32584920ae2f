import Mathlib
import Idl.Proofs.Outline.CSharp
import Idl.Proofs.Outline.Dart
import Idl.Proofs.Outline.Go
import Idl.Proofs.Outline.Rust
import Idl.Proofs.Outline.TypeScript

/-!
# Files as blocks

A file is a block of lines for each entry, between lines that open and close it. Blank lines are not
looked at.

* `rowsOf`: the lines of a source text that are not blank.
* `Target.opening`, `Target.closing`: what stands around the blocks.
* `Target.block`: the block of an entry.
* **`Target.rows_lines`**: a file is made of these.
-/

namespace Idl

namespace Outline

/-! ## Lines that are not blank -/

/-- Something stands on a line. -/
def isFilled (l : Line) : Bool := !l.all isMargin

/-- The lines of a source text that are not blank. -/
def rowsOf (source : String) : List Line := (source.toList.splitOn '\n').filter isFilled

/-- The lines that are not blank. -/
def rows (ls : List String) : List Line := (ls.map String.toList).filter isFilled

theorem rowsOf_sourceText {ls : List String} (hne : ls ≠ []) (hls : FlatLines ls) :
    rowsOf (sourceText ls) = rows ls := by
  rw [rowsOf, splitOn_sourceText hne hls, List.filter_append, rows]
  exact List.append_nil _

theorem rows_nil : rows [] = [] := rfl

theorem rows_append (ls ls' : List String) : rows (ls ++ ls') = rows ls ++ rows ls' := by
  rw [rows, List.map_append, List.filter_append]
  rfl

theorem rows_blank (ls : List String) : rows ("" :: ls) = rows ls := rfl

theorem rows_flatMap {α : Type} (f : α → List String) (as : List α) :
    rows (as.flatMap f) = as.flatMap fun a => rows (f a) := by
  induction as with
  | nil => rfl
  | cons a as ih => rw [List.flatMap_cons, rows_append, ih, List.flatMap_cons]

/-- Blank lines between blocks do not count. -/
theorem rows_spaced (bs : List (List String)) : rows (spaced bs) = bs.flatMap rows := by
  rw [spaced, rows_flatMap]
  rfl

theorem isFilled_margin {m : Line} (hm : ∀ c ∈ m, isMargin c = true) (l : Line) :
    isFilled (m ++ l) = isFilled l := by
  rw [isFilled, List.all_append, List.all_eq_true.2 hm, Bool.true_and]
  rfl

theorem rows_indent {m : String} (hm : ∀ c ∈ m.toList, isMargin c = true) (ls : List String) :
    rows (indent m ls) = (rows ls).map (m.toList ++ ·) := by
  induction ls with
  | nil => rfl
  | cons l ls ih =>
    show rows ([if l.isEmpty then l else m ++ l] ++ indent m ls) = (rows ([l] ++ ls)).map _
    rw [rows_append, rows_append, List.map_append, ← ih]
    congr 1
    split
    · rename_i hl
      rw [String.isEmpty_iff.1 hl]
      rfl
    · simp only [rows, List.map_cons, List.map_nil, String.toList_append, List.filter_cons,
        isFilled_margin hm]
      split <;> rfl

end Outline

open Outline

/-! ## Frames -/

namespace TypeScript

/-- The lines that open namespaces, each within the one before it. -/
def namespaceHeads : List String → List String
  | [] => []
  | name :: names => s!"export namespace {name} \x7b" :: indent margin (namespaceHeads names)

/-- The lines that close namespaces. -/
def namespaceEnds : List String → List String
  | [] => []
  | _ :: names => indent margin (namespaceEnds names) ++ ["\x7d"]

end TypeScript

namespace Target

/-- The lines of a file before the blocks of its entries. -/
def opening : Target → Schema → List String
  | rust, s => ["// Code generated by bidl. DO NOT EDIT."]
      ++ s.package.map (fun name => s!"pub mod {avoid Rust.keywords name} \x7b") ++ Rust.imports s
  | go, s => ["// Code generated by bidl. DO NOT EDIT.", s!"package {Go.packageName s}"]
      ++ Go.importLines (Go.imports s) ++ if Go.usesBytes s then Go.bytesLines else []
  | csharp, s => CSharp.header
      ++ if s.package.isEmpty then [] else ["namespace " ++ ".".intercalate s.package, "\x7b"]
  | dart, s => ["// Code generated by bidl. DO NOT EDIT."]
      ++ (if s.package.isEmpty then [] else ["library " ++ ".".intercalate s.package ++ ";"])
      ++ if s.hasObjects then ["import 'dart:convert';"] else []
  | typescript, s => "// Code generated by bidl. DO NOT EDIT." :: TypeScript.namespaceHeads s.package

/-- The lines of a file after the blocks of its entries. -/
def closing : Target → Schema → List String
  | rust, s => s.package.map fun _ => "\x7d"
  | csharp, s => if s.package.isEmpty then [] else ["\x7d"]
  | typescript, s => TypeScript.namespaceEnds s.package
  | go, _ | dart, _ => []

/-- What stands before every line of a block. -/
def inset : Target → Schema → Line
  | csharp, s => if s.package.isEmpty then [] else CSharp.margin.toList
  | typescript, s => s.package.flatMap fun _ => TypeScript.margin.toList
  | rust, _ | go, _ | dart, _ => []

/-- The block of an entry. -/
def block (t : Target) (s : Schema) (e : Entry) : List Line :=
  (rows (t.declLines s (t.dialect.declare s e))).map (t.inset s ++ ·)

end Target

/-! ## Files -/

theorem Target.flatMap_block (t : Target) (s : Schema) :
    s.entries.flatMap (t.block s) =
      ((t.dialect.decls s).flatMap fun x => rows (t.declLines s x)).map (t.inset s ++ ·) := by
  rw [Dialect.decls, List.flatMap_map, List.map_flatMap]
  rfl

theorem Rust.rows_lines (s : Schema) :
    rows (lines s) = rows (Target.rust.opening s)
      ++ (dialect.decls s).flatMap (fun x => rows (declLines x)) ++ rows (Target.rust.closing s) := by
  rw [← rows_flatMap, ← rows_append, ← rows_append]
  rfl

theorem Go.rows_lines (s : Schema) :
    rows (lines s) = rows (Target.go.opening s)
      ++ (dialect.decls s).flatMap (fun x => rows (declLines x)) ++ rows (Target.go.closing s) := by
  have hbytes : rows (spaced (if usesBytes s then [bytesLines] else [])) =
      rows (if usesBytes s then bytesLines else []) := by
    split
    · rw [rows_spaced, List.flatMap_singleton]
    · rfl
  rw [lines, spaced_append, rows_append, rows_append, rows_append, hbytes, rows_spaced,
    List.flatMap_map, Target.opening, rows_append, rows_append]
  simp only [Target.closing, rows_nil, List.append_nil, List.append_assoc]
  rfl

theorem CSharp.rows_lines (s : Schema) :
    rows (lines s) = rows (Target.csharp.opening s)
      ++ ((dialect.decls s).flatMap fun x => rows (declLines x)).map (Target.csharp.inset s ++ ·)
      ++ rows (Target.csharp.closing s) := by
  have hbody : rows (spaced ((dialect.decls s).map declLines)) =
      (dialect.decls s).flatMap fun x => rows (declLines x) := by
    rw [rows_spaced, List.flatMap_map]
  -- the line that is left out is blank
  have hdrop : rows ((spaced ((dialect.decls s).map declLines)).drop 1) =
      rows (spaced ((dialect.decls s).map declLines)) := by
    cases dialect.decls s <;> rfl
  rw [lines, Target.opening, Target.inset, Target.closing]
  split
  · simp [rows_append, hbody, rows_nil]
  · simp only [nest, rows_append, rows_indent blank_margin, hdrop, hbody, List.append_assoc]
    rfl

theorem Dart.rows_lines (s : Schema) :
    rows (lines s) = rows (Target.dart.opening s)
      ++ (dialect.decls s).flatMap (fun x => rows (declLines s x)) ++ rows (Target.dart.closing s) := by
  have hblank : ∀ {p : Prop} [Decidable p] (l : String),
      rows (if p then ["", l] else []) = rows (if p then [l] else []) := by
    intro p _ l
    split <;> rfl
  have hlibrary : ∀ {p : Prop} [Decidable p] (l : String),
      rows (if p then [] else ["", l]) = rows (if p then [] else [l]) := by
    intro p _ l
    split <;> rfl
  rw [lines, rows_append, rows_append, rows_append, rows_spaced, List.flatMap_map, hblank, hlibrary,
    Target.opening, rows_append, rows_append]
  simp only [Target.closing, rows_nil, List.append_nil]

/-- Blank lines between blocks do not count, whether or not there is one before the first. -/
theorem TypeScript.rows_joined (bs : List (List String)) : rows (joined bs) = bs.flatMap rows := by
  suffices h : ∀ body : List String,
      rows (bs.foldl (fun body b => if body.isEmpty then b else body ++ "" :: b) body) =
        rows body ++ bs.flatMap rows from h []
  induction bs with
  | nil => exact fun body => (List.append_nil _).symm
  | cons b bs ih =>
    intro body
    rw [List.foldl_cons, ih, List.flatMap_cons, ← List.append_assoc]
    congr 1
    split
    · rename_i hbody
      rw [List.isEmpty_iff.1 hbody]
      rfl
    · rw [rows_append, rows_blank]

theorem TypeScript.rows_namespaces (names : List String) (inner : List String) :
    rows (names.foldr (fun name inner => nest s!"export namespace {name}" inner) inner) =
      rows (namespaceHeads names)
        ++ (rows inner).map ((names.flatMap fun _ => margin.toList) ++ ·)
        ++ rows (namespaceEnds names) := by
  induction names with
  | nil => simp [namespaceHeads, namespaceEnds, rows_nil]
  | cons name names ih =>
    have hnest : ∀ body, rows (nest s!"export namespace {name}" body) =
        rows [s!"export namespace {name} \x7b"] ++ (rows body).map (margin.toList ++ ·)
          ++ rows ["\x7d"] := by
      intro body
      rw [← rows_indent blank_margin, ← rows_append, ← rows_append]
      rfl
    have hheads : rows (namespaceHeads (name :: names)) =
        rows [s!"export namespace {name} \x7b"] ++ (rows (namespaceHeads names)).map (margin.toList ++ ·) := by
      rw [← rows_indent blank_margin, ← rows_append]
      rfl
    rw [List.foldr_cons, hnest, ih, hheads, namespaceEnds, rows_append, rows_indent blank_margin]
    simp only [List.map_append, List.map_map, List.append_assoc, List.flatMap_cons]
    rfl

theorem TypeScript.rows_lines (s : Schema) :
    rows (lines s) = rows (Target.typescript.opening s)
      ++ ((dialect.decls s).flatMap fun x => rows (declLines s x)).map
        (Target.typescript.inset s ++ ·)
      ++ rows (Target.typescript.closing s) := by
  have hlines : rows (lines s) = rows ["// Code generated by bidl. DO NOT EDIT."] ++ rows (body s) := by
    rw [← rows_append, lines]
    split
    · rename_i hbody
      rw [List.isEmpty_iff.1 hbody]
      rfl
    · rfl
  rw [hlines, body, rows_namespaces, rows_joined, List.flatMap_map, Target.opening,
    ← List.append_assoc, ← List.append_assoc, ← rows_append]
  rfl

/-- **A file is made of blocks**, one for each entry, between lines that open and close it. -/
theorem Target.rows_lines (t : Target) (s : Schema) :
    rows (t.lines s) =
      rows (t.opening s) ++ s.entries.flatMap (t.block s) ++ rows (t.closing s) := by
  have hinset : ∀ ls : List Line, ls = ls.map (([] : Line) ++ ·) := fun ls => (List.map_id ls).symm
  rw [t.flatMap_block]
  cases t with
  | rust =>
    rw [inset, ← hinset]
    exact Rust.rows_lines s
  | go =>
    rw [inset, ← hinset]
    exact Go.rows_lines s
  | csharp => exact CSharp.rows_lines s
  | dart =>
    rw [inset, ← hinset]
    exact Dart.rows_lines s
  | typescript => exact TypeScript.rows_lines s

theorem Target.lines_ne_nil (t : Target) (s : Schema) : t.lines s ≠ [] := by
  cases t with
  | csharp =>
    show CSharp.lines s ≠ []
    rw [CSharp.lines]
    split <;> simp [CSharp.header]
  | _ => simp [lines, Rust.lines, Go.lines, Dart.lines, TypeScript.lines]

theorem Target.flat_lines (t : Target) {s : Schema} (hs : s.Spelled) : FlatLines (t.lines s) := by
  cases t with
  | rust => exact Rust.flat_lines hs
  | go => exact Go.flat_lines hs
  | csharp => exact CSharp.flat_lines hs
  | dart => exact Dart.flat_lines hs
  | typescript => exact TypeScript.flat_lines hs

theorem Target.rowsOf_sourceText (t : Target) {s : Schema} (hs : s.Spelled) :
    rowsOf (sourceText (t.lines s)) =
      rows (t.opening s) ++ s.entries.flatMap (t.block s) ++ rows (t.closing s) := by
  rw [Outline.rowsOf_sourceText (t.lines_ne_nil s) (t.flat_lines hs), t.rows_lines]

end Idl
