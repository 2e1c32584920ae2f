import Mathlib
import Idl.Proofs.Outline.Order

/-!
# Packages around files

The path of a package adds lines around a file and moves its lines further in. It changes nothing
else, so the file without a package can be read back from the file with one.

* `Frame.wrap`, `Frame.unwrap`: lines around a body, and the body between them.
* `Target.frame`: the lines around a file in a package.
* `Target.body`: the lines of a file that no package changes.
* `Target.rowsOf_eq_wrap`: a file is its body in the frame of its package.
* **`render_wrap_package`**: a file with and without its package.
-/

namespace Idl

open Outline Grammar

/-! ## Frames -/

/-- Lines around a body, with the number of blanks before the lines of the body. -/
structure Frame where
  heads : List Line
  margin : Nat
  ends : List Line

namespace Frame

variable (f : Frame)

/-- A body between the lines around it. -/
def wrap (body : List Line) : List Line :=
  f.heads ++ body.map (List.replicate f.margin ' ' ++ ·) ++ f.ends

/-- The body, without the blanks before its lines. -/
def unwrap (ls : List Line) : List Line :=
  ((ls.drop f.heads.length).rdrop f.ends.length).map (List.drop f.margin)

theorem unwrap_wrap (body : List Line) : f.unwrap (f.wrap body) = body := by
  have hdrop : ∀ l : Line, (List.replicate f.margin ' ' ++ l).drop f.margin = l := by
    intro l
    exact List.drop_left' (List.length_replicate)
  rw [unwrap, wrap, List.append_assoc, List.drop_left, List.rdrop_append_length, List.map_map]
  exact (List.map_congr_left fun l _ => hdrop l).trans (List.map_id body)

end Frame

namespace Target

/-- The lines around a file in a package, whose path is empty if there is none. -/
def frame : Target → List String → Frame
  | rust, path =>
    { heads := "// Code generated by bidl. DO NOT EDIT.".toList
        :: path.map fun name => ("pub mod " ++ avoid Rust.keywords name ++ " \x7b").toList
      margin := 0
      ends := path.map fun _ => "\x7d".toList }
  | go, path =>
    { heads := ["// Code generated by bidl. DO NOT EDIT.".toList,
        ("package " ++ path.getLastD "schema").toList]
      margin := 0
      ends := [] }
  | csharp, [] => { heads := CSharp.header.map String.toList, margin := 0, ends := [] }
  | csharp, path =>
    { heads := CSharp.header.map String.toList
        ++ [("namespace " ++ ".".intercalate path).toList, "\x7b".toList]
      margin := 4
      ends := ["\x7d".toList] }
  | dart, path =>
    { heads := "// Code generated by bidl. DO NOT EDIT.".toList
        :: if path.isEmpty then [] else [("library " ++ ".".intercalate path ++ ";").toList]
      margin := 0
      ends := [] }
  | typescript, path =>
    { heads := "// Code generated by bidl. DO NOT EDIT.".toList :: path.zipIdx.map fun p =>
        List.replicate (2 * p.2) ' ' ++ ("export namespace " ++ p.1 ++ " \x7b").toList
      margin := 2 * path.length
      ends := (List.range path.length).reverse.map fun i =>
        List.replicate (2 * i) ' ' ++ "\x7d".toList }

/-- The lines that no package changes, before those of the entries. -/
def preamble : Target → Schema → List String
  | rust, s => Rust.imports s
  | go, s => Go.importLines (Go.imports s) ++ if Go.usesBytes s then Go.bytesLines else []
  | dart, s => if s.hasObjects then ["import 'dart:convert';"] else []
  | csharp, _ | typescript, _ => []

/-- The lines of a file that no package changes. -/
def body (t : Target) (s : Schema) : List Line :=
  rows (t.preamble s) ++ s.entries.flatMap fun e => rows (t.declLines s (t.dialect.declare s e))

end Target

/-! ## Namespaces -/

theorem rows_of_filled {ls : List String} (h : ∀ l ∈ ls, isFilled l.toList = true) :
    rows ls = ls.map String.toList :=
  List.filter_eq_self.2 (List.forall_mem_map.2 h)

theorem isFilled_append {a : String} (h : isFilled a.toList = true) (b : String) :
    isFilled (a ++ b).toList = true := by
  rw [isFilled, Bool.not_eq_true'] at h ⊢
  rw [String.toList_append, List.all_append, h, Bool.false_and]

theorem rows_line {a : String} (h : isFilled a.toList = true) (b : String) :
    rows [a ++ b] = [(a ++ b).toList] :=
  rows_of_filled (List.forall_mem_singleton.2 (isFilled_append h b))

namespace TypeScript

theorem margin_replicate (n : Nat) (l : Line) :
    margin.toList ++ (List.replicate (2 * n) ' ' ++ l) = List.replicate (2 * (n + 1)) ' ' ++ l := by
  rw [show 2 * (n + 1) = 2 + 2 * n by omega, List.replicate_add, List.append_assoc]
  rfl

theorem rows_namespaceHeads (path : List String) :
    rows (namespaceHeads path) = path.zipIdx.map fun p =>
      List.replicate (2 * p.2) ' ' ++ ("export namespace " ++ p.1 ++ " \x7b").toList := by
  induction path with
  | nil => rfl
  | cons name path ih =>
    have hhead : rows ["export namespace " ++ name ++ " \x7b"] =
        [("export namespace " ++ name ++ " \x7b").toList] :=
      rows_line (isFilled_append (by decide +kernel) name) _
    show rows (["export namespace " ++ name ++ " \x7b"] ++ indent margin (namespaceHeads path)) = _
    rw [rows_append, rows_indent blank_margin, ih, hhead, List.zipIdx_cons, List.zipIdx_succ,
      List.map_cons, List.map_map, List.map_map]
    refine congrArg (_ :: ·) (List.map_congr_left fun p _ => ?_)
    exact margin_replicate p.2 _

theorem rows_namespaceEnds (path : List String) :
    rows (namespaceEnds path) = (List.range path.length).reverse.map fun i =>
      List.replicate (2 * i) ' ' ++ "\x7d".toList := by
  induction path with
  | nil => rfl
  | cons name path ih =>
    rw [namespaceEnds, rows_append, rows_indent blank_margin, ih, List.length_cons,
      List.range_succ_eq_map, List.reverse_cons, List.map_append, ← List.map_reverse, List.map_map,
      List.map_map]
    refine congrArg₂ (· ++ ·) (List.map_congr_left fun i _ => ?_) rfl
    exact margin_replicate i _

theorem inset_eq_replicate (path : List String) :
    (path.flatMap fun _ => margin.toList) = List.replicate (2 * path.length) ' ' := by
  induction path with
  | nil => rfl
  | cons name path ih =>
    rw [List.flatMap_cons, ih, List.length_cons]
    simpa using margin_replicate path.length []

end TypeScript

/-! ## Files -/

namespace Target

/-- The first lines of a file are those of its frame. -/
theorem rows_opening (t : Target) (s : Schema) :
    rows (t.opening s) = (t.frame s.package).heads ++ rows (t.preamble s) := by
  cases t with
  | rust =>
    have hmods : rows (s.package.map fun name => "pub mod " ++ avoid Rust.keywords name ++ " \x7b") =
        s.package.map fun name => ("pub mod " ++ avoid Rust.keywords name ++ " \x7b").toList := by
      rw [rows_of_filled, List.map_map]
      · rfl
      · exact List.forall_mem_map.2 fun name _ =>
          isFilled_append (isFilled_append (by decide +kernel) _) _
    show rows (_ ++ s.package.map (fun name => "pub mod " ++ avoid Rust.keywords name ++ " \x7b") ++ _) = _
    rw [rows_append, rows_append, hmods]
    rfl
  | go =>
    show rows ([_] ++ ["package " ++ Go.packageName s] ++ (_ ++ _)) = _
    rw [rows_append, rows_append, rows_line (by decide +kernel)]
    rfl
  | csharp =>
    rw [opening, rows_append]
    cases s.package with
    | nil => rfl
    | cons name names =>
      show _ ++ rows (["namespace " ++ _] ++ _) = _
      rw [rows_append, rows_line (by decide +kernel)]
      rfl
  | dart =>
    rw [opening, rows_append, rows_append]
    cases s.package with
    | nil => rfl
    | cons name names =>
      show _ ++ rows ["library " ++ _ ++ _] ++ _ = _
      rw [rows_line (isFilled_append (by decide +kernel) _)]
      rfl
  | typescript =>
    show rows ([_] ++ TypeScript.namespaceHeads s.package) = _
    rw [rows_append, TypeScript.rows_namespaceHeads]
    exact (List.append_nil _).symm

theorem rows_closing (t : Target) (s : Schema) : rows (t.closing s) = (t.frame s.package).ends := by
  cases t with
  | rust =>
    show rows (s.package.map fun _ => "\x7d") = s.package.map fun _ => "\x7d".toList
    rw [rows_of_filled (List.forall_mem_map.2 fun _ _ => by decide +kernel), List.map_map]
    rfl
  | csharp =>
    rw [closing]
    cases s.package <;> rfl
  | typescript => exact TypeScript.rows_namespaceEnds s.package
  | go | dart => rfl

theorem inset_eq_replicate (t : Target) (s : Schema) :
    t.inset s = List.replicate (t.frame s.package).margin ' ' := by
  cases t with
  | csharp =>
    rw [inset]
    cases s.package <;> rfl
  | typescript => exact TypeScript.inset_eq_replicate s.package
  | rust | go | dart => rfl

/-- Lines before the entries are never further in. -/
theorem preamble_inset (t : Target) (s : Schema) :
    (rows (t.preamble s)).map (t.inset s ++ ·) = rows (t.preamble s) := by
  cases t with
  | csharp | typescript => rfl
  | rust | go | dart => exact List.map_id _

/-- **A file is its body in the frame of its package.** -/
theorem rowsOf_eq_wrap (t : Target) {s : Schema} (hs : s.Spelled) :
    rowsOf (sourceText (t.lines s)) = (t.frame s.package).wrap (t.body s) := by
  have hblocks : s.entries.flatMap (t.block s) =
      (s.entries.flatMap fun e => rows (t.declLines s (t.dialect.declare s e))).map (t.inset s ++ ·) :=
    (List.map_flatMap ..).symm
  rw [t.rowsOf_sourceText hs, rows_opening, rows_closing, hblocks, Frame.wrap, body,
    ← inset_eq_replicate, List.map_append, preamble_inset, List.append_assoc (t.frame s.package).heads]

/-- No package changes the body. -/
theorem body_congr (t : Target) (s : Schema) (path : List String) :
    t.body { s with package := path } = t.body s := by
  have hpreamble : t.preamble { s with package := path } = t.preamble s := by cases t <;> rfl
  have hagrees : s.Agrees { s with package := path } := fun _ => rfl
  simp only [body, hpreamble, t.declare_congr hagrees, t.declLines_congr hagrees]

end Target

/-- **The package only wraps a file.** A compiled schema has source text in the same targets without
its package. But for blank lines, both texts are one body: without the package in the frame of the
empty path, and with it in the frame of its path. The body can be read back line by line. -/
theorem render_wrap_package {text : String} {s : Schema} (hs : Schema.compile text = .ok s)
    (t : Target) :
    ((∃ source, t.render s = .ok source) ↔ ∃ plain, t.render { s with package := [] } = .ok plain) ∧
    ∀ source plain, t.render s = .ok source → t.render { s with package := [] } = .ok plain →
      ∃ body, rowsOf plain = (t.frame []).wrap body ∧ rowsOf source = (t.frame s.package).wrap body ∧
        (t.frame s.package).unwrap (rowsOf source) = body := by
  have hvalid : s.Valid := Schema.validate_eq_ok_iff.1 (Schema.validate_of_compile hs)
  have hspelled : s.Spelled := Schema.spelled_of_compile hs
  have hplain : Schema.Spelled { s with package := [] } := ⟨nofun, hspelled.entry⟩
  have hentries : (Schema.entries { s with package := [] }).Perm s.entries := .refl _
  constructor
  · simp only [Target.render_eq_ok_iff, exists_and_left, exists_eq', and_true]
    exact (t.check_perm hvalid hentries).symm
  · intro source plain hsource hsource'
    obtain ⟨-, rfl⟩ := Target.render_eq_ok_iff.1 hsource
    obtain ⟨-, rfl⟩ := Target.render_eq_ok_iff.1 hsource'
    refine ⟨t.body s, ?_, t.rowsOf_eq_wrap hspelled, ?_⟩
    · rw [t.rowsOf_eq_wrap hplain, t.body_congr]
    · rw [t.rowsOf_eq_wrap hspelled, Frame.unwrap_wrap]

/-- Two namespaces around a constant whose text begins with blanks. -/
theorem render_wrap_package_nested :
    ∃ s source plain body, Schema.compile "package a.b const string \x7b S = \"  x\" \x7d" = .ok s ∧
      Target.typescript.render s = .ok source ∧
      Target.typescript.render { s with package := [] } = .ok plain ∧
      rowsOf plain = "// Code generated by bidl. DO NOT EDIT.".toList :: body ∧
      rowsOf source = ["// Code generated by bidl. DO NOT EDIT.", "export namespace a \x7b",
          "  export namespace b \x7b"].map String.toList
        ++ body.map ("    ".toList ++ ·) ++ ["  \x7d", "\x7d"].map String.toList := by
  have hmember : MemberOf ["S", "=", "\"  x\""] ⟨"S", .string "  x", .start⟩ :=
    .mk (by decide) (.string (by cbv)) _
  have hpath : PackageOf _ ["a", "b"] := .path (by decide) (by decide)
  have hderives : Derives _ _ :=
    .mk hpath (.cons (.const (.unnamed .string (.mk (.cons hmember .nil)) .start)) .nil)
  obtain ⟨s, source, hs, hsource, hplaced⟩ := Target.render_of_derives .typescript
    "package a.b const string \x7b S = \"  x\" \x7d" (by cbv) hderives (by decide +kernel)
    (by decide +kernel)
  have hpackage : s.package = ["a", "b"] := congrArg Schema.package hplaced
  obtain ⟨hiff, hrows⟩ := render_wrap_package hs .typescript
  obtain ⟨plain, hplain⟩ := hiff.1 ⟨source, hsource⟩
  obtain ⟨body, hbody, hwrapped, -⟩ := hrows source plain hsource hplain
  refine ⟨s, source, plain, body, hs, hsource, hplain, ?_, ?_⟩
  · rw [hbody, Frame.wrap]
    simp [Target.frame]
  · rw [hwrapped, hpackage]
    rfl

end Idl
