import Mathlib
import Idl.Proofs.Outline.Introduced

/-!
# Modules

The package path of a schema becomes modules around its declarations. Rust and TypeScript open one after
the other, C# and Dart write the path on one line, and Go keeps its last name. Which modules a source text
stands in is read from the lines that open them.

* `Target.modules`: the modules of a source text.
* `Target.moduleNames`: what a target makes of a package path.
* **`Target.modules_lines`**: the modules of a file.
-/

namespace Idl

open Lexeme

namespace Outline

/-- The names of a path. -/
def pathNames (l : Line) : List String := (l.splitOn '.').map .ofList

theorem pathNames_intercalate {names : List String} (hne : names ≠ [])
    (hnames : ∀ n ∈ names, IsWord n.toList) :
    pathNames (".".intercalate names).toList = names := by
  have hpoint : ("." : String).toList = ['.'] := String.toList_ofList
  have hwords : ∀ l ∈ names.map String.toList, '.' ∉ l := by
    rw [List.forall_mem_map]
    exact fun n hn hmem => absurd ((hnames n hn).2 _ hmem) (by decide)
  rw [pathNames, String.toList_intercalate, hpoint, List.splitOn_intercalate _ hwords (by simpa using hne),
    List.map_map]
  exact (List.map_congr_left fun n _ => String.ofList_toList).trans (List.map_id _)

end Outline

open Outline

namespace Target

/-- What a line begins with that opens modules. -/
@[simp] def moduleStart : Target → String
  | rust => "pub mod "
  | go => "package "
  | csharp => "namespace "
  | dart => "library "
  | typescript => "export namespace "

/-- The modules that a line opens. -/
def modulesBy : Target → Line → List String
  | rust, l => (nameAt? "pub mod " " \x7b" l).toList
  | go, l => ((named? "package " "" l).map String.ofList).toList
  | csharp, l => ((after? "namespace " l).map pathNames).getD []
  | dart, l => ((between? "library " ";" l).map pathNames).getD []
  | typescript, l => (nameAt? "export namespace " " \x7b" l).toList

/-- The modules of a source text. In TypeScript a module stands further in than the one around it, in the
other targets they begin at the left margin. -/
def modules : Target → String → List String
  | typescript, source => (linesOf source).flatMap typescript.modulesBy
  | t, source => (rowsOf source).flatMap t.modulesBy

/-- What a target makes of a package path. -/
def moduleNames : Target → Schema → List String
  | rust, s => s.package.map (avoid Rust.keywords)
  | go, s => [Go.packageName s]
  | csharp, s | dart, s | typescript, s => s.package

@[simp] theorem modulesBy_eq_nil {t : Target} {l : Line} (hl : after? t.moduleStart l = none) :
    t.modulesBy l = [] := by
  cases t
  all_goals
    unfold moduleStart at hl
    simp only [modulesBy, nameAt?, named?, between?, hl]
    rfl

theorem leftmost_modulesBy (t : Target) : Leftmost t.modulesBy := by
  cases t
  all_goals exact .of_blank (by simp) (by simp) (by simp)

theorem modulesBy_block (t : Target) {m : String} {c : Char} {v : Line} (hm : m.toList = c :: v)
    (hc : isMargin c = true) (head : String) (body : List String) :
    (Idl.block m head body).flatMap (fun l => t.modulesBy l.toList) =
      t.modulesBy (head ++ " \x7b").toList :=
  t.leftmost_modulesBy.flatMap_block (by cases t <;> simp) hm hc head body

theorem inset_eq (t : Target) (s : Schema) :
    t.inset s = [] ∨ ∃ c x, t.inset s = c :: x ∧ isMargin c = true := by
  have hmargin : ∀ c ∈ t.inset s, isMargin c = true := by
    cases t with
    | csharp =>
      rw [inset]
      split
      · exact List.forall_mem_nil _
      · exact CSharp.blank_margin
    | typescript => exact TypeScript.inset_margin s
    | _ => exact List.forall_mem_nil _
  cases hinset : t.inset s with
  | nil => exact .inl rfl
  | cons c x => exact .inr ⟨c, x, rfl, hmargin c (hinset ▸ List.mem_cons_self)⟩

/-- Only the lines before the declarations open modules. -/
theorem flatMap_modulesBy {t : Target} {s : Schema} (hs : s.Spelled)
    (hdecl : ∀ d, (t.declLines s d).flatMap (fun l => t.modulesBy l.toList) = [])
    (hclosing : (t.closing s).flatMap (fun l => t.modulesBy l.toList) = []) :
    (rowsOf (sourceText (t.lines s))).flatMap t.modulesBy =
      (t.opening s).flatMap fun l => t.modulesBy l.toList := by
  have hrows := t.leftmost_modulesBy.flatMap_rows
  have hblock : ∀ d ∈ t.dialect.decls s,
      (rows (t.declLines s d)).flatMap (fun l => t.modulesBy (t.inset s ++ l)) =
        (fun _ => []) d := by
    intro d _
    rcases t.inset_eq s with hinset | ⟨c, x, hinset, hc⟩
    · rw [hinset]
      exact (hrows _).trans (hdecl d)
    · rw [hinset]
      exact List.flatMap_eq_nil_iff.2 fun l _ => t.leftmost_modulesBy.margin c _ hc
  have h := t.flatMap_rowsOf hs (hrows _) hblock ((hrows _).trans hclosing)
  rw [h, List.flatMap_eq_nil_iff.2 fun _ _ => rfl, List.append_nil]

end Target

/-! ## Declarations open no modules -/

theorem Rust.modulesBy_declLines (d : Decl) :
    (declLines d).flatMap (fun l => Target.rust.modulesBy l.toList) = [] := by
  have hnest := Target.rust.modulesBy_block (m := margin) String.toList_ofList rfl
  cases d with
  | constants g =>
    have hrow : ∀ c ∈ g.rows,
        (constantLines g.type c).flatMap (fun l => Target.rust.modulesBy l.toList) = [] := by
      intro c _
      rw [constantLines]
      split
      all_goals simp
    rw [declLines, constantsLines, List.flatMap_append, List.flatMap_assoc,
      List.flatMap_eq_nil_iff.2 hrow]
    simp
  | choice c => simp [declLines, choiceLines, enumImpl, hnest]
  | record r =>
    rw [declLines, recordLines]
    split
    all_goals simp [hnest]

theorem Go.modulesBy_group (head : String) (body : List String) :
    (group head body).flatMap (fun l => Target.go.modulesBy l.toList) =
      Target.go.modulesBy (head ++ " (").toList := by
  have hindent := Target.go.leftmost_modulesBy.flatMap_indent (m := margin) String.toList_ofList rfl
  have hclose : Target.go.modulesBy ")".toList = [] := by simp
  rw [group, List.flatMap_append, List.flatMap_cons, hindent, List.flatMap_singleton, hclose,
    List.append_nil, List.append_nil]

theorem Go.modulesBy_declLines (d : Decl) :
    (declLines d).flatMap (fun l => Target.go.modulesBy l.toList) = [] := by
  have hnest := Target.go.modulesBy_block (m := margin) String.toList_ofList rfl
  cases d with
  | constants g => simp [declLines, constantsLines, modulesBy_group]
  | choice c => simp [declLines, choiceLines, modulesBy_group, hnest]
  | record r => simp [declLines, recordLines, hnest]

theorem CSharp.modulesBy_nest (head : String) (body : List String) :
    (nest head body).flatMap (fun l => Target.csharp.modulesBy l.toList) =
      Target.csharp.modulesBy head.toList := by
  have hindent := Target.csharp.leftmost_modulesBy.flatMap_indent (m := margin) String.toList_ofList rfl
  simp [nest, hindent]

theorem CSharp.modulesBy_declLines (d : Decl) :
    (declLines d).flatMap (fun l => Target.csharp.modulesBy l.toList) = [] := by
  cases d with
  | constants g =>
    rw [declLines, constantsLines, modulesBy_nest]
    split
    all_goals simp
  | choice c =>
    rw [declLines, choiceLines]
    split
    all_goals simp [modulesBy_nest]
  | record r => simp [declLines, recordLines, modulesBy_nest]

theorem Dart.modulesBy_declLines (s : Schema) (d : Decl) :
    (declLines s d).flatMap (fun l => Target.dart.modulesBy l.toList) = [] := by
  have hnest := Target.dart.modulesBy_block (m := margin) String.toList_ofList rfl
  cases d with
  | constants g => simp [declLines, constantsLines]
  | choice c => simp [declLines, choiceLines, hnest]
  | record r => simp [declLines, recordLines, hnest]

namespace TypeScript

/-- A namespace is exported. -/
theorem modulesBy_eq_nil {l : Line} (hl : Unexported l) : Target.typescript.modulesBy l = [] := by
  apply Target.modulesBy_eq_nil
  exact hl.after?_eq_none (c := 'n') (y := "amespace ".toList) (by simp) (by decide)

theorem modulesBy_declLines (s : Schema) {d : Decl} (h : Tidy .plain d) :
    (bareLines (declLines s d)).flatMap Target.typescript.modulesBy = [] := by
  cases d with
  | constants g =>
    rw [declLines, constantsLines, bareLines, List.flatMap_map, List.flatMap_map, List.flatMap_eq_nil_iff]
    intro c _
    simp
  | choice c =>
    rw [declLines, flatMap_choiceLines (fun _ => modulesBy_eq_nil) h]
    simp
  | record r =>
    rw [declLines, flatMap_recordLines (fun _ => modulesBy_eq_nil) s h]
    simp

theorem modulesBy_namespaceHeads {package : List String} (hpackage : ∀ n ∈ package, IsWord n.toList) :
    (bareLines (namespaceHeads package)).flatMap Target.typescript.modulesBy = package := by
  induction package with
  | nil => rfl
  | cons name package ih =>
    obtain ⟨hname, hrest⟩ := List.forall_mem_cons.1 hpackage
    have hline : bare s!"export namespace {name} \x7b" =
        "export namespace ".toList ++ (name.toList ++ (" \x7b".toList ++ [])) := by simp
    have hhead : Target.typescript.modulesBy (bare s!"export namespace {name} \x7b") = [name] := by
      rw [hline, Target.modulesBy, nameAt?_append _ hname String.toList_ofList rfl, Option.toList_some]
    rw [namespaceHeads, bareLines_cons, bareLines_indent blank_margin, List.flatMap_cons, hhead, ih hrest]
    rfl

end TypeScript

/-! ## Files -/

namespace Target

variable {s : Schema}

theorem modulesBy_mod {n : String} (hn : IsWord n.toList) :
    rust.modulesBy s!"pub mod {n} \x7b".toList = [n] := by
  have hname := nameAt?_append "pub mod " hn (q := " \x7b") String.toList_ofList rfl []
  rw [List.append_nil] at hname
  simp only [toString_text, String.toList_append, List.append_assoc]
  rw [modulesBy, hname, Option.toList_some]

theorem modulesBy_package {n : String} (hn : IsWord n.toList) :
    go.modulesBy s!"package {n}".toList = [n] := by
  have hname := named?_append "package " "" hn rfl
  rw [String.toList_empty, List.append_nil] at hname
  simp only [toString_text, String.toList_append]
  rw [modulesBy, hname, Option.map_some, Option.toList_some, String.ofList_toList]

theorem modulesBy_namespace (hne : s.package ≠ []) (hs : s.Spelled) :
    csharp.modulesBy ("namespace " ++ ".".intercalate s.package).toList = s.package := by
  rw [String.toList_append, modulesBy, after?_append, Option.map_some, Option.getD_some,
    pathNames_intercalate hne hs.package]

theorem modulesBy_library (hne : s.package ≠ []) (hs : s.Spelled) :
    dart.modulesBy ("library " ++ ".".intercalate s.package ++ ";").toList = s.package := by
  rw [String.toList_append, String.toList_append, List.append_assoc, modulesBy, between?_append,
    Option.map_some, Option.getD_some, pathNames_intercalate hne hs.package]

end Target

theorem Rust.modules_lines {s : Schema} (hs : s.Spelled) :
    Target.rust.modules (sourceText (lines s)) = s.package.map (avoid keywords) := by
  have himports : (imports s).flatMap (fun l => Target.rust.modulesBy l.toList) = [] := by
    unfold imports
    simp only
    split_ifs
    all_goals simp
  have hheads : (s.package.map fun name => s!"pub mod {avoid keywords name} \x7b").flatMap
      (fun l => Target.rust.modulesBy l.toList) = s.package.map (avoid keywords) := by
    rw [List.flatMap_map, List.map_eq_flatMap]
    exact List.flatMap_congr fun n hn => Target.modulesBy_mod (isWord_avoid (hs.package n hn))
  have hclosing : (Target.rust.closing s).flatMap (fun l => Target.rust.modulesBy l.toList) = [] := by
    rw [Target.closing, List.flatMap_map, List.flatMap_eq_nil_iff]
    simp
  refine (Target.flatMap_modulesBy hs modulesBy_declLines hclosing).trans ?_
  rw [Target.opening, List.flatMap_append, List.flatMap_append, hheads, himports]
  simp

theorem Go.modules_lines {s : Schema} (hs : s.Spelled) :
    Target.go.modules (sourceText (lines s)) = [packageName s] := by
  have hname : IsWord (packageName s).toList := by
    unfold packageName
    rw [List.getLastD_eq_getLast?]
    cases hlast : s.package.getLast? with
    | none => exact isWord_of_all (by simp) (by decide +kernel)
    | some n => exact hs.package n (List.mem_of_getLast? hlast)
  have himports : ∀ ps, (importLines ps).flatMap (fun l => Target.go.modulesBy l.toList) = [] := by
    intro ps
    unfold importLines
    split
    · rfl
    · simp
    · simp [modulesBy_group]
  have hbytes : (if usesBytes s then bytesLines else []).flatMap
      (fun l => Target.go.modulesBy l.toList) = [] := by
    have hnest := Target.go.modulesBy_block (m := margin) String.toList_ofList rfl
    split
    · simp [bytesLines, hnest]
    · rfl
  refine (Target.flatMap_modulesBy hs modulesBy_declLines rfl).trans ?_
  rw [Target.opening, List.flatMap_append, List.flatMap_append, List.flatMap_cons,
    List.flatMap_singleton, Target.modulesBy_package hname, himports, hbytes]
  simp

theorem CSharp.modules_lines {s : Schema} (hs : s.Spelled) :
    Target.csharp.modules (sourceText (lines s)) = s.package := by
  have hheader : header.flatMap (fun l => Target.csharp.modulesBy l.toList) = [] := by simp [header]
  have hclosing : (Target.csharp.closing s).flatMap (fun l => Target.csharp.modulesBy l.toList) = [] := by
    rw [Target.closing]
    split
    · rfl
    · simp
  refine (Target.flatMap_modulesBy hs modulesBy_declLines hclosing).trans ?_
  rw [Target.opening, List.flatMap_append, hheader]
  split
  · rename_i hnone
    exact (List.isEmpty_iff.1 hnone).symm
  · rename_i hsome
    rw [List.flatMap_cons, List.flatMap_singleton,
      Target.modulesBy_namespace (by simpa using hsome) hs]
    simp

theorem Dart.modules_lines {s : Schema} (hs : s.Spelled) :
    Target.dart.modules (sourceText (lines s)) = s.package := by
  have himport : (if s.hasObjects then ["import 'dart:convert';"] else []).flatMap
      (fun l => Target.dart.modulesBy l.toList) = [] := by
    split
    · simp
    · rfl
  refine (Target.flatMap_modulesBy hs (modulesBy_declLines s) rfl).trans ?_
  have hcomment : Target.dart.modulesBy "// Code generated by bidl. DO NOT EDIT.".toList = [] := by
    simp
  rw [Target.opening, List.flatMap_append, List.flatMap_append, himport, List.flatMap_singleton,
    hcomment, List.append_nil, List.nil_append]
  split
  · rename_i hnone
    exact (List.isEmpty_iff.1 hnone).symm
  · rename_i hsome
    rw [List.flatMap_singleton, Target.modulesBy_library (by simpa using hsome) hs]

theorem TypeScript.modules_lines {s : Schema} (hs : s.Spelled) :
    Target.typescript.modules (sourceText (lines s)) = s.package := by
  have h := flatMap_linesOf hs (fun _ => modulesBy_eq_nil) (modulesBy_namespaceHeads hs.package)
    fun d hd => modulesBy_declLines s (tidy_dialect.decls hs d hd)
  rw [List.flatMap_eq_nil_iff.2 fun _ _ => rfl, List.append_nil] at h
  exact h

/-- **The modules of a file** are what its target makes of the package path. -/
theorem Target.modules_lines (t : Target) {s : Schema} (hs : s.Spelled) :
    t.modules (sourceText (t.lines s)) = t.moduleNames s := by
  cases t with
  | rust => exact Rust.modules_lines hs
  | go => exact Go.modules_lines hs
  | csharp => exact CSharp.modules_lines hs
  | dart => exact Dart.modules_lines hs
  | typescript => exact TypeScript.modules_lines hs

end Idl
