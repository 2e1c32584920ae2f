import Mathlib
import Idl.Proofs.Outline.Unique

/-!
# Constants of a file

A constant has a name of its own in Rust, outside of every group. Where a parameter has the name of a
constant it is no parameter, so that the constants matter wherever parameters do.

* `constants`: the constants of a source text.
* **`constants_lines`**: they are those of the schema.
-/

namespace Idl.Rust

open Outline Grammar

/-- What a line declares as a constant. -/
def constantBy (l : Line) : List String := (nameAt? "pub const " ": " l).toList

/-- The constants of a source text. -/
def constants (source : String) : List String := (rowsOf source).flatMap constantBy

@[simp] theorem constantBy_eq_nil {l : Line} (h : after? "pub const " l = none) : constantBy l = [] := by
  rw [constantBy, nameAt?_eq_none h]
  rfl

theorem leftmost_constantBy : Leftmost constantBy := .of_blank (by simp) (by simp) (by simp)

theorem constantBy_const {n : String} (hn : IsWord n.toList) (x : Line) :
    constantBy ("pub const ".toList ++ (n.toList ++ (": ".toList ++ x))) = [n] := by
  rw [constantBy, nameAt?_append _ hn String.toList_ofList rfl]
  rfl

/-- The constants of a declaration. -/
def declConstants : Decl → List String
  | .constants g => g.rows.map Constant.name
  | _ => []

theorem constantBy_declLines {d : Decl} (h : Tidy .plain d) :
    (declLines d).flatMap (fun l => constantBy l.toList) = declConstants d := by
  have hnest := leftmost_constantBy.flatMap_block (m := margin) (by simp) String.toList_ofList rfl
  cases d with
  | constants g =>
    have hrow : ∀ c ∈ g.rows,
        (constantLines g.type c).flatMap (fun l => constantBy l.toList) = [c.name] := by
      intro c hc
      simp only [constantLines, List.flatMap_append, List.flatMap_singleton, toString_text,
        String.toList_append, List.append_assoc, constantBy_const (h.2.2 c hc).1]
      split <;> simp
    rw [declLines, constantsLines, List.flatMap_append, List.flatMap_assoc, List.flatMap_singleton,
      declConstants, List.map_eq_flatMap]
    simpa using List.flatMap_congr hrow
  | choice c =>
    simp [declLines, choiceLines, enumImpl, hnest, declConstants]
  | record r =>
    rw [declLines, recordLines]
    split <;> simp [hnest, declConstants]

/-- **The constants of a file.** -/
theorem constants_lines {s : Schema} (hs : s.Spelled) :
    constants (sourceText (lines s)) = s.bindings := by
  have hrows := leftmost_constantBy.flatMap_rows
  have hopening : (rows (Target.rust.opening s)).flatMap constantBy = [] := by
    have hmodules : (s.package.map fun name => s!"pub mod {avoid keywords name} \x7b").flatMap
        (fun l => constantBy l.toList) = [] := by simp [List.flatMap_map]
    have himports : (imports s).flatMap (fun l => constantBy l.toList) = [] := by
      rw [imports]
      cases s.usesMaps <;> cases s.hasEnums <;> cases s.hasObjects <;> simp
    rw [hrows, Target.opening, List.flatMap_append, List.flatMap_append, hmodules, himports]
    simp
  have hclosing : (rows (Target.rust.closing s)).flatMap constantBy = [] := by
    simp [hrows, Target.closing]
  have hnames : (dialect.decls s).flatMap declConstants = s.bindings := by
    rw [Schema.bindings, Dialect.decls, List.flatMap_map]
    refine List.flatMap_congr fun e _ => ?_
    cases e <;> simp [Dialect.declare, Dialect.constants, declConstants, Entry.bindings, dialect]
  rw [← hnames]
  refine Target.rust.flatMap_rowsOf hs hopening ?_ hclosing
  exact fun d hd => (hrows _).trans (constantBy_declLines (tidy_dialect.decls hs d hd))

end Idl.Rust
