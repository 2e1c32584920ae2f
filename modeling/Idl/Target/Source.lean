import Idl.Target.Dialect

/-!
# Source text

Source text is a list of lines.

* `indent`, `block`: lines further in, and lines between braces.
* `Lookup`: a function by cases, as a list of arms.
* `sourceText`: the lines of a file, each with its end.
-/

namespace Idl

/-- Lines further in. Blank lines stay blank. -/
def indent (margin : String) (lines : List String) : List String :=
  lines.map fun l => if l.isEmpty then l else margin ++ l

/-- A line that opens a brace, lines further in, and the closing brace. -/
def block (margin head : String) (body : List String) : List String :=
  (head ++ " \x7b") :: indent margin body ++ ["\x7d"]

/-- Blocks of lines, each with a blank line before it. -/
def spaced (blocks : List (List String)) : List String :=
  blocks.flatMap fun b => "" :: b

/-- Texts with commas between them. -/
def commas (items : List String) : String := ", ".intercalate items

/-- The lines of a file, each with its end. -/
def sourceText (lines : List String) : String :=
  "\n".intercalate lines ++ "\n"

/-! ## Functions by cases -/

/-- A function by cases: what is matched, with the result. -/
structure Lookup where
  arms : List (String × String)
  /-- The lines for everything else. There are none if the arms match everything. -/
  otherwise : List String

/-- The index of each member in the order of declaration. -/
def indexArms (names : List String) : List (String × String) :=
  names.zipIdx.map fun p => (p.1, toString p.2)

/-- The member at each index. -/
def valueArms (names : List String) : List (String × String) :=
  names.zipIdx.map fun p => (toString p.2, p.1)

/-- Arms with arrows. -/
def Lookup.arrows (l : Lookup) (result : String → String) : List String :=
  (l.arms.map fun a => s!"{a.1} => {result a.2},") ++ l.otherwise.map fun e => s!"_ => {e},"

/-- Arms with labels, whose results stand further in on lines of their own. -/
def Lookup.labels (l : Lookup) (margin : String) (result : String → String) : List String :=
  (l.arms.flatMap fun a => [s!"case {a.1}:", margin ++ result a.2])
    ++ if l.otherwise.isEmpty then [] else "default:" :: indent margin l.otherwise

end Idl
