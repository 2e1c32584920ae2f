/-!
# Cases of names

Names of a schema are written with underscores; some targets join their words by capitals.

* `pascal`: `first_name` becomes `FirstName`.
* `camel`: `first_name` becomes `firstName`.

Only ASCII letters change, and an underscore stays unless a small letter follows it.
-/

namespace Idl.Naming

/-- Drops each underscore before a small letter and makes the letter a capital. -/
def joinWords : List Char → List Char
  | [] => []
  | [c] => [c]
  | c :: d :: rest =>
    if c = '_' ∧ d.isLower then d.toUpper :: joinWords rest else c :: joinWords (d :: rest)

/-- Makes the first character a capital. -/
def capitalise : List Char → List Char
  | [] => []
  | c :: rest => c.toUpper :: rest

/-- Joined words after a first character of either case: `first_name` gives `firstName`. -/
def camel (name : String) : String :=
  String.ofList (joinWords name.toList)

/-- Joined words, each with a capital: `first_name` gives `FirstName`. -/
def pascal (name : String) : String :=
  String.ofList (capitalise (joinWords name.toList))

end Idl.Naming
