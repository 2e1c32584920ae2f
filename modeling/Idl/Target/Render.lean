import Idl.Compile
import Idl.Target.CSharp
import Idl.Target.Dart
import Idl.Target.Go
import Idl.Target.Rust
import Idl.Target.TypeScript

/-!
# Source text for every target

* `Target.render`: the source text of a schema in a target, or why it has none.
* `Target.compile`: the source text for a schema text.
-/

namespace Idl.Target

/-- Why a schema has no form in a target. -/
def check : Target → Schema → Except Refusal Unit
  | rust => Rust.check
  | go => Go.check
  | csharp => CSharp.check
  | dart => Dart.check
  | typescript => TypeScript.check

/-- The lines of a file in a target. -/
def lines : Target → Schema → List String
  | rust => Rust.lines
  | go => Go.lines
  | csharp => CSharp.lines
  | dart => Dart.lines
  | typescript => TypeScript.lines

/-- The source text of a schema in a target. -/
def render (t : Target) (s : Schema) : Except Fault String := do
  (t.check s).mapError (.refused t)
  return sourceText (t.lines s)

/-- The source text for a schema text. -/
def compile (t : Target) (text : String) : Except Fault String := do
  t.render (← Schema.compile text)

end Idl.Target
