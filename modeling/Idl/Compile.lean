import Idl.Fault

/-!
# From text to schema

* `Schema.parse`: the schema that a text spells.
* `Schema.compile`: the same, if it breaks no rule.
-/

namespace Idl

/-- The schema that a text spells. -/
def Schema.parse (text : String) : Except Fault Schema := do
  let tokens ← (scan text).mapError .stray
  (Schema.ofTokens tokens).mapError .ofReadFailure

/-- The valid schema that a text spells. -/
def Schema.compile (text : String) : Except Fault Schema := do
  let s ← Schema.parse text
  s.validate.mapError .invalid
  return s

end Idl
