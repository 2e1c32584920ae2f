/-!
# Failed look-ups

The functions generated for an enum look up a value by its index and a member by its value.

* `LookupError`: a look-up without result, and its message.
-/

namespace Idl

/-- A look-up in an enum without result. -/
inductive LookupError where
  /-- No value has this index. -/
  | index (enum : String) (index : Nat)
  /-- No member has this value. -/
  | value (enum value : String)
  deriving DecidableEq

/-- The message for a person. -/
def LookupError.message : LookupError → String
  | index enum i => enum ++ ": index " ++ toString i ++ " is out of range"
  | value enum v => enum ++ ": " ++ v ++ " is not a declared value"

end Idl
