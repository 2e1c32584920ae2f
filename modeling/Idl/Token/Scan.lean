import Idl.Token.Basic
import Idl.Token.Lexeme

/-!
# Cutting a schema text into tokens

* `scan`: the tokens of a text, with the token that marks the end. Blanks and comments make none.
* `Stray`: what stands where no lexeme begins.
-/

namespace Idl

open Lexeme

/-- Text that belongs to no lexeme. -/
structure Stray where
  text : String
  position : Position
  deriving DecidableEq

/-- The characters before the next lexeme, after the character `before`. -/
def strayAfter (before : Char) : List Char → List Char
  | [] => []
  | c :: cs =>
    if (gap? (c :: cs)).isSome || (token? (Text.isWord before) (c :: cs)).isSome then []
    else c :: strayAfter c cs

/-- The tokens of `cs`, whose first character stands at `p`. -/
def scanFrom (p : Position) (cs : List Char) : Except Stray (List Token) :=
  match cs with
  | [] => .ok [⟨"", p⟩]
  | c :: cs =>
    match _hg : gap? (c :: cs) with
    | some a => scanFrom (p.advance a.lexeme) a.rest
    | none =>
      match _ht : token? false (c :: cs) with
      | some a => do
        return ⟨String.ofList a.lexeme, p⟩ :: (← scanFrom (p.advance a.lexeme) a.rest)
      | none => .error ⟨String.ofList (c :: strayAfter c cs), p⟩
termination_by cs.length
decreasing_by
  · exact rest_length_lt splits_gap? consumes_gap? _hg
  · exact rest_length_lt (splits_token? _) (consumes_token? _) _ht

/-- The tokens of a schema text. -/
def scan (text : String) : Except Stray (List Token) :=
  scanFrom .start text.toList

end Idl
