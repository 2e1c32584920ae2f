/-!
# Tokens

* `Position`: a line and a column, both from 1.
* `Token`: a text with the position of its first character. The end of a schema is a token with
  an empty text.
-/

namespace Idl

/-- A place in a schema text. Columns count characters. -/
structure Position where
  line : Nat
  column : Nat
  deriving DecidableEq

/-- The first place of a text. -/
def Position.start : Position := ⟨1, 1⟩

instance : Inhabited Position := ⟨.start⟩

/-- The place after one more character. A line feed starts a line. -/
def Position.next (p : Position) (c : Char) : Position :=
  if c = '\n' then ⟨p.line + 1, 1⟩ else ⟨p.line, p.column + 1⟩

/-- The place after the characters `cs`. -/
def Position.advance (p : Position) (cs : List Char) : Position :=
  cs.foldl Position.next p

/-- A piece of a schema text. -/
structure Token where
  text : String
  position : Position
  deriving DecidableEq

/-- The token that marks the end of a schema. -/
def Token.isEnd (t : Token) : Bool := t.text.isEmpty

end Idl
