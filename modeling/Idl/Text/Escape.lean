import Idl.Text.Hidden

/-!
# Escapes by code point

Two ways to write a text inside double quotes that name a character by its code point in braces.

* `escapeAscii`: nothing but printable ASCII remains.
* `escapeHidden`: visible characters of every script remain.
-/

namespace Idl.Text

/-- A character as its hexadecimal code point in braces. -/
def codeEscape (c : Char) : List Char :=
  '\\' :: 'u' :: '\x7b' :: Nat.toDigits 16 c.toNat ++ ['\x7d']

/-- One character in printable ASCII. -/
def escapeAsciiChar (c : Char) : List Char :=
  if c = '\t' then ['\\', 't']
  else if c = '\r' then ['\\', 'r']
  else if c = '\n' then ['\\', 'n']
  else if c = '\x27' ∨ c = '"' ∨ c = '\\' then ['\\', c]
  else if 0x20 ≤ c.toNat ∧ c.toNat ≤ 0x7e then [c]
  else codeEscape c

/-- A text in printable ASCII. -/
def escapeAscii (s : String) : String :=
  String.ofList (s.toList.flatMap escapeAsciiChar)

/-- One character, hidden ones by code point. -/
def escapeHiddenChar (c : Char) : List Char :=
  if c = '\x00' then ['\\', '0']
  else if c = '\t' then ['\\', 't']
  else if c = '\r' then ['\\', 'r']
  else if c = '\n' then ['\\', 'n']
  else if c = '"' ∨ c = '\\' then ['\\', c]
  else if isHidden c then codeEscape c
  else [c]

/-- A text without hidden characters. -/
def escapeHidden (s : String) : String :=
  String.ofList (s.toList.flatMap escapeHiddenChar)

end Idl.Text
