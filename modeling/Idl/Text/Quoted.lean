/-!
# Quoted text

Text between double quotes, with the escapes of JSON strings.

* `quote`: writes a text. Only the quote, the backslash and the controls below U+0020 are escaped.
* `unquote?`: reads a quoted text, with every escape that JSON knows. A raw control, a surrogate
  without its partner and anything after the closing quote are refused.
-/

namespace Idl.Text

/-- The digit for `n` below sixteen, in lower case. -/
def hexDigit (n : Nat) : Char :=
  if n < 10 then Char.ofNat ('0'.toNat + n) else Char.ofNat ('a'.toNat + (n - 10))

/-- The value of a hexadecimal digit of either case. -/
def hexValue? (c : Char) : Option Nat :=
  if '0' ≤ c ∧ c ≤ '9' then some (c.toNat - '0'.toNat)
  else if 'a' ≤ c ∧ c ≤ 'f' then some (c.toNat - 'a'.toNat + 10)
  else if 'A' ≤ c ∧ c ≤ 'F' then some (c.toNat - 'A'.toNat + 10)
  else none

/-! ## Writing -/

/-- The letter after the backslash for a character with a short escape. -/
def shortEscape? (c : Char) : Option Char :=
  if c = '"' then some '"'
  else if c = '\\' then some '\\'
  else if c = '\x08' then some 'b'
  else if c = '\t' then some 't'
  else if c = '\n' then some 'n'
  else if c = '\x0c' then some 'f'
  else if c = '\r' then some 'r'
  else none

/-- One character between quotes. -/
def quoteChar (c : Char) : List Char :=
  match shortEscape? c with
  | some e => ['\\', e]
  | none =>
    if c.toNat < 0x20 then ['\\', 'u', '0', '0', hexDigit (c.toNat / 16), hexDigit (c.toNat % 16)]
    else [c]

/-- The characters of a quoted text, quotes included. -/
def quoteChars (cs : List Char) : List Char :=
  '"' :: cs.flatMap quoteChar ++ ['"']

/-- A text between double quotes. -/
def quote (s : String) : String :=
  String.ofList (quoteChars s.toList)

/-! ## Reading -/

/-- The character that a one-letter escape stands for. -/
def ofShortEscape? (e : Char) : Option Char :=
  if e = '"' then some '"'
  else if e = '\\' then some '\\'
  else if e = '/' then some '/'
  else if e = 'b' then some '\x08'
  else if e = 'f' then some '\x0c'
  else if e = 'n' then some '\n'
  else if e = 'r' then some '\r'
  else if e = 't' then some '\t'
  else none

/-- The value of four hexadecimal digits. -/
def hexUnit? (a b c d : Char) : Option Nat := do
  return (((← hexValue? a) * 16 + (← hexValue? b)) * 16 + (← hexValue? c)) * 16 + (← hexValue? d)

/-- The first half of a surrogate pair. -/
def isHighSurrogate (n : Nat) : Bool := 0xd800 ≤ n && n ≤ 0xdbff

/-- The second half of a surrogate pair. -/
def isLowSurrogate (n : Nat) : Bool := 0xdc00 ≤ n && n ≤ 0xdfff

/-- The character of a surrogate pair. -/
def ofSurrogates (hi lo : Nat) : Char :=
  Char.ofNat (0x10000 + (hi - 0xd800) * 0x400 + (lo - 0xdc00))

/-- Reads what follows the opening quote, up to a closing quote that ends the text. -/
def unquoteRest? : List Char → Option (List Char)
  | [] => none
  | '"' :: rest => if rest.isEmpty then some [] else none
  | '\\' :: 'u' :: a :: b :: c :: d :: rest => do
    let n ← hexUnit? a b c d
    if isHighSurrogate n then
      match rest with
      | '\\' :: 'u' :: a' :: b' :: c' :: d' :: rest' => do
        let lo ← hexUnit? a' b' c' d'
        if isLowSurrogate lo then return ofSurrogates n lo :: (← unquoteRest? rest') else none
      | _ => none
    else if isLowSurrogate n then none
    else return Char.ofNat n :: (← unquoteRest? rest)
  | '\\' :: e :: rest => do return (← ofShortEscape? e) :: (← unquoteRest? rest)
  | c :: rest => if c.toNat < 0x20 then none else do return c :: (← unquoteRest? rest)

/-- Reads a quoted text, quotes included. -/
def unquoteChars? : List Char → Option (List Char)
  | '"' :: rest => unquoteRest? rest
  | _ => none

/-- Reads a text between double quotes. -/
def unquote? (s : String) : Option String :=
  (unquoteChars? s.toList).map String.ofList

end Idl.Text
