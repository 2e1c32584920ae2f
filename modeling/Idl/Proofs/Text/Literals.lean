import Mathlib
import Idl.Proofs.Text.Escapes

/-!
# String literals

A string literal is read as languages read it: character by character, with escapes after a
backslash, up to the first quote that is not escaped. What it stands for is a list of code units,
and these are read as a text.

* `Encoding`: how characters become code units, and how units are read as a text.
* `Escape`: the forms that an escape can have.
* `StringRules`: what a language allows between quotes. `StringRules.read?` reads one literal and
  leaves what follows it.
* `StringRules.Writes`: a piece of source that stands for a character.
* **`StringRules.read?_of_writes`**: a text written character by character reads back.
* **`StringRules.Quotes.writes_quoteChar`**: quoted characters are understood by every language that
  understands their escapes.
-/

namespace Idl.Text

/-! ## Code units -/

/-- Code units for characters, and the text that units stand for. -/
structure Encoding where
  units : Char → List ℕ
  text? : List ℕ → Option String
  text?_units : ∀ s : String, text? (s.toList.flatMap units) = some s

/-- Units of eight bits. -/
def Encoding.utf8 : Encoding where
  units c := (String.utf8EncodeChar c).map UInt8.toNat
  text? us := String.fromUTF8? (us.map UInt8.ofNat).toByteArray
  text?_units s := by
    have hbytes : ((s.toList.flatMap fun c => (String.utf8EncodeChar c).map UInt8.toNat).map
        UInt8.ofNat).toByteArray = s.toByteArray := by
      rw [← String.utf8Encode_toList, List.utf8Encode, List.map_flatMap]
      simp [Function.comp_def]
    rw [hbytes, String.fromUTF8?, dif_pos s.isValidUTF8]
    rfl

/-- The units of sixteen bits for a code point. -/
def pointUnits (n : ℕ) : List ℕ :=
  if n < 0x10000 then [n]
  else [0xd800 + (n - 0x10000) / 0x400, 0xdc00 + (n - 0x10000) % 0x400]

/-- The characters for units of sixteen bits. A surrogate without its partner stands for none. -/
def ofPointUnits? : List ℕ → Option (List Char)
  | [] => some []
  | u :: us =>
    if isHighSurrogate u then
      match us with
      | v :: us => if isLowSurrogate v then (ofPointUnits? us).map (ofSurrogates u v :: ·) else none
      | [] => none
    else if isLowSurrogate u then none
    else (ofPointUnits? us).map (Char.ofNat u :: ·)

theorem ofPointUnits?_append (c : Char) (us : List ℕ) :
    ofPointUnits? (pointUnits c.toNat ++ us) = (ofPointUnits? us).map (c :: ·) := by
  have hvalid : c.toNat < 0xd800 ∨ 0xdfff < c.toNat ∧ c.toNat < 0x110000 := c.valid
  unfold pointUnits
  split_ifs with hlow
  · have hhigh : isHighSurrogate c.toNat = false := by simp [isHighSurrogate]; omega
    have hlast : isLowSurrogate c.toNat = false := by simp [isLowSurrogate]; omega
    rw [List.singleton_append, ofPointUnits?.eq_def]
    simp [hhigh, hlast]
  · have hhigh : isHighSurrogate (0xd800 + (c.toNat - 0x10000) / 0x400) = true := by
      simp [isHighSurrogate]; omega
    have hlast : isLowSurrogate (0xdc00 + (c.toNat - 0x10000) % 0x400) = true := by
      simp [isLowSurrogate]; omega
    have hsum : 0x10000 + (0xd800 + (c.toNat - 0x10000) / 0x400 - 0xd800) * 0x400 +
        (0xdc00 + (c.toNat - 0x10000) % 0x400 - 0xdc00) = c.toNat := by omega
    rw [List.cons_append, ofPointUnits?.eq_def]
    simp only [List.singleton_append, hhigh, hlast, if_true, ofSurrogates, hsum, Char.ofNat_toNat]

/-- Units of sixteen bits. -/
def Encoding.utf16 : Encoding where
  units c := pointUnits c.toNat
  text? us := (ofPointUnits? us).map String.ofList
  text?_units s := by
    have hchars : ∀ cs : List Char,
        ofPointUnits? (cs.flatMap fun c => pointUnits c.toNat) = some cs := by
      intro cs
      induction cs with
      | nil => rfl
      | cons c cs ih => rw [List.flatMap_cons, ofPointUnits?_append, ih]; rfl
    simp [hchars]

/-! ## Escapes -/

/-- The number that hexadecimal digits spell. -/
def hexNumber? (ds : List Char) : Option ℕ :=
  if ds.isEmpty then none else ds.foldlM (fun n d => (hexValue? d).map (16 * n + ·)) 0

/-- What the characters after a backslash stand for, and how many of them belong to the escape. -/
abbrev Escape := List Char → Option (List ℕ × ℕ)

namespace Escape

/-- The first form that applies. -/
def firstOf (forms : List Escape) : Escape := fun cs => forms.findSome? (· cs)

/-- A letter that stands for a character. -/
def letter (e : Encoding) (table : List (Char × Char)) : Escape
  | c :: _ => (table.lookup c).map fun d => (e.units d, 1)
  | [] => none

/-- A character that stands for itself. -/
def itself (e : Encoding) (except : List Char) : Escape
  | c :: _ => if c ∈ except then none else some (e.units c, 1)
  | [] => none

/-- A letter and `k` hexadecimal digits. -/
def digits (c : Char) (k : ℕ) (value : ℕ → Option (List ℕ)) : Escape
  | d :: cs =>
    if d = c ∧ k ≤ cs.length then
      ((hexNumber? (cs.take k)).bind value).map fun us => (us, k + 1)
    else none
  | [] => none

/-- A letter and hexadecimal digits, `k` at most. -/
def digitsUpTo (c : Char) (k : ℕ) (value : ℕ → Option (List ℕ)) : Escape
  | d :: cs =>
    let ds := (cs.takeWhile fun x => (hexValue? x).isSome).take k
    if d = c then ((hexNumber? ds).bind value).map fun us => (us, ds.length + 1) else none
  | [] => none

/-- Three octal digits. -/
def octal (value : ℕ → Option (List ℕ)) : Escape
  | a :: b :: c :: _ =>
    if [a, b, c].all fun d => '0' ≤ d && d ≤ '7' then
      (value ([a, b, c].foldl (fun n d => 8 * n + (d.toNat - '0'.toNat)) 0)).map fun us => (us, 3)
    else none
  | _ => none

/-- The letter `u` and a number in braces. -/
def braced (number? : List Char → Option ℕ) (value : ℕ → Option (List ℕ)) : Escape
  | 'u' :: '\x7b' :: cs =>
    let ds := cs.takeWhile (· != '\x7d')
    if ds.length < cs.length then
      ((number? ds).bind value).map fun us => (us, ds.length + 3)
    else none
  | _ => none

/-- A unit below a bound. -/
def unitBelow (bound n : ℕ) : Option (List ℕ) := if n < bound then some [n] else none

/-- A character, by its code point. -/
def scalar (e : Encoding) (n : ℕ) : Option (List ℕ) :=
  if n.isValidChar then some (e.units (Char.ofNat n)) else none

/-- A code point in units of sixteen bits. Halves of pairs may stand alone. -/
def point (n : ℕ) : Option (List ℕ) := if n < 0x110000 then some (pointUnits n) else none

end Escape

/-! ## Literals -/

/-- What stands between the quotes of a string literal in a language. -/
structure StringRules where
  encoding : Encoding
  /-- Characters that cannot stand there as they are. -/
  barred : List Char
  escape? : Escape

namespace StringRules

variable (r : StringRules)

/-- Reads what follows the opening quote, up to the closing one: the units, and the text after. -/
def body? : List Char → Option (List ℕ × List Char)
  | [] => none
  | c :: cs =>
    if c = '"' then some ([], cs)
    else if c = '\\' then
      match r.escape? cs with
      | some (us, k) => (body? (cs.drop k)).map (Prod.map (us ++ ·) id)
      | none => none
    else if c ∈ r.barred then none
    else (body? cs).map (Prod.map (r.encoding.units c ++ ·) id)
termination_by cs => cs.length
decreasing_by all_goals simp

/-- Reads a literal: the text that it stands for, and what follows it. -/
def read? : List Char → Option (String × List Char)
  | '"' :: cs => (r.body? cs).bind fun x => (r.encoding.text? x.1).map (·, x.2)
  | _ => none

/-- A piece between quotes stands for a character, whatever follows it. -/
def Writes (c : Char) (w : List Char) : Prop :=
  ∀ cs, r.body? (w ++ cs) = (r.body? cs).map (Prod.map (r.encoding.units c ++ ·) id)

variable {r} {c : Char}

theorem Writes.self (hquote : c ≠ '"') (hslash : c ≠ '\\') (hc : c ∉ r.barred) :
    r.Writes c [c] := by
  intro cs
  rw [List.singleton_append, body?, if_neg hquote, if_neg hslash, if_neg hc]

theorem Writes.escape {w : List Char}
    (h : ∀ cs, r.escape? (w ++ cs) = some (r.encoding.units c, w.length)) :
    r.Writes c ('\\' :: w) := by
  intro cs
  rw [List.cons_append, body?, if_neg (by decide), if_pos rfl, h cs]
  simp

/-- **Character by character.** A literal reads back if each of its pieces does. -/
theorem read?_of_writes {f : Char → List Char} {s : String}
    (h : ∀ c ∈ s.toList, r.Writes c (f c)) (rest : List Char) :
    r.read? ('"' :: s.toList.flatMap f ++ '"' :: rest) = some (s, rest) := by
  have hbody : ∀ cs : List Char, (∀ c ∈ cs, r.Writes c (f c)) →
      r.body? (cs.flatMap f ++ '"' :: rest) = some (cs.flatMap r.encoding.units, rest) := by
    intro cs hcs
    induction cs with
    | nil => simp [body?]
    | cons c cs ih =>
      rw [List.forall_mem_cons] at hcs
      rw [List.flatMap_cons, List.append_assoc, hcs.1, ih hcs.2]
      rfl
  simp [read?, hbody s.toList h, r.encoding.text?_units]

theorem body?_of_barred (hc : c ∈ r.barred) (hquote : c ≠ '"') (hslash : c ≠ '\\')
    (cs : List Char) : r.body? (c :: cs) = none := by
  rw [body?, if_neg hquote, if_neg hslash, if_pos hc]

/-- One character that cannot be read spoils a literal, wherever it stands. -/
theorem read?_of_spoilt {f : Char → List Char} {s : String} (bad : List Char)
    (h : ∀ c, c ∉ bad → r.Writes c (f c)) (hbad : ∀ c ∈ bad, ∀ cs, r.body? (f c ++ cs) = none)
    (hs : ∃ c ∈ s.toList, c ∈ bad) (rest : List Char) :
    r.read? ('"' :: s.toList.flatMap f ++ '"' :: rest) = none := by
  have hbody : ∀ cs : List Char, (∃ c ∈ cs, c ∈ bad) →
      r.body? (cs.flatMap f ++ '"' :: rest) = none := by
    intro cs hcs
    induction cs with
    | nil => simp at hcs
    | cons c cs ih =>
      rw [List.flatMap_cons, List.append_assoc]
      by_cases hc : c ∈ bad
      · exact hbad c hc _
      · obtain ⟨d, hd, hdbad⟩ := hcs
        have hd' : d ∈ cs := (List.mem_cons.1 hd).resolve_left (by rintro rfl; exact hc hdbad)
        rw [h c hc, ih ⟨d, hd', hdbad⟩]
        rfl
  simp [read?, hbody s.toList hs]

end StringRules

/-! ## Code points in hexadecimal -/

theorem hexValue?_digitChar : ∀ n < 16, hexValue? n.digitChar = some n := by decide

theorem hexNumber?_toDigits (n : ℕ) : hexNumber? (Nat.toDigits 16 n) = some n := by
  rw [hexNumber?, if_neg (by simp)]
  induction n using Nat.strongRecOn with
  | ind n ih =>
    rw [Nat.toDigits_eq_if (by omega)]
    split_ifs with hn
    · simp [hexValue?_digitChar n hn]
    · rw [List.foldlM_append, ih (n / 16) (by omega)]
      simp [hexValue?_digitChar (n % 16) (by omega)]
      omega

theorem Escape.scalar_toNat (e : Encoding) (c : Char) : scalar e c.toNat = some (e.units c) := by
  rw [scalar, if_pos (show c.toNat.isValidChar from c.valid), Char.ofNat_toNat]

theorem Escape.braced_toDigits {number? : List Char → Option ℕ} {e : Encoding} {c : Char}
    (hnumber : number? (Nat.toDigits 16 c.toNat) = some c.toNat) (cs : List Char) :
    braced number? (scalar e) ('u' :: '\x7b' :: (Nat.toDigits 16 c.toNat ++ '\x7d' :: cs)) =
      some (e.units c, (Nat.toDigits 16 c.toNat).length + 3) := by
  simp [braced, takeWhile_toDigits, hnumber, scalar_toNat]

/-! ## Quoted characters -/

/-- Escapes of quoted texts are understood. -/
structure StringRules.Quotes (r : StringRules) : Prop where
  short : ∀ {c e}, shortEscape? c = some e → ∀ cs, r.escape? (e :: cs) = some (r.encoding.units c, 1)
  control : ∀ c : Char, c.toNat < 0x20 → ∀ cs,
    r.escape? ('u' :: '0' :: '0' :: hexDigit (c.toNat / 16) :: hexDigit (c.toNat % 16) :: cs) =
      some (r.encoding.units c, 5)

theorem hexNumber?_control {n : ℕ} (hn : n < 0x20) :
    hexNumber? ['0', '0', hexDigit (n / 16), hexDigit (n % 16)] = some n := by
  have hzero : hexValue? '0' = some 0 := by decide
  simp [hexNumber?, hzero, hexValue?_hexDigit (n / 16) (by omega),
    hexValue?_hexDigit (n % 16) (by omega)]
  omega

theorem Escape.digits_of_ne {c d : Char} (h : d ≠ c) (k : ℕ) (value : ℕ → Option (List ℕ))
    (cs : List Char) : digits c k value (d :: cs) = none := by
  simp [digits, h]

theorem Escape.digits_control {n : ℕ} (hn : n < 0x20) {value : ℕ → Option (List ℕ)} {us : List ℕ}
    (hvalue : value n = some us) (cs : List Char) :
    digits 'u' 4 value ('u' :: '0' :: '0' :: hexDigit (n / 16) :: hexDigit (n % 16) :: cs) =
      some (us, 5) := by
  simp [digits, hexNumber?_control hn, hvalue]

/-- **Quoted characters are understood.** Controls that must not stand raw are escaped. -/
theorem StringRules.Quotes.writes_quoteChar {r : StringRules} (hr : r.Quotes) {c : Char}
    (hc : c ∈ r.barred → c.toNat < 0x20) : r.Writes c (quoteChar c) := by
  unfold quoteChar
  split
  · rename_i e he
    exact Writes.escape (w := [e]) fun cs => hr.short he cs
  · rename_i hshort
    split_ifs with hlow
    · exact Writes.escape (w := ['u', '0', '0', _, _]) fun cs => hr.control c hlow cs
    · refine Writes.self ?_ ?_ fun h => hlow (hc h)
      · rintro rfl; simp [shortEscape?] at hshort
      · rintro rfl; simp [shortEscape?] at hshort

end Idl.Text
