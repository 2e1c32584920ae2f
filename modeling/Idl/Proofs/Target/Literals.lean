import Mathlib
import Idl.Proofs.Decimal.Numerals
import Idl.Proofs.Target.Scope
import Idl.Proofs.Text.Literals

/-!
# What literals stand for

Every language has its own string literals. A text is written for the language that will read it, and
what is read there is the text, but for three line separators that one language does not allow.

* `Target.strings`: the rules of each language.
* `Target.writing`: how a character is written. `Target.toList_text`: a literal is its characters in
  order, between quotes.
* `Target.writes_writing`: the language reads the character back.
* **`Target.read?_text`**, `CSharp.read?_text_of_separator`: literals read back, or cannot be read.
-/

namespace Idl

open Text Escape

/-! ## The rules of each language -/

/-- Letters for controls that most languages share. -/
def controlLetters : List (Char × Char) :=
  [('b', '\x08'), ('f', '\x0c'), ('n', '\n'), ('r', '\r'), ('t', '\t'), ('v', '\x0b')]

namespace Rust

/-- Up to six digits. Underscores may stand after the first. -/
def bracedNumber? (ds : List Char) : Option ℕ :=
  let digits := ds.filter (· != '_')
  if ds.head? = some '_' ∨ 6 < digits.length then none else hexNumber? digits

/-- A line that ends in a backslash goes on at the next character that is not blank. -/
def continuation : Escape
  | '\n' :: cs => some ([], (cs.takeWhile fun c => ['\t', '\n', '\r', ' '].contains c).length + 1)
  | _ => none

/-- Line feeds may stand in literals, carriage returns may not. -/
def strings : StringRules where
  encoding := .utf8
  barred := ['\r']
  escape? := firstOf [
    letter .utf8 [('n', '\n'), ('r', '\r'), ('t', '\t'), ('\\', '\\'), ('0', '\x00'),
      ('\x27', '\x27'), ('"', '"')],
    digits 'x' 2 (unitBelow 0x80),
    braced bracedNumber? (scalar .utf8),
    continuation]

end Rust

/-- Strings are bytes, and escapes can name single ones. -/
def Go.strings : StringRules where
  encoding := .utf8
  barred := ['\n']
  escape? := firstOf [
    letter .utf8 (controlLetters ++ [('a', '\x07'), ('\\', '\\'), ('"', '"')]),
    octal (unitBelow 0x100),
    digits 'x' 2 (unitBelow 0x100),
    digits 'u' 4 (scalar .utf8),
    digits 'U' 8 (scalar .utf8)]

/-- Line separators beyond ASCII, which end a line as line feeds do. -/
def CSharp.separators : List Char := ['\u0085', '\u2028', '\u2029']

/-- No line separator may stand in a literal. -/
def CSharp.strings : StringRules where
  encoding := .utf16
  barred := '\n' :: '\r' :: separators
  escape? := firstOf [
    letter .utf16 (controlLetters ++ [('a', '\x07'), ('e', '\x1b'), ('0', '\x00'), ('\x27', '\x27'),
      ('\\', '\\'), ('"', '"')]),
    digitsUpTo 'x' 4 (unitBelow 0x10000),
    digits 'u' 4 (unitBelow 0x10000),
    digits 'U' 8 point]

/-- A dollar sign begins an expression. Most characters stand for themselves after a backslash. -/
def Dart.strings : StringRules where
  encoding := .utf16
  barred := ['\n', '\r', '$']
  escape? := firstOf [
    letter .utf16 controlLetters,
    digits 'x' 2 (unitBelow 0x100),
    digits 'u' 4 (unitBelow 0x10000),
    braced (fun ds => if 6 < ds.length then none else hexNumber? ds) point,
    itself .utf16 ['\n', '\r', 'x', 'u']]

namespace TypeScript

/-- Characters that end a line. -/
def lineEnds : List Char := ['\n', '\r', '\u2028', '\u2029']

/-- A line that ends in a backslash goes on with the next. -/
def continuation : Escape
  | '\r' :: '\n' :: _ => some ([], 2)
  | c :: _ => if c ∈ lineEnds then some ([], 1) else none
  | [] => none

/-- The digit zero, if no other digit follows it. -/
def zero : Escape
  | '0' :: cs => if cs.head?.any Char.isDigit then none else some ([0], 1)
  | _ => none

/-- Two of the characters that end a line may stand in literals. -/
def strings : StringRules where
  encoding := .utf16
  barred := ['\n', '\r']
  escape? := firstOf [
    letter .utf16 controlLetters,
    zero,
    digits 'x' 2 (unitBelow 0x100),
    digits 'u' 4 (unitBelow 0x10000),
    braced hexNumber? point,
    continuation,
    itself .utf16 ("0123456789xu".toList ++ lineEnds)]

end TypeScript

/-- The string literals of a target. -/
def Target.strings : Target → StringRules
  | rust => Rust.strings
  | go => Go.strings
  | csharp => CSharp.strings
  | dart => Dart.strings
  | typescript => TypeScript.strings

/-! ## Escapes that are understood -/

theorem Target.quotes_strings {t : Target} (ht : t ≠ rust) : t.strings.Quotes where
  short {c e} h cs := by
    unfold shortEscape? at h
    cases t with
    | rust => exact absurd rfl ht
    | _ => split_ifs at h <;> subst c <;> cases h <;> rfl
  control c hc cs := by
    have hunit : unitBelow 0x10000 c.toNat = some (Encoding.utf16.units c) := by
      have hlow : c.toNat < 0x10000 := by omega
      simp [unitBelow, Encoding.utf16, pointUnits, hlow]
    have hunits := digits_control hc hunit cs
    have hbytes := digits_control hc (scalar_toNat .utf8 c) cs
    cases t with
    | rust => exact absurd rfl ht
    | go => simp [strings, Go.strings, firstOf, letter, controlLetters, octal, digits_of_ne, hbytes]
    | csharp => simp [strings, CSharp.strings, firstOf, letter, controlLetters, digitsUpTo, hunits]
    | dart => simp [strings, Dart.strings, firstOf, letter, controlLetters, digits_of_ne, hunits]
    | typescript =>
      simp [strings, TypeScript.strings, firstOf, letter, controlLetters, TypeScript.zero, digits_of_ne,
        hunits]

theorem Rust.bracedNumber?_toDigits (c : Char) :
    bracedNumber? (Nat.toDigits 16 c.toNat) = some c.toNat := by
  have hmem : '_' ∉ Nat.toDigits 16 c.toNat :=
    not_mem_toDigits (fun _ => Nat.digitChar_ne '_' rfl) c.toNat
  have hfilter : (Nat.toDigits 16 c.toNat).filter (· != '_') = Nat.toDigits 16 c.toNat := by
    refine List.filter_eq_self.2 fun d hd => ?_
    rw [bne_iff_ne]
    rintro rfl
    exact hmem hd
  have hhead : (Nat.toDigits 16 c.toNat).head? ≠ some '_' :=
    fun h => hmem (List.mem_of_mem_head? h)
  have hlen : (Nat.toDigits 16 c.toNat).length ≤ 6 := by
    have hvalid : c.toNat < 0xd800 ∨ 0xdfff < c.toNat ∧ c.toNat < 0x110000 := c.valid
    rw [Nat.length_toDigits_le_iff (by omega) (by omega)]
    omega
  simp [bracedNumber?, hfilter, hhead, hlen, hexNumber?_toDigits]

theorem Rust.writes_escapeAsciiChar (c : Char) : strings.Writes c (escapeAsciiChar c) := by
  unfold escapeAsciiChar
  split_ifs with ht hr hn hq hp
  · exact .escape (w := ['t']) fun cs => by rw [ht]; rfl
  · exact .escape (w := ['r']) fun cs => by rw [hr]; rfl
  · exact .escape (w := ['n']) fun cs => by rw [hn]; rfl
  · refine .escape (w := [c]) fun cs => ?_
    rcases hq with rfl | rfl | rfl <;> rfl
  · rw [not_or, not_or] at hq
    exact .self hq.2.1 hq.2.2 (by simpa [strings] using hr)
  · refine .escape (w := 'u' :: '\x7b' :: Nat.toDigits 16 c.toNat ++ ['\x7d']) fun cs => ?_
    have hbraced := braced_toDigits (e := .utf8) (bracedNumber?_toDigits c) cs
    simp [strings, firstOf, letter, digits_of_ne, hbraced]

/-! ## Character by character -/

/-- How a character is written between quotes. -/
def Target.writing : Target → Char → List Char
  | rust => escapeAsciiChar
  | dart => fun c => if c = '$' then ['\\', '$'] else quoteChar c
  | _ => quoteChar

theorem Dart.flatMap_quoteChar (c : Char) :
    (quoteChar c).flatMap (fun c => if c = '$' then ['\\', '$'] else [c]) = Target.dart.writing c := by
  by_cases hc : c = '$'
  · subst c
    rfl
  · have hdollar : ∀ x ∈ quoteChar c, x ≠ '$' := by
      rcases quoteChar_cases c with ⟨h, -⟩ | ⟨-, h⟩
      · simpa [h] using hc
      · exact fun x hx => (h x hx).1
    calc (quoteChar c).flatMap (fun c => if c = '$' then ['\\', '$'] else [c])
        = (quoteChar c).flatMap (fun c => [c]) := List.flatMap_congr fun x hx => if_neg (hdollar x hx)
      _ = quoteChar c := List.flatMap_singleton' _
      _ = Target.dart.writing c := (if_neg hc).symm

/-- **A literal is its characters between quotes.** -/
theorem Target.toList_text (t : Target) (s : String) :
    (t.dialect.text s).toList = '"' :: s.toList.flatMap t.writing ++ ['"'] := by
  cases t with
  | rust =>
    show ("\"" ++ escapeAscii s ++ "\"").toList = _
    simp [escapeAscii, writing]
  | dart =>
    show (Dart.stringText s).toList = _
    simp [Dart.stringText, quoteChars, List.flatMap_assoc, Dart.flatMap_quoteChar]
  | _ =>
    show (quote s).toList = _
    simp [quote, quoteChars, writing]

/-- **A character is read back** where the language allows it. -/
theorem Target.writes_writing {t : Target} {c : Char} (h : t = csharp → c ∉ CSharp.separators) :
    t.strings.Writes c (t.writing c) := by
  cases t with
  | rust => exact Rust.writes_escapeAsciiChar c
  | dart =>
    show Dart.strings.Writes c (if c = '$' then ['\\', '$'] else quoteChar c)
    split_ifs with hc
    · exact .escape (w := ['$']) fun cs => by rw [hc]; rfl
    · refine (quotes_strings (t := dart) nofun).writes_quoteChar fun hbarred => ?_
      have hlow : c = '\n' ∨ c = '\r' := by simpa [strings, Dart.strings, hc] using hbarred
      rcases hlow with rfl | rfl <;> decide
  | go =>
    refine (quotes_strings (t := go) nofun).writes_quoteChar fun hbarred => ?_
    have hlow : c = '\n' := by simpa [strings, Go.strings] using hbarred
    rw [hlow]
    decide
  | csharp =>
    refine (quotes_strings (t := csharp) nofun).writes_quoteChar fun hbarred => ?_
    have hlow : c = '\n' ∨ c = '\r' := by
      simpa [strings, CSharp.strings, h rfl] using hbarred
    rcases hlow with rfl | rfl <;> decide
  | typescript =>
    refine (quotes_strings (t := typescript) nofun).writes_quoteChar fun hbarred => ?_
    have hlow : c = '\n' ∨ c = '\r' := by simpa [strings, TypeScript.strings] using hbarred
    rcases hlow with rfl | rfl <;> decide

/-- **String literals read back**, in all languages but one whatever the text. -/
theorem Target.read?_text {t : Target} {s : String}
    (h : t = csharp → ∀ c ∈ s.toList, c ∉ CSharp.separators) (rest : List Char) :
    t.strings.read? ((t.dialect.text s).toList ++ rest) = some (s, rest) := by
  rw [toList_text, List.append_assoc]
  exact StringRules.read?_of_writes (fun c hc => writes_writing fun ht => h ht c hc) rest

/-- A line separator spoils a literal. -/
theorem CSharp.read?_text_of_separator {s : String} (hs : ∃ c ∈ s.toList, c ∈ separators)
    (rest : List Char) : strings.read? ((dialect.text s).toList ++ rest) = none := by
  have hraw : ∀ c ∈ separators, quoteChar c = [c] ∧ c ∈ strings.barred ∧ c ≠ '"' ∧ c ≠ '\\' := by
    simp only [separators, List.forall_mem_cons]
    exact ⟨by decide, by decide, by decide, nofun⟩
  rw [show (dialect.text s).toList = _ from Target.toList_text .csharp s, List.append_assoc]
  refine StringRules.read?_of_spoilt separators (fun c hc => ?_) (fun c hc cs => ?_) hs rest
  · exact Target.writes_writing (t := .csharp) fun _ => hc
  · obtain ⟨hself, hbarred, hquote, hslash⟩ := hraw c hc
    rw [show Target.csharp.writing c = _ from hself]
    exact StringRules.body?_of_barred hbarred hquote hslash cs

/-! ## Characters that stand in a literal -/

/-- No control stands in a literal. -/
theorem Target.toNat_ge_of_mem_text {t : Target} {s : String} {x : Char}
    (hx : x ∈ (t.dialect.text s).toList) : 0x20 ≤ x.toNat := by
  have hchar : ∀ c, x ∈ t.writing c → 0x20 ≤ x.toNat := by
    intro c hc
    cases t with
    | rust => exact toNat_ge_of_mem_escapeAsciiChar hc
    | dart =>
      rw [← Dart.flatMap_quoteChar, List.mem_flatMap] at hc
      obtain ⟨y, hy, hxy⟩ := hc
      split_ifs at hxy
      · simp only [List.mem_cons, List.not_mem_nil, or_false] at hxy
        rcases hxy with rfl | rfl <;> decide
      · rw [List.mem_singleton.1 hxy]
        exact toNat_ge_of_mem_quoteChar hy
    | go | csharp | typescript => exact toNat_ge_of_mem_quoteChar hc
  rw [toList_text] at hx
  simp only [List.cons_append, List.mem_cons, List.mem_append, List.mem_flatMap, List.not_mem_nil,
    or_false] at hx
  rcases hx with rfl | ⟨c, -, hc⟩ | rfl
  · decide
  · exact hchar c hc
  · decide

/-- Beyond ASCII, a quoted text has the characters of the text and no others. -/
theorem CSharp.mem_text_iff {s : String} {x : Char} (hx : 0x80 ≤ x.toNat) :
    x ∈ (dialect.text s).toList ↔ x ∈ s.toList := by
  have hquote : x ≠ '"' := by rintro rfl; revert hx; decide
  have hchar : ∀ c, x ∈ quoteChar c ↔ c = x := by
    intro c
    rcases quoteChar_cases c with ⟨h, -⟩ | ⟨hc, h⟩
    · rw [h, List.mem_singleton, eq_comm]
    · refine ⟨fun hmem => absurd (h x hmem).2.2 (by omega), ?_⟩
      rintro rfl
      omega
  rw [show (dialect.text s).toList = _ from Target.toList_text .csharp s]
  simp [Target.writing, hchar, hquote]

/-! ## What literals stand for -/

/-- **Literals stand for their values.** A string literal reads back in its language whatever follows
it, and no line end stands in it. An integer is its decimal text, with a point and a zero among
floating point numbers. -/
theorem literals_denote_values :
    (∀ t ≠ Target.csharp, ∀ p s rest,
      t.strings.read? ((t.dialect.literal p (.string s)).toList ++ rest) = some (s, rest) ∧
      '\n' ∉ (t.dialect.literal p (.string s)).toList ∧
      '\r' ∉ (t.dialect.literal p (.string s)).toList) ∧
    (∀ (t : Target) (p : Primitive) (i : Int64), p.isInteger = true →
      Decimal.DecimalText (t.dialect.literal p (.int i)).toList i.toInt) ∧
    (∀ (t : Target) (p : Primitive) (i : Int64), p.isFloat = true →
      ∃ w, Decimal.DecimalText w i.toInt ∧ (t.dialect.literal p (.int i)).toList =
        w ++ ['.', '0'] ++ if t = .csharp ∧ p = .float32 then ['f'] else []) := by
  refine ⟨fun t ht p s rest => ⟨?_, ?_, ?_⟩, fun t p i hp => ?_, fun t p i hp => ?_⟩
  · exact Target.read?_text (fun h => absurd h ht) rest
  · exact fun h => absurd (Target.toNat_ge_of_mem_text h) (by decide)
  · exact fun h => absurd (Target.toNat_ge_of_mem_text h) (by decide)
  · have hfloat : p.isFloat = false := by revert hp; cases p <;> decide
    rw [Dialect.literal, hfloat, if_neg (by decide)]
    exact Decimal.decimalText_toString i.toInt
  · refine ⟨_, Decimal.decimalText_toString i.toInt, ?_⟩
    rw [Dialect.literal, if_pos hp, String.toList_append, String.toList_append]
    congr 1
    cases t with
    | csharp => by_cases h : p = .float32 <;> simp [Target.dialect, CSharp.dialect, h]
    | _ => simp [Target.dialect, Rust.dialect, Go.dialect, Dart.dialect, TypeScript.dialect]

/-- A text with a quote, a dollar sign, a line end and a character of two units, and the least
integer. -/
theorem literals_denote_values_dollar :
    Target.dart ≠ .csharp ∧
    Target.dart.strings.read?
        ((Target.dart.dialect.literal .string (.string "\"$x\n😀")).toList ++ [';']) =
      some ("\"$x\n😀", [';']) ∧
    Primitive.isInteger .int64 = true ∧
    Decimal.DecimalText (Target.go.dialect.literal .int64 (.int Int64.minValue)).toList
      (-9223372036854775808) ∧
    Primitive.isFloat .float32 = true ∧
    ∃ w, Decimal.DecimalText w (-9223372036854775808) ∧
      (Target.csharp.dialect.literal .float32 (.int Int64.minValue)).toList =
        w ++ ['.', '0'] ++ if Target.csharp = .csharp ∧ Primitive.float32 = .float32 then ['f'] else [] :=
  have h := literals_denote_values
  ⟨by decide, (h.1 .dart (by decide) .string _ [';']).1, by decide,
    h.2.1 .go .int64 Int64.minValue (by decide), by decide,
    h.2.2 .csharp .float32 Int64.minValue (by decide)⟩

/-- **Line separators spoil literals.** A literal reads back if its text has none of the separators
beyond ASCII, and is no literal at all if it has one: they stand in it as they are. -/
theorem CSharp.separators_spoil_literals (p : Primitive) (s : String) (rest : List Char) :
    strings.read? ((dialect.literal p (.string s)).toList ++ rest) =
      (if ∀ c ∈ s.toList, c ∉ separators then some (s, rest) else none) ∧
    ∀ c ∈ strings.barred,
      (c ∈ (dialect.literal p (.string s)).toList ↔ c ∈ s.toList ∧ c ∈ separators) := by
  constructor
  · split_ifs with hs
    · exact Target.read?_text (t := .csharp) (fun _ => hs) rest
    · push Not at hs
      exact read?_text_of_separator hs rest
  · intro c hc
    change c ∈ '\n' :: '\r' :: separators at hc
    have hhigh : ∀ x ∈ separators, 0x80 ≤ x.toNat := by
      simp only [separators, List.forall_mem_cons]
      exact ⟨by decide, by decide, by decide, nofun⟩
    by_cases hsep : c ∈ separators
    · rw [iff_true_intro hsep, and_true]
      exact mem_text_iff (hhigh c hsep)
    · have hlow : c.toNat < 0x20 := by
        simp only [List.mem_cons, hsep, or_false] at hc
        rcases hc with rfl | rfl <;> decide
      refine ⟨fun h => ?_, fun h => absurd h.2 hsep⟩
      have := Target.toNat_ge_of_mem_text (t := .csharp) h
      omega

/-- A separator between quotes. -/
theorem CSharp.separators_spoil_literals_line :
    strings.read? ((dialect.literal .string (.string "\u2028")).toList ++ [';']) = none ∧
    '\u2028' ∈ (dialect.literal .string (.string "\u2028")).toList := by
  have h := separators_spoil_literals .string "\u2028" [';']
  refine ⟨h.1.trans (if_neg ?_), (h.2 '\u2028' (by decide)).2 ⟨by decide, by decide⟩⟩
  exact fun hs => hs '\u2028' (by decide) (by decide)

end Idl
