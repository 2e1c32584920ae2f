import Mathlib
import Idl.Json
import Idl.Proofs.Decimal.Layout
import Idl.Proofs.Reader.Values
import Idl.Proofs.Token.Longest

/-!
# Texts of JSON documents

* `Number`, `Spells`: the grammar of JSON, with the document that a text stands for. A number without
  fraction and exponent is an integer, any other a double.
* `read?`: a reader for texts of the grammar.
* **`read?_of_spells`**: it finds the document that a text spells. So no text spells two.
-/

namespace Idl.Json

open Decimal (Digits)

variable {α : Type} {n : ℕ} {c : Char} {cs ds w rest : List Char} {j : Json} {s : String}

/-! ## Grammar -/

/-- A blank between the parts of a document. -/
def isBlank (c : Char) : Bool := c == ' ' || c == '\t' || c == '\n' || c == '\r'

/-- Blanks only. -/
def Blank (w : List Char) : Prop := ∀ c ∈ w, isBlank c = true

/-- The digits before the point. Zero is the only number that begins with a zero. -/
inductive Whole : List Char → Prop
  | zero : Whole ['0']
  | digits {c : Char} {ds : List Char} (hc : c ≠ '0') (hds : Digits (c :: ds)) : Whole (c :: ds)

/-- A point with the digits after it, or nothing. -/
inductive Places : List Char → Prop
  | none : Places []
  | digits {ds : List Char} (hne : ds ≠ []) (hds : Digits ds) : Places ('.' :: ds)

/-- A power of ten, or nothing. -/
inductive Power : List Char → Prop
  | none : Power []
  | digits {e : Char} {sign ds : List Char} (he : e = 'e' ∨ e = 'E')
      (hsign : sign = [] ∨ sign = ['+'] ∨ sign = ['-']) (hne : ds ≠ []) (hds : Digits ds) :
      Power (e :: (sign ++ ds))

/-- A number without its sign. -/
inductive Magnitude : List Char → Prop
  | mk {whole places power : List Char} (hwhole : Whole whole) (hplaces : Places places)
      (hpower : Power power) : Magnitude (whole ++ (places ++ power))

/-- A number. -/
inductive Number : List Char → Prop
  | plain {cs : List Char} (h : Magnitude cs) : Number cs
  | minus {cs : List Char} (h : Magnitude cs) : Number ('-' :: cs)

/-- Texts with commas between them. -/
def commas (texts : List (List Char)) : List Char := [','].intercalate texts

/-- A part of a text, with what it stands for. -/
structure Part (α : Type) where
  text : List Char
  value : α

/-- The text of a field. -/
def fieldText (f : Part String × Part Json) : List Char := f.1.text ++ ':' :: f.2.text

/-- The characters spell the document. Blanks stand around any part of it. -/
inductive Spells : List Char → Json → Prop
  | null : Spells "null".toList null
  | bool (b : Bool) : Spells (Literal.boolText b).toList (bool b)
  | int {cs : List Char} {i : ℤ} (h : Number cs) (hi : readInt? (String.ofList cs) = some i) :
      Spells cs (int i)
  | float {cs : List Char} {x : Binary64} (h : Number cs) (hi : readInt? (String.ofList cs) = none)
      (hx : Binary64.ofText? (String.ofList cs) = some x) : Spells cs (float x)
  | string {cs s : List Char} (h : Text.unquoteChars? cs = some s) :
      Spells cs (string (String.ofList s))
  | array {items : List (Part Json)} {w : List Char} (h : ∀ x ∈ items, Spells x.text x.value)
      (hw : Blank w) :
      Spells ('[' :: (commas (items.map Part.text) ++ (w ++ [']']))) (array (items.map Part.value))
  | object {fields : List (Part String × Part Json)} {w : List Char}
      (hkeys : ∀ f ∈ fields, Spells f.1.text (string f.1.value))
      (h : ∀ f ∈ fields, Spells f.2.text f.2.value) (hw : Blank w) :
      Spells ('\x7b' :: (commas (fields.map fieldText) ++ (w ++ ['\x7d'])))
        (object (fields.map fun f => (f.1.value, f.2.value)))
  | blank {w cs w' : List Char} {j : Json} (hw : Blank w) (h : Spells cs j) (hw' : Blank w') :
      Spells (w ++ (cs ++ w')) j

/-! ## Reader -/

/-- What follows the blanks. -/
def skip (cs : List Char) : List Char := cs.dropWhile isBlank

/-- A character of a number or of a word. -/
def isPlain (c : Char) : Bool := c.isAlphanum || c == '-' || c == '+' || c == '.'

/-- A number or a word. -/
def scalar? (text : String) : Option Json :=
  (readInt? text).map int <|> (Binary64.ofText? text).map float <|>
    if text = "null" then some null
    else if text = "true" ∨ text = "false" then some (bool (text = "true"))
    else none

/-- A quoted text, with the characters that follow it. -/
def quoted? (cs : List Char) : Option (Json × List Char) :=
  (Lexeme.quoted cs).bind fun a =>
    (Text.unquoteChars? a.lexeme).map fun s => (string (String.ofList s), skip a.rest)

/-- What `p` reads, again after each comma. -/
def list? (p : List Char → Option (α × List Char)) :
    ℕ → List Char → Option (List α × List Char)
  | 0, _ => none
  | n + 1, cs => (p cs).bind fun
    | (x, ',' :: rest) => (list? p n rest).map fun a => (x :: a.1, a.2)
    | (x, rest) => some ([x], rest)

/-- What `p` reads, if it reads anything, with a bracket after it. -/
def closed? (p : List Char → Option (List α × List Char)) (bracket : Char) (cs : List Char) :
    Option (List α × List Char) :=
  match (p cs).getD ([], skip cs) with
  | (xs, c :: rest) => if c = bracket then some (xs, skip rest) else none
  | _ => none

/-- A key and the document under it, both read by `p`. -/
def field? (p : List Char → Option (Json × List Char)) (cs : List Char) :
    Option ((String × Json) × List Char) :=
  match p cs with
  | some (string k, ':' :: rest) => (p rest).map fun a => ((k, a.1), a.2)
  | _ => none

/-- A document that is nested less than `n` times, with what follows it and its blanks. -/
def value? : ℕ → List Char → Option (Json × List Char)
  | 0, _ => none
  | n + 1, cs => match skip cs with
    | '[' :: rest => (closed? (list? (value? n) n) ']' rest).map fun a => (array a.1, a.2)
    | '\x7b' :: rest =>
      (closed? (list? (field? (value? n)) n) '\x7d' rest).map fun a => (object a.1, a.2)
    | '"' :: rest => quoted? ('"' :: rest)
    | rest => (scalar? (String.ofList (rest.takeWhile isPlain))).map fun j =>
        (j, skip (rest.dropWhile isPlain))

/-- The document that a text spells. -/
def read? (text : String) : Option Json :=
  match value? (text.length + 1) text.toList with
  | some (j, []) => some j
  | _ => none

/-! ## Parts of a text -/

/-- No number and no word goes on at the front of the text. -/
def Ends (cs : List Char) : Prop := cs.takeWhile isPlain = []

theorem ends_cons (hc : isPlain c = false) : Ends (c :: cs) := by
  simp [Ends, hc]

theorem not_isPlain_of_isBlank (h : isBlank c = true) : isPlain c = false := by
  simp only [isBlank, Bool.or_eq_true, beq_iff_eq] at h
  rcases h with ((rfl | rfl) | rfl) | rfl <;> rfl

theorem Blank.ends_append (hw : Blank w) (hrest : Ends rest) : Ends (w ++ rest) := by
  cases w with
  | nil => exact hrest
  | cons c w => exact ends_cons (not_isPlain_of_isBlank (hw c List.mem_cons_self))

theorem Blank.skip_append (hw : Blank w) (cs : List Char) : skip (w ++ cs) = skip cs :=
  List.dropWhile_append_of_pos hw

theorem skip_cons (hc : isBlank c = false) (cs : List Char) : skip (c :: cs) = c :: cs := by
  simp [skip, hc]

theorem value?_blank (hw : Blank w) (n : ℕ) (cs : List Char) : value? n (w ++ cs) = value? n cs := by
  cases n with
  | zero => rfl
  | succ n => rw [value?, value?, hw.skip_append]

/-- Numbers and words end where their characters do. -/
theorem value?_plain (hne : cs ≠ []) (hcs : ∀ c ∈ cs, isPlain c = true) (hrest : Ends rest)
    (n : ℕ) :
    value? (n + 1) (cs ++ rest) = (scalar? (String.ofList cs)).map fun j => (j, skip rest) := by
  have htake : (cs ++ rest).takeWhile isPlain = cs := by
    rw [List.takeWhile_append_of_pos hcs, hrest, List.append_nil]
  have hdrop : (cs ++ rest).dropWhile isPlain = rest := by
    rw [List.dropWhile_append_of_pos hcs]
    have h := List.takeWhile_append_dropWhile (p := isPlain) (l := rest)
    rwa [hrest, List.nil_append] at h
  obtain ⟨c, cs, rfl⟩ := List.exists_cons_of_ne_nil hne
  have hc := hcs c List.mem_cons_self
  have hblank : isBlank c = false := by
    by_contra hb
    rw [not_isPlain_of_isBlank (by simpa using hb)] at hc
    cases hc
  rw [value?, List.cons_append, skip_cons hblank, ← List.cons_append]
  split
  · next h => cases h; cases hc
  · next h => cases h; cases hc
  · next h => cases h; cases hc
  · rw [htake, hdrop]

theorem value?_bracket (hc : c = ']' ∨ c = '\x7d') (n : ℕ) : value? n (c :: rest) = none := by
  cases n with
  | zero => rfl
  | succ n => rcases hc with rfl | rfl <;> rfl

/-! ## Numbers -/

theorem isPlain_of_isDigit (h : c.isDigit = true) : isPlain c = true := by
  simp [isPlain, Char.isAlphanum, h]

theorem isPlain_of_mem_digits (hds : Digits ds) (h : c ∈ ds) : isPlain c = true :=
  isPlain_of_isDigit (hds c h)

theorem Whole.ne_nil (h : Whole ds) : ds ≠ [] := by
  cases h <;> simp

theorem Whole.isPlain (h : Whole ds) (hc : c ∈ ds) : isPlain c = true := by
  cases h with
  | zero => simp only [List.mem_singleton] at hc; subst hc; rfl
  | digits _ hds => exact isPlain_of_mem_digits hds hc

theorem Places.isPlain (h : Places ds) (hc : c ∈ ds) : isPlain c = true := by
  cases h with
  | none => cases hc
  | digits _ hds =>
    rcases List.mem_cons.1 hc with rfl | hc
    · rfl
    · exact isPlain_of_mem_digits hds hc

theorem Power.isPlain (h : Power ds) (hc : c ∈ ds) : isPlain c = true := by
  cases h with
  | none => cases hc
  | digits he hsign _ hds =>
    rcases List.mem_cons.1 hc with rfl | hc
    · rcases he with rfl | rfl <;> rfl
    · rcases List.mem_append.1 hc with hc | hc
      · rcases hsign with rfl | rfl | rfl
        · cases hc
        · obtain rfl := List.mem_singleton.1 hc; rfl
        · obtain rfl := List.mem_singleton.1 hc; rfl
      · exact isPlain_of_mem_digits hds hc

theorem Magnitude.ne_nil (h : Magnitude cs) : cs ≠ [] := by
  obtain ⟨hwhole, _, _⟩ := h
  simp [hwhole.ne_nil]

theorem Magnitude.isPlain (h : Magnitude cs) (hc : c ∈ cs) : isPlain c = true := by
  obtain ⟨hwhole, hplaces, hpower⟩ := h
  simp only [List.mem_append] at hc
  rcases hc with hc | hc | hc
  · exact hwhole.isPlain hc
  · exact hplaces.isPlain hc
  · exact hpower.isPlain hc

theorem Number.ne_nil (h : Number cs) : cs ≠ [] := by
  cases h with
  | plain h => exact h.ne_nil
  | minus => simp

theorem Number.isPlain (h : Number cs) (c : Char) (hc : c ∈ cs) : isPlain c = true := by
  cases h with
  | plain h => exact h.isPlain hc
  | minus h =>
    rcases List.mem_cons.1 hc with rfl | hc
    · rfl
    · exact h.isPlain hc

/-! ## Quoted texts -/

/-- The characters go up to the first closing quote. -/
def Quoted (cs : List Char) : Prop := ∀ rest, Lexeme.quotedRest (cs ++ rest) = some ⟨cs, rest⟩

theorem Quoted.append (h : Quoted cs) {u : List Char} (hu : u ∈ Pattern.quotedUnit) :
    Quoted (u ++ cs) := by
  intro rest
  rw [List.append_assoc, Lexeme.quotedRest_append hu, h rest]
  rfl

theorem Quoted.cons (h : Quoted cs) (hquote : c ≠ '"') (hslash : c ≠ '\\') (hline : c ≠ '\n') :
    Quoted (c :: cs) :=
  h.append (u := [c]) (.inl ⟨c, by simp [hquote, hslash, hline], rfl⟩)

theorem Quoted.escape (h : Quoted cs) (hline : c ≠ '\n') : Quoted ('\\' :: c :: cs) :=
  h.append (u := ['\\', c]) (.inr (Language.append_mem_mul (a := ['\\']) ⟨_, rfl, rfl⟩
    ⟨c, by simpa using hline, rfl⟩))

theorem Quoted.hex (h : Quoted cs) {k : ℕ} (hc : Text.hexValue? c = some k) : Quoted (c :: cs) := by
  have hplain : ∀ d, Text.hexValue? d = none → c ≠ d := by
    rintro d hd rfl
    rw [hc] at hd
    cases hd
  exact h.cons (hplain _ (by decide)) (hplain _ (by decide)) (hplain _ (by decide))

theorem Quoted.unit (h : Quoted cs) {a b c d : Char} {k : ℕ}
    (hk : Text.hexUnit? a b c d = some k) : Quoted ('\\' :: 'u' :: a :: b :: c :: d :: cs) := by
  simp only [Text.hexUnit?, Option.bind_eq_bind, Option.bind_eq_some_iff] at hk
  obtain ⟨_, ha, _, hb, _, hc, _, hd, -⟩ := hk
  exact ((((h.hex hd).hex hc).hex hb).hex ha).escape (by decide)

/-- What reads as a quoted text goes up to its closing quote. -/
theorem quoted_of_unquoteRest? {s : List Char} (h : Text.unquoteRest? cs = some s) : Quoted cs := by
  fun_induction Text.unquoteRest? cs generalizing s with
  | case1 | case3 | case6 => exact absurd h (by simp)
  | case2 rest hrest =>
    obtain rfl := List.isEmpty_iff.1 hrest
    exact fun rest => rfl
  | case4 a b c d rest ih₂ ih₁ =>
    obtain ⟨k, hk, h⟩ := Option.bind_eq_some_iff.1 h
    split_ifs at h
    · split at h
      · obtain ⟨lo, hlo, h⟩ := Option.bind_eq_some_iff.1 h
        split_ifs at h
        obtain ⟨t, ht, -⟩ := Option.bind_eq_some_iff.1 h
        exact ((ih₂ ht).unit hlo).unit hk
      · exact absurd h (by simp)
    · obtain ⟨t, ht, -⟩ := Option.bind_eq_some_iff.1 h
      exact (ih₁ ht).unit hk
  | case5 e rest _ ih =>
    obtain ⟨c, hc, h⟩ := Option.bind_eq_some_iff.1 h
    obtain ⟨t, ht, -⟩ := Option.bind_eq_some_iff.1 h
    refine (ih ht).escape ?_
    rintro rfl
    exact absurd (toNat_ge_of_ofShortEscape? hc) (by decide)
  | case7 c rest hquote _ hslash hc ih =>
    obtain ⟨t, ht, -⟩ := Option.bind_eq_some_iff.1 h
    refine (ih ht).cons hquote ?_ ?_
    · -- a backslash at the end of the text
      rintro rfl
      cases rest with
      | nil => cases ht
      | cons e rest => exact hslash e rest rfl rfl
    · rintro rfl
      exact hc (by decide)

/-- A quoted text is read, whatever follows it. -/
theorem value?_quoted {s : List Char} (h : Text.unquoteChars? cs = some s) (n : ℕ)
    (rest : List Char) :
    value? (n + 1) (cs ++ rest) = some (string (String.ofList s), skip rest) := by
  unfold Text.unquoteChars? at h
  split at h
  · next cs =>
    have hcut := quoted_of_unquoteRest? h rest
    rw [value?, List.cons_append, skip_cons rfl]
    simp [quoted?, Lexeme.quoted, Lexeme.andThen, Lexeme.one, hcut, Text.unquoteChars?, h]
  · cases h

/-! ## Lists -/

theorem commas_cons {t : List Char} {ts : List (List Char)} (hne : ts ≠ []) :
    commas (t :: ts) = t ++ ',' :: commas ts := by
  obtain ⟨u, us, rfl⟩ := List.exists_cons_of_ne_nil hne
  rw [commas, List.intercalate_cons_cons, List.append_assoc]
  rfl

theorem commas_singleton (t : List Char) : commas [t] = t := List.intercalate_singleton ..

theorem length_le_commas (ts : List (List Char)) : ts.length ≤ (commas ts).length + 1 := by
  induction ts with
  | nil => simp
  | cons t ts ih =>
    by_cases hne : ts = []
    · simp [hne]
    · rw [commas_cons hne]
      simp only [List.length_cons, List.length_append]
      omega

theorem length_le_of_mem {t : List Char} {ts : List (List Char)} (h : t ∈ ts) :
    t.length ≤ (commas ts).length := by
  induction ts with
  | nil => cases h
  | cons u ts ih =>
    by_cases hne : ts = []
    · subst hne
      rw [List.mem_singleton.1 h, commas_singleton]
    · rw [commas_cons hne]
      simp only [List.length_cons, List.length_append]
      rcases List.mem_cons.1 h with rfl | h
      · omega
      · have := ih h
        omega

/-- A reader takes a text off the front of any text that does not go on with it. -/
def Takes (p : List Char → Option (α × List Char)) (cs : List Char) (x : α) : Prop :=
  ∀ rest, Ends rest → p (cs ++ rest) = some (x, skip rest)

variable {β : Type} {p : List Char → Option (α × List Char)} {text : β → List Char} {value : β → α}
  {items : List β}

/-- Items between commas are read one by one. -/
theorem list?_commas (hne : items ≠ []) (h : ∀ b ∈ items, Takes p (text b) (value b))
    (hn : items.length ≤ n) (hrest : Ends rest) (hcomma : (skip rest).head? ≠ some ',') :
    list? p n (commas (items.map text) ++ rest) = some (items.map value, skip rest) := by
  induction items generalizing n with
  | nil => exact absurd rfl hne
  | cons b items ih =>
    obtain ⟨n, rfl⟩ := Nat.exists_eq_succ_of_ne_zero (Nat.ne_zero_of_lt hn)
    have hb := h b List.mem_cons_self
    by_cases hnil : items = []
    · subst hnil
      rw [List.map_singleton, commas_singleton, list?, hb rest hrest, Option.bind_some]
      split
      · next heq =>
        obtain ⟨rfl, hskip⟩ := Prod.mk.inj heq
        exact absurd (by rw [hskip]; rfl) hcomma
      · next heq => obtain ⟨rfl, rfl⟩ := Prod.mk.inj heq; rfl
    · have hitems := ih hnil (fun b hb => h b (List.mem_cons_of_mem _ hb))
        (Nat.le_of_succ_le_succ hn)
      rw [List.map_cons, commas_cons (by simpa using hnil), List.append_assoc, list?,
        List.cons_append, hb _ (ends_cons rfl), Option.bind_some, skip_cons rfl]
      simp only [hitems]
      rfl

/-- Items in brackets are read up to the closing one. -/
theorem closed?_commas (h : ∀ b ∈ items, Takes p (text b) (value b)) (hn : items.length ≤ n)
    (hw : Blank w) (hblank : ∀ cs, p (w ++ cs) = p cs) (hc : c = ']' ∨ c = '\x7d')
    (hnone : p (c :: rest) = none) :
    closed? (list? p n) c (commas (items.map text) ++ (w ++ c :: rest)) =
      some (items.map value, skip rest) := by
  obtain ⟨hplain, hskip, hcomma⟩ : isPlain c = false ∧ isBlank c = false ∧ c ≠ ',' := by
    rcases hc with rfl | rfl <;> decide
  have hafter : skip (w ++ c :: rest) = c :: rest := by rw [hw.skip_append, skip_cons hskip]
  by_cases hne : items = []
  · subst hne
    have hlist : list? p n (w ++ c :: rest) = none := by
      cases n with
      | zero => rfl
      | succ n => rw [list?, hblank, hnone]; rfl
    show closed? (list? p n) c (w ++ c :: rest) = _
    simp [closed?, hlist, hafter]
  · rw [closed?, list?_commas hne h hn (hw.ends_append (ends_cons hplain))
      (by simpa [hafter] using hcomma), hafter]
    simp

theorem field?_takes {p : List Char → Option (Json × List Char)} {f : Part String × Part Json}
    (hkey : Takes p f.1.text (string f.1.value)) (hvalue : Takes p f.2.text f.2.value) :
    Takes (field? p) (fieldText f) (f.1.value, f.2.value) := by
  intro rest hrest
  rw [field?, fieldText, List.append_assoc, List.cons_append, hkey _ (ends_cons rfl),
    skip_cons rfl]
  simp only [hvalue rest hrest]
  rfl

/-! ## Documents -/

/-- **A spelled document is read**, if it is not longer than the reader looks. -/
theorem value?_of_spells (h : Spells cs j) (hn : cs.length ≤ n) : Takes (value? (n + 1)) cs j := by
  induction h generalizing n with
  | null =>
    intro rest hrest
    rw [value?_plain (by simp) (List.all_eq_true.1 rfl) hrest]
    rfl
  | bool b =>
    intro rest hrest
    rw [value?_plain (by cases b <;> simp [Literal.boolText])
      (List.all_eq_true.1 (by cases b <;> rfl)) hrest]
    cases b <;> rfl
  | int h hi =>
    intro rest hrest
    rw [value?_plain h.ne_nil h.isPlain hrest, scalar?, hi]
    rfl
  | float h hi hx =>
    intro rest hrest
    rw [value?_plain h.ne_nil h.isPlain hrest, scalar?, hi, hx]
    rfl
  | string h => exact fun rest _ => value?_quoted h n rest
  | @array items w h hw ih =>
    intro rest _
    obtain ⟨n, rfl⟩ := Nat.exists_eq_succ_of_ne_zero (Nat.ne_zero_of_lt hn)
    simp only [List.length_cons, List.length_append, List.length_nil] at hn
    have hcount := length_le_commas (items.map Part.text)
    rw [List.length_map] at hcount
    have hitems : ∀ x ∈ items, Takes (value? (n + 1)) x.text x.value := by
      intro x hx
      have hlength := length_le_of_mem (List.mem_map_of_mem (f := Part.text) hx)
      exact ih x hx (by omega)
    rw [List.cons_append, value?, skip_cons rfl]
    simp only [List.append_assoc, List.cons_append, List.nil_append]
    rw [closed?_commas hitems (by omega) hw (value?_blank hw _) (.inl rfl)
      (value?_bracket (.inl rfl) _)]
    rfl
  | @object fields w hkeys h hw ihkeys ih =>
    intro rest _
    obtain ⟨n, rfl⟩ := Nat.exists_eq_succ_of_ne_zero (Nat.ne_zero_of_lt hn)
    simp only [List.length_cons, List.length_append, List.length_nil] at hn
    have hcount := length_le_commas (fields.map fieldText)
    rw [List.length_map] at hcount
    have hfields : ∀ f ∈ fields,
        Takes (field? (value? (n + 1))) (fieldText f) (f.1.value, f.2.value) := by
      intro f hf
      have hlength := length_le_of_mem (List.mem_map_of_mem (f := fieldText) hf)
      simp only [fieldText, List.length_append, List.length_cons] at hlength
      exact field?_takes (ihkeys f hf (by omega)) (ih f hf (by omega))
    rw [List.cons_append, value?, skip_cons rfl]
    simp only [List.append_assoc, List.cons_append, List.nil_append]
    rw [closed?_commas hfields (by omega) hw (fun cs => by rw [field?, field?, value?_blank hw])
      (.inr rfl) (by rw [field?, value?_bracket (.inr rfl)])]
    rfl
  | @blank w cs w' j hw _ hw' ih =>
    intro rest hrest
    simp only [List.length_append] at hn
    rw [List.append_assoc, value?_blank hw, List.append_assoc,
      ih (by omega) (w' ++ rest) (hw'.ends_append hrest), hw'.skip_append]

/-- **A text is read as the document that it spells.** -/
theorem read?_of_spells {text : String} (h : Spells text.toList j) : read? text = some j := by
  have hread := value?_of_spells h String.length_toList.le [] rfl
  rw [List.append_nil] at hread
  rw [read?, hread]
  rfl

/-- No text spells two documents. -/
theorem Spells.unique {text : String} {i : Json} (hi : Spells text.toList i)
    (hj : Spells text.toList j) : i = j :=
  Option.some.inj ((read?_of_spells hi).symm.trans (read?_of_spells hj))

end Idl.Json
