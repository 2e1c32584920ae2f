import Mathlib
import Idl.Token.Scan

/-!
# The pattern of lexemes

Which pieces of a text are lexemes, as languages of characters and conditions on what stands around
a piece.

* `Pattern.quoted`, `Pattern.number`, `Pattern.mark`, `Pattern.name`, `Pattern.comment`,
  `Pattern.blanks`: the kinds of lexemes.
* `Boundary`: a word begins or ends between two texts.
* `TokenAt`, `IsGap`: a piece between two texts makes a token, or none.
* `Pattern.mem_quoted`, `Pattern.mem_name`, `Pattern.mem_comment`: their characters.
* `kindOf?`: the first character of a lexeme tells its kind.
* `tokenAt_iff`: boundaries in terms of the characters next to a piece.
-/

namespace Idl

open Computability Text Lexeme

namespace Pattern

/-- One character that satisfies `p`. -/
def char (p : Char → Bool) : Language Char := {w | ∃ c, p c = true ∧ w = [c]}

/-- A run of characters that satisfy `p`. -/
def run (p : Char → Bool) : Language Char := char p * (char p)∗

/-- What may stand between quotes: a character, or a backslash with the character after it. -/
def quotedUnit : Language Char :=
  (char fun c => c != '"' && c != '\\' && c != '\n') + char (· == '\\') * char (· != '\n')

/-- A text between quotes on one line. -/
def quoted : Language Char := char (· == '"') * (quotedUnit∗ * char (· == '"'))

/-- A point and digits. -/
def fraction : Language Char := char (· == '.') * run isDigit

/-- A power of ten. -/
def exponent : Language Char :=
  (char fun c => c == 'e' || c == 'E') * ((1 + char fun c => c == '+' || c == '-') * run isDigit)

/-- An integer with its sign. -/
def integer : Language Char := (1 + char (· == '-')) * run isDigit

/-- A number. -/
def number : Language Char := integer * ((1 + fraction) * (1 + exponent))

/-- A mark. -/
def mark : Language Char := char isMark

/-- An identifier. -/
def name : Language Char := char isNameStart * (char isNamePart)∗

/-- Two slashes and more of their line. -/
def comment : Language Char := char (· == '/') * (char (· == '/') * (char (· != '\n'))∗)

/-- A run of blanks. -/
def blanks : Language Char := run isBlank

theorem mem_char {p : Char → Bool} {w : List Char} : w ∈ char p ↔ ∃ c, p c = true ∧ w = [c] :=
  Iff.rfl

theorem mem_star {p : Char → Bool} {w : List Char} : w ∈ (char p)∗ ↔ ∀ c ∈ w, p c = true := by
  rw [Language.mem_kstar]
  constructor
  · rintro ⟨L, rfl, hL⟩ c hc
    obtain ⟨l, hl, hcl⟩ := List.mem_flatten.1 hc
    obtain ⟨d, hd, rfl⟩ := hL l hl
    rwa [List.mem_singleton.1 hcl]
  · intro h
    refine ⟨w.map fun c => [c], by rw [← List.flatMap_def, List.flatMap_singleton'], ?_⟩
    simpa [mem_char] using h

theorem mem_run {p : Char → Bool} {w : List Char} :
    w ∈ run p ↔ w ≠ [] ∧ ∀ c ∈ w, p c = true := by
  rw [run, Language.mem_mul]
  constructor
  · rintro ⟨_, ⟨c, hc, rfl⟩, v, hv, rfl⟩
    exact ⟨by simp, by simpa [hc] using mem_star.1 hv⟩
  · rintro ⟨hne, h⟩
    obtain ⟨c, v, rfl⟩ := List.exists_cons_of_ne_nil hne
    rw [List.forall_mem_cons] at h
    exact ⟨[c], ⟨c, h.1, rfl⟩, v, mem_star.2 h.2, rfl⟩

theorem mem_quoted {w : List Char} : w ∈ quoted ↔ ∃ us ∈ quotedUnit∗, w = '"' :: (us ++ ['"']) := by
  constructor
  · intro h
    obtain ⟨_, ⟨q, hq, rfl⟩, _, hv, rfl⟩ := Language.mem_mul.1 h
    obtain ⟨us, hus, _, ⟨q', hq', rfl⟩, rfl⟩ := Language.mem_mul.1 hv
    rw [beq_iff_eq] at hq hq'
    subst hq hq'
    exact ⟨us, hus, rfl⟩
  · rintro ⟨us, hus, rfl⟩
    exact Language.append_mem_mul (a := ['"']) ⟨_, rfl, rfl⟩
      (Language.append_mem_mul hus ⟨_, rfl, rfl⟩)

theorem mem_name {w : List Char} :
    w ∈ name ↔ ∃ c cs, w = c :: cs ∧ isNameStart c = true ∧ ∀ d ∈ cs, isNamePart d = true := by
  constructor
  · intro h
    obtain ⟨_, ⟨c, hc, rfl⟩, cs, hcs, rfl⟩ := Language.mem_mul.1 h
    exact ⟨c, cs, rfl, hc, mem_star.1 hcs⟩
  · rintro ⟨c, cs, rfl, hc, hcs⟩
    exact Language.append_mem_mul (a := [c]) ⟨c, hc, rfl⟩ (mem_star.2 hcs)

theorem mem_comment {w : List Char} : w ∈ comment ↔ ∃ u, w = '/' :: '/' :: u ∧ '\n' ∉ u := by
  constructor
  · intro h
    obtain ⟨_, ⟨a, ha, rfl⟩, _, hv, rfl⟩ := Language.mem_mul.1 h
    obtain ⟨_, ⟨b, hb, rfl⟩, u, hu, rfl⟩ := Language.mem_mul.1 hv
    rw [beq_iff_eq] at ha hb
    subst ha hb
    exact ⟨u, rfl, fun hline => absurd (mem_star.1 hu _ hline) (by decide)⟩
  · rintro ⟨u, rfl, hline⟩
    have hu : u ∈ (char (· != '\n'))∗ :=
      mem_star.2 fun c hc => bne_iff_ne.2 (ne_of_mem_of_not_mem hc hline)
    exact Language.append_mem_mul (a := ['/']) ⟨_, rfl, rfl⟩
      (Language.append_mem_mul (a := ['/']) ⟨_, rfl, rfl⟩ hu)

end Pattern

/-! ## Lexemes between texts -/

/-- A word begins or ends between two texts. -/
def Boundary (before after : List Char) : Prop :=
  before.getLast?.any isWord ≠ after.head?.any isWord

/-- The piece `w` between two texts makes a token. -/
inductive TokenAt (before w after : List Char) : Prop
  | quoted (text : w ∈ Pattern.quoted)
  | number (text : w ∈ Pattern.number) (stop : Boundary (before ++ w) after)
  | mark (text : w ∈ Pattern.mark)
  | name (start : Boundary before (w ++ after)) (text : w ∈ Pattern.name)
    (stop : Boundary (before ++ w) after)

/-- A piece that makes no token. -/
inductive IsGap (w : List Char) : Prop
  | comment (text : w ∈ Pattern.comment)
  | blanks (text : w ∈ Pattern.blanks)

namespace Lexeme

/-! ## Kinds of characters -/

theorem isWord_of_isDigit {c : Char} (h : isDigit c = true) : isWord c = true := by
  simp [isWord, h]

theorem isWord_of_isNamePart {c : Char} (h : isNamePart c = true) : isWord c = true := by
  simp only [isNamePart, Char.isAlphanum, Bool.or_eq_true] at h
  rcases h with (h | h) | h <;> simp [isWord, isDigit, h]

theorem isNamePart_of_isNameStart {c : Char} (h : isNameStart c = true) : isNamePart c = true := by
  simp only [isNameStart, Bool.or_eq_true] at h
  rcases h with h | h <;> simp [isNamePart, Char.isAlphanum, h]

theorem isWord_of_isNameStart {c : Char} (h : isNameStart c = true) : isWord c = true :=
  isWord_of_isNamePart (isNamePart_of_isNameStart h)

/-- The text does not begin with a character that satisfies `p`. -/
def Stops (p : Char → Bool) (r : List Char) : Prop := r.head?.any p = false

theorem wordEnds_iff {r : List Char} : wordEnds r = true ↔ Stops isWord r := by
  cases r <;> simp [wordEnds, Stops]

theorem Stops.mono {f g : Char → Bool} {r : List Char} (hfg : ∀ c, f c = true → g c = true)
    (h : Stops g r) : Stops f r := by
  cases r with
  | nil => rfl
  | cons c r =>
    have hc : g c = false := h
    by_contra hf
    simp only [Stops, List.head?_cons, Option.any_some, Bool.not_eq_false] at hf
    exact absurd (hfg c hf) (by simp [hc])

theorem stops_cons {f : Char → Bool} {c : Char} {r : List Char} : Stops f (c :: r) ↔ f c = false :=
  Iff.rfl

/-! ## First characters -/

theorem isBlank_cases {P : Char → Prop} [DecidablePred P]
    (h : ∀ n ∈ blankRanges.flatMap fun r => List.range' r.1 (r.2 - r.1 + 1), P (Char.ofNat n))
    {c : Char} (hc : isBlank c = true) : P c := by
  obtain ⟨r, hr, hrange⟩ := List.any_eq_true.1 hc
  simp only [Bool.and_eq_true, decide_eq_true_eq] at hrange
  have hmem : c.toNat ∈ blankRanges.flatMap fun r => List.range' r.1 (r.2 - r.1 + 1) :=
    List.mem_flatMap.2 ⟨r, hr, List.mem_range'_1.2 (by omega)⟩
  simpa using h _ hmem

theorem isWord_of_isBlank {c : Char} (hc : isBlank c = true) : isWord c = false :=
  isBlank_cases (P := fun c => isWord c = false) (by decide +kernel) hc

/-- The kinds of lexemes. -/
inductive Kind where
  | quoted
  | number
  | mark
  | name
  | comment
  | blanks
  deriving DecidableEq

/-- The kind of lexeme that begins with a character. -/
def kindOf? (c : Char) : Option Kind :=
  if c == '"' then some .quoted
  else if c == '-' || isDigit c then some .number
  else if isMark c then some .mark
  else if isNameStart c then some .name
  else if c == '/' then some .comment
  else if isBlank c then some .blanks
  else none

/-- The piece begins with a character of its kind. -/
def Begins (k : Kind) (w : List Char) : Prop := w.head?.bind kindOf? = some k

theorem begins_quoted {w : List Char} (hw : w ∈ Pattern.quoted) : Begins .quoted w := by
  obtain ⟨us, -, rfl⟩ := Pattern.mem_quoted.1 hw
  rfl

theorem begins_number {w : List Char} (hw : w ∈ Pattern.number) : Begins .number w := by
  have hlead : ∀ c, (c == '-' || isDigit c) = true → kindOf? c = some .number := by
    intro c hc
    have hquote : (c == '"') = false := by
      rw [beq_eq_false_iff_ne]
      rintro rfl
      revert hc
      decide
    simp [kindOf?, hquote, hc]
  obtain ⟨i, hi, u, -, rfl⟩ := Language.mem_mul.1 hw
  obtain ⟨s, hs, ds, hds, rfl⟩ := Language.mem_mul.1 hi
  rcases hs with rfl | ⟨c, hc, rfl⟩
  · obtain ⟨hne, hall⟩ := Pattern.mem_run.1 hds
    obtain ⟨d, v, rfl⟩ := List.exists_cons_of_ne_nil hne
    exact hlead d (by simp [hall d])
  · exact hlead c (by simp only [hc, Bool.true_or])

theorem begins_mark {w : List Char} (hw : w ∈ Pattern.mark) : Begins .mark w := by
  obtain ⟨c, hc, rfl⟩ := hw
  simp only [isMark, Bool.or_eq_true, beq_iff_eq] at hc
  rcases hc with ((rfl | rfl) | rfl) | rfl <;> rfl

theorem begins_name {w : List Char} (hw : w ∈ Pattern.name) : Begins .name w := by
  obtain ⟨c, cs, rfl, hc, -⟩ := Pattern.mem_name.1 hw
  have hascii : ∀ n < 128, isNameStart (Char.ofNat n) = true →
      kindOf? (Char.ofNat n) = some .name := by decide +kernel
  have hlow : c.toNat < 128 := by
    simp only [isNameStart, Char.isAlpha, Char.isUpper, Char.isLower, Bool.or_eq_true,
      Bool.and_eq_true, decide_eq_true_eq, UInt32.le_iff_toNat_le, beq_iff_eq] at hc
    rcases hc with (⟨-, h⟩ | ⟨-, h⟩) | rfl
    · exact lt_of_le_of_lt h (by decide)
    · exact lt_of_le_of_lt h (by decide)
    · decide
  simpa [Begins] using hascii c.toNat hlow (by simpa using hc)

theorem begins_comment {w : List Char} (hw : w ∈ Pattern.comment) : Begins .comment w := by
  obtain ⟨u, rfl, -⟩ := Pattern.mem_comment.1 hw
  rfl

theorem begins_blanks {w : List Char} (hw : w ∈ Pattern.blanks) : Begins .blanks w := by
  obtain ⟨hne, hall⟩ := Pattern.mem_run.1 hw
  obtain ⟨c, v, rfl⟩ := List.exists_cons_of_ne_nil hne
  exact isBlank_cases (P := fun c => kindOf? c = some .blanks) (by decide +kernel)
    (hall c (by simp))

theorem append_ne_of_begins {j k : Kind} {w v : List Char} (hw : Begins j w) (hv : Begins k v)
    (hjk : j ≠ k) (r u : List Char) : w ++ r ≠ v ++ u := by
  intro h
  cases w with
  | nil => cases hw
  | cons c w =>
    cases v with
    | nil => cases hv
    | cons d v =>
      obtain ⟨rfl, -⟩ := List.cons.inj h
      exact hjk (Option.some.inj (hw.symm.trans hv))

end Lexeme

/-! ## What stands around a lexeme -/

/-- A text ends inside a word, or with one. -/
def insideWord (before : List Char) : Bool := before.getLast?.any isWord

theorem insideWord_append {w : List Char} (before : List Char) (hw : w ≠ []) :
    insideWord (before ++ w) = insideWord w := by
  obtain ⟨c, hc⟩ := Option.ne_none_iff_exists'.1 (mt List.getLast?_eq_none_iff.1 hw)
  simp [insideWord, List.getLast?_append, hc]

theorem insideWord_of_all {w : List Char} (hne : w ≠ []) (hw : ∀ c ∈ w, isWord c = true) :
    insideWord w = true := by
  rw [insideWord, List.getLast?_eq_some_getLast hne]
  exact hw _ (List.getLast_mem hne)

theorem insideWord_run {w : List Char} (hw : w ∈ Pattern.run isDigit) : insideWord w = true := by
  obtain ⟨hne, hall⟩ := Pattern.mem_run.1 hw
  exact insideWord_of_all hne fun c hc => isWord_of_isDigit (hall c hc)

theorem insideWord_name {w : List Char} (hw : w ∈ Pattern.name) : insideWord w = true := by
  obtain ⟨c, cs, rfl, hc, hcs⟩ := Pattern.mem_name.1 hw
  refine insideWord_of_all (by simp) fun d hd => ?_
  rcases List.mem_cons.1 hd with rfl | hd
  · exact isWord_of_isNameStart hc
  · exact isWord_of_isNamePart (hcs d hd)

theorem insideWord_number {w : List Char} (hw : w ∈ Pattern.number) : insideWord w = true := by
  -- whatever comes last is a run of digits
  have hlast : ∀ {L : Language Char} {v : List Char}, v ∈ L * Pattern.run isDigit →
      insideWord v = true := by
    intro L v hv
    obtain ⟨u, -, ds, hds, rfl⟩ := Language.mem_mul.1 hv
    rw [insideWord_append u (Pattern.mem_run.1 hds).1, insideWord_run hds]
  have hne : ∀ {v : List Char}, insideWord v = true → v ≠ [] := by
    rintro v hv rfl
    cases hv
  obtain ⟨i, hi, _, hfe, rfl⟩ := Language.mem_mul.1 hw
  obtain ⟨f, hf, e, he, rfl⟩ := Language.mem_mul.1 hfe
  rcases he with rfl | he
  · rcases hf with rfl | hf
    · simpa using hlast hi
    · rw [List.append_nil, insideWord_append i (hne (hlast hf)), hlast hf]
  · have he' : insideWord e = true := hlast (by rwa [Pattern.exponent, ← mul_assoc] at he)
    rw [← List.append_assoc, insideWord_append _ (hne he'), he']

theorem boundary_append_iff {before w r : List Char} (hw : insideWord w = true) :
    Boundary (before ++ w) r ↔ Stops isWord r := by
  have hne : w ≠ [] := by
    rintro rfl
    cases hw
  have hinside : (before ++ w).getLast?.any isWord = true :=
    (insideWord_append before hne).trans hw
  rw [Boundary, hinside, Stops, ne_comm, ne_eq, Bool.not_eq_true]

theorem boundary_name_iff {before w r : List Char} (hw : w ∈ Pattern.name) :
    Boundary before (w ++ r) ↔ insideWord before = false := by
  obtain ⟨c, cs, rfl, hc, -⟩ := Pattern.mem_name.1 hw
  show insideWord before ≠ isWord c ↔ _
  rw [isWord_of_isNameStart hc, ne_eq, Bool.not_eq_true]

theorem tokenAt_iff {before w r : List Char} : TokenAt before w r ↔
    w ∈ Pattern.quoted ∨ (w ∈ Pattern.number ∧ Stops isWord r) ∨ w ∈ Pattern.mark ∨
      (insideWord before = false ∧ w ∈ Pattern.name ∧ Stops isWord r) := by
  constructor
  · rintro (h | ⟨h, hstop⟩ | h | ⟨hstart, h, hstop⟩)
    · exact .inl h
    · exact .inr (.inl ⟨h, (boundary_append_iff (insideWord_number h)).1 hstop⟩)
    · exact .inr (.inr (.inl h))
    · exact .inr (.inr (.inr ⟨(boundary_name_iff h).1 hstart, h,
        (boundary_append_iff (insideWord_name h)).1 hstop⟩))
  · rintro (h | ⟨h, hstop⟩ | h | ⟨hstart, h, hstop⟩)
    · exact .quoted h
    · exact .number h ((boundary_append_iff (insideWord_number h)).2 hstop)
    · exact .mark h
    · exact .name ((boundary_name_iff h).2 hstart) h
        ((boundary_append_iff (insideWord_name h)).2 hstop)

end Idl
