import Idl.Text.Blank
import Idl.Text.Word

/-!
# Lexemes

A recogniser looks at the front of a text. It takes a lexeme off and leaves the rest, or it
declines.

* `gap?`: a comment or a run of blanks.
* `token?`: a quoted text, a number, a punctuation mark or an identifier.
* `splits_gap?`, `splits_token?`: lexeme and rest make up the text again.
* `consumes_gap?`, `consumes_token?`: the lexeme is not empty.
-/

namespace Idl.Lexeme

open Text

/-- A text cut in two. -/
structure Cut where
  lexeme : List Char
  rest : List Char

/-- Takes a lexeme off the front of a text. -/
abbrev Recogniser := List Char → Option Cut

/-! ## Building recognisers -/

/-- One character that satisfies `p`. -/
def one (p : Char → Bool) : Recogniser
  | [] => none
  | c :: cs => if p c then some ⟨[c], cs⟩ else none

/-- All characters up to the first that fails `p`, at least one. -/
def some1 (p : Char → Bool) : Recogniser := fun cs =>
  if (cs.takeWhile p).isEmpty then none else some ⟨cs.takeWhile p, cs.dropWhile p⟩

/-- All characters up to the first that fails `p`, perhaps none. -/
def many (p : Char → Bool) : Recogniser := fun cs =>
  some ⟨cs.takeWhile p, cs.dropWhile p⟩

/-- First `p`, then `q` on what is left. -/
def andThen (p q : Recogniser) : Recogniser := fun cs =>
  (p cs).bind fun a => (q a.rest).map fun b => ⟨a.lexeme ++ b.lexeme, b.rest⟩

/-- The lexeme of `p`, or an empty one. -/
def optional (p : Recogniser) : Recogniser := fun cs =>
  some ((p cs).getD ⟨[], cs⟩)

/-- The first recogniser that does not decline. -/
def firstOf (ps : List Recogniser) : Recogniser := fun cs =>
  ps.findSome? fun p => p cs

/-- No word goes on at the front of the text. -/
def wordEnds : List Char → Bool
  | [] => true
  | c :: _ => !isWord c

/-- The lexeme of `p`, provided that no word goes on after it. -/
def atWordEnd (p : Recogniser) : Recogniser := fun cs =>
  (p cs).filter fun a => wordEnds a.rest

/-! ## The kinds of lexemes -/

/-- What follows an opening quote, up to the closing quote on the same line. A backslash keeps the
next character from closing the text. -/
def quotedRest : Recogniser
  | [] => none
  | '"' :: cs => some ⟨['"'], cs⟩
  | '\\' :: c :: cs =>
    if c = '\n' then none else (quotedRest cs).map fun a => ⟨'\\' :: c :: a.lexeme, a.rest⟩
  | c :: cs =>
    if c = '\n' ∨ c = '\\' then none
    else (quotedRest cs).map fun a => ⟨c :: a.lexeme, a.rest⟩

/-- A quoted text. -/
def quoted : Recogniser :=
  andThen (one (· == '"')) quotedRest

/-- A run of decimal digits. -/
def digits : Recogniser := some1 isDigit

/-- A point and digits. -/
def fraction : Recogniser := andThen (one (· == '.')) digits

/-- A power of ten. -/
def exponent : Recogniser :=
  andThen (one fun c => c == 'e' || c == 'E')
    (andThen (optional (one fun c => c == '+' || c == '-')) digits)

/-- An integer with its sign. -/
def integer : Recogniser := andThen (optional (one (· == '-'))) digits

/-- A number, as long as it can be without a word that goes on after it. -/
def number : Recogniser :=
  firstOf
    [atWordEnd (andThen integer (andThen fraction exponent)),
     atWordEnd (andThen integer fraction),
     atWordEnd (andThen integer exponent),
     atWordEnd integer]

/-- A mark that stands alone. -/
def isMark (c : Char) : Bool :=
  c == '=' || c == '\x7b' || c == '\x7d' || c == '.'

/-- A character that may begin an identifier. -/
def isNameStart (c : Char) : Bool := c.isAlpha || c == '_'

/-- A character of an identifier. -/
def isNamePart (c : Char) : Bool := c.isAlphanum || c == '_'

/-- An identifier. -/
def name : Recogniser :=
  atWordEnd (andThen (one isNameStart) (many isNamePart))

/-- Two slashes and the rest of their line. -/
def comment : Recogniser :=
  andThen (one (· == '/')) (andThen (one (· == '/')) (many (· != '\n')))

/-- A run of blanks. -/
def blanks : Recogniser := some1 isBlank

/-- A lexeme that makes no token. -/
def gap? : Recogniser := firstOf [comment, blanks]

/-- A lexeme that makes a token. An identifier does not begin inside a word. -/
def token? (insideWord : Bool) : Recogniser :=
  firstOf ([quoted, number, one isMark] ++ if insideWord then [] else [name])

/-! ## Nothing is lost -/

/-- Lexeme and rest make up the text. -/
def Splits (p : Recogniser) : Prop :=
  ∀ cs a, p cs = some a → a.lexeme ++ a.rest = cs

/-- The lexeme is not empty. -/
def Consumes (p : Recogniser) : Prop :=
  ∀ cs a, p cs = some a → a.lexeme ≠ []

theorem splits_one (p : Char → Bool) : Splits (one p) := by
  intro cs a h
  cases cs with
  | nil => simp [one] at h
  | cons c cs =>
    simp only [one] at h
    split at h <;> simp at h
    subst h; rfl

theorem consumes_one (p : Char → Bool) : Consumes (one p) := by
  intro cs a h
  cases cs with
  | nil => simp [one] at h
  | cons c cs =>
    simp only [one] at h
    split at h <;> simp at h
    subst h; simp

theorem splits_some1 (p : Char → Bool) : Splits (some1 p) := by
  intro cs a h
  simp only [some1] at h
  split at h <;> simp at h
  subst h; exact List.takeWhile_append_dropWhile

theorem consumes_some1 (p : Char → Bool) : Consumes (some1 p) := by
  intro cs a h
  simp only [some1] at h
  split at h <;> simp at h
  subst h; simp_all

theorem splits_many (p : Char → Bool) : Splits (many p) := by
  intro cs a h
  simp only [many, Option.some.injEq] at h
  subst h; exact List.takeWhile_append_dropWhile

theorem splits_andThen {p q : Recogniser} (hp : Splits p) (hq : Splits q) :
    Splits (andThen p q) := by
  intro cs a h
  simp only [andThen, Option.bind_eq_some_iff, Option.map_eq_some_iff] at h
  obtain ⟨x, hx, y, hy, rfl⟩ := h
  rw [List.append_assoc, hq _ _ hy, hp _ _ hx]

theorem consumes_andThen_left {p q : Recogniser} (hp : Consumes p) : Consumes (andThen p q) := by
  intro cs a h
  simp only [andThen, Option.bind_eq_some_iff, Option.map_eq_some_iff] at h
  obtain ⟨x, hx, y, -, rfl⟩ := h
  simp [hp _ _ hx]

theorem consumes_andThen_right {p q : Recogniser} (hq : Consumes q) : Consumes (andThen p q) := by
  intro cs a h
  simp only [andThen, Option.bind_eq_some_iff, Option.map_eq_some_iff] at h
  obtain ⟨x, -, y, hy, rfl⟩ := h
  simp [hq _ _ hy]

theorem splits_optional {p : Recogniser} (hp : Splits p) : Splits (optional p) := by
  intro cs a h
  simp only [optional, Option.some.injEq] at h
  cases hx : p cs with
  | none => simp [hx] at h; subst h; rfl
  | some x => simp [hx] at h; subst h; exact hp _ _ hx

theorem splits_atWordEnd {p : Recogniser} (hp : Splits p) : Splits (atWordEnd p) := by
  intro cs a h
  exact hp _ _ (Option.filter_eq_some_iff.1 h).1

theorem consumes_atWordEnd {p : Recogniser} (hp : Consumes p) : Consumes (atWordEnd p) := by
  intro cs a h
  exact hp _ _ (Option.filter_eq_some_iff.1 h).1

theorem splits_firstOf {ps : List Recogniser} (h : ∀ p ∈ ps, Splits p) : Splits (firstOf ps) := by
  intro cs a ha
  obtain ⟨p, hp, hpa⟩ := List.exists_of_findSome?_eq_some ha
  exact h p hp _ _ hpa

theorem consumes_firstOf {ps : List Recogniser} (h : ∀ p ∈ ps, Consumes p) :
    Consumes (firstOf ps) := by
  intro cs a ha
  obtain ⟨p, hp, hpa⟩ := List.exists_of_findSome?_eq_some ha
  exact h p hp _ _ hpa

theorem splits_quotedRest : Splits quotedRest := by
  intro cs
  fun_induction quotedRest cs with
  | case1 => simp
  | case2 cs => simp
  | case3 => simp
  | case4 c cs hc ih =>
    intro a h
    obtain ⟨x, hx, rfl⟩ := Option.map_eq_some_iff.1 h
    simp [ih x hx]
  | case5 => simp
  | case6 c cs _ _ hc ih =>
    intro a h
    obtain ⟨x, hx, rfl⟩ := Option.map_eq_some_iff.1 h
    simp [ih x hx]

theorem splits_integer : Splits integer :=
  splits_andThen (splits_optional (splits_one _)) (splits_some1 _)

theorem splits_fraction : Splits fraction :=
  splits_andThen (splits_one _) (splits_some1 _)

theorem splits_exponent : Splits exponent :=
  splits_andThen (splits_one _) (splits_andThen (splits_optional (splits_one _)) (splits_some1 _))

theorem consumes_integer : Consumes integer :=
  consumes_andThen_right (consumes_some1 _)

theorem splits_number : Splits number := by
  refine splits_firstOf fun p hp => ?_
  simp only [List.mem_cons, List.not_mem_nil, or_false] at hp
  rcases hp with rfl | rfl | rfl | rfl <;> refine splits_atWordEnd ?_
  · exact splits_andThen splits_integer (splits_andThen splits_fraction splits_exponent)
  · exact splits_andThen splits_integer splits_fraction
  · exact splits_andThen splits_integer splits_exponent
  · exact splits_integer

theorem consumes_number : Consumes number := by
  refine consumes_firstOf fun p hp => ?_
  simp only [List.mem_cons, List.not_mem_nil, or_false] at hp
  rcases hp with rfl | rfl | rfl | rfl <;> refine consumes_atWordEnd ?_
  · exact consumes_andThen_left consumes_integer
  · exact consumes_andThen_left consumes_integer
  · exact consumes_andThen_left consumes_integer
  · exact consumes_integer

theorem splits_token? (insideWord : Bool) : Splits (token? insideWord) := by
  refine splits_firstOf fun p hp => ?_
  have : p = quoted ∨ p = number ∨ p = one isMark ∨ p = name := by
    cases insideWord <;> simp at hp <;> grind
  rcases this with rfl | rfl | rfl | rfl
  · exact splits_andThen (splits_one _) splits_quotedRest
  · exact splits_number
  · exact splits_one _
  · exact splits_atWordEnd (splits_andThen (splits_one _) (splits_many _))

theorem consumes_token? (insideWord : Bool) : Consumes (token? insideWord) := by
  refine consumes_firstOf fun p hp => ?_
  have : p = quoted ∨ p = number ∨ p = one isMark ∨ p = name := by
    cases insideWord <;> simp at hp <;> grind
  rcases this with rfl | rfl | rfl | rfl
  · exact consumes_andThen_left (consumes_one _)
  · exact consumes_number
  · exact consumes_one _
  · exact consumes_atWordEnd (consumes_andThen_left (consumes_one _))

theorem splits_gap? : Splits gap? := by
  refine splits_firstOf fun p hp => ?_
  simp only [List.mem_cons, List.not_mem_nil, or_false] at hp
  rcases hp with rfl | rfl
  · exact splits_andThen (splits_one _) (splits_andThen (splits_one _) (splits_many _))
  · exact splits_some1 _

theorem consumes_gap? : Consumes gap? := by
  refine consumes_firstOf fun p hp => ?_
  simp only [List.mem_cons, List.not_mem_nil, or_false] at hp
  rcases hp with rfl | rfl
  · exact consumes_andThen_left (consumes_one _)
  · exact consumes_some1 _

/-- A recogniser that loses nothing and takes something leaves a shorter text. -/
theorem rest_length_lt {p : Recogniser} (hs : Splits p) (hc : Consumes p) {cs : List Char} {a : Cut}
    (h : p cs = some a) : a.rest.length < cs.length := by
  have h₁ := congrArg List.length (hs _ _ h)
  have h₂ := List.length_pos_iff.2 (hc _ _ h)
  simp only [List.length_append] at h₁
  omega

end Idl.Lexeme
