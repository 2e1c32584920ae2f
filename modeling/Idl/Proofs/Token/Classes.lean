import Mathlib
import Idl.Proofs.Token.Spaced
import Idl.Schema.Reader

/-!
# Classes of tokens

A scan tells lexemes apart where they stand in a text, a reader tells tokens apart by their texts. Both
draw the same lines.

* `isWhole_iff_mem`: a recogniser takes the whole of a text.
* `isName_iff_mem_name`, `isWhole_anyNumber_iff`, `looksQuoted_of_mem_quoted`: the tests of a reader and
  the pieces of a scan.
* `TokenClass`, `TokenClass.test`: the classes that a reader knows.
* **`existsUnique_class`**: every token is in one of them.
* `isGapText`, `isGapText_iff`: whole texts that are gaps.
* `Pieces`, `Pieces.unique`: the only cut of a text into lexemes, with their kinds.
* **`scan_classes`**: the tokens of a text by their classes, and the pieces that make none.
-/

namespace Idl

open Computability Text Lexeme

/-! ## Whole texts -/

theorem isWhole_iff_mem {p : Recogniser} {L : Language Char} (hwithin : Within p L) (hsplit : Splits p)
    (hexact : ∀ w ∈ L, p w = some ⟨w, []⟩) {w : String} :
    Literal.isWhole p w = true ↔ w.toList ∈ L := by
  constructor
  · intro h
    obtain ⟨a, ha, hrest⟩ := (Option.any_eq_true _ _).1 h
    have hwhole := hsplit _ _ ha
    rw [List.isEmpty_iff.1 hrest, List.append_nil] at hwhole
    exact hwhole ▸ hwithin _ _ ha
  · intro h
    rw [Literal.isWhole, hexact _ h]
    rfl

theorem isName_iff_mem_name {w : String} : Cursor.isName w = true ↔ w.toList ∈ Pattern.name := by
  rw [Pattern.mem_name, Cursor.isName]
  cases w.toList with
  | nil => simp
  | cons c cs => simp

theorem isWhole_integer_iff {w : String} :
    Literal.isWhole integer w = true ↔ w.toList ∈ Pattern.integer := by
  refine isWhole_iff_mem within_integer splits_integer fun w hw => ?_
  simpa using exact_integer w [] hw rfl

theorem exact_anyNumber : Exact Literal.anyNumber Pattern.number fun r => r = [] := by
  have hparts : Exact (andThen (optional fraction) (optional exponent))
      ((1 + Pattern.fraction) * (1 + Pattern.exponent)) fun r => exponent r = none ∧ r = [] := by
    refine exact_andThen (exact_optional exact_fraction) (exact_optional fun w r hw hr => ?_) ?_
    · exact exact_exponent w r hw (by rw [hr]; rfl)
    · rintro w r (rfl | hw) ⟨-, rfl⟩
      · exact ⟨rfl, rfl⟩
      · exact ⟨fraction_eq_none hw, stops_isDigit_exponent [] hw⟩
  intro w r hw hr
  refine exact_andThen exact_integer hparts ?_ w r hw ⟨by rw [hr]; rfl, hr⟩
  rintro v r hv ⟨-, rfl⟩
  obtain ⟨f, hf, e, he, rfl⟩ := Language.mem_mul.1 hv
  rcases hf with rfl | hf
  · rcases he with rfl | he
    · rfl
    · exact stops_isDigit_exponent [] he
  · rw [List.append_assoc]
    exact stops_isDigit_fraction _ hf

theorem isWhole_anyNumber_iff {w : String} :
    Literal.isWhole Literal.anyNumber w = true ↔ w.toList ∈ Pattern.number := by
  refine isWhole_iff_mem ?_ ?_ fun w hw => by simpa using exact_anyNumber w [] hw rfl
  · exact within_andThen within_integer
      (within_andThen (within_optional within_fraction) (within_optional within_exponent))
  · exact splits_andThen splits_integer
      (splits_andThen (splits_optional splits_fraction) (splits_optional splits_exponent))

/-- Every integer is a number. -/
theorem isWhole_anyNumber_of_integer {w : String} (h : Literal.isWhole integer w = true) :
    Literal.isWhole Literal.anyNumber w = true := by
  have hnone : ([] : List Char) ∈ (1 + Pattern.fraction) * (1 + Pattern.exponent) :=
    Language.append_mem_mul (a := []) (.inl rfl) (.inl rfl)
  have hnumber := Language.append_mem_mul (isWhole_integer_iff.1 h) hnone
  rw [List.append_nil] at hnumber
  exact isWhole_anyNumber_iff.2 hnumber

theorem newline_notMem_units {us : List Char} (hus : us ∈ Pattern.quotedUnit∗) : '\n' ∉ us := by
  obtain ⟨L, rfl, hL⟩ := Language.mem_kstar.1 hus
  intro hmem
  obtain ⟨u, hu, hline⟩ := List.mem_flatten.1 hmem
  rcases hL u hu with ⟨c, hc, rfl⟩ | hescape
  · rw [← List.mem_singleton.1 hline] at hc
    cases hc
  · obtain ⟨_, ⟨b, hb, rfl⟩, _, ⟨c, hc, rfl⟩, rfl⟩ := Language.mem_mul.1 hescape
    rcases List.mem_cons.1 hline with hline | hline
    · rw [← hline] at hb
      cases hb
    · rw [← List.mem_singleton.1 hline] at hc
      cases hc

theorem looksQuoted_of_mem_quoted {w : String} (h : w.toList ∈ Pattern.quoted) :
    Literal.looksQuoted w = true := by
  obtain ⟨us, hus, hw⟩ := Pattern.mem_quoted.1 h
  have hline := newline_notMem_units hus
  have hlast : ('"' :: (us ++ ['"'])).getLast? = some '"' := by
    rw [← List.cons_append, List.getLast?_concat]
  simp [Literal.looksQuoted, hw, hline, hlast]

/-! ## Classes -/

/-- The classes of tokens. -/
inductive TokenClass where
  | name
  | number
  | quoted
  | equals
  | dot
  | opening
  | closing
  deriving DecidableEq

namespace TokenClass

/-- The test by which a reader finds out that a token is in a class. -/
def test : TokenClass → String → Bool
  | name => Cursor.isName
  | number => Literal.isWhole Literal.anyNumber
  | quoted => Literal.looksQuoted
  | equals => (· == "=")
  | dot => (· == ".")
  | opening => (· == "\x7b")
  | closing => (· == "\x7d")

/-- The class of the tokens that begin with a character. -/
def ofFirst? (c : Char) : Option TokenClass :=
  match kindOf? c with
  | some .quoted => some quoted
  | some .number => some number
  | some .name => some name
  | some .mark =>
    if c = '=' then some equals else if c = '.' then some dot else if c = '\x7b' then some opening
    else some closing
  | _ => none

/-- The first character of a text tells its class. -/
theorem ofFirst?_of_test {k : TokenClass} {w : String} (h : k.test w = true) :
    w.toList.head?.bind ofFirst? = some k := by
  have hbegins : ∀ {j : Kind}, Begins j w.toList → ∃ c, w.toList.head? = some c ∧ kindOf? c = some j :=
    fun hj => Option.bind_eq_some_iff.1 hj
  cases k with
  | name =>
    obtain ⟨c, hc, hkind⟩ := hbegins (begins_name (isName_iff_mem_name.1 h))
    rw [hc, Option.bind_some, ofFirst?, hkind]
  | number =>
    obtain ⟨c, hc, hkind⟩ := hbegins (begins_number (isWhole_anyNumber_iff.1 h))
    rw [hc, Option.bind_some, ofFirst?, hkind]
  | quoted =>
    simp only [test, Literal.looksQuoted, Bool.and_eq_true, beq_iff_eq] at h
    rw [h.1.1.2]
    rfl
  | equals | dot | opening | closing =>
    rw [eq_of_beq h]
    rfl

theorem eq_of_test {k l : TokenClass} {w : String} (hk : k.test w = true) (hl : l.test w = true) :
    k = l :=
  Option.some.inj ((ofFirst?_of_test hk).symm.trans (ofFirst?_of_test hl))

end TokenClass

theorem exists_class {w : String} (hw : w.toList ∈ Pattern.token) :
    ∃ k : TokenClass, k.test w = true := by
  rcases hw with hw | hw | ⟨c, hc, hw⟩ | hw
  · exact ⟨.quoted, looksQuoted_of_mem_quoted hw⟩
  · exact ⟨.number, isWhole_anyNumber_iff.2 hw⟩
  · obtain rfl : w = String.ofList [c] := by rw [← hw, String.ofList_toList]
    simp only [isMark, Bool.or_eq_true, beq_iff_eq] at hc
    rcases hc with ((rfl | rfl) | rfl) | rfl
    · exact ⟨.equals, by decide⟩
    · exact ⟨.opening, by decide⟩
    · exact ⟨.closing, by decide⟩
    · exact ⟨.dot, by decide⟩
  · exact ⟨.name, isName_iff_mem_name.2 hw⟩

/-- **Every token is in one class.** -/
theorem existsUnique_class {w : String} (hw : w.toList ∈ Pattern.token) :
    ∃! k : TokenClass, k.test w = true := by
  obtain ⟨k, hk⟩ := exists_class hw
  exact ⟨k, hk, fun l hl => TokenClass.eq_of_test hl hk⟩

/-! ## Gaps -/

/-- The whole text is two slashes with more of one line, or blanks. -/
def isGapText (text : String) : Bool :=
  let cs := text.toList
  (['/', '/'].isPrefixOf cs && !cs.contains '\n') || (!cs.isEmpty && cs.all isBlank)

theorem isGapText_iff {w : String} : isGapText w = true ↔ IsGap w.toList := by
  have hcomment : w.toList ∈ Pattern.comment ↔ ['/', '/'] <+: w.toList ∧ '\n' ∉ w.toList := by
    rw [Pattern.mem_comment]
    constructor
    · rintro ⟨u, hu, hline⟩
      rw [hu]
      exact ⟨⟨u, rfl⟩, by simpa using hline⟩
    · rintro ⟨⟨u, hu⟩, hline⟩
      rw [← hu] at hline ⊢
      exact ⟨u, rfl, by simpa using hline⟩
  rw [isGap_iff, hcomment, Pattern.blanks, Pattern.mem_run]
  simp [isGapText, List.isPrefixOf_iff_prefix]

/-! ## Pieces -/

/-- The lexemes of a kind make no tokens. -/
def Lexeme.Kind.isGap : Kind → Bool
  | .comment | .blanks => true
  | _ => false

/-- The piece `w` between two texts is a lexeme of a kind. -/
def Lexeme.Kind.At (k : Kind) (before w after : List Char) : Prop :=
  match k with
  | .quoted => w ∈ Pattern.quoted
  | .number => w ∈ Pattern.number ∧ Boundary (before ++ w) after
  | .mark => w ∈ Pattern.mark
  | .name => Boundary before (w ++ after) ∧ w ∈ Pattern.name ∧ Boundary (before ++ w) after
  | .comment => w ∈ Pattern.comment
  | .blanks => w ∈ Pattern.blanks

section Kinds

variable {k : Kind} {before w after : List Char}

theorem Lexeme.Kind.At.begins (h : k.At before w after) : Begins k w := by
  cases k with
  | quoted => exact begins_quoted h
  | number => exact begins_number h.1
  | mark => exact begins_mark h
  | name => exact begins_name h.2.1
  | comment => exact begins_comment h
  | blanks => exact begins_blanks h

theorem Lexeme.Kind.At.lexemeAt (h : k.At before w after) : LexemeAt before w after := by
  cases k with
  | quoted => exact .inl (.quoted h)
  | number => exact .inl (.number h.1 h.2)
  | mark => exact .inl (.mark h)
  | name => exact .inl (.name h.1 h.2.1 h.2.2)
  | comment => exact .inr (.comment h)
  | blanks => exact .inr (.blanks h)

theorem TokenAt.exists_kind (h : TokenAt before w after) :
    ∃ k : Kind, k.isGap = false ∧ k.At before w after := by
  rcases h with h | ⟨h, hstop⟩ | h | ⟨hstart, h, hstop⟩
  · exact ⟨.quoted, rfl, h⟩
  · exact ⟨.number, rfl, h, hstop⟩
  · exact ⟨.mark, rfl, h⟩
  · exact ⟨.name, rfl, hstart, h, hstop⟩

theorem IsGap.exists_kind (h : IsGap w) (before after : List Char) :
    ∃ k : Kind, k.isGap = true ∧ k.At before w after := by
  rcases h with h | h
  · exact ⟨.comment, rfl, h⟩
  · exact ⟨.blanks, rfl, h⟩

/-- Whole texts are told apart as lexemes are where they stand. -/
theorem Lexeme.Kind.At.isGapText_eq (h : k.At before w after) :
    isGapText (String.ofList w) = k.isGap := by
  rw [Bool.eq_iff_iff, isGapText_iff, String.toList_ofList]
  constructor
  · intro hgap
    obtain ⟨j, hj, hat⟩ := hgap.exists_kind before after
    obtain rfl : k = j := Option.some.inj (h.begins.symm.trans hat.begins)
    exact hj
  · intro hk
    cases k with
    | comment => exact .comment h
    | blanks => exact .blanks h
    | quoted | number | mark | name => cases hk

end Kinds

/-- A lexeme with its kind. -/
structure Piece where
  kind : Kind
  text : String
  deriving DecidableEq

/-- The text `cs` after the text `before` is cut into lexemes, each as long as it can be. -/
inductive Pieces : List Char → List Char → List Piece → Prop
  | done (before : List Char) : Pieces before [] []
  | piece {before cs w after : List Char} {k : Kind} {ps : List Piece} (front : w ++ after = cs)
    (lexeme : k.At before w after) (longest : Longest before w after)
    (rest : Pieces (before ++ w) after ps) : Pieces before cs (⟨k, String.ofList w⟩ :: ps)

/-- **A text is cut in one way only.** -/
theorem Pieces.unique {before cs : List Char} {ps qs : List Piece} (hp : Pieces before cs ps)
    (hq : Pieces before cs qs) : ps = qs := by
  have hne : ∀ {k : Kind} {before w after : List Char}, k.At before w after → w ++ after ≠ [] := by
    intro k before w after hat hnil
    rw [(List.append_eq_nil_iff.1 hnil).1] at hat
    cases hat.begins
  induction hp generalizing qs with
  | done before =>
    cases hq with
    | done => rfl
    | piece front lexeme => exact absurd front (hne lexeme)
  | @piece before cs w after k ps front lexeme longest rest ih =>
    cases hq with
    | done => exact absurd front (hne lexeme)
    | @piece _ _ v r j qs front' lexeme' longest' rest' =>
      have hcut : v ++ r = w ++ after := front'.trans front.symm
      have hlength : v.length = w.length :=
        le_antisymm (longest v r hcut lexeme'.lexemeAt) (longest' w after hcut.symm lexeme.lexemeAt)
      obtain ⟨rfl, rfl⟩ := List.append_inj hcut hlength
      obtain rfl : j = k := Option.some.inj (lexeme'.begins.symm.trans lexeme.begins)
      rw [ih rest']

theorem Pieces.isGapText_eq {before cs : List Char} {ps : List Piece} (h : Pieces before cs ps) :
    ∀ p ∈ ps, isGapText p.text = p.kind.isGap := by
  induction h with
  | done => simp
  | piece _ lexeme _ _ ih => exact List.forall_mem_cons.2 ⟨lexeme.isGapText_eq, ih⟩

/-- A scan cuts a text into pieces and keeps those that are no gaps. -/
theorem exists_pieces {p : Position} {before cs : List Char} {ts : List Token}
    (hapart : Apart before cs) (h : scanFrom p cs = .ok ts) :
    ∃ ps, Pieces before cs ps ∧
      ts.map Token.text = (ps.filter fun x => !isGapText x.text).map Piece.text ++ [""] := by
  fun_induction scanFrom p cs generalizing before ts with
  | case1 p =>
    cases h
    exact ⟨[], .done before, rfl⟩
  | case2 p c cs a hg ih =>
    obtain ⟨hgap, hlongest⟩ := gap?_eq_some before hg
    obtain ⟨k, hk, hat⟩ := hgap.exists_kind before a.rest
    obtain ⟨ps, hps, htexts⟩ := ih (hgap.apart hlongest) h
    refine ⟨⟨k, String.ofList a.lexeme⟩ :: ps, .piece (splits_gap? _ _ hg) hat hlongest hps, ?_⟩
    rw [htexts, List.filter_cons_of_neg]
    simp [hat.isGapText_eq, hk]
  | case3 p c cs hg a ht ih =>
    rw [token?_of_apart hapart] at ht
    obtain ⟨htoken, hlongest⟩ := token?_eq_some ht
    obtain ⟨k, hk, hat⟩ := htoken.exists_kind
    obtain ⟨us, hus, hts⟩ := bind_eq_ok_iff.1 h
    cases hts
    obtain ⟨ps, hps, htexts⟩ := ih htoken.apart hus
    refine ⟨⟨k, String.ofList a.lexeme⟩ :: ps, .piece (splits_token? _ _ _ ht) hat hlongest hps, ?_⟩
    rw [List.map_cons, htexts, List.filter_cons_of_pos]
    · rfl
    · simp [hat.isGapText_eq, hk]
  | case4 => cases h

/-- **Scan and reader agree on the classes of tokens.** Every token of a text but the last is in exactly
one of the classes that a reader knows, where integers count as numbers. There is one way to cut the text
into lexemes. The test for gaps picks out the comments and the blanks among them, and the tokens are the
others. -/
theorem scan_classes (text : String) (ts : List Token) (h : scan text = .ok ts) :
    (∀ t ∈ ts.dropLast, ∃! k : TokenClass, k.test t.text = true) ∧
    (∀ w, Literal.isWhole integer w = true → TokenClass.number.test w = true) ∧
    ∃ ps, (∀ qs, Pieces [] text.toList qs ↔ qs = ps) ∧
      (∀ p ∈ ps, isGapText p.text = true ↔ p.kind = .comment ∨ p.kind = .blanks) ∧
      ts.dropLast.map Token.text = (ps.filter fun p => !isGapText p.text).map Piece.text := by
  have hapart : Apart [] text.toList := .inl rfl
  obtain ⟨ps, hps, htexts⟩ := exists_pieces hapart h
  obtain ⟨us, rfl, hcuts⟩ := scanFrom_eq_ok_cuts (.start _) hapart h
  rw [List.dropLast_concat]
  refine ⟨fun t ht => existsUnique_class (hcuts.mem_token t ht),
    fun w hw => isWhole_anyNumber_of_integer hw, ps, fun qs => ?_, fun p hp => ?_, ?_⟩
  · constructor
    · exact fun hqs => hqs.unique hps
    · rintro rfl
      exact hps
  · rw [hps.isGapText_eq p hp]
    cases p.kind <;> simp [Kind.isGap]
  · rw [List.map_append] at htexts
    exact List.append_cancel_right htexts

/-- Tokens of all classes, one of them a quoted text that looks like a comment inside, and one with a
digit from another script. -/
theorem scan_classes_all :
    ∃ ts ps, scan "// a\nx = -\u0663.5e3\x7b\"// b\"\x7d." = .ok ts ∧
      ts.map Token.text = ["x", "=", "-\u0663.5e3", "\x7b", "\"// b\"", "\x7d", ".", ""] ∧
      (∀ t ∈ ts.dropLast, ∃! k : TokenClass, k.test t.text = true) ∧
      Pieces [] "// a\nx = -\u0663.5e3\x7b\"// b\"\x7d.".toList ps ∧
      (∀ p ∈ ps, isGapText p.text = true ↔ p.kind = .comment ∨ p.kind = .blanks) ∧
      ts.dropLast.map Token.text = (ps.filter fun p => !isGapText p.text).map Piece.text := by
  have hscan : scan "// a\nx = -\u0663.5e3\x7b\"// b\"\x7d." =
      .ok [⟨"x", ⟨2, 1⟩⟩, ⟨"=", ⟨2, 3⟩⟩, ⟨"-\u0663.5e3", ⟨2, 5⟩⟩, ⟨"\x7b", ⟨2, 11⟩⟩,
        ⟨"\"// b\"", ⟨2, 12⟩⟩, ⟨"\x7d", ⟨2, 18⟩⟩, ⟨".", ⟨2, 19⟩⟩, ⟨"", ⟨2, 20⟩⟩] := by cbv
  obtain ⟨hclasses, -, ps, hpieces, hgaps, htexts⟩ := scan_classes _ _ hscan
  exact ⟨_, ps, hscan, rfl, hclasses, (hpieces ps).2 rfl, hgaps, htexts⟩

end Idl
