import Mathlib
import Idl.Proofs.Schema.Integers
import Idl.Proofs.Text.Escapes

/-!
# Spellings

Messages show values and types in the words of a schema. What they show is a text of its own, and
reading it leads back to what was shown.

* `Pattern.quote_mem_quoted`: a text between quotes is one token, whatever the text is.
* `Literal.ReadsBack`, **`display_reads_back`**: the text of an integer, of a string and of a truth
  value is one token, from which the value is read.
* `FieldType.Spellable`: the types that a schema can spell. All are so but those with names that mean
  something else.
* `FieldType.words`, `typeOf_iff_words`: the only words for a type.
* **`describe_reads_back`**: types are read from their descriptions, and what types are read from is
  their description.
-/

namespace Idl

open Computability Lexeme Grammar

/-! ## Values -/

/-- One character of a text is written as units of a quoted text. -/
theorem Pattern.quoteChar_mem (c : Char) : Text.quoteChar c ∈ Pattern.quotedUnit∗ := by
  have hunit : Pattern.quotedUnit ≤ Pattern.quotedUnit∗ := le_kstar
  have hplain : ∀ {d : Char}, d ≠ '"' → d ≠ '\\' → d ≠ '\n' → [d] ∈ Pattern.quotedUnit∗ :=
    fun hquote hslash hline => hunit (.inl ⟨_, by simp [hquote, hslash, hline], rfl⟩)
  have hescape : ∀ {e : Char}, e ≠ '\n' → ['\\', e] ∈ Pattern.quotedUnit∗ := fun he =>
    hunit (.inr (Language.append_mem_mul (a := ['\\']) ⟨_, rfl, rfl⟩ ⟨_, by simpa using he, rfl⟩))
  have hhex : ∀ n < 16, Text.hexDigit n ≠ '"' ∧ Text.hexDigit n ≠ '\\' ∧ Text.hexDigit n ≠ '\n' := by
    decide
  unfold Text.quoteChar
  split
  · rename_i e he
    unfold Text.shortEscape? at he
    split_ifs at he <;> cases he <;> exact hescape (by decide)
  · rename_i hshort
    split_ifs with hlow
    · obtain ⟨h₁, h₂, h₃⟩ := hhex (c.toNat / 16) (by omega)
      obtain ⟨h₄, h₅, h₆⟩ := hhex (c.toNat % 16) (by omega)
      have hzero : ['0'] ∈ Pattern.quotedUnit∗ := hplain (by decide) (by decide) (by decide)
      have happend : ∀ {u v : List Char}, u ∈ Pattern.quotedUnit∗ → v ∈ Pattern.quotedUnit∗ →
          u ++ v ∈ Pattern.quotedUnit∗ := fun hu hv => by
        have h := Language.append_mem_mul hu hv
        rwa [kstar_mul_kstar] at h
      exact happend (hescape (e := 'u') (by decide))
        (happend hzero (happend hzero (happend (hplain h₁ h₂ h₃) (hplain h₄ h₅ h₆))))
    · refine hplain ?_ ?_ ?_ <;> rintro rfl <;> simp [Text.shortEscape?] at hshort

theorem Pattern.quote_mem_quoted (s : String) : (Text.quote s).toList ∈ Pattern.quoted := by
  have hunits : s.toList.flatMap Text.quoteChar ∈ Pattern.quotedUnit∗ := by
    induction s.toList with
    | nil => exact Language.nil_mem_kstar _
    | cons c cs ih =>
      have h := Language.append_mem_mul (Pattern.quoteChar_mem c) ih
      rwa [kstar_mul_kstar] at h
  rw [Text.quote, String.toList_ofList]
  exact Pattern.mem_quoted.2 ⟨_, hunits, rfl⟩

theorem Grammar.Name.mem_token {w : String} (h : Name w) : w.toList ∈ Pattern.token :=
  .inr (.inr (.inr (isName_iff_mem_name.1 h)))

theorem scan_token {w : String} (hw : w.toList ∈ Pattern.token) :
    scan w = .ok [⟨w, .start⟩, ⟨"", Position.start.advance w.toList⟩] := by
  have h : scanFrom .start (oneLine [w.toList]) = .ok (oneLineTokens .start [w.toList]) :=
    scanFrom_oneLine .start (by simpa using hw)
  rwa [oneLineTokens, String.ofList_toList] at h

theorem Cursor.literal_of_value {c : Cursor} {v : Literal} (h : Value c.text v) :
    literal c = .ok (v, c.next) := by
  rw [literal, Plan.literal, Plan.step_take_some _ _ _ (Option.bind_eq_some_iff.2 (value_iff.1 h))]
  rfl

/-- **The text of a value leads back to it.** It is a token of its own, with the token for the end
behind it, and the value is read from it. -/
def Literal.ReadsBack (v : Literal) : Prop :=
  ∃ e : Token, e.text = "" ∧ scan v.display = .ok [⟨v.display, .start⟩, e] ∧
    Cursor.literal ⟨[⟨v.display, .start⟩, e], e⟩ = .ok (v, ⟨[e], e⟩)

theorem Literal.ReadsBack.of_value {v : Literal} (htoken : v.display.toList ∈ Pattern.token)
    (hvalue : Value v.display v) : v.ReadsBack :=
  ⟨_, rfl, scan_token htoken, Cursor.literal_of_value hvalue⟩

theorem value_display_int (i : Int64) : Value (Literal.int i).display (.int i) := by
  have h : Value (toString i.toInt) (.int (.ofInt i.toInt)) :=
    .integer (readInt?_toString _) i.le_toInt i.toInt_lt
  rwa [Int64.ofInt_toInt] at h

/-- **Values are read from their texts**: every integer, every string and both truth values. -/
theorem display_reads_back : (∀ i : Int64, (Literal.int i).ReadsBack) ∧
    (∀ s : String, (Literal.string s).ReadsBack) ∧ ∀ b : Bool, (Literal.bool b).ReadsBack := by
  refine ⟨fun i => ?_, fun s => ?_, fun b => ?_⟩
  · exact .of_value (Decimal.decimalText_toString i.toInt).numeral.mem_token (value_display_int i)
  · exact .of_value (.inl (Pattern.quote_mem_quoted s)) (.string (Text.unquote?_quote s))
  · cases b with
    | true => exact .of_value (Name.mem_token (by decide)) .true
    | false => exact .of_value (Name.mem_token (by decide)) .false

/-! ## Types -/

/-- A schema can spell the type. A name must be an identifier that does not begin another type. -/
def FieldType.Spellable : FieldType → Prop
  | named n => Name n ∧ (∀ p : Primitive, n ≠ p.keyword) ∧ n ≠ "list" ∧ n ≠ "map"
  | list t => t.Spellable
  | primitive _ | map _ _ => True

/-- The words for a type. -/
def FieldType.words : FieldType → List String
  | primitive p => [p.keyword]
  | list t => "list" :: "of" :: t.words
  | map k v => ["map", k.keyword, "for", v.keyword]
  | named n => [n]

/-- **A type has one spelling or none.** -/
theorem typeOf_iff_words {ws : List String} {t : FieldType} :
    TypeOf ws t ↔ t.Spellable ∧ ws = t.words := by
  constructor
  · intro h
    induction h with
    | primitive p => exact ⟨trivial, rfl⟩
    | list _ ih =>
      obtain ⟨hspell, rfl⟩ := ih
      exact ⟨hspell, rfl⟩
    | map k v => exact ⟨trivial, rfl⟩
    | named hn hp hl hm => exact ⟨⟨hn, hp, hl, hm⟩, rfl⟩
  · rintro ⟨hspell, rfl⟩
    induction t with
    | primitive p => exact .primitive p
    | list t ih => exact .list (ih hspell)
    | map k v => exact .map k v
    | named n =>
      obtain ⟨hn, hp, hl, hm⟩ := hspell
      exact .named hn hp hl hm

theorem FieldType.words_ne_nil (t : FieldType) : t.words ≠ [] := by
  cases t <;> exact List.cons_ne_nil _ _

theorem FieldType.Spellable.name {t : FieldType} (h : t.Spellable) : ∀ w ∈ t.words, Name w := by
  induction t with
  | primitive p => simpa [words] using name_keyword p
  | list t ih =>
    simp only [words, List.forall_mem_cons]
    exact ⟨by decide, by decide, ih h⟩
  | map k v =>
    simp only [words, List.forall_mem_cons]
    exact ⟨by decide, name_keyword k, by decide, name_keyword v, List.forall_mem_nil _⟩
  | named n => simpa [words] using h.1

theorem FieldType.describe_eq (t : FieldType) : t.describe = " ".intercalate t.words := by
  induction t with
  | primitive p => simp [describe, words]
  | list t ih =>
    obtain ⟨w, ws, hw⟩ := List.exists_cons_of_ne_nil t.words_ne_nil
    apply String.toList_injective
    rw [describe, words, ih, hw]
    simp [String.toList_intercalate]
  | map k v =>
    apply String.toList_injective
    simp [describe, words]
  | named n => simp [describe, words]

theorem oneLine_eq_intercalate (ws : List (List Char)) : oneLine ws = [' '].intercalate ws := by
  fun_induction oneLine ws with
  | case1 => rfl
  | case2 w => simp
  | case3 w ws hne ih =>
    obtain ⟨v, vs, rfl⟩ := List.exists_cons_of_ne_nil hne
    rw [ih, List.intercalate_cons_cons, List.append_assoc, List.singleton_append]

theorem texts_oneLineTokens (p : Position) (ws : List (List Char)) :
    texts (oneLineTokens p ws) = ws.map String.ofList ++ [""] := by
  fun_induction oneLineTokens p ws with
  | case1 => rfl
  | case2 => rfl
  | case3 p w ws _ ih => exact congrArg (String.ofList w :: ·) ih

/-- Names with a blank between every two are scanned as they are. -/
theorem scan_names {ws : List String} (h : ∀ w ∈ ws, Name w) :
    ∃ ts e, scan (" ".intercalate ws) = .ok (ts ++ [e]) ∧ texts ts = ws ∧ e.text = "" := by
  have hline : (" ".intercalate ws).toList = oneLine (ws.map String.toList) := by
    rw [oneLine_eq_intercalate, String.toList_intercalate]
    rfl
  have hscan : scan (" ".intercalate ws) = .ok (oneLineTokens .start (ws.map String.toList)) := by
    rw [scan, hline, scanFrom_oneLine]
    simpa using fun w hw => (h w hw).mem_token
  have htexts : texts (oneLineTokens .start (ws.map String.toList)) = ws ++ [""] := by
    rw [texts_oneLineTokens, List.map_map]
    simp [Function.comp_def]
  obtain ⟨ts, r, hts, hws, hr⟩ := exists_of_texts_eq_append htexts
  obtain ⟨e, rfl, he⟩ := List.map_eq_singleton_iff.1 hr
  exact ⟨ts, e, hts ▸ hscan, hws, he⟩

/-- **Types are read from their descriptions.** Every type that a schema can spell is read from the
tokens of its description, up to the end. And wherever in a text a type is read, it is such a type, and
the tokens that were taken are its description. -/
theorem describe_reads_back :
    (∀ t : FieldType, t.Spellable → ∃ ts e, scan t.describe = .ok (ts ++ [e]) ∧ e.text = "" ∧
      Cursor.fieldType ⟨ts ++ [e], e⟩ = .ok (t, ⟨[e], e⟩)) ∧
    ∀ (text : String) (ts : List Token), scan text = .ok ts → ∀ i < ts.length,
      ∀ (last : Token) (t : FieldType) (c : Cursor), Cursor.fieldType ⟨ts.drop i, last⟩ = .ok (t, c) →
        t.Spellable ∧ ∃ us, ts.drop i = us ++ c.rest ∧ c.rest ≠ [] ∧
          t.describe = " ".intercalate (texts us) := by
  refine ⟨fun t ht => ?_, fun text ts hscan i hi last t c hread => ?_⟩
  · obtain ⟨ts, e, hscan, hts, he⟩ := scan_names ht.name
    refine ⟨ts, e, t.describe_eq ▸ hscan, he, ?_⟩
    obtain ⟨t', hread, rfl⟩ := Cursor.reads_fieldType.complete (c := ⟨[e], e⟩)
      (typeOf_iff_words.2 ⟨ht, hts⟩) trivial
    exact hread
  · obtain ⟨vs, e, rfl, -, he⟩ := scan_eq_ok hscan
    have hended : Cursor.Ended ⟨(vs ++ [e]).drop i, last⟩ := by
      have hmem : e ∈ (vs ++ [e]).drop i := by
        rw [List.drop_append_of_le_length (by simpa [Nat.lt_succ_iff] using hi)]
        simp
      exact List.mem_map.2 ⟨e, hmem, he⟩
    obtain ⟨us, hback, htype, -⟩ := Cursor.reads_fieldType.sound hended trivial hread
    obtain ⟨hspell, hus⟩ := typeOf_iff_words.1 htype
    have hrest : c.Ended := Cursor.reads_fieldType.ended hended hback htype
    refine ⟨hspell, us, congrArg Cursor.rest hback, ?_, by rw [t.describe_eq, hus]⟩
    rintro hnil
    simp [Cursor.Ended, hnil] at hrest

/-- A name that is a word of the description too. -/
theorem describe_reads_back_of :
    FieldType.Spellable (.list (.list (.named "of"))) ∧
    ∃ ts e, scan "list of list of of" = .ok (ts ++ [e]) ∧
      Cursor.fieldType ⟨ts ++ [e], e⟩ = .ok (.list (.list (.named "of")), ⟨[e], e⟩) ∧
      ∃ us, ts ++ [e] = us ++ [e] ∧ "list of list of of" = " ".intercalate (texts us) := by
  have hspell : FieldType.Spellable (.list (.list (.named "of"))) :=
    ⟨by decide, by intro p; cases p <;> decide, by decide, by decide⟩
  obtain ⟨ts, e, hscan, -, hread⟩ := describe_reads_back.1 _ hspell
  obtain ⟨-, us, hus, -, hdescribe⟩ :=
    describe_reads_back.2 _ _ hscan 0 (by simp) e _ _ hread
  exact ⟨hspell, ts, e, hscan, hread, us, hus, hdescribe⟩

end Idl
