import Mathlib
import Idl.Proofs.Outline.Code

/-!
# The packages that a file uses

The code of a Go file is what its lines have outside of literals and comments. It names packages in
the functions of enums and objects and nowhere else, whatever texts the constants have.

* `Go.Neutral`, `Go.neutral_literal`: the code of a literal names no package.
* `Go.calls_choiceLines`, `Go.calls_recordLines`: the packages that enums and objects use at most.
* `Go.usedIn_declLines`: those that they do use.
* **`Go.uses_lines_iff`**: a file uses a package if one of its declarations does.
* `Go.uses_json_iff`, `Go.uses_fmt_iff`: objects use one package and enums the other.
-/

namespace Idl.Go

open Outline Lexeme

variable {ps ls : List String} {l : String}

/-! ## Words -/

theorem plain_toString (i : ℤ) : Plain (toString i) := by
  refine madeOf_toString (fun c hc => isQuiet_iff.2 ⟨?_, ?_⟩) rfl i
  · exact isPlain_of (by decide) (by decide) (by decide) (by decide) hc
  · rintro rfl
    cases hc

theorem plain_type (s : Schema) {t : FieldType} (ht : t.Spelled) : Plain (dialect.type s t) := by
  induction t with
  | primitive p => exact plain_of_isWord (isWord_keyword p)
  | list t ih =>
    by_cases hbytes : t = .primitive .uint8
    · rw [hbytes, type_bytes]
      exact plain_of_isWord isWord_bytes
    · rw [type_list hbytes, Plain, madeOf_append_iff]
      exact ⟨madeOf_ofList rfl, ih ht⟩
  | map k v =>
    simp only [Dialect.type, dialect, toString_text, Plain, madeOf_append_iff]
    exact ⟨⟨⟨madeOf_ofList rfl, plain_of_isWord (isWord_keyword k)⟩, madeOf_ofList rfl⟩,
      plain_of_isWord (isWord_keyword v)⟩
  | named n => exact plain_of_isWord (isWord_pascal ht)

/-! ## Literals -/

/-- A character of a number. -/
def isNumeric (c : Char) : Bool := c.isDigit || c == '-' || c == '.' || c == 'e'

theorem isNumeric_of_isDigit {c : Char} (h : c.isDigit = true) : isNumeric c = true := by
  simp [isNumeric, h]

theorem numeric_digits {ds : List Char} (h : Decimal.Digits ds) : MadeOf isNumeric (.ofList ds) :=
  madeOf_digits (fun _ => isNumeric_of_isDigit) h

theorem numeric_toString (i : ℤ) : MadeOf isNumeric (toString i) :=
  madeOf_toString (fun _ => isNumeric_of_isDigit) rfl i

theorem numeric_plainText {ds : List Char} (h : Decimal.Digits ds) (x : ℤ) :
    MadeOf isNumeric (Decimal.plainText true ds x) := by
  unfold Decimal.plainText
  simp only
  split_ifs
  · refine madeOf_append_iff.2 ⟨madeOf_ofList rfl, ?_⟩
    exact numeric_digits ((Decimal.digits_zeros _).append h)
  · refine madeOf_append_iff.2 ⟨?_, madeOf_ofList rfl⟩
    exact numeric_digits (h.append (Decimal.digits_zeros _))
  · refine madeOf_append_iff.2 ⟨madeOf_append_iff.2 ⟨?_, madeOf_ofList rfl⟩, ?_⟩
    · exact numeric_digits fun c hc => h c (List.mem_of_mem_take hc)
    · exact numeric_digits fun c hc => h c (List.mem_of_mem_drop hc)

theorem numeric_powerText {ds : List Char} (h : Decimal.Digits ds) (x : ℤ) :
    MadeOf isNumeric (Decimal.powerText false ds x) := by
  unfold Decimal.powerText
  simp only [madeOf_append_iff]
  refine ⟨⟨⟨⟨?_, ?_⟩, madeOf_ofList rfl⟩, madeOf_ofList rfl⟩, numeric_toString x⟩
  · exact numeric_digits fun c hc => h c (List.mem_of_mem_take hc)
  · split_ifs
    · exact madeOf_ofList rfl
    · refine madeOf_append_iff.2 ⟨madeOf_ofList rfl, ?_⟩
      exact numeric_digits fun c hc => h c (List.mem_of_mem_drop hc)

theorem numeric_writeUnits (units : ℕ) :
    MadeOf isNumeric (Decimal.Layout.source.writeUnits units) := by
  unfold Decimal.Layout.writeUnits
  simp only
  split_ifs
  · exact numeric_plainText (Decimal.digits_zeros 1) 0
  · exact numeric_plainText (Decimal.digits_significant _) _
  · exact numeric_powerText (Decimal.digits_significant _) _

/-- The text has code in which no point follows the last letter of a package. -/
def Neutral (x : Line) : Prop := ∃ out, Spans x out ∧ ∀ a ∈ ['n', 't'], ¬ [a, '.'] <:+: out

theorem neutral_of_plain {x : String} (h : Plain x) : Neutral x.toList :=
  ⟨_, h.spans, fun _ _ hpair => h.not_mem (hpair.subset (by simp))⟩

theorem neutral_quote (x : String) : Neutral (Text.quote x).toList := by
  refine ⟨[' '], spans_quote x, fun a _ hpair => ?_⟩
  exact absurd (hpair.subset (by simp : '.' ∈ [a, '.'])) (by decide)

/-- Numbers have points, but none of these letters. -/
theorem neutral_of_numeric {x : String} (h : MadeOf isNumeric x) : Neutral x.toList := by
  refine ⟨x.toList, spans_of_plain fun c hc => ?_, fun a ha hpair => ?_⟩
  · exact isPlain_of (by decide) (by decide) (by decide) (by decide) (h c hc)
  · have hletter : isNumeric a = false := by
      rcases List.mem_cons.1 ha with rfl | ha
      · rfl
      · rw [List.mem_singleton.1 ha]
        rfl
    rw [h a (hpair.subset (by simp))] at hletter
    cases hletter

theorem neutral_literal (p : Primitive) (v : Literal) : Neutral (dialect.literal p v).toList := by
  cases v with
  | string s => exact neutral_quote s
  | bool b =>
    rw [Dialect.literal]
    cases b with
    | true => exact neutral_of_plain (x := "true") (madeOf_ofList rfl)
    | false => exact neutral_of_plain (x := "false") (madeOf_ofList rfl)
  | int i =>
    rw [Dialect.literal]
    split
    · refine neutral_of_numeric (madeOf_append_iff.2 ⟨?_, madeOf_ofList rfl⟩)
      exact madeOf_append_iff.2 ⟨numeric_toString _, madeOf_ofList rfl⟩
    · exact neutral_of_numeric (numeric_toString _)
  | float x =>
    rw [Dialect.literal, show dialect.suffix p = "" from rfl, String.append_empty]
    cases x with
    | nan => exact neutral_of_plain (madeOf_ofList rfl)
    | infinite negative => cases negative <;> exact neutral_of_plain (madeOf_ofList rfl)
    | finite negative units fits =>
      refine neutral_of_numeric (madeOf_append_iff.2 ⟨?_, numeric_writeUnits units⟩)
      cases negative <;> exact madeOf_ofList rfl

theorem calls_literal {pre : String} (hpre : Plain pre) (p : Primitive) (v : Literal) :
    Calls ps (pre ++ " = " ++ dialect.literal p v) := by
  obtain ⟨out, hout, hpair⟩ := neutral_literal p v
  have hsign : Plain (pre ++ " = ") := madeOf_append_iff.2 ⟨hpre, madeOf_ofList rfl⟩
  have hline : Spans (pre ++ " = " ++ dialect.literal p v).toList
      ((pre ++ " = ").toList ++ out) := by
    rw [String.toList_append]
    exact hsign.spans.append hout
  refine ⟨hline.line.1, fun q hq huses => ?_⟩
  obtain ⟨a, ha, hq⟩ : ∃ a ∈ ['n', 't'], q.toList.getLast? = some a := by
    rcases List.mem_cons.1 hq with rfl | hq
    · exact ⟨'n', by decide, by decide⟩
    · obtain rfl := List.mem_singleton.1 hq
      exact ⟨'t', by decide, by decide⟩
  rcases pair_append ((hline.uses_iff.1 huses).pair hq) hsign.not_mem with h | h
  · exact absurd h (hpair a ha)
  · -- a blank stands before the literal
    rw [String.toList_append, List.getLast?_append, String.toList_ofList] at h
    cases h
    exact absurd ha (by decide)

theorem calls_rows {α : Type} {as : List α} {name type : α → String} (p : Primitive)
    (v : α → Literal) (hname : ∀ a ∈ as, Plain (name a)) (htype : ∀ a ∈ as, Plain (type a)) :
    CallsLines ps
      (aligned (as.map fun a => (name a, type a ++ " = " ++ dialect.literal p (v a)))) := by
  rw [CallsLines, aligned, List.forall_mem_map, List.forall_mem_map]
  intro a ha
  rw [← String.append_assoc, ← String.append_assoc]
  refine calls_literal ?_ p (v a)
  simp only [madeOf_append_iff]
  exact ⟨⟨plain_pad (hname a ha) _, madeOf_ofList rfl⟩, htype a ha⟩

theorem calls_quote {pre : String} (hpre : Plain pre) (x : String) :
    Calls ps (pre ++ Text.quote x) := by
  have hline : Spans (pre ++ Text.quote x).toList (pre.toList ++ [' ']) := by
    rw [String.toList_append]
    exact hpre.spans.append (spans_quote x)
  refine calls_of_spans hline ?_
  simp [hpre.not_mem]

/-! ## Declarations -/

theorem calls_labels {a : Lookup} {f : String → String}
    (harms : ∀ x ∈ a.arms, Plain x.1 ∧ Calls ps (f x.2)) (hother : CallsLines ps a.otherwise) :
    CallsLines ps (a.labels margin f) := by
  rw [Lookup.labels, callsLines_append]
  constructor
  · rw [CallsLines, List.forall_mem_flatMap]
    intro x hx
    rw [List.forall_mem_cons, List.forall_mem_singleton, calls_margin_iff]
    refine ⟨calls_plain ?_, (harms x hx).2⟩
    simp only [toString_text, madeOf_append_iff]
    exact ⟨⟨madeOf_ofList rfl, (harms x hx).1⟩, madeOf_ofList rfl⟩
  · split
    · exact callsLines_nil
    · rw [callsLines_cons, callsLines_indent]
      exact ⟨calls_plain (madeOf_ofList rfl), hother⟩

theorem calls_format {x y t z : String} (hx : Plain x) (hlast : "fmt".toList <:+ x.toList)
    (hy : Plain y) (ht : MadeOf isInner t) (hz : Plain z)
    (hl : l = x ++ "." ++ y ++ "\"" ++ t ++ "\"" ++ z) :
    Calls ["fmt"] l ∧ Uses "fmt" (lineCode l) := by
  have hchars : l.toList =
      x.toList ++ (['.'] ++ (y.toList ++ (('"' :: (t.toList ++ ['"'])) ++ z.toList))) := by
    rw [hl]
    simp
  have hpoint : Spans ['.'] ['.'] := rfl
  have hline : Spans l.toList (x.toList ++ '.' :: (y.toList ++ ' ' :: z.toList)) := by
    rw [hchars]
    exact hx.spans.append (hpoint.append (hy.spans.append ((spans_text ht).append hz.spans)))
  refine calls_member (by decide) hline hx.not_mem ?_ hlast
  simp [hy.not_mem, hz.not_mem]

theorem inner_of_isWord {n : String} (hn : IsWord n.toList) : MadeOf isInner n := by
  intro c hc
  simp only [isInner, Bool.and_eq_true, bne_iff_ne]
  exact ⟨⟨hn.ne_of_mem hc (by decide), hn.ne_of_mem hc (by decide)⟩, hn.ne_of_mem hc (by decide)⟩

section Choice

variable {c : Choice}

theorem calls_display (hname : IsWord c.name.toList) (htype : IsWord c.type.toList) :
    ∀ l ∈ (nameLookup c).otherwise, Calls ["fmt"] l ∧ Uses "fmt" (lineCode l) := by
  rw [nameLookup, List.forall_mem_singleton]
  refine calls_format (x := "return fmt") (y := "Sprintf(") (t := c.name ++ "(%v)")
    (z := ", " ++ c.type ++ "(e))") (madeOf_ofList rfl) (by decide) (madeOf_ofList rfl)
    (madeOf_append_iff.2 ⟨inner_of_isWord hname, madeOf_ofList rfl⟩) ?_ ?_
  · simp only [madeOf_append_iff]
    exact ⟨⟨madeOf_ofList rfl, plain_of_isWord htype⟩, madeOf_ofList rfl⟩
  · apply String.toList_injective
    simp

theorem calls_index (hname : IsWord c.name.toList) (htype : IsWord c.type.toList) :
    CallsLines ["fmt"] (indexLookup c).otherwise := by
  rw [CallsLines, indexLookup, List.forall_mem_singleton]
  refine (calls_format (x := "return -1, fmt") (y := "Errorf(")
    (t := c.name ++ ": unknown value %v") (z := ", " ++ c.type ++ "(value))") (madeOf_ofList rfl)
    (by decide) (madeOf_ofList rfl)
    (madeOf_append_iff.2 ⟨inner_of_isWord hname, madeOf_ofList rfl⟩) ?_ ?_).1
  · simp only [madeOf_append_iff]
    exact ⟨⟨madeOf_ofList rfl, plain_of_isWord htype⟩, madeOf_ofList rfl⟩
  · apply String.toList_injective
    simp

theorem calls_value (hname : IsWord c.name.toList) :
    CallsLines ["fmt"] (valueLookup c).otherwise := by
  rw [CallsLines, valueLookup, List.forall_mem_cons, List.forall_mem_singleton]
  constructor
  · exact calls_plain (madeOf_append_iff.2 ⟨madeOf_ofList rfl, plain_of_isWord hname⟩)
  · refine (calls_format (x := "return zero, fmt") (y := "Errorf(")
      (t := c.name ++ ": index %d out of range") (z := ", index)") (madeOf_ofList rfl) (by decide)
      (madeOf_ofList rfl) (madeOf_append_iff.2 ⟨inner_of_isWord hname, madeOf_ofList rfl⟩)
      (madeOf_ofList rfl) ?_).1
    apply String.toList_injective
    simp

end Choice

theorem plain_returned {x : String} (hx : Plain x) : Plain ("return " ++ x ++ ", nil") :=
  madeOf_append_iff.2 ⟨madeOf_append_iff.2 ⟨madeOf_ofList rfl, hx⟩, madeOf_ofList rfl⟩

theorem calls_choiceLines {e : EnumDecl} (h : Tidy spelling (.choice (dialect.choice e))) :
    CallsLines ["fmt"] (choiceLines (dialect.choice e)) := by
  have hname : Plain (dialect.choice e).name := plain_of_isWord h.1
  have htype : Plain (dialect.choice e).type := plain_of_isWord h.2.1
  have hvariant : ∀ v ∈ (dialect.choice e).variants, Plain v.name := fun v hv =>
    plain_of_isWord (h.2.2 v hv).2.1
  have hnames : ∀ n ∈ (dialect.choice e).variants.map Variant.name, Plain n :=
    List.forall_mem_map.2 hvariant
  have hmembers : CallsLines ["fmt"] (aligned ((dialect.choice e).variants.map fun v =>
      (v.name, (dialect.choice e).name ++ " = " ++ v.literal))) := by
    rw [Dialect.choice, List.map_map]
    exact calls_rows e.type Member.value
      (fun m hm => hvariant ⟨m.name, _, _⟩ (List.mem_map_of_mem hm)) fun _ _ => hname
  have hdisplay : CallsLines ["fmt"]
      ((nameLookup (dialect.choice e)).labels margin fun r => "return " ++ r) := by
    refine calls_labels (List.forall_mem_map.2 fun v hv => ⟨hvariant v hv, ?_⟩)
      fun l hl => (calls_display h.1 h.2.1 l hl).1
    exact calls_quote (madeOf_ofList rfl) v.source
  have hindex : CallsLines ["fmt"]
      ((indexLookup (dialect.choice e)).labels margin fun r => "return " ++ r ++ ", nil") := by
    refine calls_labels (List.forall_mem_map.2 fun p hp => ?_) (calls_index h.1 h.2.1)
    exact ⟨hnames p.1 (List.fst_mem_of_mem_zipIdx hp),
      calls_plain (plain_returned (plain_toString p.2))⟩
  have hvalue : CallsLines ["fmt"]
      ((valueLookup (dialect.choice e)).labels margin fun r => "return " ++ r ++ ", nil") := by
    refine calls_labels (List.forall_mem_map.2 fun p hp => ?_) (calls_value h.1)
    exact ⟨plain_toString p.2,
      calls_plain (plain_returned (hnames p.1 (List.fst_mem_of_mem_zipIdx hp)))⟩
  have hnote : Calls ["fmt"] "// String returns the declared name of the value." :=
    calls_note ⟨by decide, flat_ofList rfl⟩
  have hflat : Flat (dialect.choice e).name := flat_of_isWord h.1
  have hindexNote : IsNote
      ("// IndexOf" ++ (dialect.choice e).name ++ " returns the declaration index of value.") :=
    IsNote.mk (l := "// IndexOf") (by decide) (flat_ofList rfl) |>.append hflat
      |>.append (flat_ofList rfl)
  have hvalueNote : IsNote
      ("// ValueAt" ++ (dialect.choice e).name ++ " returns the value declared at index.") :=
    IsNote.mk (l := "// ValueAt") (by decide) (flat_ofList rfl) |>.append hflat
      |>.append (flat_ofList rfl)
  simp only [choiceLines, group, nest, block, switch, callsLines_append, callsLines_cons,
    callsLines_indent, toString_text, hmembers, hdisplay, hindex, hvalue, hnote,
    calls_note hindexNote, calls_note hvalueNote, callsLines_nil, and_true]
  and_intros
  all_goals
    apply calls_plain
    try simp only [madeOf_append_iff, hname, htype, and_true]
    and_intros
    all_goals exact madeOf_ofList rfl

/-- Every enum needs the package for texts. -/
theorem usedIn_choiceLines {c : Choice} (h : Tidy spelling (.choice c)) :
    UsedIn "fmt" (choiceLines c) := by
  have hother : UsedIn "fmt" (nameLookup c).otherwise :=
    ⟨_, List.mem_singleton_self _, (calls_display h.1 h.2.1 _ (List.mem_singleton_self _)).2⟩
  have hlabels : UsedIn "fmt" ((nameLookup c).labels margin fun r => s!"return {r}") :=
    (hother.indent (by decide)).mono (by simp [Lookup.labels, nameLookup])
  have hswitch : UsedIn "fmt" (switch "e" (nameLookup c) fun r => s!"return {r}") :=
    hlabels.mono (by simp [switch])
  exact (hswitch.nest (by decide) s!"func (e {c.name}) String() string").mono fun l hl => by
    simp only [choiceLines, List.mem_append, hl, true_or, or_true]

theorem calls_encode {x y : String} (hx : Plain x) (hlast : "json".toList <:+ x.toList)
    (hy : Plain y) (hl : l = x ++ "." ++ y) : Calls ["json"] l ∧ Uses "json" (lineCode l) := by
  have hpoint : Spans ['.'] ['.'] := rfl
  have hline : Spans l.toList (x.toList ++ '.' :: y.toList) := by
    rw [hl, String.toList_append, String.toList_append, String.toList_ofList, List.append_assoc]
    exact hx.spans.append (hpoint.append hy.spans)
  exact calls_member (by decide) hline hx.not_mem hy.not_mem hlast

theorem calls_tag {pre key : String} (hpre : Plain pre) (hkey : IsWord key.toList) :
    Calls ps (pre ++ " `json:" ++ Text.quote key ++ "`") := by
  have hchars : (pre ++ " `json:" ++ Text.quote key ++ "`").toList =
      (pre ++ " ").toList ++ ('\x60' :: (("json:" ++ Text.quote key).toList ++ ['\x60'])) := by simp
  have hblank : Plain (pre ++ " ") := madeOf_append_iff.2 ⟨hpre, madeOf_ofList rfl⟩
  have htag : '\x60' ∉ ("json:" ++ Text.quote key).toList := by
    rw [String.toList_append, toList_quote hkey]
    simp [hkey.not_mem (c := '\x60') (by decide)]
  have hline : Spans (pre ++ " `json:" ++ Text.quote key ++ "`").toList
      ((pre ++ " ").toList ++ [' ']) := by
    rw [hchars]
    exact hblank.spans.append (spans_raw htag)
  refine calls_of_spans hline ?_
  simp [hpre.not_mem]

theorem calls_recordLines {r : Record} (h : Tidy spelling (.record r))
    (htypes : ∀ f ∈ r.slots, Plain f.type) : CallsLines ["json"] (recordLines r) := by
  have hname : Plain r.name := plain_of_isWord h.1
  have hmember : ∀ f ∈ r.slots, Plain f.member := fun f hf => plain_of_isWord (h.2 f hf).2.2.1
  have hparam : ∀ f ∈ r.slots, Plain f.param := fun f hf => plain_of_isWord (h.2 f hf).2.2.2.1
  have hslots : CallsLines ["json"] (slotLines r.slots) := by
    rw [CallsLines, slotLines, List.forall_mem_map]
    intro f hf
    refine calls_tag ?_ (h.2 f hf).2.1
    simp only [madeOf_append_iff]
    exact ⟨⟨plain_pad (hmember f hf) _, madeOf_ofList rfl⟩, plain_pad (htypes f hf) _⟩
  have hparams : Plain (commas (r.slots.map fun f => f.param ++ " " ++ f.type)) := by
    refine madeOf_intercalate (madeOf_ofList rfl) (List.forall_mem_map.2 fun f hf => ?_)
    simp only [madeOf_append_iff]
    exact ⟨⟨hparam f hf, madeOf_ofList rfl⟩, htypes f hf⟩
  have hresult : CallsLines ["json"] (resultLines r) := by
    have hrows : CallsLines ["json"]
        (aligned (r.slots.map fun s => (s.member ++ ":", s.param ++ ","))) := by
      rw [CallsLines, aligned, List.forall_mem_map, List.forall_mem_map]
      intro f hf
      have hset : Plain (f.member ++ ":") := madeOf_append_iff.2 ⟨hmember f hf, madeOf_ofList rfl⟩
      apply calls_plain
      simp only [madeOf_append_iff]
      exact ⟨⟨plain_pad hset _, madeOf_ofList rfl⟩, hparam f hf, madeOf_ofList rfl⟩
    rw [resultLines]
    split
    all_goals
      simp only [callsLines_append, callsLines_cons, callsLines_nil, callsLines_indent,
        toString_text, hrows, and_true]
      and_intros
      all_goals
        apply calls_plain
        try simp only [madeOf_append_iff, hname, and_true]
        and_intros
        all_goals exact madeOf_ofList rfl
  have hmarshal : Calls ["json"] "data, err := json.Marshal(o)" :=
    (calls_encode (x := "data, err := json") (y := "Marshal(o)") (madeOf_ofList rfl) (by decide)
      (madeOf_ofList rfl) rfl).1
  have hunmarshal : Calls ["json"]
      ("if err := json.Unmarshal([]byte(data), &o); err != nil" ++ " \x7b") :=
    (calls_encode (x := "if err := json") (y := "Unmarshal([]byte(data), &o); err != nil \x7b")
      (madeOf_ofList rfl) (by decide) (madeOf_ofList rfl) rfl).1
  have hreturn : Calls ["json"] "return \"\", err" := by
    have hline : Spans "return \"\", err".toList "return  , err".toList := by
      rw [Spans]
      decide
    exact calls_of_spans hline (by decide)
  have hflat : Flat r.name := flat_of_isWord h.1
  have hnewNote : IsNote ("// New" ++ r.name ++ " returns a " ++ r.name ++
      " built from its fields in declaration order.") :=
    IsNote.mk (l := "// New") (by decide) (flat_ofList rfl) |>.append hflat
      |>.append (flat_ofList rfl) |>.append hflat |>.append (flat_ofList rfl)
  have htoNote : Calls ["json"] "// ToJSON encodes the value with the IDL field names as keys." :=
    calls_note ⟨by decide, flat_ofList rfl⟩
  have hfromNote : IsNote
      ("// " ++ r.name ++ "FromJSON decodes a " ++ r.name ++ " produced by ToJSON.") :=
    IsNote.mk (l := "// ") (by decide) (flat_ofList rfl) |>.append hflat
      |>.append (flat_ofList rfl) |>.append hflat |>.append (flat_ofList rfl)
  simp only [recordLines, nest, block, callsLines_append, callsLines_cons, callsLines_indent,
    callsLines_nil, toString_text, hslots, hresult, hmarshal, hunmarshal, hreturn, htoNote,
    calls_note hnewNote, calls_note hfromNote, true_and, and_true]
  and_intros
  all_goals
    apply calls_plain
    try simp only [madeOf_append_iff, hname, hparams, and_true]
    and_intros
    all_goals exact madeOf_ofList rfl

/-- Every object needs the package for encoding. -/
theorem usedIn_recordLines (r : Record) : UsedIn "json" (recordLines r) := by
  have hmarshal : UsedIn "json" ["data, err := json.Marshal(o)"] :=
    ⟨_, List.mem_singleton_self _, (calls_encode (x := "data, err := json") (y := "Marshal(o)")
      (madeOf_ofList rfl) (by decide) (madeOf_ofList rfl) rfl).2⟩
  have hbody : UsedIn "json" (["data, err := json.Marshal(o)"]
      ++ nest "if err != nil" ["return \"\", err"] ++ ["return string(data), nil"]) :=
    hmarshal.mono (by simp)
  exact (hbody.nest (by decide) s!"func (o *{r.name}) ToJSON() (string, error)").mono fun l hl => by
    simp only [recordLines, List.mem_append, hl, true_or, or_true]

/-- The packages that a declaration uses. -/
def callsOf : Decl → List String
  | .constants _ => []
  | .choice _ => ["fmt"]
  | .record _ => ["json"]

theorem calls_declLines {s : Schema} {e : Entry} (h : Tidy spelling (dialect.declare s e)) :
    CallsLines (callsOf (dialect.declare s e)) (declLines (dialect.declare s e)) := by
  cases e with
  | const c =>
    have hrows : CallsLines [] (aligned ((dialect.constants c).rows.map fun r =>
        (r.name, (dialect.constants c).type ++ " = " ++ r.literal))) := by
      rw [Dialect.constants, List.map_map]
      exact calls_rows c.type Member.value
        (fun m hm => plain_of_isWord (h.2.2 ⟨_, _⟩ (List.mem_map_of_mem hm)).1)
        fun _ _ => plain_of_isWord (isWord_keyword c.type)
    simp only [Dialect.declare, declLines, callsOf, constantsLines, group, callsLines_append,
      callsLines_cons, callsLines_indent, callsLines_nil, toString_text, hrows, and_true]
    exact ⟨calls_plain (madeOf_append_iff.2 ⟨madeOf_ofList rfl, madeOf_ofList rfl⟩),
      calls_plain (madeOf_ofList rfl)⟩
  | enum e => exact calls_choiceLines h
  | object o =>
    refine calls_recordLines h fun f hf => ?_
    have ht := (h.2 f hf).1
    obtain ⟨field, -, rfl⟩ := List.mem_map.1 hf
    exact plain_type s ht

theorem usedIn_declLines {d : Decl} (h : Tidy spelling d) :
    ∀ p ∈ callsOf d, UsedIn p (declLines d) := by
  cases d with
  | constants g => exact List.forall_mem_nil _
  | choice c => exact List.forall_mem_singleton.2 (usedIn_choiceLines h)
  | record r => exact List.forall_mem_singleton.2 (usedIn_recordLines r)

/-! ## Files -/

theorem CallsLines.mono {qs : List String} (h : CallsLines ps ls) (hps : ps ⊆ qs) :
    CallsLines qs ls :=
  fun l hl => ⟨(h l hl).closed, fun p hp huses => hps ((h l hl).only p hp huses)⟩

theorem calls_importLines (packages : List String) : CallsLines ps (importLines packages) := by
  unfold importLines
  split
  · exact callsLines_nil
  · rw [callsLines_cons, callsLines_cons]
    exact ⟨calls_plain (madeOf_ofList rfl), calls_quote (madeOf_ofList rfl) _, callsLines_nil⟩
  · have hquotes : CallsLines ps (packages.map Text.quote) := by
      rw [CallsLines, List.forall_mem_map]
      exact fun p _ => calls_of_spans (spans_quote p) (by decide)
    simp only [group, callsLines_append, callsLines_cons, callsLines_indent, callsLines_nil,
      hquotes, and_true]
    and_intros
    all_goals
      apply calls_plain
      try rw [Plain, madeOf_append_iff]
      and_intros
      all_goals exact madeOf_ofList rfl

theorem calls_bytesLines : CallsLines ["json"] bytesLines := by
  have hlistNote : Calls ["json"]
      "// Uint8List encodes as a JSON array of numbers instead of base64." :=
    calls_note ⟨by decide, flat_ofList rfl⟩
  have hmarshalNote : Calls ["json"] "// MarshalJSON writes the list as an array of numbers." :=
    calls_note ⟨by decide, flat_ofList rfl⟩
  have hmarshal : Calls ["json"] "return json.Marshal(values)" :=
    (calls_encode (x := "return json") (y := "Marshal(values)") (madeOf_ofList rfl) (by decide)
      (madeOf_ofList rfl) rfl).1
  simp only [bytesLines, nest, block, callsLines_append, callsLines_cons, callsLines_indent,
    callsLines_nil, hlistNote, hmarshalNote, hmarshal, true_and, and_true]
  and_intros
  all_goals
    apply calls_plain
    try simp only [madeOf_append_iff]
    and_intros
    all_goals exact madeOf_ofList rfl

/-- A file uses the packages of its declarations. -/
theorem calls_lines {s : Schema} (hs : s.Spelled) :
    CallsLines ((dialect.decls s).flatMap callsOf) (lines s) := by
  have hpackage : Plain (packageName s) := by
    rw [packageName, List.getLastD_eq_getLast?]
    cases hlast : s.package.getLast? with
    | none => exact madeOf_ofList rfl
    | some n => exact plain_of_isWord (hs.package n (List.mem_of_getLast? hlast))
  have hempty : Calls ((dialect.decls s).flatMap callsOf) "" := calls_plain (madeOf_ofList rfl)
  have hheader : Calls ((dialect.decls s).flatMap callsOf)
      "// Code generated by bidl. DO NOT EDIT." :=
    calls_note ⟨by decide, flat_ofList rfl⟩
  have hdecls : ∀ d ∈ dialect.decls s,
      CallsLines ((dialect.decls s).flatMap callsOf) (declLines d) := by
    intro d hd
    have htidy := tidy_dialect.decls hs d hd
    obtain ⟨e, -, rfl⟩ := List.mem_map.1 hd
    exact (calls_declLines htidy).mono fun p hp => List.mem_flatMap.2 ⟨_, hd, hp⟩
  have hbytes : ∀ b ∈ if usesBytes s then [bytesLines] else [],
      CallsLines ((dialect.decls s).flatMap callsOf) b := by
    split
    · rename_i huses
      obtain ⟨o, ho, -⟩ := List.any_eq_true.1 huses
      have hrecord := List.mem_map_of_mem (f := dialect.declare s) (Schema.mem_objects.1 ho)
      exact List.forall_mem_singleton.2 (calls_bytesLines.mono fun p hp =>
        List.mem_flatMap.2 ⟨_, hrecord, hp⟩)
    · exact List.forall_mem_nil _
  rw [lines, callsLines_append, callsLines_append, spaced]
  refine ⟨⟨?_, calls_importLines _⟩, List.forall_mem_flatMap.2 ?_⟩
  · simp only [callsLines_cons, callsLines_nil, hheader, hempty, toString_text, true_and, and_true]
    exact calls_plain (madeOf_append_iff.2 ⟨madeOf_ofList rfl, hpackage⟩)
  · simp only [List.forall_mem_append, List.forall_mem_map, List.forall_mem_cons, hempty, true_and]
    exact ⟨hbytes, hdecls⟩

/-- **What the code of a file uses.** -/
theorem uses_lines_iff {s : Schema} (hs : s.Spelled) {p : String} (hp : p ∈ libraries) :
    Uses p (code (sourceText (lines s))) ↔ ∃ d ∈ dialect.decls s, p ∈ callsOf d := by
  have hcalls := calls_lines hs
  have hflat : '\n' ∉ p.toList := (isWord_library hp).not_mem (by decide)
  rw [uses_code_iff hflat (by simp [lines]) fun l hl => (hcalls l hl).closed, ← List.mem_flatMap]
  constructor
  · rintro ⟨l, hl, huses⟩
    exact (hcalls l hl).only p hp huses
  · intro hmem
    obtain ⟨d, hd, hpd⟩ := List.mem_flatMap.1 hmem
    refine (usedIn_declLines (tidy_dialect.decls hs d hd) p hpd).mono fun l hl => ?_
    rw [lines, List.mem_append, spaced, List.mem_flatMap]
    exact .inr ⟨_, List.mem_append_right _ (List.mem_map_of_mem hd), List.mem_cons_of_mem _ hl⟩

theorem uses_json_iff {s : Schema} (hs : s.Spelled) :
    Uses "json" (code (sourceText (lines s))) ↔ s.hasObjects = true := by
  rw [uses_lines_iff hs (by decide), Schema.hasObjects, Bool.not_eq_true',
    List.isEmpty_eq_false_iff_exists_mem]
  constructor
  · rintro ⟨d, hd, hcalls⟩
    obtain ⟨e, he, rfl⟩ := List.mem_map.1 hd
    cases e with
    | const c => cases hcalls
    | enum e => exact absurd hcalls (by simp [Dialect.declare, callsOf])
    | object o => exact ⟨o, Schema.mem_objects.2 he⟩
  · rintro ⟨o, ho⟩
    exact ⟨_, List.mem_map_of_mem (Schema.mem_objects.1 ho), List.mem_singleton_self _⟩

theorem uses_fmt_iff {s : Schema} (hs : s.Spelled) :
    Uses "fmt" (code (sourceText (lines s))) ↔ s.hasEnums = true := by
  rw [uses_lines_iff hs (by decide), Schema.hasEnums, Bool.not_eq_true',
    List.isEmpty_eq_false_iff_exists_mem]
  constructor
  · rintro ⟨d, hd, hcalls⟩
    obtain ⟨e, he, rfl⟩ := List.mem_map.1 hd
    cases e with
    | const c => cases hcalls
    | enum e => exact ⟨e, Schema.mem_enums.2 he⟩
    | object o => exact absurd hcalls (by simp [Dialect.declare, callsOf])
  · rintro ⟨e, he⟩
    exact ⟨_, dialect.choice_mem_decls he, List.mem_singleton_self _⟩

end Idl.Go
