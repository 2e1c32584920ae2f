import Mathlib
import Idl.Proofs.Outline.Texts

/-!
# The outline of Dart source text

* `tidy_dialect`: the words of the target.
* `within_decode`: where the key of a field stands in the argument for it.
* `flat_lines`: no line of a file holds a line end.
* `sectionsOf_lines`: the sections of a file.
* `choices_lines`, `records_lines`: what a file says about enums and objects.
-/

namespace Idl.Dart

open Outline Lexeme

/-! ## Words -/

theorem isWord_primitive (p : Primitive) : IsWord (primitive p).toList := by
  unfold primitive
  split <;> (rw [String.toList_ofList]; exact isWord_of_all (by simp) rfl)

theorem tidy_dialect : TidyDialect .plain dialect where
  title n hn := hn
  variant e m _ hm := isWord_avoid hm
  member o f _ hf := by
    simp only [dialect, fieldName]
    exact isWord_avoid (isWord_camel hf)
  param o f _ hf := by
    simp only [dialect, fieldName]
    exact isWord_avoid (isWord_camel hf)
  binding c m hc hm := isWord_avoid (isWord_binding hc hm)
  type s t ht := by
    have hprimitive : ∀ p, TypeText (primitive p).toList := fun p =>
      typeText_of_isWord (isWord_primitive p)
    refine type_induction (P := fun x => TypeText x.toList) hprimitive ?_ ?_ ?_ ht
    · intro t x hx
      exact typeText_list (w := ['L', 'i', 's', 't']) String.toList_ofList
        (isWord_of_all (by simp) rfl) hx
    · intro k v
      exact typeText_map (w := ['M', 'a', 'p']) String.toList_ofList (isWord_of_all (by simp) rfl)
        (hprimitive k) (hprimitive v)
    · exact fun n hn => typeText_of_isWord hn
  constant p := flat_of_isWord (isWord_primitive p)
  text s := flat_stringText s
  suffix p := flat_ofList rfl

theorem blank_margin : ∀ c ∈ margin.toList, isMargin c = true := by
  rw [margin, String.toList_ofList]
  exact List.all_eq_true.1 rfl

theorem blank_deep : ∀ c ∈ "      ".toList, isMargin c = true := by
  rw [String.toList_ofList]
  exact List.all_eq_true.1 rfl

theorem blank_close : ∀ c ∈ "    ".toList, isMargin c = true := by
  rw [String.toList_ofList]
  exact List.all_eq_true.1 rfl

/-! ## Expressions -/

theorem flat_receiver {b : Bool} {x : String} (hx : Flat x) : Flat (Expr.receiver b x) := by
  unfold Expr.receiver
  split
  · exact flat_append_iff.2 ⟨flat_append_iff.2 ⟨flat_ofList rfl, hx⟩, flat_ofList rfl⟩
  · exact hx

theorem flat_elementVar (depth : ℕ) : Flat (elementVar depth) :=
  flat_append_iff.2 ⟨flat_ofList rfl, flat_toString_nat depth⟩

theorem flat_keyVar (depth : ℕ) : Flat (keyVar depth) :=
  flat_append_iff.2 ⟨flat_ofList rfl, flat_toString_nat depth⟩

theorem flat_valueVar (depth : ℕ) : Flat (valueVar depth) :=
  flat_append_iff.2 ⟨flat_ofList rfl, flat_toString_nat depth⟩

theorem flat_each {e body : Expr} {x : String} (he : Flat e.text) (hx : Flat x)
    (hbody : Flat body.text) : Flat (Expr.each e x body).text := by
  rw [Expr.text]
  simp only [flat_append_iff, toString_text, flat_receiver he, hx, hbody, true_and, and_true]
  and_intros
  all_goals exact flat_ofList rfl

theorem flat_entries {e key value : Expr} {k v : String} (he : Flat e.text) (hk : Flat k)
    (hv : Flat v) (hkey : Flat key.text) (hvalue : Flat value.text) :
    Flat (Expr.entries e k v key value).text := by
  rw [Expr.text]
  simp only [flat_append_iff, toString_text, flat_receiver he, hk, hv, hkey, hvalue, true_and, and_true]
  and_intros
  all_goals exact flat_ofList rfl

theorem flat_encode (s : Schema) (t : FieldType) {e : Expr} (he : Flat e.text) (depth : ℕ) :
    Flat (encode s t e depth).text := by
  induction t generalizing e depth with
  | primitive p => exact he
  | named n =>
    rw [encode]
    split <;> exact flat_append_iff.2 ⟨flat_receiver he, flat_ofList rfl⟩
  | list t ih =>
    rw [encode]
    split
    · exact he
    · exact flat_each he (flat_elementVar depth)
        (ih (e := .var (elementVar depth)) (flat_elementVar depth) _)
  | map k v =>
    rw [encode]
    split
    · refine flat_entries he (flat_keyVar depth) (flat_valueVar depth) ?_ (flat_valueVar depth)
      exact flat_append_iff.2 ⟨flat_receiver (flat_keyVar depth), flat_ofList rfl⟩
    · exact he

theorem flat_cast {e : Expr} {type : String} (he : Flat e.text) (htype : Flat type) :
    Flat (Expr.cast e type).text :=
  flat_append_iff.2 ⟨flat_append_iff.2 ⟨he, flat_ofList rfl⟩, htype⟩

theorem flat_decodePrimitive (p : Primitive) {e : Expr} (he : Flat e.text) :
    Flat (decodePrimitive p e).text := by
  unfold decodePrimitive
  split
  · exact flat_append_iff.2 ⟨flat_receiver (flat_cast he (flat_ofList rfl)), flat_ofList rfl⟩
  · exact flat_cast he (flat_of_isWord (isWord_primitive p))

theorem flat_decode (s : Schema) {t : FieldType} (ht : t.Spelled) {e : Expr} (he : Flat e.text)
    (depth : ℕ) : Flat (decode s t e depth).text := by
  induction t generalizing e depth with
  | primitive p => exact flat_decodePrimitive p he
  | named n =>
    have hn : Flat n := flat_of_isWord ht
    rw [decode]
    split
    · rename_i p hp
      rw [Expr.text]
      simp only [flat_append_iff, toString_text, hn, flat_decodePrimitive p he, true_and, and_true]
      exact ⟨flat_ofList rfl, flat_ofList rfl⟩
    · have hcast : Flat (Expr.cast e "Map<String, dynamic>").text := flat_cast he (flat_ofList rfl)
      rw [Expr.text]
      simp only [flat_append_iff, toString_text, hn, hcast, true_and, and_true]
      exact ⟨flat_ofList rfl, flat_ofList rfl⟩
  | list t ih =>
    exact flat_each (flat_cast he (flat_ofList rfl)) (flat_elementVar depth)
      (ih ht (e := .var (elementVar depth)) (flat_elementVar depth) _)
  | map k v =>
    have hkey : Flat (Expr.cast (.var (keyVar depth)) "String").text :=
      flat_cast (flat_keyVar depth) (flat_ofList rfl)
    refine flat_entries (flat_cast he (flat_ofList rfl)) (flat_keyVar depth) (flat_valueVar depth) ?_
      (flat_decodePrimitive v (flat_valueVar depth))
    split
    · exact flat_append_iff.2 ⟨flat_append_iff.2 ⟨flat_ofList rfl, hkey⟩, flat_ofList rfl⟩
    · exact hkey

/-- The text of `e` stands in that of `e'` before any other square bracket. -/
def Within (e e' : Expr) : Prop :=
  ∃ p q, e'.text.toList = p ++ (e.text.toList ++ q) ∧ ∀ c ∈ p, isMargin c = false ∧ c ≠ '['

theorem Within.trans {e e' e'' : Expr} (h : Within e e') (h' : Within e' e'') : Within e e'' := by
  obtain ⟨p, q, htext, hp⟩ := h
  obtain ⟨p', q', htext', hp'⟩ := h'
  refine ⟨p' ++ p, q ++ q', ?_, List.forall_mem_append.2 ⟨hp', hp⟩⟩
  rw [htext', htext]
  simp

theorem within_cast (e : Expr) (type : String) : Within e (.cast e type) := by
  refine ⟨[], " as ".toList ++ type.toList, ?_, by simp⟩
  simp only [Expr.text, toString_text, String.toList_append, List.append_assoc, List.nil_append]

theorem within_method {e e' : Expr} {m : String}
    (h : e'.text = Expr.receiver e.isCast e.text ++ m) : Within e e' := by
  have hopen : ("(" : String).toList = ['('] := String.toList_ofList
  rw [Expr.receiver] at h
  split at h
  · refine ⟨['('], ")".toList ++ m.toList, ?_, by simp⟩
    rw [h]
    simp only [toString_text, String.toList_append, hopen, List.append_assoc]
  · refine ⟨[], m.toList, ?_, by simp⟩
    rw [h, String.toList_append, List.nil_append]

theorem within_call {e e' : Expr} {n p q : String} (hn : IsWord n.toList)
    (hp : ∀ c ∈ p.toList, isMargin c = false ∧ c ≠ '[') (h : e'.text = n ++ p ++ e.text ++ q) :
    Within e e' := by
  refine ⟨n.toList ++ p.toList, q.toList, ?_, List.forall_mem_append.2 ⟨?_, hp⟩⟩
  · rw [h]
    simp only [String.toList_append, List.append_assoc]
  · exact fun c hc => ⟨(unbroken_of_isWord hn).2 c hc, hn.ne_of_mem hc (by decide)⟩

theorem within_decodePrimitive (p : Primitive) (e : Expr) : Within e (decodePrimitive p e) := by
  unfold decodePrimitive
  split
  · exact (within_cast e "num").trans (within_method rfl)
  · exact within_cast e _

theorem within_decode (s : Schema) {t : FieldType} (ht : t.Spelled) (e : Expr) (depth : ℕ) :
    Within e (decode s t e depth) := by
  cases t with
  | primitive p => exact within_decodePrimitive p e
  | named n =>
    rw [decode]
    split
    · rename_i p _
      refine (within_decodePrimitive p e).trans (within_call ht ?_ rfl)
      rw [toString_text, String.toList_ofList]
      simp
    · refine (within_cast e _).trans (within_call ht ?_ rfl)
      rw [toString_text, String.toList_ofList]
      simp
  | list t => exact (within_cast e "List").trans (within_method rfl)
  | map k v => exact (within_cast e "Map").trans (within_method rfl)

/-! ## No line ends -/

theorem flat_margin : Flat margin := flat_ofList rfl

theorem flatLines_spread {head close : String} {parts : List String} :
    FlatLines (spread head parts close) ↔ Flat head ∧ FlatLines parts ∧ Flat close := by
  have hdeep : Flat "      " := flat_ofList rfl
  have hclose : Flat "    " := flat_ofList rfl
  simp [spread, flatLines_append, flatLines_cons, flatLines_nil, flatLines_indent hdeep,
    flat_append_iff, hclose]

theorem flat_variantLines {vs : List Variant} (h : ∀ v ∈ vs, Flat v.name ∧ Flat v.literal) :
    FlatLines (variantLines vs) := by
  fun_induction variantLines vs with
  | case1 => exact flatLines_nil
  | case2 v =>
    simp only [flatLines_singleton, flat_append_iff, toString_text, h v List.mem_cons_self, and_true,
      true_and]
    exact ⟨flat_ofList rfl, flat_ofList rfl⟩
  | case3 v vs _ ih =>
    rw [flatLines_cons]
    refine ⟨?_, ih fun w hw => h w (List.mem_cons_of_mem v hw)⟩
    simp only [flat_append_iff, toString_text, h v List.mem_cons_self, and_true, true_and]
    exact ⟨flat_ofList rfl, flat_ofList rfl⟩

theorem flat_choiceLines {c : Choice} (h : Tidy .plain (.choice c)) : FlatLines (choiceLines c) := by
  have hname : Flat c.name := flat_of_isWord h.1
  have htype : Flat c.type := h.2.1
  have hqualified : ∀ n ∈ qualified c, Flat n := flat_qualified h (flat_ofList rfl)
  have hvariants : FlatLines (variantLines c.variants) :=
    flat_variantLines fun v hv => ⟨flat_of_isWord (h.2.2 v hv).2.1, (h.2.2 v hv).2.2⟩
  have hindex : FlatLines ((indexLookup c).arrows id) :=
    flatLines_arrows (fun _ hx => hx) (flat_indexArms hqualified) flatLines_nil
  have hvalue : FlatLines ((valueLookup c).arrows id) := by
    refine flatLines_arrows (fun _ hx => hx) (flat_valueArms hqualified) ?_
    rw [valueLookup, flatLines_singleton]
    simp only [flat_append_iff, toString_text, flat_toString, and_true]
    exact ⟨flat_ofList rfl, flat_ofList rfl⟩
  simp only [choiceLines, nest, block, flatLines_append, flatLines_cons, flatLines_nil,
    flatLines_spread, flatLines_indent flat_margin, flat_append_iff, toString_text, hname, htype,
    hvariants, hindex, hvalue, true_and, and_true]
  and_intros
  all_goals exact flat_ofList rfl

theorem flat_recordLines (s : Schema) {r : Record} (h : Tidy .plain (.record r)) :
    FlatLines (recordLines s r) := by
  have hname : Flat r.name := flat_of_isWord h.1
  have hslots : FlatLines (r.slots.map fun f => "final " ++ f.type ++ " " ++ f.member ++ ";") := by
    rw [flatLines_map]
    intro f hf
    obtain ⟨-, -, hmember, -, htype⟩ := h.2 f hf
    simp only [flat_append_iff]
    exact ⟨⟨⟨⟨flat_ofList rfl, htype.flat⟩, flat_ofList rfl⟩, flat_of_isWord hmember⟩, flat_ofList rfl⟩
  have hparams : Flat (commas (r.slots.map fun f => "this." ++ f.param)) := by
    apply flat_intercalate (flat_ofList rfl)
    rw [List.forall_mem_map]
    exact fun f hf => flat_append_iff.2 ⟨flat_ofList rfl, flat_of_isWord (h.2 f hf).2.2.2.1⟩
  have hencode : FlatLines (r.slots.map (encodeLine s)) := by
    rw [flatLines_map]
    intro f hf
    have htext : Flat (encode s f.field.type (.var f.member) 0).text :=
      flat_encode s _ (e := .var f.member) (flat_of_isWord (h.2 f hf).2.2.1) 0
    rw [encodeLine, flat_append_iff, flat_append_iff, flat_append_iff]
    exact ⟨⟨⟨flat_stringText _, flat_ofList rfl⟩, htext⟩, flat_ofList rfl⟩
  have hdecode : FlatLines (r.slots.map (decodeLine s)) := by
    rw [flatLines_map]
    intro f hf
    have hentry : Flat (Expr.entry f.key).text := by
      rw [Expr.text, flat_append_iff, flat_append_iff]
      exact ⟨⟨flat_ofList rfl, flat_stringText _⟩, flat_ofList rfl⟩
    rw [decodeLine, flat_append_iff]
    exact ⟨flat_decode s (h.2 f hf).1 hentry 0, flat_ofList rfl⟩
  have hblank : FlatLines (if r.slots.isEmpty then [] else [""]) :=
    flatLines_ite flatLines_nil (flatLines_singleton.2 (flat_ofList rfl))
  simp only [recordLines, nest, block, flatLines_append, flatLines_cons, flatLines_nil,
    flatLines_spread, flatLines_indent flat_margin, flat_append_iff, toString_text, hname, hslots,
    hparams, hencode, hdecode, hblank, true_and, and_true]
  and_intros
  all_goals exact flat_ofList rfl

theorem flat_declLines (s : Schema) {d : Decl} (hd : Tidy .plain d) : FlatLines (declLines s d) := by
  cases d with
  | constants g =>
    have htype : Flat g.type := hd.1
    rw [declLines, constantsLines, flatLines_map]
    intro c hc
    obtain ⟨hname, hliteral⟩ := hd.2.2 c hc
    simp only [flat_append_iff, toString_text, htype, flat_of_isWord hname, hliteral, and_true]
    and_intros
    all_goals exact flat_ofList rfl
  | choice c => exact flat_choiceLines hd
  | record r => exact flat_recordLines s hd

theorem flat_lines {s : Schema} (hs : s.Spelled) : FlatLines (lines s) := by
  have hpackage : Flat (".".intercalate s.package) :=
    flat_intercalate (flat_ofList rfl) fun n hn => flat_of_isWord (hs.package n hn)
  rw [lines, flatLines_append, flatLines_append, flatLines_append, flatLines_singleton, spaced,
    flatLines_flatMap, List.forall_mem_map]
  refine ⟨⟨⟨flat_ofList rfl, flatLines_ite flatLines_nil ?_⟩, flatLines_ite ?_ flatLines_nil⟩, ?_⟩
  · rw [flatLines_cons, flatLines_singleton]
    exact ⟨flat_ofList rfl,
      flat_append_iff.2 ⟨flat_append_iff.2 ⟨flat_ofList rfl, hpackage⟩, flat_ofList rfl⟩⟩
  · rw [flatLines_cons, flatLines_singleton]
    exact ⟨flat_ofList rfl, flat_ofList rfl⟩
  · exact fun d hd =>
      flatLines_cons.2 ⟨flat_ofList rfl, flat_declLines s (tidy_dialect.decls hs d hd)⟩

/-! ## Sections -/

/-- The parameters of a constructor. -/
def params (r : Record) : String := commas (r.slots.map fun f => s!"this.{f.param}")

/-- The sections of a declaration. -/
def declSections (s : Schema) : Decl → List (Heading × List Line)
  | .constants _ => []
  | .choice c =>
    [(.choice c.name.toList, bareLines (variantLines c.variants)),
     (.index, bareLines ((indexLookup c).arrows id)),
     (.value, bareLines ((valueLookup c).arrows id))]
  | .record r =>
    [(.record r.name.toList, bareLines (r.slots.map fun f => s!"final {f.type} {f.member};")),
     (.construct (params r).toList, []),
     (.encode, bareLines (r.slots.map (encodeLine s))),
     (.decode, bareLines (r.slots.map (decodeLine s)))]

theorem bareLines_spread (head close : String) (parts : List String) :
    bareLines (spread head parts close) = bare head :: (bareLines parts ++ [bare close]) := by
  rw [spread, bareLines_append, bareLines_append, bareLines_cons, bareLines_nil, bareLines_cons,
    bareLines_nil, bareLines_indent blank_deep, bare_margin blank_close]
  rfl

/-- What closes a section other than one of members. -/
@[simp] def closer : Heading → String
  | .choice _ => ""
  | .decode => ");"
  | _ => "\x7d;"

@[simp] theorem closes_eq {h : Heading} (hrecord : ∀ n, h ≠ .record n) (hnew : ∀ p, h ≠ .construct p)
    (l : Line) : dart.reader.closes h l = (l == (closer h).toList) := by
  rw [Bool.eq_iff_iff]
  cases h with
  | record n => exact absurd rfl (hrecord n)
  | construct p => exact absurd rfl (hnew p)
  | _ => simp [dart]

@[simp] theorem closes_record (n l : Line) :
    dart.reader.closes (.record n) l = !starts "final " l := rfl

theorem closes_of_mem {h : Heading} {l : Line} {c : Char} (hc : c ∈ l) (hne : c ∉ ['}', ';', ')'])
    (hh : h ∈ [.index, .value, .encode, .decode]) : dart.reader.closes h l = false := by
  rw [closes_eq (by rintro n rfl; simp at hh) (by rintro p rfl; simp at hh), beq_eq_false_iff_ne]
  refine ne_of_mem_of_not_mem' hc ?_
  cases h <;> simp_all

/-- A line that begins with no word of the language may be a constructor. -/
theorem opens_eq_new {l : Line} (henum : after? "enum " l = none)
    (hstatic : after? "static " l = none) (hclass : after? "class " l = none)
    (hencode : after? "Map<String, dynamic> toMap() => " l = none)
    (hfactory : after? "factory " l = none) :
    dart.reader.opens l = (word? l).bind fun w => (between? "(" ");" w.2).map .construct := by
  have hindex : after? "static int indexOf(" l = none :=
    after?_eq_none (p := "static ") (y := "int indexOf(".toList) (by simp) hstatic
  simp only [dart, named?_eq_none henum, hindex, hstatic, named?_eq_none hclass, hencode, hfactory,
    Option.bind_none, Option.map_none, Option.none_or, Option.or_none]

@[simp] theorem opens_eq_none {l : Line} (henum : after? "enum " l = none)
    (hstatic : after? "static " l = none) (hclass : after? "class " l = none)
    (hnew : after? "(" (l.dropWhile isNamePart) = none)
    (hencode : after? "Map<String, dynamic> toMap() => " l = none)
    (hfactory : after? "factory " l = none) : dart.reader.opens l = none := by
  rw [opens_eq_new henum hstatic hclass hencode hfactory, word?]
  split
  · rfl
  · rw [Option.bind_some, between?_eq_none hnew, Option.map_none]

theorem opens_word {w x : Line} {c : Char} (hw : IsWord w) (hc : isNamePart c = false)
    (hblank : ' ' ≠ c) (hangle : '<' ≠ c) :
    dart.reader.opens (w ++ c :: x) = (between? "(" ");" (c :: x)).map .construct := by
  have hafter : ∀ (p : String) (u : Line) (a : Char) (v : Line), p.toList = u ++ a :: v →
      u.all isNamePart = true → isNamePart a = false → a ≠ c → after? p (w ++ c :: x) = none := by
    intro p u a v hp hu ha hne
    rw [after?, hp]
    exact isPrefixOf?_word (List.all_eq_true.1 hu) ha hw.2 hc hne
  have henum := hafter "enum " ['e', 'n', 'u', 'm'] ' ' _ String.toList_ofList rfl rfl hblank
  have hstatic := hafter "static " ['s', 't', 'a', 't', 'i', 'c'] ' ' _ String.toList_ofList rfl rfl
    hblank
  have hclass := hafter "class " ['c', 'l', 'a', 's', 's'] ' ' _ String.toList_ofList rfl rfl hblank
  have hencode := hafter "Map<String, dynamic> toMap() => " ['M', 'a', 'p'] '<' _ String.toList_ofList
    rfl rfl hangle
  have hfactory := hafter "factory " ['f', 'a', 'c', 't', 'o', 'r', 'y'] ' ' _ String.toList_ofList
    rfl rfl hblank
  rw [opens_eq_new henum hstatic hclass hencode hfactory, word?_append hw (stops_cons.2 hc),
    Option.bind_some]

theorem bare_new {n : String} (hn : IsWord n.toList) (p : String) :
    bare s!"{n}({p});" = n.toList ++ '(' :: (p.toList ++ ");".toList) := by
  have hopen : ("(" : String).toList = ['('] := String.toList_ofList
  simp only [bare, toString_text, String.toList_append, List.append_assoc, hopen,
    List.singleton_append]
  exact dropWhile_isMargin (unbroken_of_isWord hn).stops

theorem opens_new {n : String} (hn : IsWord n.toList) (p : String) :
    dart.reader.opens (bare s!"{n}({p});") = some (.construct p.toList) := by
  have hparams : '(' :: (p.toList ++ ");".toList) = "(".toList ++ (p.toList ++ ");".toList) := by
    simp
  rw [bare_new hn, opens_word hn rfl (by decide) (by decide), hparams, between?_append,
    Option.map_some]

theorem opens_again {n : String} (hn : IsWord n.toList) :
    dart.reader.opens (bare s!"    {n}.fromMap(jsonDecode(source) as Map<String, dynamic>);") = none := by
  have hline : bare s!"    {n}.fromMap(jsonDecode(source) as Map<String, dynamic>);" =
      n.toList ++ '.' :: "fromMap(jsonDecode(source) as Map<String, dynamic>);".toList := by
    simp only [toString_text, String.append_assoc]
    rw [bare_margin blank_close, bare, String.toList_append,
      dropWhile_isMargin (unbroken_of_isWord hn).stops]
    simp
  rw [hline, opens_word hn rfl (by decide) (by decide)]
  simp

theorem opens_static {n : String} (hn : IsWord n.toList) {x : Line}
    (hint : "indexOf(".toList.isPrefixOf? x = none) :
    dart.reader.opens ("static ".toList ++ (n.toList ++ ' ' :: x)) =
      (after? " valueAt(int index) => " (' ' :: x)).map fun _ => .value := by
  have h2 : after? "static int indexOf(" ("static ".toList ++ (n.toList ++ ' ' :: x)) = none := by
    have hp : ("static int indexOf(" : String).toList =
        "static ".toList ++ (['i', 'n', 't'] ++ ' ' :: "indexOf(".toList) := by simp
    rw [after?, hp, isPrefixOf?_append_append,
      isPrefixOf?_blank (unbroken_of_isWord (isWord_of_all (by simp) rfl)) (unbroken_of_isWord hn), hint,
      ite_self]
  have h3 : (after? "static " ("static ".toList ++ (n.toList ++ ' ' :: x))).bind word? =
      some (n.toList, ' ' :: x) := by
    rw [after?_append, Option.bind_some, word?_append (x := ' ' :: x) hn rfl]
  have h1 : named? "enum " " \x7b" ("static ".toList ++ (n.toList ++ ' ' :: x)) = none := by simp
  have h4 : named? "class " " \x7b" ("static ".toList ++ (n.toList ++ ' ' :: x)) = none := by simp
  have h5 : (word? ("static ".toList ++ (n.toList ++ ' ' :: x))).bind
      (fun w => (between? "(" ");" w.2).map Heading.construct) = none := by simp [word?, isNamePart]
  have h6 : after? "Map<String, dynamic> toMap() => " ("static ".toList ++ (n.toList ++ ' ' :: x)) =
      none := by simp
  have h7 : after? "factory " ("static ".toList ++ (n.toList ++ ' ' :: x)) = none := by simp
  simp only [dart, h1, h2, h3, h4, h5, h6, h7, Option.bind_none, Option.map_none, Option.none_or,
    Option.or_none, Option.bind_some]

theorem opens_index (n : String) :
    dart.reader.opens (bare s!"static int indexOf({n} value) => switch (value) \x7b") = some .index := by
  simp [dart]

theorem opens_encode :
    dart.reader.opens (bare "Map<String, dynamic> toMap() => \x7b") = some .encode := by
  simp [dart, word?, isNamePart]

theorem opens_fromValue {n t : String} (hn : IsWord n.toList) :
    dart.reader.opens (bare s!"static {n} fromValue({t} value) => values.firstWhere(") = none := by
  have hline : bare s!"static {n} fromValue({t} value) => values.firstWhere(" =
      "static ".toList ++ (n.toList ++ ' ' :: ("fromValue(".toList ++ (t.toList ++
        " value) => values.firstWhere(".toList))) := by simp
  rw [hline, opens_static hn, after?]
  all_goals simp

theorem opens_value {n : String} (hn : IsWord n.toList) :
    dart.reader.opens (bare s!"static {n} valueAt(int index) => switch (index) \x7b") = some .value := by
  have hline : bare s!"static {n} valueAt(int index) => switch (index) \x7b" =
      "static ".toList ++ (n.toList ++ ' ' :: "valueAt(int index) => switch (index) \x7b".toList) := by
    simp
  rw [hline, opens_static hn, after?]
  all_goals simp

theorem opens_choice {n : String} (hn : IsWord n.toList) :
    dart.reader.opens (bare (s!"enum {n}" ++ " \x7b")) = some (.choice n.toList) := by
  have hline : bare (s!"enum {n}" ++ " \x7b") = "enum ".toList ++ (n.toList ++ " \x7b".toList) :=
    bare_start rfl _ _
  rw [hline]
  simp only [dart]
  rw [named?_append _ _ hn (stops_ofList rfl)]
  rfl

theorem opens_record {n : String} (hn : IsWord n.toList) :
    dart.reader.opens (bare (s!"class {n}" ++ " \x7b")) = some (.record n.toList) := by
  have hline : bare (s!"class {n}" ++ " \x7b") = "class ".toList ++ (n.toList ++ " \x7b".toList) :=
    bare_start rfl _ _
  have hname := named?_append "class " " \x7b" hn (stops_ofList rfl)
  have henum : after? "enum " ("class ".toList ++ (n.toList ++ " \x7b".toList)) = none := by simp
  have hindex : after? "static int indexOf(" ("class ".toList ++ (n.toList ++ " \x7b".toList)) = none := by
    simp
  have hstatic : after? "static " ("class ".toList ++ (n.toList ++ " \x7b".toList)) = none := by simp
  rw [hline]
  simp only [dart, named?_eq_none henum, hindex, hstatic, hname, Option.map_none, Option.bind_none,
    Option.none_or, Option.map_some, Option.some_or]

theorem opens_factory {n : String} (hn : IsWord n.toList) (x : Line) :
    dart.reader.opens ("factory ".toList ++ (n.toList ++ '.' :: x)) =
      (after? ".fromMap(" ('.' :: x)).map fun _ => .decode := by
  have hword : (after? "factory " ("factory ".toList ++ (n.toList ++ '.' :: x))).bind word? =
      some (n.toList, '.' :: x) := by
    rw [after?_append, Option.bind_some, word?_append (x := '.' :: x) hn rfl]
  simp only [dart, hword, Option.bind_some]
  simp [word?, isNamePart]

theorem opens_decode {n : String} (hn : IsWord n.toList) (x : String) :
    dart.reader.opens (bare s!"factory {n}.fromMap(Map<String, dynamic> map) => {x}(") = some .decode := by
  have hline : bare s!"factory {n}.fromMap(Map<String, dynamic> map) => {x}(" =
      "factory ".toList ++ (n.toList ++ '.' :: ("fromMap(Map<String, dynamic> map) => ".toList ++
        (x.toList ++ "(".toList))) := by simp
  rw [hline, opens_factory hn, after?]
  simp

theorem opens_fromJson {n : String} (hn : IsWord n.toList) :
    dart.reader.opens (bare s!"factory {n}.fromJson(String source) =>") = none := by
  have hline : bare s!"factory {n}.fromJson(String source) =>" =
      "factory ".toList ++ (n.toList ++ '.' :: "fromJson(String source) =>".toList) := by simp
  rw [hline, opens_factory hn, after?]
  simp

theorem paren_mem_variantLines (vs : List Variant) : ∀ l ∈ bareLines (variantLines vs), '(' ∈ l := by
  rw [forall_bareLines]
  fun_induction variantLines vs with
  | case1 => simp
  | case2 v =>
    rw [List.forall_mem_singleton]
    exact mem_bare rfl (by simp)
  | case3 v vs _ ih =>
    rw [List.forall_mem_cons]
    exact ⟨mem_bare rfl (by simp), ih⟩

theorem sections_choiceLines {c : Choice} (s : Schema) (h : Tidy .plain (.choice c)) (rest : List Line) :
    sections dart.reader none (bareLines (choiceLines c) ++ rest) =
      declSections s (.choice c) ++ sections dart.reader none rest := by
  have hmembers : ∀ n, ∀ l ∈ bareLines (variantLines c.variants),
      dart.reader.closes (.choice n) l = false := by
    intro n l hl
    apply decide_eq_false
    rintro rfl
    exact List.not_mem_nil (paren_mem_variantLines c.variants [] hl)
  have harrows : ∀ h ∈ [.index, .value, .encode, .decode], ∀ k : Lookup, ∀ l ∈ bareLines (k.arrows id),
      dart.reader.closes h l = false :=
    fun h hh k l hl => closes_of_mem (comma_mem_arrows k id l hl) (by simp) hh
  -- There is no word before the parenthesis.
  have hfind : dart.reader.opens (bare "(e) => e.value == value,") = none := rfl
  simp only [choiceLines, nest, block, bareLines_append, bareLines_cons, bareLines_nil,
    bareLines_spread, bareLines_indent blank_margin, List.append_assoc, List.cons_append, List.nil_append]
  rw [sections_open (opens_choice h.1), sections_body (hmembers _), sections_close]
  iterate 5 rw [sections_cons]
  rw [sections_cons (opens_fromValue h.1), sections_cons hfind]
  iterate 3 rw [sections_cons]
  rw [sections_open (opens_index _), sections_body (harrows _ (by simp) _), sections_close, sections_cons,
    sections_cons, sections_open (opens_value h.1), sections_body (harrows _ (by simp) _), sections_close]
  repeat rw [sections_cons]
  · rfl
  all_goals simp [isNamePart]

/-- The constructor follows the members, with a blank line between them if there are any. -/
theorem sections_new {n : String} (hn : IsWord n.toList) {q : Prop} [Decidable q] {ls : List Line}
    (p : String) (rest : List Line) :
    sections dart.reader (some (.record n.toList, ls))
        (bareLines (if q then [] else [""]) ++ bare s!"{n}({p});" :: rest) =
      (.record n.toList, ls) :: sections dart.reader (some (.construct p.toList, [])) rest := by
  split
  · have hclose : dart.reader.closes (.record n.toList) (bare s!"{n}({p});") = true := by
      have hfinal : after? "final " (n.toList ++ '(' :: (p.toList ++ ");".toList)) = none := by
        have hp : ("final " : String).toList = ['f', 'i', 'n', 'a', 'l'] ++ ' ' :: [] :=
          String.toList_ofList
        rw [after?, hp]
        exact isPrefixOf?_word (List.all_eq_true.1 rfl) rfl hn.2 rfl (by decide)
      simp only [dart, starts, bare_new hn, hfinal]
      rfl
    rw [bareLines_nil, List.nil_append, sections_close hclose, sections_open (opens_new hn p)]
  · rw [bareLines_cons, bareLines_nil, List.singleton_append, sections_close, sections_cons,
      sections_open (opens_new hn p)]
    all_goals simp

theorem sections_recordLines {r : Record} (s : Schema) (h : Tidy .plain (.record r)) (rest : List Line) :
    sections dart.reader none (bareLines (recordLines s r) ++ rest) =
      declSections s (.record r) ++ sections dart.reader none rest := by
  have hslots : ∀ n, ∀ l ∈ bareLines (r.slots.map fun f => s!"final {f.type} {f.member};"),
      dart.reader.closes (.record n) l = false := by
    intro n
    rw [forall_bareLines, List.forall_mem_map]
    intro f _
    simp
  have hencode : ∀ l ∈ bareLines (r.slots.map (encodeLine s)), dart.reader.closes .encode l = false := by
    rw [forall_bareLines, List.forall_mem_map]
    intro f _
    unfold encodeLine
    exact closes_of_mem (mem_bare (c := ',') rfl (by simp)) (by simp) (by simp)
  have hdecode : ∀ l ∈ bareLines (r.slots.map (decodeLine s)), dart.reader.closes .decode l = false := by
    rw [forall_bareLines, List.forall_mem_map]
    intro f _
    unfold decodeLine
    exact closes_of_mem (mem_bare (c := ',') rfl (by simp)) (by simp) (by simp)
  simp only [recordLines, nest, block, bareLines_append, bareLines_cons, bareLines_nil,
    bareLines_spread, bareLines_indent blank_margin, List.append_assoc, List.cons_append, List.nil_append]
  rw [sections_open (opens_record h.1), sections_body (hslots _), sections_new h.1, sections_close rfl,
    sections_cons, sections_open opens_encode, sections_body hencode, sections_close]
  iterate 4 rw [sections_cons]
  rw [sections_open (opens_decode h.1 _), sections_body hdecode, sections_close, sections_cons,
    sections_cons, sections_cons (opens_fromJson h.1), sections_cons (opens_again h.1), sections_cons]
  · rfl
  -- The other lines are told from their first characters.
  all_goals simp [isNamePart]

theorem sections_declLines (s : Schema) {d : Decl} (h : Tidy .plain d) (rest : List Line) :
    sections dart.reader none (bare "" :: bareLines (declLines s d) ++ rest) =
      declSections s d ++ sections dart.reader none rest := by
  rw [List.cons_append, sections_cons]
  · cases d with
    | constants g =>
      apply sections_quiet
      rw [declLines, constantsLines, forall_bareLines, List.forall_mem_map]
      intro c _
      simp [isNamePart]
    | choice c => exact sections_choiceLines s h rest
    | record r => exact sections_recordLines s h rest
  · simp

/-- The sections of a file are those of its declarations, in order. -/
theorem sectionsOf_lines {s : Schema} (hs : s.Spelled) :
    dart.sectionsOf (sourceText (lines s)) = (dialect.decls s).flatMap (declSections s) := by
  have hdecls : ∀ d ∈ dialect.decls s, ∀ rest,
      sections dart.reader none (bare "" :: bareLines (declLines s d) ++ rest) =
        declSections s d ++ sections dart.reader none rest :=
    fun d hd => sections_declLines s (tidy_dialect.decls hs d hd)
  have hlibrary : ∀ l ∈ bareLines
      (if s.package.isEmpty then [] else ["", "library " ++ ".".intercalate s.package ++ ";"]),
      dart.reader.opens l = none := by
    refine forall_bareLines_ite (P := fun l => dart.reader.opens l = none) (by simp [bareLines]) ?_
    rw [bareLines_cons, bareLines_cons, bareLines_nil, List.forall_mem_cons,
      List.forall_mem_singleton]
    constructor
    all_goals simp [isNamePart]
  have himport : ∀ l ∈ bareLines (if s.hasObjects then ["", "import 'dart:convert';"] else []),
      dart.reader.opens l = none := by
    refine forall_bareLines_ite (P := fun l => dart.reader.opens l = none) ?_ (by simp [bareLines])
    rw [bareLines_cons, bareLines_cons, bareLines_nil, List.forall_mem_cons,
      List.forall_mem_singleton]
    constructor
    all_goals simp [isNamePart]
  rw [dart.sectionsOf_eq rfl, linesOf_sourceText (by simp [lines]) (flat_lines hs)]
  simp only [lines, bareLines_append, bareLines_cons, bareLines_spaced, List.append_assoc,
    List.cons_append, List.nil_append]
  rw [sections_cons, sections_quiet hlibrary, sections_quiet himport, sections_flatMap hdecls,
    sections_cons]
  · rw [sections, List.append_nil]
  all_goals simp [isNamePart]

/-! ## Enums -/

theorem members_variantLines {vs : List Variant} (h : ∀ v ∈ vs, IsWord v.name.toList) :
    dart.members (bareLines (variantLines vs)) = some (vs.map fun v => v.name.toList) := by
  have hline : ∀ v ∈ vs, ∀ x : String, ((word? (bare (s!"{v.name}(" ++ x))).bind fun w =>
      (after? "(" w.2).map fun _ => w.1) = some v.name.toList := by
    intro v hv x
    have hbare : bare (s!"{v.name}(" ++ x) = v.name.toList ++ ("(".toList ++ x.toList) := by
      simp only [bare, toString_text, String.toList_append, List.append_assoc]
      exact dropWhile_isMargin (unbroken_of_isWord (h v hv)).stops
    rw [hbare, word?_append (h v hv), Option.bind_some, after?_append, Option.map_some]
    rfl
  show (bareLines (variantLines vs)).mapM _ = _
  fun_induction variantLines vs with
  | case1 => rfl
  | case2 v =>
    have hv := hline v List.mem_cons_self (v.literal ++ ");")
    simp only [toString_text, String.append_assoc] at hv
    rw [bareLines_cons, bareLines_nil, List.mapM_cons]
    simp only [toString_text, String.append_assoc, hv]
    rfl
  | case3 v vs _ ih =>
    have hv := hline v List.mem_cons_self (v.literal ++ "),")
    simp only [toString_text, String.append_assoc] at hv
    rw [bareLines_cons, List.mapM_cons,
      ih (fun w hw => h w (List.mem_cons_of_mem v hw)) fun w hw => hline w (List.mem_cons_of_mem v hw)]
    simp only [toString_text, String.append_assoc, hv]
    rfl

theorem choice?_choiceLines {c : Choice} (h : Tidy .plain (.choice c)) :
    dart.choice? c.name.toList (bareLines (variantLines c.variants))
      (bareLines ((indexLookup c).arrows id)) (bareLines ((valueLookup c).arrows id)) =
      some (c.outline .maps true) := by
  have hunbroken : ∀ x ∈ qualified c, Unbroken x.toList :=
    unbroken_qualified h (by simp)
  refine choice?_eq (f := fun x => s!"{c.name}.{x}") (g := .ofPattern)
    (members_variantLines fun v hv => (h.2.2 v hv).2.1) ?_ ?_ ?_ ?_
  · exact mapM_indexArms hunbroken (fun n => starts_toString String.toList_ofList rfl n) (by simp)
  · refine mapM_valueArms (fun _ _ => rfl) ?_
    simp
  · intro v _
    exact unqualified_append c.name "." v.name
  · intro v _
    exact mapPattern_qualified ⟨'.', by simp [dart], by decide⟩ v.name

/-! ## Objects -/

/-- What source text says about an object. -/
def outline (s : Schema) (r : Record) : RecordOutline where
  name := r.name
  members := r.slots.map fun f => ⟨f.member, f.type, none⟩
  params := r.slots.map fun f => (f.param, none)
  assigned := []
  encoded := r.slots.map fun f => (f.key, (encode s f.field.type (.var f.member) 0).text)
  decoded := r.slots.map fun f => (f.key, (decode s f.field.type (.entry f.key) 0).text)

theorem entry?_encodeLine (s : Schema) {f : Slot} (hkey : IsWord f.key.toList) :
    entry? (bare (encodeLine s f)) =
      some (f.key, (encode s f.field.type (.var f.member) 0).text) := by
  have hline : bare (encodeLine s f) = '"' :: (f.key.toList ++ '"' :: (": ".toList ++
      ((encode s f.field.type (.var f.member) 0).text.toList ++ ",".toList))) := by
    unfold encodeLine
    simp only [bare, String.toList_append, toList_stringText hkey, List.append_assoc,
      List.cons_append, List.nil_append]
    rfl
  unfold entry?
  rw [hline, quoted?_append hkey]
  simp only [Option.bind_eq_bind, Option.bind_some]
  rw [between?_append]
  simp

theorem argument?_decodeLine (s : Schema) {f : Slot} (ht : f.field.type.Spelled)
    (hkey : IsWord f.key.toList) :
    (before? "," (bare (decodeLine s f))).bind argument? =
      some (f.key, (decode s f.field.type (.entry f.key) 0).text) := by
  obtain ⟨p, q, htext, hp⟩ := within_decode s ht (.entry f.key) 0
  have hentry : (Expr.entry f.key).text.toList =
      "map".toList ++ '[' :: '"' :: (f.key.toList ++ '"' :: "]".toList) := by
    simp [Expr.text, toList_stringText hkey]
  have hline : (decode s f.field.type (.entry f.key) 0).text.toList =
      (p ++ "map".toList) ++ '[' :: '"' :: (f.key.toList ++ '"' :: ("]".toList ++ q)) := by
    rw [htext, hentry]
    simp only [List.append_assoc, List.cons_append]
  have hbare : bare (decodeLine s f) =
      (decode s f.field.type (.entry f.key) 0).text.toList ++ ",".toList := by
    rw [decodeLine, bare, String.toList_append]
    apply dropWhile_isMargin
    rw [hline]
    cases p with
    | nil => simp [Stops]
    | cons c p => exact stops_cons.2 (hp c List.mem_cons_self).1
  have hopen : ∀ c ∈ p ++ "map".toList, c ≠ '[' := by
    rw [List.forall_mem_append, String.toList_ofList]
    exact ⟨fun c hc => (hp c hc).2, by simp⟩
  rw [hbare, before?_append, Option.bind_some, argument?, String.ofList_toList, hline,
    keyIn?_append hopen hkey, Option.map_some, String.ofList_toList]

theorem record?_recordLines (s : Schema) {r : Record} (h : Tidy .plain (.record r)) :
    dart.record? r.name.toList (bareLines (r.slots.map fun f => s!"final {f.type} {f.member};"))
      (params r).toList [] (bareLines (r.slots.map (encodeLine s)))
      (bareLines (r.slots.map (decodeLine s))) = some (outline s r) := by
  have hslots : dart.slots (bareLines (r.slots.map fun f => s!"final {f.type} {f.member};")) =
      some (r.slots.map fun f => ⟨f.member, f.type, none⟩) := by
    simp only [dart, bareLines, List.map_map]
    apply mapM_map
    intro f hf
    have hline : bare s!"final {f.type} {f.member};" =
        "final ".toList ++ ((f.type.toList ++ ' ' :: f.member.toList) ++ ";".toList) := by
      have hblank : (" " : String).toList = [' '] := String.toList_ofList
      simp
    rw [Function.comp_apply, hline, between?_append, Option.map_some,
      cutLast_append (unbroken_of_isWord (h.2 f hf).2.2.1)]
    simp
  have hparams : (items (params r).toList).mapM dart.param =
      some (r.slots.map fun f => (f.param, none)) := by
    refine mapM_items ?_ ?_
    · intro f hf
      obtain ⟨-, -, -, hparam, -⟩ := h.2 f hf
      simp only [toString_text, String.toList_append]
      rw [String.toList_ofList]
      exact ItemText.append ⟨whole_of_plain (by simp), rfl, by simp⟩ (typeText_of_isWord hparam).whole
    · intro f _
      simp only [toString_text, String.toList_append, dart, after?_append]
      simp
  have hencoded : dart.encoded (bareLines (r.slots.map (encodeLine s))) =
      some (r.slots.map fun f => (f.key, (encode s f.field.type (.var f.member) 0).text)) := by
    simp only [dart, bareLines, List.map_map]
    apply mapM_map
    intro f hf
    rw [Function.comp_apply]
    exact entry?_encodeLine s (h.2 f hf).2.1
  have hdecoded : dart.decoded (bareLines (r.slots.map (decodeLine s))) =
      some (r.slots.map fun f => (f.key, (decode s f.field.type (.entry f.key) 0).text)) := by
    simp only [dart, bareLines, List.map_map]
    apply mapM_map
    intro f hf
    rw [Function.comp_apply]
    exact argument?_decodeLine s (h.2 f hf).1 (h.2 f hf).2.1
  rw [Language.record?, hslots, hparams, hencoded, hdecoded, String.ofList_toList]
  rfl

/-! ## Files -/

theorem fresh_declSections (s : Schema) (d : Decl) : Fresh (declSections s d) := by
  cases d <;> simp [Fresh, declSections]

theorem choices_lines {s : Schema} (hs : s.Spelled) :
    dart.choicesIn (dart.sectionsOf (sourceText (lines s))) =
      some (s.enums.map fun e => (dialect.choice e).outline .maps true) := by
  rw [sectionsOf_lines hs]
  exact choices_decls tidy_dialect hs rfl (fresh_declSections s)
    (fun g _ _ => choicesIn_skip (by simp [declSections]))
    (fun c h _ _ hcs => choicesIn_choice (choice?_choiceLines h) hcs)
    (fun r _ _ => choicesIn_skip (by simp [declSections]))

theorem records_lines {s : Schema} (hs : s.Spelled) :
    dart.recordsIn (dart.sectionsOf (sourceText (lines s))) =
      some (s.objects.map fun o => outline s (dialect.record s o)) := by
  rw [sectionsOf_lines hs]
  exact records_decls tidy_dialect hs rfl (fresh_declSections s)
    (fun g _ _ => recordsIn_skip (by simp [declSections]))
    (fun c _ _ => recordsIn_skip (by simp [declSections]))
    (fun r h _ _ _ hrs => recordsIn_codec (record?_recordLines s h) hrs)

end Idl.Dart
