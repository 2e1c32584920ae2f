import Mathlib
import Idl.Proofs.Outline.Texts

/-!
# The outline of C# source text

* `tidy_dialect`: the words of the target.
* `flat_lines`: no line of a file holds a line end.
* `sections_lines`: the sections of a file, before enums are put together.
* `choices_lines`, `records_lines`: what a file says about enums and objects.
-/

namespace Idl.CSharp

open Outline Lexeme

/-! ## Words -/

/-- Names may be marked as ones that are spelled like keywords. -/
def spelling : Spelling := ⟨NameText, TypeText, IsWord⟩

theorem isWord_primitive (p : Primitive) : IsWord (primitive p).toList := by
  cases p <;> (rw [primitive, String.toList_ofList]; exact isWord_of_all (by simp) rfl)

theorem nameText_verbatim {n : String} (hn : IsWord n.toList) : NameText (verbatim n).toList := by
  unfold verbatim
  split
  · refine ⟨n.toList, hn, .inr ?_⟩
    simp
  · exact nameText_of_isWord hn

theorem tidy_dialect : TidyDialect spelling dialect where
  title n hn := hn
  variant e m _ hm := nameText_verbatim (isWord_avoid hm)
  member o f _ hf := by
    simp only [dialect, property]
    exact isWord_avoid (isWord_pascal hf)
  param o f _ hf := by
    simp only [dialect, parameter]
    apply nameText_verbatim
    split
    · exact isWord_camel hf
    · rw [String.toList_append]
      exact (isWord_camel hf).append (by simp [isNamePart])
  binding c m _ hm := nameText_verbatim (isWord_avoid hm)
  type s t ht := by
    have hprimitive : ∀ p, TypeText (primitive p).toList := fun p =>
      typeText_of_isWord (isWord_primitive p)
    refine type_induction (P := fun x => TypeText x.toList) hprimitive ?_ ?_ ?_ ht
    · intro t x hx
      exact typeText_list (w := ['L', 'i', 's', 't']) String.toList_ofList
        (isWord_of_all (by simp) rfl) hx
    · intro k v
      exact typeText_map (w := ['D', 'i', 'c', 't', 'i', 'o', 'n', 'a', 'r', 'y'])
        String.toList_ofList (isWord_of_all (by simp) rfl) (hprimitive k) (hprimitive v)
    · intro n hn
      show TypeText (named s n).toList
      unfold named
      split
      · split
        · exact typeText_of_isWord hn
        · exact hprimitive _
      · exact typeText_of_isWord hn
  constant p := isWord_primitive p
  text s := flat_quote s
  suffix p := by
    simp only [dialect]
    split <;> exact flat_ofList rfl

theorem blank_margin : ∀ c ∈ margin.toList, isMargin c = true := by
  rw [margin, String.toList_ofList]
  exact List.all_eq_true.1 rfl

/-! ## No line ends -/

theorem flat_margin : Flat margin := flat_ofList rfl

theorem flatLines_nest {head : String} {body : List String} :
    FlatLines (nest head body) ↔ Flat head ∧ FlatLines body := by
  have hopen : Flat "\x7b" := flat_ofList rfl
  have hclose : Flat "\x7d" := flat_ofList rfl
  simp [nest, flatLines_append, flatLines_cons, flatLines_nil, flatLines_indent flat_margin, hopen,
    hclose]

theorem flat_constantLine {type name literal : String} (htype : Flat type) (hname : Flat name)
    (hliteral : Flat literal) : Flat (constantLine type name literal) := by
  unfold constantLine
  simp only [flat_append_iff, toString_text, htype, hname, hliteral, and_true]
  and_intros
  all_goals exact flat_ofList rfl

theorem flat_constantsLines {g : Constants} (h : Tidy spelling (.constants g)) :
    FlatLines (constantsLines g) := by
  have htype : Flat g.type := flat_of_isWord h.1
  rw [constantsLines, flatLines_nest, flatLines_map]
  constructor
  · split
    · rename_i n hn
      exact flat_append_iff.2 ⟨flat_ofList rfl, flat_of_isWord (h.2.1 n hn)⟩
    · exact flat_append_iff.2 ⟨flat_ofList rfl, flat_ofList rfl⟩
  · intro c hc
    obtain ⟨hname, hliteral⟩ := h.2.2 c hc
    exact flat_constantLine htype hname.flat hliteral

theorem isWord_memberType {c : Choice} (h : Tidy spelling (.choice c)) :
    IsWord (memberType c).toList := by
  unfold memberType
  split
  · exact h.1
  · exact h.2.1

theorem flat_outOfRange {subject message : String} (hsubject : Flat subject) (hmessage : Flat message) :
    Flat (outOfRange subject message) := by
  unfold outOfRange
  simp only [flat_append_iff, toString_text, hsubject, hmessage, and_true]
  and_intros
  all_goals exact flat_ofList rfl

theorem flat_switch {subject : String} {l : Lookup} (hsubject : Flat subject)
    (harms : ∀ a ∈ l.arms, Flat a.1 ∧ Flat a.2) (hother : FlatLines l.otherwise) :
    FlatLines (switch subject l) := by
  have harrows : FlatLines (l.arrows id) := flatLines_arrows (fun _ hx => hx) harms hother
  simp only [switch, flatLines_append, flatLines_cons, flatLines_nil, flatLines_indent flat_margin,
    flat_append_iff, toString_text, hsubject, harrows, and_true]
  and_intros
  all_goals exact flat_ofList rfl

theorem flat_lookupLines {c : Choice} (h : Tidy spelling (.choice c)) : FlatLines (lookupLines c) := by
  have hname : Flat c.name := flat_of_isWord h.1
  have htype : Flat (memberType c) := flat_of_isWord (isWord_memberType h)
  have hqualified : ∀ n ∈ qualified c, Flat n := by
    rw [qualified, List.forall_mem_map]
    intro v hv
    have hv' := (h.2.2 v hv).2.1.flat
    split
    · exact flat_append_iff.2 ⟨flat_append_iff.2 ⟨hname, flat_ofList rfl⟩, hv'⟩
    · exact hv'
  have hindex : FlatLines (switch "value" (indexLookup c)) := by
    refine flat_switch (flat_ofList rfl) (flat_indexArms hqualified) ?_
    apply flatLines_ite flatLines_nil
    rw [flatLines_singleton]
    apply flat_outOfRange (flat_ofList rfl)
    simp only [flat_append_iff, toString_text, hname, and_true]
    exact ⟨flat_ofList rfl, flat_ofList rfl⟩
  have hvalue : FlatLines (switch "index" (valueLookup c)) := by
    refine flat_switch (flat_ofList rfl) (flat_valueArms hqualified) ?_
    rw [valueLookup, flatLines_singleton]
    apply flat_outOfRange (flat_ofList rfl)
    exact flat_append_iff.2 ⟨flat_ofList rfl, hname⟩
  simp only [lookupLines, flatLines_append, flatLines_nest, flatLines_singleton, flat_append_iff,
    toString_text, htype, hindex, hvalue, and_true]
  and_intros
  all_goals exact flat_ofList rfl

theorem flat_choiceLines {c : Choice} (h : Tidy spelling (.choice c)) : FlatLines (choiceLines c) := by
  have hname : Flat c.name := flat_of_isWord h.1
  have htype : Flat c.type := flat_of_isWord h.2.1
  have hlookups := flat_lookupLines h
  apply flatLines_ite
  · simp only [flatLines_append, flatLines_nest, flatLines_map, flatLines_singleton, flat_append_iff,
      toString_text, hname, htype, hlookups, and_true]
    and_intros
    · exact flat_ofList rfl
    · exact flat_ofList rfl
    · intro v hv
      obtain ⟨-, hv', hliteral⟩ := h.2.2 v hv
      exact ⟨⟨⟨hv'.flat, flat_ofList rfl⟩, hliteral⟩, flat_ofList rfl⟩
    all_goals exact flat_ofList rfl
  · simp only [flatLines_append, flatLines_nest, flatLines_map, flatLines_singleton, flat_append_iff,
      toString_text, hname, hlookups, and_true]
    refine ⟨flat_ofList rfl, ?_, flat_ofList rfl⟩
    intro v hv
    obtain ⟨-, hv', hliteral⟩ := h.2.2 v hv
    exact flat_constantLine htype hv'.flat hliteral

theorem flat_recordLines {r : Record} (h : Tidy spelling (.record r)) : FlatLines (recordLines r) := by
  have hname : Flat r.name := flat_of_isWord h.1
  have hslots : ∀ f ∈ r.slots, FlatLines (slotLines f) := by
    intro f hf
    obtain ⟨-, hkey, hmember, -, htype⟩ := h.2 f hf
    have htype' : Flat f.type := htype.flat
    simp only [slotLines, flatLines_cons, flatLines_nil, flat_append_iff, toString_text, flat_quote,
      htype', flat_of_isWord hmember, and_true]
    and_intros
    all_goals exact flat_ofList rfl
  have hparams : Flat (commas (r.slots.map fun f => f.type ++ " " ++ f.param)) := by
    apply flat_intercalate (flat_ofList rfl)
    rw [List.forall_mem_map]
    intro f hf
    obtain ⟨-, -, -, hparam, htype⟩ := h.2 f hf
    exact flat_append_iff.2 ⟨flat_append_iff.2 ⟨htype.flat, flat_ofList rfl⟩, hparam.flat⟩
  have hset : ∀ f ∈ r.slots, ((Flat f.member ∧ Flat " = ") ∧ Flat f.param) ∧ Flat ";" := by
    intro f hf
    obtain ⟨-, -, hmember, hparam, -⟩ := h.2 f hf
    exact ⟨⟨⟨flat_of_isWord hmember, flat_ofList rfl⟩, hparam.flat⟩, flat_ofList rfl⟩
  simp only [recordLines, flatLines_nest, flatLines_append, flatLines_cons, flatLines_nil,
    flatLines_map, flatLines_flatMap, flat_append_iff, toString_text, hname, hparams, and_true]
  and_intros
  all_goals first | exact flat_ofList rfl | exact hslots | exact hset

theorem flat_declLines {d : Decl} (hd : Tidy spelling d) : FlatLines (declLines d) := by
  cases d with
  | constants g => exact flat_constantsLines hd
  | choice c => exact flat_choiceLines hd
  | record r => exact flat_recordLines hd

theorem flat_lines {s : Schema} (hs : s.Spelled) : FlatLines (lines s) := by
  have hheader : FlatLines header := by
    simp only [header, flatLines_cons, flatLines_nil, and_true]
    and_intros
    all_goals exact flat_ofList rfl
  have hbody : FlatLines (spaced ((dialect.decls s).map declLines)) := by
    rw [spaced, flatLines_flatMap, List.forall_mem_map]
    exact fun d hd =>
      flatLines_cons.2 ⟨flat_ofList rfl, flat_declLines (tidy_dialect.decls hs d hd)⟩
  have hpackage : Flat (".".intercalate s.package) :=
    flat_intercalate (flat_ofList rfl) fun n hn => flat_of_isWord (hs.package n hn)
  apply flatLines_ite
  · exact flatLines_append.2 ⟨hheader, hbody⟩
  · rw [flatLines_append, flatLines_append, flatLines_nest, flatLines_singleton]
    refine ⟨⟨hheader, flat_ofList rfl⟩, flat_append_iff.2 ⟨flat_ofList rfl, hpackage⟩, ?_⟩
    exact fun l hl => hbody l (List.mem_of_mem_drop hl)

/-! ## Sections -/

/-- The parameters of a constructor. -/
def params (r : Record) : String := commas (r.slots.map fun s => s!"{s.type} {s.param}")

/-- The lines of a look-up. -/
def switchLines (head : String) (l : Lookup) : List Line :=
  "\x7b".toList :: head.toList :: "\x7b".toList :: bareLines (l.arrows id)

/-- The sections of the look-ups of an enum. -/
def lookupSections (c : Choice) : List (Heading × List Line) :=
  [(.index, switchLines "return value switch" (indexLookup c)),
   (.value, switchLines "return index switch" (valueLookup c))]

/-- The sections of a declaration. -/
def declSections : Decl → List (Heading × List Line)
  | .constants g =>
    [(.group (ownerOf g.source).toList, "\x7b".toList ::
      bareLines (g.rows.map fun c => constantLine g.type c.name c.literal))]
  | .choice c =>
    (if c.source.type.isInteger then
      [(.choice c.name.toList, "\x7b".toList ::
         bareLines (c.variants.map fun v => s!"{v.name} = {v.literal},")),
       (.group (c.name ++ "Lookup").toList, ["\x7b".toList])]
    else
      [(.group c.name.toList, "\x7b".toList ::
         bareLines (c.variants.map fun v => constantLine c.type v.name v.literal))])
      ++ lookupSections c
  | .record r =>
    [(.record r.name.toList, "\x7b".toList :: bareLines (r.slots.flatMap slotLines)),
     (.construct (params r).toList, "\x7b".toList ::
       bareLines (r.slots.map fun s => s!"{s.member} = {s.param};"))]

theorem bare_brace : bare "\x7b" = "\x7b".toList := by simp

theorem bareLines_nest (head : String) (body : List String) :
    bareLines (nest head body) =
      bare head :: "\x7b".toList :: (bareLines body ++ [bare "\x7d"]) := by
  rw [nest, bareLines_append, bareLines_append, bareLines_cons, bareLines_cons, bareLines_nil,
    bareLines_cons, bareLines_nil, bareLines_indent blank_margin, bare_brace]
  rfl

/-- What closes a section other than one of constants. -/
@[simp] def closer : Heading → String
  | .index | .value => "\x7d;"
  | .record _ => "[JsonConstructor]"
  | _ => "\x7d"

@[simp] theorem closes_eq {h : Heading} (hh : ∀ n, h ≠ .group n) (l : Line) :
    csharp.reader.closes h l = (l == (closer h).toList) := by
  rw [Bool.eq_iff_iff]
  cases h with
  | group n => exact absurd rfl (hh n)
  | _ => simp only [csharp, closer, decide_eq_true_eq, beq_iff_eq]

@[simp] theorem closes_group (n l : Line) :
    csharp.reader.closes (.group n) l = (l != ['{'] && !starts "public const " l) := by
  simp [csharp]

theorem closes_of_mem {h : Heading} {l : Line} {c : Char} (hc : c ∈ l)
    (hne : c ∉ ['}', ';'] ++ "[JsonConstructor]".toList) (hh : ∀ n, h ≠ .group n) :
    csharp.reader.closes h l = false := by
  rw [closes_eq hh, beq_eq_false_iff_ne]
  refine ne_of_mem_of_not_mem' hc ?_
  cases h <;> simp_all

/-- Every line that opens a section begins with the same word. -/
@[simp] theorem opens_eq_none {l : Line} (hl : after? "public " l = none) :
    csharp.reader.opens l = none := by
  have hafter : ∀ (p : String) y, p.toList = "public ".toList ++ y → after? p l = none :=
    fun _ _ hp => after?_eq_none hp hl
  simp only [csharp, named?, hl, hafter "public enum " "enum ".toList (by simp),
    hafter "public static class " "static class ".toList (by simp),
    hafter "public static partial class " "static partial class ".toList (by simp),
    hafter "public static int IndexOf(" "static int IndexOf(".toList (by simp),
    hafter "public static " "static ".toList (by simp), hafter "public class " "class ".toList (by simp)]
  rfl

theorem sections_switch {h : Heading} {subject head : String} {l : Lookup} {rest : List Line}
    (hh : h = .index ∨ h = .value) (hhead : bare s!"return {subject} switch" = head.toList) :
    sections csharp.reader (some (h, [])) ("\x7b".toList :: (bareLines (switch subject l) ++ rest)) =
      (h, switchLines head l) :: sections csharp.reader none rest := by
  have hgroup : ∀ n, h ≠ .group n := by
    rintro n rfl
    simp at hh
  have hbrace : csharp.reader.closes h "\x7b".toList = false :=
    closes_of_mem (c := '{') (by simp) (by simp) hgroup
  have hswitch : csharp.reader.closes h (bare s!"return {subject} switch") = false :=
    closes_of_mem (mem_bare (c := 'w') rfl (by simp)) (by simp) hgroup
  have harrows : ∀ x ∈ bareLines (l.arrows id), csharp.reader.closes h x = false :=
    fun x hx => closes_of_mem (comma_mem_arrows l id x hx) (by simp) hgroup
  have hend : csharp.reader.closes h (bare "\x7d;") = true := by
    rcases hh with rfl | rfl <;>
    · simp
  have hquiet : csharp.reader.opens (bare "\x7d;") = none := by simp
  simp only [switch, bareLines_append, bareLines_cons, bareLines_nil, bareLines_indent blank_margin,
    bare_brace, List.append_assoc, List.cons_append, List.nil_append]
  rw [sections_step hbrace, sections_step hswitch, sections_step hbrace, sections_body harrows,
    sections_close hend, sections_cons hquiet, hhead]
  rfl

theorem opens_index (t : String) :
    csharp.reader.opens (bare s!"public static int IndexOf({t} value)") = some .index := by
  have hline : bare s!"public static int IndexOf({t} value)" =
      "public static int IndexOf(".toList ++ (t.toList ++ " value)".toList) := bare_start rfl _ _
  rw [hline]
  simp [csharp]

/-- A static member of a type, whose name may be a word of the language. -/
theorem opens_static {t : String} (ht : IsWord t.toList) {x : Line}
    (hclass : (word? x).bind (fun w => if w.2 = "".toList then some w.1 else none) = none)
    (hpartial : "class ".toList.isPrefixOf? x = none)
    (hint : "IndexOf(".toList.isPrefixOf? x = none) :
    csharp.reader.opens ("public static ".toList ++ (t.toList ++ ' ' :: x)) =
      (named? "public static " " ValueAt(int index)"
        ("public static ".toList ++ (t.toList ++ ' ' :: x))).map fun _ => .value := by
  have hstatic : ∀ (p : String) u v, p.toList = "public static ".toList ++ (u ++ ' ' :: v) → IsWord u →
      after? p ("public static ".toList ++ (t.toList ++ ' ' :: x)) =
        if u = t.toList then v.isPrefixOf? x else none := by
    intro p u v hp hu
    rw [after?, hp, isPrefixOf?_append_append,
      isPrefixOf?_blank (unbroken_of_isWord hu) (unbroken_of_isWord ht)]
  have h2 : named? "public static class " "" ("public static ".toList ++ (t.toList ++ ' ' :: x)) =
      none := by
    rw [named?, hstatic "public static class " ['c', 'l', 'a', 's', 's'] []]
    · split
      · exact hclass
      · rfl
    · simp
    · exact isWord_of_all (by simp) rfl
  have h3 : named? "public static partial class " ""
      ("public static ".toList ++ (t.toList ++ ' ' :: x)) = none := by
    rw [named?, hstatic "public static partial class " ['p', 'a', 'r', 't', 'i', 'a', 'l'] "class ".toList]
    · rw [hpartial, ite_self]
      rfl
    · simp
    · exact isWord_of_all (by simp) rfl
  have h4 : after? "public static int IndexOf(" ("public static ".toList ++ (t.toList ++ ' ' :: x)) =
      none := by
    rw [hstatic "public static int IndexOf(" ['i', 'n', 't'] "IndexOf(".toList]
    · rw [hint, ite_self]
    · simp
    · exact isWord_of_all (by simp) rfl
  have h1 : after? "public enum " ("public static ".toList ++ (t.toList ++ ' ' :: x)) = none := by
    simp
  have h6 : named? "public class " "" ("public static ".toList ++ (t.toList ++ ' ' :: x)) = none := by
    simp
  have h7 : ((after? "public " ("public static ".toList ++ (t.toList ++ ' ' :: x))).bind word?).bind
      (fun w => (between? "(" ")" w.2).map Heading.construct) = none := by simp [word?, isNamePart]
  simp only [csharp, h1, h2, h3, h4, h6, h7, Option.bind_none, Option.map_none, Option.none_or,
    Option.or_none]

theorem opens_value {t : String} (ht : IsWord t.toList) :
    csharp.reader.opens (bare s!"public static {t} ValueAt(int index)") = some .value := by
  have hline : bare s!"public static {t} ValueAt(int index)" =
      "public static ".toList ++ (t.toList ++ ' ' :: "ValueAt(int index)".toList) := by simp
  rw [hline, opens_static ht]
  · have hstop : ' ' :: "ValueAt(int index)".toList = " ValueAt(int index)".toList := by
      rw [String.toList_ofList, String.toList_ofList]
    rw [hstop, named?_append _ _ ht (stops_ofList rfl), Option.map_some]
  all_goals rfl

theorem opens_fromJson {n : String} (hn : IsWord n.toList) :
    csharp.reader.opens (bare s!"public static {n} FromJson(string json)") = none := by
  have hline : bare s!"public static {n} FromJson(string json)" =
      "public static ".toList ++ (n.toList ++ ' ' :: "FromJson(string json)".toList) := by simp
  rw [hline, opens_static hn, named?, after?_append, Option.bind_some, word?_append hn,
    Option.bind_some, if_neg, Option.map_none]
  · rw [String.toList_ofList, String.toList_ofList]
    simp
  all_goals rfl

theorem sections_lookupLines {c : Choice} (h : Tidy spelling (.choice c)) (rest : List Line) :
    sections csharp.reader none (bareLines (lookupLines c) ++ rest) =
      lookupSections c ++ sections csharp.reader none rest := by
  have hvalue : bare (toString "return " ++ toString "value" ++ toString " switch") =
      "return value switch".toList := by simp
  have hindex : bare (toString "return " ++ toString "index" ++ toString " switch") =
      "return index switch".toList := by simp
  simp only [lookupLines, bareLines_append, bareLines_nest, bareLines_cons,
    List.append_assoc, List.cons_append, List.nil_append]
  rw [sections_open (opens_index _), sections_switch (.inl rfl) hvalue, sections_cons, sections_cons,
    sections_open (opens_value (isWord_memberType h)), sections_switch (.inr rfl) hindex, sections_cons]
  · rfl
  all_goals simp

theorem opens_group {n : String} (hn : IsWord n.toList) :
    csharp.reader.opens (bare s!"public static class {n}") = some (.group n.toList) := by
  have hline : bare s!"public static class {n}" =
      "public static class ".toList ++ (n.toList ++ "".toList) := by simp
  rw [hline]
  simp only [csharp]
  rw [named?_append "public static class " "" hn rfl]
  simp

theorem opens_enum {n t : String} (hn : IsWord n.toList) :
    csharp.reader.opens (bare s!"public enum {n} : {t}") = some (.choice n.toList) := by
  have hline : bare s!"public enum {n} : {t}" =
      "public enum ".toList ++ (n.toList ++ (" : ".toList ++ t.toList)) := by simp
  rw [hline]
  simp only [csharp]
  rw [after?_append, Option.bind_some, word?_append hn, Option.bind_some, after?_append]
  · rfl
  · exact stops_ofList_append rfl

theorem opens_class {n : String} (hn : IsWord n.toList) :
    csharp.reader.opens (bare s!"public class {n}") = some (.record n.toList) := by
  have hline : bare s!"public class {n}" = "public class ".toList ++ (n.toList ++ "".toList) := by
    simp
  rw [hline]
  simp only [csharp]
  rw [named?_append "public class " "" hn rfl]
  simp

theorem opens_constructor {n p : String} (hn : IsWord n.toList) :
    csharp.reader.opens (bare s!"public {n}({p})") = some (.construct p.toList) := by
  have hline : bare s!"public {n}({p})" =
      "public ".toList ++ (n.toList ++ ("(".toList ++ (p.toList ++ ")".toList))) := by simp
  have hparen : ∀ x, "(".toList ++ x = '(' :: x := by
    intro x
    simp
  have hafter : ∀ (q : String) u v,
      q.toList = ['p', 'u', 'b', 'l', 'i', 'c', ' '] ++ (u ++ ' ' :: v) →
      u.all isNamePart = true → after? q (bare s!"public {n}({p})") = none := by
    intro q u v hq hu
    rw [hline, hparen, after?, hq, String.toList_ofList, isPrefixOf?_append_append]
    exact isPrefixOf?_word (List.all_eq_true.1 hu) rfl hn.2 rfl (by decide)
  have hword : ((after? "public " (bare s!"public {n}({p})")).bind word?).bind
      (fun w => (between? "(" ")" w.2).map Heading.construct) = some (.construct p.toList) := by
    rw [hline, after?_append, Option.bind_some, word?_append hn, Option.bind_some, between?_append]
    · rfl
    · rw [hparen]
      rfl
  have h1 := hafter "public enum " ['e', 'n', 'u', 'm'] _ String.toList_ofList rfl
  have h2 := hafter "public static class " ['s', 't', 'a', 't', 'i', 'c'] _ String.toList_ofList rfl
  have h3 := hafter "public static partial class " ['s', 't', 'a', 't', 'i', 'c'] _
    String.toList_ofList rfl
  have h4 := hafter "public static int IndexOf(" ['s', 't', 'a', 't', 'i', 'c'] _
    String.toList_ofList rfl
  have h5 := hafter "public static " ['s', 't', 'a', 't', 'i', 'c'] _ String.toList_ofList rfl
  have h6 := hafter "public class " ['c', 'l', 'a', 's', 's'] _ String.toList_ofList rfl
  simp only [csharp, named?, h1, h2, h3, h4, h5, h6, hword]
  rfl

theorem step_brace (h : Heading) : csharp.reader.closes h "\x7b".toList = false := by
  by_cases hh : ∀ n, h ≠ .group n
  · exact closes_of_mem (c := '{') (by simp) (by simp) hh
  · simp only [not_forall, ne_eq, not_not] at hh
    obtain ⟨n, rfl⟩ := hh
    simp [csharp]

theorem step_constants {n : Line} {α : Type} {as : List α} {f g : α → String} {t : String} :
    ∀ l ∈ bareLines (as.map fun a => constantLine t (f a) (g a)),
      csharp.reader.closes (.group n) l = false := by
  rw [forall_bareLines, List.forall_mem_map]
  intro a _
  unfold constantLine
  have hstart : starts "public const " (bare s!"public const {t} {f a} = {g a};") = true := by simp
  simp only [csharp, hstart]
  simp

theorem opens_owner {g : Constants} (h : Tidy spelling (.constants g)) :
    ∃ head, constantsLines g = nest head (g.rows.map fun c => constantLine g.type c.name c.literal) ∧
      csharp.reader.opens (bare head) = some (.group (ownerOf g.source).toList) := by
  refine ⟨_, rfl, ?_⟩
  split
  · rename_i n hn
    rw [ownerOf, hn]
    exact opens_group (h.2.1 n hn)
  · rename_i hn
    rw [ownerOf, hn, Option.getD_none, constantsClass]
    rfl

theorem sections_constantsLines {g : Constants} (h : Tidy spelling (.constants g)) (rest : List Line) :
    sections csharp.reader none (bareLines (constantsLines g) ++ rest) =
      declSections (.constants g) ++ sections csharp.reader none rest := by
  obtain ⟨head, hlines, hopen⟩ := opens_owner h
  simp only [hlines, bareLines_nest, List.append_assoc, List.cons_append, List.nil_append]
  rw [sections_open hopen, sections_step (step_brace _), sections_body step_constants,
    sections_close, sections_cons]
  · rfl
  · simp
  · simp

theorem sections_choiceLines {c : Choice} (h : Tidy spelling (.choice c)) (rest : List Line) :
    sections csharp.reader none (bareLines (choiceLines c) ++ rest) =
      declSections (.choice c) ++ sections csharp.reader none rest := by
  have hlookups := sections_lookupLines h
  have hmembers : ∀ l ∈ bareLines (c.variants.map fun v => s!"{v.name} = {v.literal},"),
      csharp.reader.closes (.choice c.name.toList) l = false := by
    rw [forall_bareLines, List.forall_mem_map]
    intro v _
    exact closes_of_mem (mem_bare (c := '=') rfl (by simp)) (by simp) (by simp)
  have hend : csharp.reader.opens (bare "\x7d") = none := by simp
  have hblank : csharp.reader.opens (bare "") = none := by simp
  by_cases hint : c.source.type.isInteger = true
  · have hword : IsWord (c.name ++ "Lookup").toList := by
      rw [String.toList_append, String.toList_ofList]
      exact h.1.append (List.all_eq_true.1 rfl)
    have hopen : csharp.reader.opens (bare s!"public static class {c.name}Lookup") =
        some (.group (c.name ++ "Lookup").toList) := by
      have hgroup := opens_group hword
      simp only [toString_text] at hgroup ⊢
      rw [String.append_assoc]
      exact hgroup
    obtain ⟨ls, hls⟩ : ∃ ls, bareLines (lookupLines c) =
        bare s!"public static int IndexOf({memberType c} value)" :: ls := ⟨_, rfl⟩
    have hclose : csharp.reader.closes (.group (c.name ++ "Lookup").toList)
        (bare s!"public static int IndexOf({memberType c} value)") = true := by simp
    simp only [choiceLines, declSections, if_pos hint, bareLines_append, bareLines_nest,
      bareLines_cons, List.append_assoc, List.cons_append, List.nil_append]
    rw [sections_open (opens_enum h.1), sections_step (step_brace _), sections_body hmembers,
      sections_close, sections_cons hend, sections_cons hblank, sections_open hopen,
      sections_step (step_brace _), hls, List.cons_append, sections_close hclose, ← List.cons_append,
      ← hls, hlookups, sections_cons hend]
    · rfl
    · simp
  · simp only [choiceLines, declSections, if_neg hint, bareLines_append, bareLines_nest,
      bareLines_cons, List.append_assoc, List.cons_append, List.nil_append]
    rw [sections_open (opens_group h.1), sections_step (step_brace _), sections_body step_constants,
      sections_close, sections_cons hblank, hlookups, sections_cons hend]
    · rfl
    · simp

theorem sections_recordLines {r : Record} (h : Tidy spelling (.record r)) (rest : List Line) :
    sections csharp.reader none (bareLines (recordLines r) ++ rest) =
      declSections (.record r) ++ sections csharp.reader none rest := by
  have hslots : ∀ l ∈ bareLines (r.slots.flatMap slotLines),
      csharp.reader.closes (.record r.name.toList) l = false := by
    rw [forall_bareLines]
    intro l hl
    obtain ⟨f, -, hl⟩ := List.mem_flatMap.1 hl
    rw [slotLines, List.mem_cons, List.mem_cons, List.mem_singleton] at hl
    rcases hl with rfl | rfl | rfl
    · exact closes_of_mem (mem_bare (c := '(') rfl (by simp)) (by simp) (by simp)
    · exact closes_of_mem (mem_bare (c := '{') rfl (by simp)) (by simp) (by simp)
    · simp
  have hset : ∀ p, ∀ l ∈ bareLines (r.slots.map fun s => s!"{s.member} = {s.param};"),
      csharp.reader.closes (.construct p) l = false := by
    intro p
    rw [forall_bareLines, List.forall_mem_map]
    intro f _
    exact closes_of_mem (mem_bare (c := '=') rfl (by simp)) (by simp) (by simp)
  -- A method with a result is no constructor.
  have htoJson : csharp.reader.opens (bare "public string ToJson()") = none := rfl
  simp only [recordLines, bareLines_nest, bareLines_append, bareLines_cons, bareLines_nil,
    List.append_assoc, List.cons_append, List.nil_append]
  rw [sections_open (opens_class h.1), sections_step (step_brace _), sections_body hslots,
    sections_close, sections_cons, sections_open (opens_constructor h.1),
    sections_step (step_brace _), sections_body (hset _), sections_close]
  iterate 2 rw [sections_cons]
  rw [sections_cons htoJson]
  iterate 4 rw [sections_cons]
  rw [sections_cons (opens_fromJson h.1)]
  repeat rw [sections_cons]
  · rfl
  -- The other lines are told from their first characters.
  all_goals simp

theorem sections_declLines {d : Decl} (h : Tidy spelling d) (rest : List Line) :
    sections csharp.reader none (bare "" :: bareLines (declLines d) ++ rest) =
      declSections d ++ sections csharp.reader none rest := by
  rw [List.cons_append, sections_cons]
  · cases d with
    | constants g => exact sections_constantsLines h rest
    | choice c => exact sections_choiceLines h rest
    | record r => exact sections_recordLines h rest
  · simp

/-- The sections of a file are those of its declarations, in order. -/
theorem sections_lines {s : Schema} (hs : s.Spelled) :
    sections csharp.reader none (linesOf (sourceText (lines s))) =
      (dialect.decls s).flatMap declSections := by
  have hbody : ∀ rest, sections csharp.reader none
      (bareLines (spaced ((dialect.decls s).map declLines)) ++ rest) =
        (dialect.decls s).flatMap declSections ++ sections csharp.reader none rest := by
    intro rest
    rw [bareLines_spaced]
    exact sections_flatMap fun d hd => sections_declLines (tidy_dialect.decls hs d hd)
  have hblank : csharp.reader.opens (bare "") = none := by simp
  -- The blank line before the first declaration is left out in a namespace.
  have hdrop : ∀ rest, sections csharp.reader none
      (bareLines ((spaced ((dialect.decls s).map declLines)).drop 1) ++ rest) =
        (dialect.decls s).flatMap declSections ++ sections csharp.reader none rest := by
    intro rest
    rw [← hbody]
    cases dialect.decls s with
    | nil => rfl
    | cons d ds =>
      rw [List.map_cons, spaced, List.flatMap_cons, List.cons_append, List.drop_one, List.tail_cons,
        bareLines_cons, List.cons_append, sections_cons hblank]
  have hheader : ∀ l ∈ bareLines header, csharp.reader.opens l = none := by
    simp only [header, bareLines_cons, bareLines_nil, List.forall_mem_cons, List.not_mem_nil,
      IsEmpty.forall_iff, implies_true, and_true]
    and_intros
    all_goals simp
  rw [linesOf_sourceText _ (flat_lines hs), lines]
  · split
    · rw [bareLines_append, List.append_assoc, sections_quiet hheader, hbody, sections_cons, sections,
        List.append_nil]
      simp
    · simp only [bareLines_append, bareLines_cons, bareLines_nest, List.append_assoc,
        List.cons_append, List.nil_append]
      rw [sections_quiet hheader, sections_cons hblank, sections_cons, sections_cons, hdrop,
        sections_cons, sections_cons, sections, List.append_nil]
      all_goals simp
  · unfold lines
    split <;> simp [header]

/-! ## Enums -/

theorem constant?_constantLine {t n : String} (ht : IsWord t.toList) (hn : NameText n.toList)
    (x : String) : constant? (bare (constantLine t n x)) = some n.toList := by
  have hline : bare (constantLine t n x) = "public const ".toList ++ (t.toList ++ (" ".toList ++
      (n.toList ++ (" = ".toList ++ (x.toList ++ ";".toList))))) := by
    unfold constantLine
    simp
  have hcut : ∀ {y : Line}, cut (t.toList ++ (" ".toList ++ y)) = (t.toList, " ".toList ++ y) := by
    intro y
    apply cut_append (unbroken_of_isWord ht)
    exact stops_ofList_append rfl
  have hcut' : ∀ {y : Line}, cut (n.toList ++ (" = ".toList ++ y)) = (n.toList, " = ".toList ++ y) := by
    intro y
    apply cut_append hn.unbroken
    exact stops_ofList_append rfl
  rw [constant?, hline, after?_append]
  simp only [hcut, after?_append, Option.map_some, hcut']

theorem unbroken_qualified {c : Choice} (h : Tidy spelling (.choice c)) :
    ∀ x ∈ qualified c, Unbroken x.toList := by
  have hmark : ("." : String).toList = ['.'] := String.toList_ofList
  rw [qualified, List.forall_mem_map]
  intro v hv
  have hv' := (h.2.2 v hv).2.1.unbroken
  split
  · simp only [toString_text, String.toList_append, hmark]
    exact ((unbroken_of_isWord h.1).append (by simp)).append hv'.2
  · exact hv'

/-- The cases for the members of an enum. Only the names of integer enums stand before their members. -/
def arm (c : Choice) : String → String → Arm := if c.source.type.isInteger then .maps else .ofPattern

theorem choice?_choiceLines {c : Choice} (h : Tidy spelling (.choice c)) {members : List Line}
    (hmembers : csharp.members members = some (c.variants.map fun v => v.name.toList)) :
    csharp.choice? c.name.toList members (switchLines "return value switch" (indexLookup c))
      (switchLines "return index switch" (valueLookup c)) =
        some (c.outline (arm c) (isExhaustive c)) := by
  have hother : ∀ subject message, starts "throw " (outOfRange subject message).toList = true := by
    intro subject message
    unfold outOfRange
    simp
  have hbare : ∀ v ∈ c.variants, unqualified c.name csharp.mark v.name = v.name := fun v hv =>
    unqualified_of_not_mem (c := '.') (by simp [csharp]) ((h.2.2 v hv).2.1.not_mem (by decide) (by decide))
  refine choice?_eq (f := fun x => if c.source.type.isInteger then s!"{c.name}.{x}" else x)
    (g := .ofPattern) hmembers ?_ ?_ ?_ ?_
  · simp only [csharp, switchLines, under?_cons, Option.bind_eq_bind, Option.bind_some]
    rw [indexLookup, mapM_indexArms (unbroken_qualified h)]
    · cases isExhaustive c <;> rfl
    · exact fun n => starts_toString String.toList_ofList rfl n
    · split
      · simp
      · exact List.forall_mem_singleton.2 (hother _ _)
  · simp only [csharp, switchLines, under?_cons, Option.bind_eq_bind, Option.bind_some]
    exact mapM_valueArms (fun _ _ => rfl) (hother _ _)
  · intro v hv
    split
    · exact unqualified_append c.name "." v.name
    · exact hbare v hv
  · intro v hv result
    rw [arm]
    split
    · exact mapPattern_qualified ⟨'.', by simp [csharp], by decide⟩ v.name result
    · -- without the name of the enum, the member may be called like the mark
      unfold Arm.ofPattern
      split
      · rfl
      · exact congrArg (Arm.maps · result) (hbare v hv)

/-! ## Objects -/

theorem properties?_slot {f : Slot} (hkey : IsWord f.key.toList) (hmember : IsWord f.member.toList)
    (rest : List Line) :
    properties? (bareLines (slotLines f) ++ rest) =
      (properties? rest).map (⟨f.member, f.type, some f.key⟩ :: ·) := by
  have htag : bare s!"[JsonPropertyName({Text.quote f.key})]" =
      "[JsonPropertyName(".toList ++ '"' :: (f.key.toList ++ '"' :: ")]".toList) := by
    simp [toList_quote hkey]
  have hproperty : bare s!"public {f.type} {f.member} \x7b get; set; \x7d" =
      "public ".toList ++ ((f.type.toList ++ ' ' :: f.member.toList) ++
        " \x7b get; set; \x7d".toList) := by
    have hblank : (" " : String).toList = [' '] := String.toList_ofList
    simp only [bare, toString_text, String.toList_append, hblank, List.append_assoc,
      List.cons_append, List.nil_append]
    rw [String.toList_ofList]
    rfl
  have hblank : bare "" = [] := by
    rw [bare, String.toList_ofList]
    rfl
  rw [slotLines, bareLines_cons, bareLines_cons, bareLines_cons, bareLines_nil, htag, hproperty, hblank]
  show properties? (_ :: _ :: _ :: rest) = _
  rw [properties?, after?_append]
  simp only [Option.bind_eq_bind, Option.bind_some]
  rw [quoted?_append hkey]
  simp only [Option.bind_some]
  rw [between?_append]
  simp only [Option.bind_some, cutLast_append (unbroken_of_isWord hmember)]
  cases properties? rest <;> simp

theorem properties?_slotLines {slots : List Slot}
    (h : ∀ f ∈ slots, IsWord f.key.toList ∧ IsWord f.member.toList) :
    properties? (bareLines (slots.flatMap slotLines)) =
      some (slots.map fun f => ⟨f.member, f.type, some f.key⟩) := by
  induction slots with
  | nil => rfl
  | cons f fs ih =>
    obtain ⟨hkey, hmember⟩ := h f List.mem_cons_self
    rw [List.flatMap_cons, bareLines_append, properties?_slot hkey hmember,
      ih fun g hg => h g (List.mem_cons_of_mem f hg)]
    rfl

/-- What source text says about an object. -/
def outline (r : Record) : RecordOutline where
  name := r.name
  members := r.slots.map fun f => ⟨f.member, f.type, some f.key⟩
  params := r.slots.map fun f => (f.param, some f.type)
  assigned := r.slots.map fun f => (f.member, f.param)
  encoded := []
  decoded := []

theorem record?_recordLines {r : Record} (h : Tidy spelling (.record r)) :
    csharp.record? r.name.toList ("\x7b".toList :: bareLines (r.slots.flatMap slotLines))
      (params r).toList ("\x7b".toList :: bareLines (r.slots.map fun s => s!"{s.member} = {s.param};"))
      [] [] = some (outline r) := by
  have hslots : csharp.slots ("\x7b".toList :: bareLines (r.slots.flatMap slotLines)) =
      some (r.slots.map fun f => ⟨f.member, f.type, some f.key⟩) := by
    simp only [csharp, under?_cons, Option.bind_some]
    exact properties?_slotLines fun f hf => ⟨(h.2 f hf).2.1, (h.2 f hf).2.2.1⟩
  have hparams : (items (params r).toList).mapM csharp.param =
      some (r.slots.map fun f => (f.param, some f.type)) := by
    have hblank : (" " : String).toList = [' '] := String.toList_ofList
    refine mapM_items ?_ ?_
    · intro f hf
      obtain ⟨-, -, -, hparam, htype⟩ := h.2 f hf
      simp only [toString_text, String.toList_append, List.append_assoc, hblank]
      exact htype.toItemText.append ((whole_of_plain (by simp)).append hparam.whole)
    · intro f hf
      obtain ⟨-, -, -, hparam, -⟩ := h.2 f hf
      simp only [toString_text, String.toList_append, List.append_assoc, hblank, List.singleton_append,
        csharp, cutLast_append hparam.unbroken, String.ofList_toList]
  have hassigned : csharp.assigned
      ("\x7b".toList :: bareLines (r.slots.map fun s => s!"{s.member} = {s.param};")) =
      some (r.slots.map fun f => (f.member, f.param)) := by
    simp only [csharp, under?_cons, Option.bind_some, bareLines, List.map_map]
    apply mapM_map
    intro f hf
    exact assignment?_append (h.2 f hf).2.2.1 f.param
  rw [Language.record?, hslots, hparams, hassigned, String.ofList_toList]
  rfl

/-! ## Files -/

theorem fresh_declSections (d : Decl) : Fresh (declSections d) := by
  cases d with
  | choice c =>
    rw [declSections]
    split <;> simp [Fresh]
  | _ => simp [Fresh, declSections]

section MergeGroups

variable {n : Line} {members index value body : List Line} {rest : List (Heading × List Line)}

theorem mergeGroups_group (hrest : Fresh rest) :
    mergeGroups ((.group n, members) :: rest) = (.group n, members) :: mergeGroups rest := by
  rw [mergeGroups]
  · simp
  · rintro _ _ _ _ _ rfl
    exact (hrest _ rfl).1 rfl

theorem mergeGroups_lookups {x : Line} :
    mergeGroups ((.choice n, members) :: (.group x, body) :: (.index, index) :: (.value, value) :: rest) =
      (.choice n, members) :: (.index, index) :: (.value, value) :: mergeGroups rest := by
  simp [mergeGroups]

theorem mergeGroups_class :
    mergeGroups ((.group n, members) :: (.index, index) :: (.value, value) :: rest) =
      (.choice n, members) :: (.index, index) :: (.value, value) :: mergeGroups rest := by
  simp [mergeGroups]

theorem mergeGroups_record {params : Line} :
    mergeGroups ((.record n, members) :: (.construct params, body) :: rest) =
      (.record n, members) :: (.construct params, body) :: mergeGroups rest := by simp [mergeGroups]

end MergeGroups

/-- The sections of an enum next to each other. -/
theorem mergeGroups_choice {c : Choice} (h : Tidy spelling (.choice c)) :
    ∃ members, csharp.members members = some (c.variants.map fun v => v.name.toList) ∧
      ∀ rest, mergeGroups (declSections (.choice c) ++ rest) =
        (.choice c.name.toList, members) :: (lookupSections c ++ mergeGroups rest) := by
  by_cases hint : c.source.type.isInteger = true
  · refine ⟨"\x7b".toList :: bareLines (c.variants.map fun v => s!"{v.name} = {v.literal},"), ?_, ?_⟩
    · simp only [csharp, under?_cons, Option.bind_some, bareLines, List.map_map]
      exact mapM_map fun v hv => constant?_member (h.2.2 v hv).2.1 v.literal
    · intro rest
      rw [declSections, if_pos hint]
      exact mergeGroups_lookups
  · refine ⟨"\x7b".toList :: bareLines (c.variants.map fun v => constantLine c.type v.name v.literal),
      ?_, ?_⟩
    · simp only [csharp, under?_cons, Option.bind_some, bareLines, List.map_map]
      exact mapM_map fun v hv => constant?_constantLine h.2.1 (h.2.2 v hv).2.1 v.literal
    · intro rest
      rw [declSections, if_neg hint]
      exact mergeGroups_class

theorem choices_lines {s : Schema} (hs : s.Spelled) :
    csharp.choicesIn (csharp.sectionsOf (sourceText (lines s))) =
      some (s.enums.map fun e => (dialect.choice e).outline (arm (dialect.choice e))
        (isExhaustive (dialect.choice e))) := by
  show csharp.choicesIn (mergeGroups (sections csharp.reader none (linesOf (sourceText (lines s))))) = _
  rw [sections_lines hs]
  refine choices_decls (F := fun l => csharp.choicesIn (mergeGroups l))
    (f := fun c => c.outline (arm c) (isExhaustive c)) tidy_dialect hs rfl fresh_declSections ?_ ?_ ?_
  · intro g rest hrest
    show csharp.choicesIn (mergeGroups (_ :: rest)) = _
    rw [mergeGroups_group hrest, ← List.singleton_append]
    exact choicesIn_skip (by simp)
  · intro c h rest cs hcs
    obtain ⟨members, hmembers, hmerge⟩ := mergeGroups_choice h
    rw [hmerge]
    exact choicesIn_choice (choice?_choiceLines h hmembers) hcs
  · intro r rest _
    show csharp.choicesIn (mergeGroups (_ :: _ :: rest)) = _
    rw [mergeGroups_record]
    show csharp.choicesIn ([_, _] ++ mergeGroups rest) = _
    exact choicesIn_skip (by simp)

theorem records_lines {s : Schema} (hs : s.Spelled) :
    csharp.recordsIn (csharp.sectionsOf (sourceText (lines s))) =
      some (s.objects.map fun o => outline (dialect.record s o)) := by
  show csharp.recordsIn (mergeGroups (sections csharp.reader none (linesOf (sourceText (lines s))))) = _
  rw [sections_lines hs]
  refine records_decls (F := fun l => csharp.recordsIn (mergeGroups l)) tidy_dialect hs rfl
    fresh_declSections ?_ ?_ ?_
  · intro g rest hrest
    show csharp.recordsIn (mergeGroups (_ :: rest)) = _
    rw [mergeGroups_group hrest, ← List.singleton_append]
    exact recordsIn_skip (by simp)
  · intro c h rest
    obtain ⟨members, -, hmerge⟩ := mergeGroups_choice h
    rw [hmerge, ← List.cons_append]
    exact recordsIn_skip (by simp [lookupSections])
  · intro r h rest rs hrest hrs
    show csharp.recordsIn (mergeGroups (_ :: _ :: rest)) = _
    rw [mergeGroups_record]
    exact recordsIn_construct (record?_recordLines h) (fresh_mergeGroups hrest) hrs

end Idl.CSharp
