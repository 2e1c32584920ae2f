import Mathlib
import Idl.Proofs.Outline.Texts

/-!
# The outline of Go source text

* `tidy_dialect`: the words of the target.
* `flat_lines`: no line of a file holds a line end.
* `sectionsOf_lines`: the sections of a file.
* `choices_lines`, `records_lines`: what a file says about enums and objects.
-/

namespace Idl.Go

open Outline Lexeme

/-! ## Words -/

/-- Types are texts without blanks, so that columns can be told apart. -/
def spelling : Spelling := ⟨IsWord, fun x => TypeText x ∧ Unbroken x, IsWord⟩

theorem isWord_keyword (p : Primitive) : IsWord p.keyword.toList := by
  cases p <;> (rw [Primitive.keyword, String.toList_ofList]; exact isWord_of_all (by simp) rfl)

theorem isWord_scoped {n m : String} (hn : IsWord n.toList) (hm : IsWord m.toList) :
    IsWord (Naming.pascal n ++ "_" ++ m).toList := by
  rw [String.toList_append, String.toList_append]
  exact ((isWord_pascal hn).append (by simp [isNamePart])).append hm.2

theorem type_append {x y : Line} (hx : ∀ c ∈ x, c ∉ [',', '<', '>', ' ', '\t', '\n', ')'])
    (hy : spelling.type y) : spelling.type (x ++ y) := by
  have hne : ∀ d ∈ [',', '<', '>', ' ', '\t', '\n', ')'], d ∉ x := fun d hd hmem => hx d hmem hd
  have hmargin : ∀ c ∈ x, isMargin c = false := by
    intro c hc
    have h := hx c hc
    simp only [List.mem_cons, not_or] at h
    simp [h]
  have hunbroken : Unbroken (x ++ y) := by
    refine ⟨by simp [hy.2.1], ?_⟩
    rw [List.forall_mem_append]
    exact ⟨hmargin, hy.2.2⟩
  have hwhole : Whole x := by
    apply whole_of_plain
    intro c hc
    have h := hx c hc
    simp only [List.mem_cons, not_or] at h
    exact ⟨h.1, h.2.1, h.2.2.1⟩
  refine ⟨⟨⟨hwhole.append hy.1.whole, ?_, by simp [hy.2.1]⟩, ?_, ?_⟩, hunbroken⟩
  · have h := hunbroken.stops (y := [])
    rwa [List.append_nil] at h
  · rw [List.mem_append, not_or]
    exact ⟨hne '\n' (by simp), hy.1.flat⟩
  · rw [List.mem_append, not_or]
    exact ⟨hne ')' (by simp), hy.1.paren⟩

theorem type_word {x : Line} (hx : IsWord x) : spelling.type x :=
  ⟨typeText_of_isWord hx, unbroken_of_isWord hx⟩

theorem tidy_dialect : TidyDialect spelling dialect where
  title n hn := isWord_pascal hn
  variant e m he hm := isWord_scoped he hm
  member o f _ hf := isWord_avoid (isWord_pascal hf)
  param o f _ hf := isWord_avoid (isWord_camel hf)
  binding c m hc hm := by
    show IsWord (dialect.binding c m).toList
    simp only [dialect]
    split
    · rename_i n hn
      exact isWord_scoped (hc n hn) hm
    · exact hm
  type s t ht := by
    refine type_induction (P := fun x => spelling.type x.toList) ?_ ?_ ?_ ?_ ht
    · exact fun p => type_word (isWord_keyword p)
    · intro t x hx
      simp only [dialect]
      split
      · rw [String.toList_ofList]
        exact type_word (isWord_of_all (by simp) rfl)
      · rw [String.toList_append, String.toList_ofList]
        exact type_append (by simp) hx
    · intro k v
      have hopen : ("map[" : String).toList = ['m', 'a', 'p', '['] := String.toList_ofList
      have hclose : ("]" : String).toList = [']'] := String.toList_ofList
      have hk := isWord_keyword k
      simp only [dialect, toString_text, String.toList_append, hopen, hclose]
      apply type_append _ (type_word (isWord_keyword v))
      rw [List.forall_mem_append, List.forall_mem_append]
      refine ⟨⟨by simp, ?_⟩, by simp⟩
      intro c hc
      simp only [List.mem_cons, List.not_mem_nil, or_false, not_or]
      and_intros
      all_goals exact hk.ne_of_mem hc (by decide)
    · exact fun n hn => type_word (isWord_pascal hn)
  constant p := isWord_keyword p
  text s := flat_quote s
  suffix p := flat_ofList rfl

theorem blank_margin : ∀ c ∈ margin.toList, isMargin c = true := by
  rw [margin, String.toList_ofList]
  exact List.all_eq_true.1 rfl

/-! ## No line ends -/

theorem flat_margin : Flat margin := flat_ofList rfl

theorem flat_pad {l : String} (hl : Flat l) (width : ℕ) : Flat (pad width l) := by
  refine flat_append_iff.2 ⟨hl, ?_⟩
  rw [Flat, String.toList_ofList]
  simp

theorem flat_aligned {rows : List (String × String)} (h : ∀ r ∈ rows, Flat r.1 ∧ Flat r.2) :
    FlatLines (aligned rows) := by
  rw [aligned, flatLines_map]
  intro r hr
  rw [flat_append_iff, flat_append_iff]
  exact ⟨⟨flat_pad (h r hr).1 _, flat_ofList rfl⟩, (h r hr).2⟩

theorem flat_choiceLines {c : Choice} (h : Tidy spelling (.choice c)) : FlatLines (choiceLines c) := by
  have hname : Flat c.name := flat_of_isWord h.1
  have htype : Flat c.type := flat_of_isWord h.2.1
  have hnames : ∀ n ∈ c.variants.map Variant.name, Flat n :=
    List.forall_mem_map.2 fun v hv => flat_of_isWord (h.2.2 v hv).2.1
  have hmembers : FlatLines
      (aligned (c.variants.map fun v => (v.name, c.name ++ " = " ++ v.literal))) := by
    apply flat_aligned
    rw [List.forall_mem_map]
    intro v hv
    obtain ⟨-, hv', hliteral⟩ := h.2.2 v hv
    simp only [flat_append_iff]
    exact ⟨flat_of_isWord hv', ⟨hname, flat_ofList rfl⟩, hliteral⟩
  have hdisplay : FlatLines ((nameLookup c).labels margin fun r => "return " ++ r) := by
    refine flatLines_labels flat_margin (fun x hx => flat_append_iff.2 ⟨flat_ofList rfl, hx⟩) ?_ ?_
    · exact List.forall_mem_map.2 fun v hv => ⟨flat_of_isWord (h.2.2 v hv).2.1, flat_quote _⟩
    · simp only [nameLookup, flatLines_singleton, flat_append_iff, toString_text, hname, htype, and_true]
      and_intros
      all_goals exact flat_ofList rfl
  have hresult : ∀ x, Flat x → Flat ("return " ++ x ++ ", nil") := fun x hx =>
    flat_append_iff.2 ⟨flat_append_iff.2 ⟨flat_ofList rfl, hx⟩, flat_ofList rfl⟩
  have hindex : FlatLines ((indexLookup c).labels margin fun r => "return " ++ r ++ ", nil") := by
    refine flatLines_labels flat_margin hresult (flat_indexArms hnames) ?_
    simp only [indexLookup, flatLines_singleton, flat_append_iff, toString_text, hname, htype, and_true]
    and_intros
    all_goals exact flat_ofList rfl
  have hvalue : FlatLines ((valueLookup c).labels margin fun r => "return " ++ r ++ ", nil") := by
    refine flatLines_labels flat_margin hresult (flat_valueArms hnames) ?_
    simp only [valueLookup, flatLines_cons, flatLines_nil, flat_append_iff, toString_text, hname,
      and_true]
    and_intros
    all_goals exact flat_ofList rfl
  simp only [choiceLines, group, nest, block, switch, flatLines_append, flatLines_cons, flatLines_nil,
    flatLines_indent flat_margin, flat_append_iff, toString_text, hname, htype, hmembers, hdisplay,
    hindex, hvalue, and_true]
  and_intros
  all_goals exact flat_ofList rfl

theorem flat_recordLines {r : Record} (h : Tidy spelling (.record r)) : FlatLines (recordLines r) := by
  have hname : Flat r.name := flat_of_isWord h.1
  have hslots : FlatLines (slotLines r.slots) := by
    rw [slotLines, flatLines_map]
    intro f hf
    obtain ⟨-, hkey, hmember, -, htype⟩ := h.2 f hf
    have htype' : Flat f.type := htype.1.flat
    simp only [flat_append_iff, flat_pad (flat_of_isWord hmember), flat_pad htype', flat_quote,
      true_and, and_true]
    and_intros
    all_goals exact flat_ofList rfl
  have hparams : Flat (commas (r.slots.map fun f => f.param ++ " " ++ f.type)) :=
    flat_params (flat_ofList rfl) fun f hf =>
      ⟨flat_of_isWord (h.2 f hf).2.2.2.1, (h.2 f hf).2.2.2.2.1.flat⟩
  have hresult : FlatLines (resultLines r) := by
    have hrows : FlatLines (aligned (r.slots.map fun s => (s.member ++ ":", s.param ++ ","))) := by
      apply flat_aligned
      rw [List.forall_mem_map]
      intro f hf
      obtain ⟨-, -, hmember, hparam, -⟩ := h.2 f hf
      exact ⟨flat_append_iff.2 ⟨flat_of_isWord hmember, flat_ofList rfl⟩,
        flat_append_iff.2 ⟨flat_of_isWord hparam, flat_ofList rfl⟩⟩
    apply flatLines_ite
    all_goals
      simp only [flatLines_append, flatLines_singleton, flatLines_indent flat_margin, flat_append_iff,
        toString_text, hname, hrows, and_true]
      and_intros
      all_goals exact flat_ofList rfl
  simp only [recordLines, nest, block, flatLines_append, flatLines_cons, flatLines_nil,
    flatLines_indent flat_margin, flat_append_iff, toString_text, hname, hslots, hparams, hresult,
    and_true]
  and_intros
  all_goals exact flat_ofList rfl

theorem flat_declLines {d : Decl} (hd : Tidy spelling d) : FlatLines (declLines d) := by
  cases d with
  | constants g =>
    have htype : Flat g.type := flat_of_isWord hd.1
    have hrows : FlatLines (aligned (g.rows.map fun c => (c.name, g.type ++ " = " ++ c.literal))) := by
      apply flat_aligned
      rw [List.forall_mem_map]
      intro c hc
      obtain ⟨hname, hliteral⟩ := hd.2.2 c hc
      simp only [flat_append_iff]
      exact ⟨flat_of_isWord hname, ⟨htype, flat_ofList rfl⟩, hliteral⟩
    simp only [declLines, constantsLines, group, flatLines_append, flatLines_cons, flatLines_nil,
      flatLines_indent flat_margin, flat_append_iff, toString_text, hrows, and_true]
    and_intros
    all_goals exact flat_ofList rfl
  | choice c => exact flat_choiceLines hd
  | record r => exact flat_recordLines hd

theorem flat_importLines (packages : List String) : FlatLines (importLines packages) := by
  unfold importLines
  split
  · exact flatLines_nil
  · simp only [flatLines_cons, flatLines_nil, flat_append_iff, flat_quote, and_true]
    exact ⟨flat_ofList rfl, flat_ofList rfl⟩
  · simp only [group, flatLines_cons, flatLines_append, flatLines_nil, flatLines_map,
      flatLines_indent flat_margin, flat_append_iff, flat_quote, and_true, implies_true]
    and_intros
    all_goals exact flat_ofList rfl

theorem flat_lines {s : Schema} (hs : s.Spelled) : FlatLines (lines s) := by
  have hpackage : Flat (packageName s) := by
    rw [packageName, List.getLastD_eq_getLast?]
    cases hlast : s.package.getLast? with
    | none => exact flat_ofList rfl
    | some n => exact flat_of_isWord (hs.package n (List.mem_of_getLast? hlast))
  have hbytes : FlatLines bytesLines := by
    simp only [bytesLines, nest, block, flatLines_append, flatLines_cons, flatLines_nil,
      flatLines_indent flat_margin, flat_append_iff, and_true]
    and_intros
    all_goals exact flat_ofList rfl
  have hblocks : ∀ b ∈ (if usesBytes s then [bytesLines] else []) ++ (dialect.decls s).map declLines,
      FlatLines b := by
    rw [List.forall_mem_append, List.forall_mem_map]
    constructor
    · split
      · exact List.forall_mem_singleton.2 hbytes
      · simp
    · exact fun d hd => flat_declLines (tidy_dialect.decls hs d hd)
  rw [lines, flatLines_append, flatLines_append, spaced, flatLines_flatMap]
  refine ⟨⟨?_, flat_importLines _⟩, ?_⟩
  · simp only [flatLines_cons, flatLines_nil, flat_append_iff, toString_text, hpackage, and_true]
    and_intros
    all_goals exact flat_ofList rfl
  · exact fun b hb => flatLines_cons.2 ⟨flat_ofList rfl, hblocks b hb⟩

/-! ## Sections -/

/-- The parameters of a constructor. -/
def params (r : Record) : String := commas (r.slots.map fun s => s!"{s.param} {s.type}")

/-- The lines that set the members of an object. -/
def resultRows (r : Record) : List Line :=
  if r.slots.isEmpty then [bare s!"return &{r.name}\x7b\x7d"]
  else
    bare s!"return &{r.name}\x7b"
      :: bareLines (aligned (r.slots.map fun s => (s.member ++ ":", s.param ++ ",")))

/-- The sections of a declaration. -/
def declSections : Decl → List (Heading × List Line)
  | .constants g =>
    [(.group [], bareLines (aligned (g.rows.map fun c => (c.name, s!"{g.type} = {c.literal}"))))]
  | .choice c =>
    [(.choice c.name.toList, "".toList :: "const (".toList ::
       bareLines (aligned (c.variants.map fun v => (v.name, s!"{c.name} = {v.literal}")))),
     (.index, "switch value \x7b".toList ::
       bareLines ((indexLookup c).labels margin fun r => s!"return {r}, nil")),
     (.value, "switch index \x7b".toList ::
       bareLines ((valueLookup c).labels margin fun r => s!"return {r}, nil"))]
  | .record r =>
    [(.record r.name.toList, bareLines (slotLines r.slots)),
     (.construct (params r).toList, resultRows r)]

/-- What closes a section. -/
@[simp] def closer : Heading → Char
  | .choice _ | .group _ => ')'
  | _ => '}'

@[simp] theorem closes_eq (h : Heading) (l : Line) : go.reader.closes h l = (l == [closer h]) := by
  rw [Bool.eq_iff_iff]
  cases h <;> simp [go]

theorem closes_of_mem {h : Heading} {l : Line} {c : Char} (hc : c ∈ l) (hne : c ∉ [')', '}']) :
    go.reader.closes h l = false := by
  rw [closes_eq, beq_eq_false_iff_ne]
  refine ne_of_mem_of_not_mem' hc ?_
  cases h <;> simp_all

@[simp] theorem opens_eq_none {l : Line} (htype : after? "type " l = none)
    (hgroup : after? "const (" l = none) (hindex : after? "func IndexOf" l = none)
    (hvalue : after? "func ValueAt" l = none) (hnew : after? "func New" l = none) :
    go.reader.opens l = none := by
  simp only [go, named?, htype, hgroup, hindex, hvalue, hnew]
  rfl

theorem closes_labels {h : Heading} {l : Lookup} {f : String → String}
    (hf : ∀ a, 'r' ∈ (f a).toList) (hother : ∀ e ∈ l.otherwise, 'r' ∈ e.toList) :
    ∀ x ∈ bareLines (l.labels margin f), go.reader.closes h x = false := by
  refine forall_labels (P := fun x => go.reader.closes h x = false) blank_margin ?_ ?_ ?_ ?_
  · intro a
    exact closes_of_mem (mem_bare (c := ':') rfl (by simp)) (by simp)
  · exact fun a => closes_of_mem (mem_bare rfl (hf a)) (by simp)
  · exact closes_of_mem (mem_bare (c := ':') rfl (by simp)) (by simp)
  · exact fun e he => closes_of_mem (mem_bare rfl (hother e he)) (by simp)

theorem opens_choice {n t : String} (hn : IsWord n.toList) (ht : IsWord t.toList) :
    go.reader.opens (bare s!"type {n} {t}") = some (.choice n.toList) := by
  have hline : bare s!"type {n} {t}" = "type ".toList ++ (n.toList ++ (" ".toList ++ t.toList)) := by
    simp
  have hstops : Stops isNamePart (" ".toList ++ t.toList) := by
    exact stops_ofList_append rfl
  have hrecord : named? "type " " struct \x7b" (bare s!"type {n} {t}") = none := by
    rw [hline, named?, after?_append, Option.bind_some, word?_append hn hstops, Option.bind_some,
      if_neg]
    -- The word for a type has no brace in it.
    apply Ne.symm
    refine ne_of_mem_of_not_mem' (a := '{') (by simp) ?_
    rw [String.toList_ofList, List.mem_append, not_or]
    exact ⟨by simp, ht.not_mem (by decide)⟩
  have hword : ((after? "type " (bare s!"type {n} {t}")).bind word?) =
      some (n.toList, " ".toList ++ t.toList) := by
    rw [hline, after?_append, Option.bind_some, word?_append hn hstops]
  simp only [go, hrecord, hword, Option.bind_some, after?_append, word?_self ht, if_true]
  rfl

theorem opens_index {n x : String} (hn : IsWord n.toList) :
    go.reader.opens (bare (s!"func IndexOf{n}(value {x}) (int, error)" ++ " \x7b")) = some .index := by
  have hline : bare (s!"func IndexOf{n}(value {x}) (int, error)" ++ " \x7b") =
      "func IndexOf".toList ++ (n.toList ++ ("(value ".toList ++ (x.toList ++
        (") (int, error)".toList ++ " \x7b".toList)))) := by simp
  have hword : ((after? "func IndexOf"
      (bare (s!"func IndexOf{n}(value {x}) (int, error)" ++ " \x7b"))).bind word?).bind
      (fun w => (after? "(value " w.2).map fun _ => Heading.index) = some .index := by
    rw [hline]
    exact bind_word?_append hn String.toList_ofList rfl _ _
  simp only [go, hword]
  rw [hline]
  simp

theorem opens_value {n x : String} (hn : IsWord n.toList) :
    go.reader.opens (bare (s!"func ValueAt{n}(index int) ({x}, error)" ++ " \x7b")) = some .value := by
  have hline : bare (s!"func ValueAt{n}(index int) ({x}, error)" ++ " \x7b") =
      "func ValueAt".toList ++ (n.toList ++ ("(index ".toList ++ ("int) (".toList ++ (x.toList ++
        (", error)".toList ++ " \x7b".toList))))) := by simp
  have hword : ((after? "func ValueAt"
      (bare (s!"func ValueAt{n}(index int) ({x}, error)" ++ " \x7b"))).bind word?).bind
      (fun w => (after? "(index " w.2).map fun _ => Heading.value) = some .value := by
    rw [hline]
    exact bind_word?_append hn String.toList_ofList rfl _ _
  simp only [go, hword]
  rw [hline]
  simp

theorem sections_choiceLines {c : Choice} (h : Tidy spelling (.choice c)) (rest : List Line) :
    sections go.reader none (bareLines (choiceLines c) ++ rest) =
      declSections (.choice c) ++ sections go.reader none rest := by
  have hmembers : ∀ h, ∀ l ∈ bareLines
      (aligned (c.variants.map fun v => (v.name, s!"{c.name} = {v.literal}"))),
      go.reader.closes h l = false := by
    intro h
    rw [forall_bareLines, aligned, List.forall_mem_map, List.forall_mem_map]
    intro v _
    exact closes_of_mem (mem_bare (c := '=') rfl (by simp)) (by simp)
  have hdisplay : ∀ l ∈ bareLines ((nameLookup c).labels margin fun r => s!"return {r}"),
      go.reader.opens l = none := by
    refine forall_labels (P := fun x => go.reader.opens x = none) blank_margin ?_ ?_ ?_ ?_
    · intro a
      simp
    · intro a
      simp
    · simp
    · rw [nameLookup, List.forall_mem_singleton]
      simp
  have hconst : bare ("const" ++ " (") = "const (".toList := bare_literals rfl
  have hvalue : bare (toString "switch " ++ toString "value" ++ toString " \x7b") =
      "switch value \x7b".toList := by simp
  have hindex : bare (toString "switch " ++ toString "index" ++ toString " \x7b") =
      "switch index \x7b".toList := by simp
  have hindexOther : ∀ e ∈ (indexLookup c).otherwise, 'r' ∈ e.toList := by simp [indexLookup]
  have hvalueOther : ∀ e ∈ (valueLookup c).otherwise, 'r' ∈ e.toList := by simp [valueLookup]
  have hresult : ∀ a : String, 'r' ∈ (s!"return {a}, nil").toList := by simp
  simp only [choiceLines, group, nest, block, switch, bareLines_append, bareLines_cons, bareLines_nil,
    bareLines_indent blank_margin, List.append_assoc, List.cons_append, List.nil_append]
  rw [sections_open (opens_choice h.1 h.2.1), sections_step, sections_step,
    sections_body (hmembers _), sections_close]
  iterate 5 rw [sections_cons]
  rw [sections_quiet hdisplay]
  iterate 4 rw [sections_cons]
  rw [sections_open (opens_index h.1), sections_step,
    sections_body (closes_labels hresult hindexOther), sections_close]
  iterate 4 rw [sections_cons]
  rw [sections_open (opens_value h.1), sections_step,
    sections_body (closes_labels hresult hvalueOther), sections_close]
  repeat rw [sections_cons]
  · rw [hconst, hvalue, hindex]
    rfl
  -- The other lines are told from their first characters.
  all_goals simp

theorem opens_record {n : String} (hn : IsWord n.toList) :
    go.reader.opens (bare (s!"type {n} struct" ++ " \x7b")) = some (.record n.toList) := by
  have hline : bare (s!"type {n} struct" ++ " \x7b") =
      "type ".toList ++ (n.toList ++ " struct \x7b".toList) := bare_start_literals rfl _
  rw [hline]
  simp only [go]
  rw [named?_append _ _ hn (stops_ofList rfl)]
  rfl

theorem opens_new {n p : String} (hn : IsWord n.toList) (hp : ')' ∉ p.toList) :
    go.reader.opens (bare (s!"func New{n}({p}) *{n}" ++ " \x7b")) = some (.construct p.toList) := by
  have hline : bare (s!"func New{n}({p}) *{n}" ++ " \x7b") =
      "func New".toList ++ (n.toList ++ ("(".toList ++ (p.toList ++ (") *".toList ++
        (n.toList ++ " \x7b".toList))))) := by simp
  have hword : ((after? "func New" (bare (s!"func New{n}({p}) *{n}" ++ " \x7b"))).bind word?).bind
      (fun w => (after? "(" w.2).bind fun rest =>
        (after? ") *" (rest.dropWhile (· != ')'))).map fun _ =>
          Heading.construct (rest.takeWhile (· != ')'))) = some (.construct p.toList) := by
    have hne : ∀ c ∈ p.toList, (c != ')') = true := by
      intro c hc
      simp only [bne_iff_ne, ne_eq]
      rintro rfl
      exact hp hc
    have hstops : Stops (· != ')') (") *".toList ++ (n.toList ++ " \x7b".toList)) :=
      stops_ofList_append rfl
    rw [hline, after?_append, Option.bind_some, word?_append hn (stops_ofList_append rfl), Option.bind_some,
      after?_append, Option.bind_some, takeWhile_append_stops hne hstops,
      dropWhile_append_stops hne hstops, after?_append, Option.map_some]
  simp only [go, hword]
  rw [hline]
  simp

/-- The name of an object may begin like that of a constructor or a look-up. -/
theorem opens_fromJson {n : String} (hn : IsWord n.toList) :
    go.reader.opens (bare (s!"func {n}FromJSON(data string) (*{n}, error)" ++ " \x7b")) = none := by
  have hline : bare (s!"func {n}FromJSON(data string) (*{n}, error)" ++ " \x7b") =
      ['f', 'u', 'n', 'c', ' '] ++ ((n.toList ++ "FromJSON".toList) ++ '(' ::
        ("data string) (*".toList ++ (n.toList ++ (", error)".toList ++ " \x7b".toList)))) := by
    simp
  have hword : ∀ c ∈ n.toList ++ "FromJSON".toList, isNamePart c = true := by
    rw [List.forall_mem_append]
    refine ⟨hn.2, ?_⟩
    rw [String.toList_ofList]
    exact List.all_eq_true.1 rfl
  have hafter : ∀ (p : String) v, p.toList = ['f', 'u', 'n', 'c', ' '] ++ v →
      after? p (bare (s!"func {n}FromJSON(data string) (*{n}, error)" ++ " \x7b")) =
        v.isPrefixOf? ((n.toList ++ "FromJSON".toList) ++ '(' ::
          ("data string) (*".toList ++ (n.toList ++ (", error)".toList ++ " \x7b".toList)))) := by
    intro p v hp
    rw [after?, hp, hline]
    rfl
  simp only [go]
  rw [hafter "func IndexOf" _ String.toList_ofList, hafter "func ValueAt" _ String.toList_ofList,
    hafter "func New" _ String.toList_ofList,
    bind_word?_eq_none hword (List.all_eq_true.1 rfl) rfl,
    bind_word?_eq_none hword (List.all_eq_true.1 rfl) rfl,
    bind_word?_eq_none hword (List.all_eq_true.1 rfl) rfl, hline]
  · simp
  -- The parameter is another one, and the result no pointer.
  all_goals
    intro u
    simp

theorem sections_resultLines (r : Record) (p : Line) (rest : List Line) :
    sections go.reader (some (.construct p, [])) (bareLines (resultLines r) ++ bare "\x7d" :: rest) =
      (.construct p, resultRows r) :: sections go.reader none rest := by
  have hend : go.reader.closes (.construct p) (bare "\x7d") = true := by simp
  have hquiet : go.reader.opens (bare "\x7d") = none := by simp
  have hrows : ∀ l ∈ bareLines (aligned (r.slots.map fun s => (s.member ++ ":", s.param ++ ","))),
      go.reader.closes (.construct p) l = false := by
    rw [forall_bareLines, aligned, List.forall_mem_map, List.forall_mem_map]
    intro f _
    exact closes_of_mem (mem_bare (c := ',') rfl (by simp)) (by simp)
  by_cases hslots : r.slots.isEmpty = true
  · rw [resultLines, resultRows, if_pos hslots, if_pos hslots, bareLines_cons, bareLines_nil,
      List.singleton_append, sections_step, sections_close hend, sections_cons hquiet]
    · rfl
    · exact closes_of_mem (mem_bare (c := 'r') rfl (by simp)) (by simp)
  · rw [resultLines, resultRows, if_neg hslots, if_neg hslots, bareLines_append, bareLines_append,
      bareLines_cons, bareLines_nil, bareLines_cons, bareLines_nil, bareLines_indent blank_margin,
      List.append_assoc, List.append_assoc, List.singleton_append, List.singleton_append,
      sections_step, sections_body hrows, sections_close hend, sections_cons hquiet, sections_cons hquiet]
    · rfl
    · exact closes_of_mem (mem_bare (c := 'r') rfl (by simp)) (by simp)

theorem sections_recordLines {r : Record} (h : Tidy spelling (.record r)) (rest : List Line) :
    sections go.reader none (bareLines (recordLines r) ++ rest) =
      declSections (.record r) ++ sections go.reader none rest := by
  have hslots : ∀ h, ∀ l ∈ bareLines (slotLines r.slots), go.reader.closes h l = false := by
    intro h
    rw [forall_bareLines, slotLines, List.forall_mem_map]
    intro f _
    exact closes_of_mem (mem_bare (c := ':') rfl (by simp)) (by simp)
  have hparams : ')' ∉ (commas (r.slots.map fun s => s!"{s.param} {s.type}")).toList := by
    apply not_mem_intercalate
    · rw [String.toList_ofList]
      simp
    · rw [List.forall_mem_map]
      intro f hf
      obtain ⟨-, -, -, hparam, htype⟩ := h.2 f hf
      have hparam' : ')' ∉ f.param.toList := IsWord.not_mem hparam (by decide)
      have htype' : ')' ∉ f.type.toList := htype.1.paren
      simp [hparam', htype']
  simp only [recordLines, nest, block, bareLines_append, bareLines_cons, bareLines_nil,
    bareLines_indent blank_margin, List.append_assoc, List.cons_append, List.nil_append]
  rw [sections_open (opens_record h.1), sections_body (hslots _), sections_close]
  iterate 3 rw [sections_cons]
  rw [sections_open (opens_new h.1 hparams), sections_resultLines]
  iterate 11 rw [sections_cons]
  rw [sections_cons (opens_fromJson h.1)]
  repeat rw [sections_cons]
  · rfl
  all_goals simp

theorem opens_const : go.reader.opens (bare ("const" ++ " (")) = some (.group []) := by simp [go]

theorem sections_constantsLines (g : Constants) (rest : List Line) :
    sections go.reader none (bareLines (constantsLines g) ++ rest) =
      declSections (.constants g) ++ sections go.reader none rest := by
  have hrows : ∀ h, ∀ l ∈ bareLines (aligned (g.rows.map fun c => (c.name, s!"{g.type} = {c.literal}"))),
      go.reader.closes h l = false := by
    intro h
    rw [forall_bareLines, aligned, List.forall_mem_map, List.forall_mem_map]
    intro c _
    exact closes_of_mem (mem_bare (c := '=') rfl (by simp)) (by simp)
  simp only [constantsLines, group, bareLines_append, bareLines_cons, bareLines_nil,
    bareLines_indent blank_margin, List.append_assoc, List.cons_append, List.nil_append]
  rw [sections_open opens_const, sections_body (hrows _), sections_close, sections_cons]
  · rfl
  all_goals simp

theorem sections_declLines {d : Decl} (h : Tidy spelling d) (rest : List Line) :
    sections go.reader none (bare "" :: bareLines (declLines d) ++ rest) =
      declSections d ++ sections go.reader none rest := by
  rw [List.cons_append, sections_cons]
  · cases d with
    | constants g => exact sections_constantsLines g rest
    | choice c => exact sections_choiceLines h rest
    | record r => exact sections_recordLines h rest
  · simp

theorem opens_bytesLines : ∀ l ∈ bareLines bytesLines, go.reader.opens l = none := by
  -- A type that is no word.
  have htype : go.reader.opens (bare "type Uint8List []uint8") = none := rfl
  simp only [bytesLines, nest, block, bareLines_append, bareLines_cons, bareLines_nil,
    bareLines_indent blank_margin, List.append_assoc, List.cons_append, List.nil_append,
    List.forall_mem_cons, List.not_mem_nil, IsEmpty.forall_iff, implies_true, and_true, htype]
  and_intros
  all_goals simp

theorem opens_importLines (packages : List String) :
    ∀ l ∈ bareLines (importLines packages), go.reader.opens l = none := by
  have hquote : ∀ p, go.reader.opens (bare (Text.quote p)) = none := by
    intro p
    rw [bare, Text.quote, String.toList_ofList, Text.quoteChars]
    simp
  have hblank : go.reader.opens (bare "") = none := by simp
  have himport : ∀ x p, go.reader.opens (bare (String.ofList ('i' :: x) ++ p)) = none := by
    intro x p
    simp
  have hparen : go.reader.opens (bare ")") = none := by simp
  unfold importLines
  split
  · simp [bareLines]
  · rw [bareLines_cons, bareLines_cons, bareLines_nil, List.forall_mem_cons,
      List.forall_mem_singleton]
    exact ⟨hblank, himport _ _⟩
  · rw [group, bareLines_cons, List.forall_mem_cons, List.cons_append, bareLines_cons,
      List.forall_mem_cons, bareLines_append, List.forall_mem_append, bareLines_indent blank_margin,
      bareLines_cons, bareLines_nil, List.forall_mem_singleton]
    refine ⟨hblank, himport _ _, ?_, hparen⟩
    rw [forall_bareLines, List.forall_mem_map]
    exact fun p _ => hquote p

/-- The sections of a file are those of its declarations, in order. -/
theorem sectionsOf_lines {s : Schema} (hs : s.Spelled) :
    go.sectionsOf (sourceText (lines s)) = (dialect.decls s).flatMap declSections := by
  have hdecls : ∀ d ∈ dialect.decls s, ∀ rest,
      sections go.reader none (bare "" :: bareLines (declLines d) ++ rest) =
        declSections d ++ sections go.reader none rest :=
    fun d hd => sections_declLines (tidy_dialect.decls hs d hd)
  have hpackage : go.reader.opens (bare s!"package {packageName s}") = none := by simp
  have hbytes : ∀ l ∈ bareLines (spaced (if usesBytes s then [bytesLines] else [])),
      go.reader.opens l = none := by
    split
    · rw [spaced, List.flatMap_singleton, bareLines_cons, List.forall_mem_cons]
      refine ⟨?_, opens_bytesLines⟩
      simp
    · simp [spaced, bareLines]
  rw [go.sectionsOf_eq rfl, linesOf_sourceText (by simp [lines]) (flat_lines hs)]
  simp only [lines, spaced_append, bareLines_append, bareLines_cons, bareLines_spaced, List.append_assoc,
    List.cons_append, List.nil_append]
  rw [sections_cons, sections_cons, sections_cons hpackage, sections_quiet (opens_importLines _),
    sections_quiet hbytes, sections_flatMap hdecls, sections_cons]
  · rw [sections, List.append_nil]
  all_goals simp

/-! ## Enums -/

theorem toList_pad (width : ℕ) (l : String) :
    (pad width l).toList = l.toList ++ List.replicate (width - l.length) ' ' := by
  rw [pad, String.toList_append, String.toList_ofList]

theorem column_pad {l x : String} (hl : Unbroken l.toList) (hx : Stops (· == ' ') x.toList)
    (width : ℕ) : column (bare (pad width l ++ " " ++ x)) = (l.toList, x.toList) := by
  have hblank : (" " : String).toList = [' '] := String.toList_ofList
  rw [bare, String.toList_append, String.toList_append, toList_pad, hblank, List.append_assoc,
    List.append_assoc, List.singleton_append, dropWhile_isMargin hl.stops, column_append hl _ hx]

theorem bare_result (x : String) :
    bare s!"return {x}, nil" = "return ".toList ++ (x.toList ++ ", nil".toList) := by simp

theorem choice?_choiceLines {c : Choice} (h : Tidy spelling (.choice c)) :
    go.choice? c.name.toList
      ("".toList :: "const (".toList ::
        bareLines (aligned (c.variants.map fun v => (v.name, s!"{c.name} = {v.literal}"))))
      ("switch value \x7b".toList ::
        bareLines ((indexLookup c).labels margin fun r => s!"return {r}, nil"))
      ("switch index \x7b".toList ::
        bareLines ((valueLookup c).labels margin fun r => s!"return {r}, nil")) =
      some (c.outline .maps false) := by
  have hnotIndex : starts "return -1, fmt.Errorf("
      (bare s!"return -1, fmt.Errorf(\"{c.name}: unknown value %v\", {c.type}(value))") = true := by
    simp
  have hnotValue : starts "return zero, fmt.Errorf("
      (bare s!"return zero, fmt.Errorf(\"{c.name}: index %d out of range\", index)") = true := by
    simp
  have hbare : ∀ v ∈ c.variants, unqualified c.name go.mark v.name = v.name := fun v hv =>
    unqualified_of_not_mem (c := '.') (by simp [go]) (IsWord.not_mem (h.2.2 v hv).2.1 (by decide))
  refine choice?_eq (f := id) (g := .maps) ?_ ?_ ?_ hbare
    fun v hv result => congrArg (Arm.maps · result) (hbare v hv)
  · simp only [go, under?_cons, Option.bind_eq_bind, Option.bind_some, Option.pure_def]
    rw [bareLines, aligned, List.map_map, List.map_map, List.map_map]
    congr 1
    apply List.map_congr_left
    intro v hv
    refine congrArg Prod.fst (column_pad (unbroken_of_isWord (h.2.2 v hv).2.1) ?_ _)
    simp only [toString_text, String.toList_append, List.append_assoc]
    exact (unbroken_of_isWord h.1).stops_blank
  · simp only [go, under?_cons, Option.bind_some]
    rw [indexLookup, labelArms?_labels (k := id) blank_margin]
    · rfl
    · intro a _
      rw [bare_result, between?_append]
      rfl
    · rw [bareLines_cons, List.any_cons, hnotIndex, Bool.true_or]
  · simp only [go, under?_cons, Option.bind_some]
    rw [valueLookup, labelArms?_labels (k := id) blank_margin]
    · rfl
    · intro a _
      rw [bare_result, between?_append]
      rfl
    · rw [bareLines_cons, List.any_cons, bareLines_cons, List.any_cons, hnotValue, Bool.true_or,
        Bool.or_true]

/-! ## Objects -/

theorem taggedSlot?_slotLine {f : Slot} (hkey : IsWord f.key.toList) (hmember : IsWord f.member.toList)
    (htype : Unbroken f.type.toList) (w w' : ℕ) :
    taggedSlot? (bare (pad w f.member ++ " " ++ pad w' f.type ++ " `json:" ++ Text.quote f.key ++ "`")) =
      some ⟨f.member, f.type, some f.key⟩ := by
  have hblank : (" " : String).toList = [' '] := String.toList_ofList
  have htick : ("`" : String).toList = ['`'] := String.toList_ofList
  have hjson : (" `json:" : String).toList = ' ' :: "`json:".toList := by
    rw [String.toList_ofList, String.toList_ofList]
  have hline : bare (pad w f.member ++ " " ++ pad w' f.type ++ " `json:" ++ Text.quote f.key ++ "`") =
      f.member.toList ++ (List.replicate (w - f.member.length) ' ' ++ ' ' ::
        (f.type.toList ++ (List.replicate (w' - f.type.length) ' ' ++ ' ' ::
          ("`json:".toList ++ '"' :: (f.key.toList ++ '"' :: ['`']))))) := by
    simp only [bare, String.toList_append, toList_pad, toList_quote hkey, hblank, htick, hjson,
      List.append_assoc, List.cons_append, List.nil_append]
    exact dropWhile_isMargin (unbroken_of_isWord hmember).stops
  have hstops : Stops (· == ' ') ("`json:".toList ++ '"' :: (f.key.toList ++ '"' :: ['`'])) := by
    exact stops_ofList_append rfl
  rw [taggedSlot?, hline, column_append (unbroken_of_isWord hmember) _ htype.stops_blank]
  simp only
  rw [column_append htype _ hstops, after?_append]
  simp only [Option.bind_eq_bind, Option.bind_some]
  rw [quoted?_append hkey]
  simp [htick]

/-- What source text says about an object. -/
def outline (r : Record) : RecordOutline where
  name := r.name
  members := r.slots.map fun f => ⟨f.member, f.type, some f.key⟩
  params := r.slots.map fun f => (f.param, some f.type)
  assigned := r.slots.map fun f => (f.member, f.param)
  encoded := []
  decoded := []

theorem assigned_resultRows {r : Record} (h : Tidy spelling (.record r)) :
    go.assigned (resultRows r) = some (r.slots.map fun f => (f.member, f.param)) := by
  have hhead : ∀ x : String, after? "return &" (bare (s!"return &{r.name}" ++ x)) =
      some (r.name.toList ++ x.toList) := by
    intro x
    have hline : bare (s!"return &{r.name}" ++ x) =
        "return &".toList ++ (r.name.toList ++ x.toList) := bare_start rfl _ _
    rw [hline, after?_append]
  have hrows : (bareLines (aligned (r.slots.map fun s => (s.member ++ ":", s.param ++ ",")))).mapM
      keyedRow? = some (r.slots.map fun f => (f.member, f.param)) := by
    rw [bareLines, aligned, List.map_map, List.map_map]
    apply mapM_map
    intro f hf
    obtain ⟨-, -, hmember, hparam, -⟩ := h.2 f hf
    have hcolon : Unbroken (f.member ++ ":").toList := by
      rw [String.toList_append]
      exact (unbroken_of_isWord hmember).append (by simp)
    have hcolumns : column (bare (pad (columnWidth ((r.slots.map fun s =>
          (s.member ++ ":", s.param ++ ",")).map Prod.fst)) (f.member ++ ":") ++ " " ++ (f.param ++ ","))) =
        ((f.member ++ ":").toList, (f.param ++ ",").toList) := by
      apply column_pad hcolon
      rw [String.toList_append]
      exact (unbroken_of_isWord hparam).stops_blank
    rw [Function.comp_apply, Function.comp_apply, keyedRow?, hcolumns, String.toList_append,
      String.toList_append]
    simp only [before?_append]
    simp
  by_cases hslots : r.slots.isEmpty = true
  · have hnil : r.slots = [] := List.isEmpty_iff.1 hslots
    rw [resultRows, if_pos hslots, hnil]
    show (after? "return &" (bare (s!"return &{r.name}" ++ "\x7b\x7d"))).bind _ = _
    rw [hhead]
    rfl
  · rw [resultRows, if_neg hslots]
    show (after? "return &" (bare (s!"return &{r.name}" ++ "\x7b"))).bind _ = _
    rw [hhead, Option.bind_some, hrows]

theorem record?_recordLines {r : Record} (h : Tidy spelling (.record r)) :
    go.record? r.name.toList (bareLines (slotLines r.slots)) (params r).toList (resultRows r) [] [] =
      some (outline r) := by
  have hslots : go.slots (bareLines (slotLines r.slots)) =
      some (r.slots.map fun f => ⟨f.member, f.type, some f.key⟩) := by
    show (bareLines (slotLines r.slots)).mapM taggedSlot? = _
    rw [bareLines, slotLines, List.map_map]
    apply mapM_map
    intro f hf
    obtain ⟨-, hkey, hmember, -, htype⟩ := h.2 f hf
    exact taggedSlot?_slotLine hkey hmember htype.2 _ _
  have hparams : (items (params r).toList).mapM go.param =
      some (r.slots.map fun f => (f.param, some f.type)) := by
    refine mapM_items ?_ ?_
    · intro f hf
      obtain ⟨-, -, -, hparam, htype⟩ := h.2 f hf
      simp only [toString_text, String.toList_append, List.append_assoc]
      refine itemText_param hparam ?_ htype.1
      rw [String.toList_ofList]
      simp
    · intro f hf
      obtain ⟨-, -, -, hparam, -⟩ := h.2 f hf
      have hcut : cut (f.param.toList ++ (" ".toList ++ f.type.toList)) =
          (f.param.toList, " ".toList ++ f.type.toList) := by
        apply cut_append (unbroken_of_isWord hparam)
        exact stops_ofList_append rfl
      simp only [toString_text, String.toList_append, List.append_assoc, go, hcut, after?_append]
      simp
  rw [Language.record?, hslots, hparams, assigned_resultRows h, String.ofList_toList]
  rfl

/-! ## Files -/

theorem fresh_declSections (d : Decl) : Fresh (declSections d) := by
  cases d <;> simp [Fresh, declSections]

theorem choices_lines {s : Schema} (hs : s.Spelled) :
    go.choicesIn (go.sectionsOf (sourceText (lines s))) =
      some (s.enums.map fun e => (dialect.choice e).outline .maps false) := by
  rw [sectionsOf_lines hs]
  exact choices_decls tidy_dialect hs rfl fresh_declSections
    (fun g _ _ => choicesIn_skip (by simp [declSections]))
    (fun c h _ _ hcs => choicesIn_choice (choice?_choiceLines h) hcs)
    (fun r _ _ => choicesIn_skip (by simp [declSections]))

theorem records_lines {s : Schema} (hs : s.Spelled) :
    go.recordsIn (go.sectionsOf (sourceText (lines s))) =
      some (s.objects.map fun o => outline (dialect.record s o)) := by
  rw [sectionsOf_lines hs]
  exact records_decls tidy_dialect hs rfl fresh_declSections
    (fun g _ _ => recordsIn_skip (by simp [declSections]))
    (fun c _ _ => recordsIn_skip (by simp [declSections]))
    (fun r h _ _ hrest hrs => recordsIn_construct (record?_recordLines h) hrest hrs)

end Idl.Go
