import Mathlib
import Idl.Proofs.Outline.Texts

/-!
# The outline of TypeScript source text

* `tidy_dialect`: the words of the target.
* `argumentText_argument`: where the key of a field stands in the argument for it.
* `flat_lines`: no line of a file holds a line end.
* `sectionsOf_lines`: the sections of a file.
* `choices_lines`, `records_lines`: what a file says about enums and objects.
-/

namespace Idl.TypeScript

open Outline Lexeme

/-! ## Words -/

theorem isWord_primitive (p : Primitive) : IsWord (primitive p).toList := by
  unfold primitive
  split <;> (rw [String.toList_ofList]; exact isWord_of_all (by simp) rfl)

theorem tidy_dialect : TidyDialect .plain dialect where
  title n hn := hn
  variant e m _ hm := hm
  member o f _ hf := isWord_avoid hf
  param o f _ hf := isWord_avoid (isWord_avoid hf)
  binding c m hc hm := isWord_avoid (isWord_binding hc hm)
  type s t ht := by
    have hprimitive : ∀ p, TypeText (primitive p).toList := fun p =>
      typeText_of_isWord (isWord_primitive p)
    refine type_induction (P := fun x => TypeText x.toList) hprimitive ?_ ?_ ?_ ht
    · intro t x hx
      exact typeText_list (w := ['A', 'r', 'r', 'a', 'y']) String.toList_ofList
        (isWord_of_all (by simp) rfl) hx
    · intro k v
      exact typeText_map (w := ['R', 'e', 'c', 'o', 'r', 'd']) String.toList_ofList
        (isWord_of_all (by simp) rfl) (hprimitive k) (hprimitive v)
    · exact fun n hn => typeText_of_isWord hn
  constant p := flat_of_isWord (isWord_primitive p)
  text s := flat_quote s
  suffix p := flat_ofList rfl

theorem blank_margin : ∀ c ∈ margin.toList, isMargin c = true := by
  rw [margin, String.toList_ofList]
  exact List.all_eq_true.1 rfl

/-! ## Expressions -/

theorem flat_elementVar (depth : ℕ) : Flat (elementVar depth) :=
  flat_append_iff.2 ⟨flat_ofList rfl, flat_toString_nat depth⟩

theorem flat_each {e body : Expr} {x : String} (isOpen : Bool) (he : Flat e.text) (hx : Flat x)
    (hbody : Flat body.text) : Flat (Expr.each e x isOpen body).text := by
  have htype : Flat (if isOpen then ": any" else "") := by split <;> exact flat_ofList rfl
  rw [Expr.text]
  simp only [flat_append_iff, toString_text, he, hx, htype, hbody, true_and, and_true]
  and_intros
  all_goals exact flat_ofList rfl

theorem flat_encode (s : Schema) (t : FieldType) {e : Expr} (he : Flat e.text) (depth : ℕ) :
    Flat (encode s t e depth).text := by
  induction t generalizing e depth with
  | primitive p => exact he
  | map k v => exact he
  | named n =>
    rw [encode]
    split
    · exact he
    · exact flat_append_iff.2 ⟨he, flat_ofList rfl⟩
  | list t ih =>
    rw [encode]
    split
    · exact he
    · exact flat_each false he (flat_elementVar depth)
        (ih (e := .var (elementVar depth)) (flat_elementVar depth) _)

theorem flat_decode (s : Schema) {t : FieldType} (ht : t.Spelled) {e e' : Expr} (he : Flat e.text)
    {depth : ℕ} (h : decode? s t e depth = some e') : Flat e'.text := by
  induction t generalizing e e' depth with
  | primitive p => simp [decode?] at h
  | map k v => simp [decode?] at h
  | named n =>
    rw [decode?] at h
    split at h
    · simp at h
    · obtain rfl := Option.some.inj h
      have hn : Flat n := flat_of_isWord ht
      rw [Expr.text]
      simp only [flat_append_iff, toString_text, hn, he, true_and, and_true]
      exact ⟨flat_ofList rfl, flat_ofList rfl⟩
  | list t ih =>
    simp only [decode?, Option.map_eq_some_iff] at h
    obtain ⟨body, hbody, rfl⟩ := h
    have harray : Flat (Expr.asArray e).text := by
      rw [Expr.text]
      simp only [flat_append_iff, toString_text, he, and_true]
      exact ⟨flat_ofList rfl, flat_ofList rfl⟩
    exact flat_each true harray (flat_elementVar depth)
      (ih ht (e := .var (elementVar depth)) (flat_elementVar depth) hbody)

theorem flat_argument (s : Schema) {f : Slot} (ht : f.field.type.Spelled) : Flat (argument s f) := by
  have hentry : Flat (Expr.entry f.key).text := by
    rw [Expr.text]
    simp only [flat_append_iff, toString_text, flat_quote, and_true]
    exact ⟨flat_ofList rfl, flat_ofList rfl⟩
  unfold argument
  cases h : decode? s f.field.type (.entry f.key) 0 with
  | none => exact hentry
  | some e => exact flat_decode s ht hentry h

theorem before?_comma_eq_none {c : Char} (hc : c ≠ ',') (x : Line) :
    before? "," (x ++ [c]) = none := by
  have hcomma : ("," : String).toList = [','] := String.toList_ofList
  have hne : (',' == c) = false := beq_false_of_ne hc.symm
  rw [before?, hcomma, List.reverse_append, List.reverse_singleton, List.reverse_singleton,
    List.singleton_append, List.isPrefixOf?, hne]
  rfl

/-- An argument that is taken from under a key. -/
structure ArgumentText (key x : Line) : Prop where
  /-- The key stands in the first square brackets. -/
  split : ∃ p q, x = p ++ '[' :: '"' :: (key ++ '"' :: ("]".toList ++ q)) ∧ Unbroken p ∧
    ∀ c ∈ p, c ≠ '['
  /-- No comma ends the argument. -/
  last : before? "," x = none

theorem toList_entry {key : String} (hkey : IsWord key.toList) :
    (Expr.entry key).text.toList =
      "data".toList ++ '[' :: '"' :: (key.toList ++ '"' :: "]".toList) := by
  simp [Expr.text, toList_quote hkey]

theorem unbroken_data : Unbroken "data".toList ∧ ∀ c ∈ "data".toList, c ≠ '[' := by
  rw [String.toList_ofList]
  exact ⟨⟨by simp, by simp⟩, by simp⟩

theorem argumentText_entry {key : String} (hkey : IsWord key.toList) :
    ArgumentText key.toList (Expr.entry key).text.toList where
  split := ⟨"data".toList, [], by rw [toList_entry hkey, List.append_nil], unbroken_data⟩
  last := by
    have hclose : ("]" : String).toList = [']'] := String.toList_ofList
    have hline : (Expr.entry key).text.toList =
        ("data".toList ++ '[' :: '"' :: (key.toList ++ ['"'])) ++ [']'] := by
      rw [toList_entry hkey, hclose]
      simp
    rw [hline]
    exact before?_comma_eq_none (by decide) _

theorem argumentText_within {key : String} (hkey : IsWord key.toList) {u : Line} (v : Line)
    (hu : ∀ c ∈ u, isMargin c = false ∧ c ≠ '[') :
    ArgumentText key.toList (u ++ ((Expr.entry key).text.toList ++ (v ++ [')']))) where
  split := by
    refine ⟨u ++ "data".toList, v ++ [')'], ?_, ⟨?_, ?_⟩, ?_⟩
    · rw [toList_entry hkey]
      simp only [List.append_assoc, List.cons_append]
    · exact fun h => unbroken_data.1.1 (List.append_eq_nil_iff.1 h).2
    · rw [List.forall_mem_append]
      exact ⟨fun c hc => (hu c hc).1, unbroken_data.1.2⟩
    · rw [List.forall_mem_append]
      exact ⟨fun c hc => (hu c hc).2, unbroken_data.2⟩
  last := by
    have hline : u ++ ((Expr.entry key).text.toList ++ (v ++ [')'])) =
        (u ++ ((Expr.entry key).text.toList ++ v)) ++ [')'] := by simp
    rw [hline]
    exact before?_comma_eq_none (by decide) _

theorem argumentText_argument (s : Schema) {f : Slot} (ht : f.field.type.Spelled)
    (hkey : IsWord f.key.toList) : ArgumentText f.key.toList (argument s f).toList := by
  have hclose : (")" : String).toList = [')'] := String.toList_ofList
  unfold argument
  cases h : decode? s f.field.type (.entry f.key) 0 with
  | none => exact argumentText_entry hkey
  | some e =>
    rw [Option.getD_some]
    cases htype : f.field.type with
    | primitive p => simp [htype, decode?] at h
    | map k v => simp [htype, decode?] at h
    | named n =>
      rw [htype] at ht
      rw [htype, decode?] at h
      split at h
      · simp at h
      · obtain rfl := Option.some.inj h
        have hn : ∀ c ∈ n.toList ++ ".fromObject(".toList, isMargin c = false ∧ c ≠ '[' := by
          rw [List.forall_mem_append, String.toList_ofList]
          refine ⟨fun c hc => ⟨(unbroken_of_isWord ht).2 c hc, ?_⟩, by simp⟩
          exact IsWord.ne_of_mem ht hc (by decide)
        have hline := argumentText_within hkey [] hn
        rw [Expr.text]
        simp only [toString_text, String.toList_append, hclose, List.append_assoc]
        simpa only [List.append_assoc, List.nil_append] using hline
    | list t =>
      rw [htype] at h
      simp only [decode?, Option.map_eq_some_iff] at h
      obtain ⟨body, -, rfl⟩ := h
      have hopen : ("(" : String).toList = ['('] := String.toList_ofList
      have hline := argumentText_within hkey (u := ['(']) (" as any[])".toList ++ (".map((".toList ++
        ((elementVar 0).toList ++ (": any".toList ++ (") => ".toList ++ body.text.toList)))))
        (by simp)
      rw [Expr.text, Expr.text, if_pos rfl]
      simp only [toString_text, String.toList_append, hclose, hopen, List.append_assoc]
      simpa only [List.append_assoc] using hline

/-! ## No line ends -/

theorem flat_margin : Flat margin := flat_ofList rfl

theorem flat_choiceLines {c : Choice} (h : Tidy .plain (.choice c)) : FlatLines (choiceLines c) := by
  have hname : Flat c.name := flat_of_isWord h.1
  have hqualified : ∀ n ∈ qualified c, Flat n := flat_qualified h (flat_ofList rfl)
  have hvariants : FlatLines (c.variants.map fun v => v.name ++ " = " ++ v.literal ++ ",") := by
    rw [flatLines_map]
    intro v hv
    obtain ⟨-, hv', hliteral⟩ := h.2.2 v hv
    simp only [flat_append_iff]
    exact ⟨⟨⟨flat_of_isWord hv', flat_ofList rfl⟩, hliteral⟩, flat_ofList rfl⟩
  have hresult : ∀ x, Flat x → Flat ("return " ++ x ++ ";") := fun x hx =>
    flat_append_iff.2 ⟨flat_append_iff.2 ⟨flat_ofList rfl, hx⟩, flat_ofList rfl⟩
  have hindex : FlatLines ((indexLookup c).labels margin fun r => "return " ++ r ++ ";") := by
    refine flatLines_labels flat_margin hresult (flat_indexArms hqualified) ?_
    simp only [indexLookup, flatLines_singleton, flat_append_iff, toString_text, hname, and_true]
    exact ⟨flat_ofList rfl, flat_ofList rfl⟩
  have hvalue : FlatLines ((valueLookup c).labels margin fun r => "return " ++ r ++ ";") := by
    refine flatLines_labels flat_margin hresult (flat_valueArms hqualified) ?_
    simp only [valueLookup, flatLines_singleton, flat_append_iff, toString_text, hname, and_true]
    exact ⟨flat_ofList rfl, flat_ofList rfl⟩
  simp only [choiceLines, nest, block, switch, flatLines_append, flatLines_cons, flatLines_nil,
    flatLines_indent flat_margin, flat_append_iff, toString_text, hname, hvariants, hindex, hvalue,
    and_true]
  and_intros
  all_goals exact flat_ofList rfl

theorem flatLines_separated {ls : List String} (h : FlatLines ls) : FlatLines (separated ls) := by
  fun_induction separated ls with
  | case1 => exact h
  | case2 l => exact h
  | case3 l ls _ ih =>
    rw [flatLines_cons] at h ⊢
    exact ⟨flat_append_iff.2 ⟨h.1, flat_ofList rfl⟩, ih h.2⟩

theorem flat_recordLines (s : Schema) {r : Record} (h : Tidy .plain (.record r)) :
    FlatLines (recordLines s r) := by
  have hname : Flat r.name := flat_of_isWord h.1
  have hslots : FlatLines (r.slots.map fun f => f.member ++ ": " ++ f.type ++ ";") := by
    rw [flatLines_map]
    intro f hf
    obtain ⟨-, -, hmember, -, htype⟩ := h.2 f hf
    simp only [flat_append_iff]
    exact ⟨⟨⟨flat_of_isWord hmember, flat_ofList rfl⟩, htype.flat⟩, flat_ofList rfl⟩
  have hparams : Flat (commas (r.slots.map fun f => f.param ++ ": " ++ f.type)) :=
    flat_params (flat_ofList rfl) fun f hf =>
      ⟨flat_of_isWord (h.2 f hf).2.2.2.1, (h.2 f hf).2.2.2.2.flat⟩
  have hassigned : FlatLines (r.slots.map fun f => "this." ++ f.member ++ " = " ++ f.param ++ ";") := by
    rw [flatLines_map]
    intro f hf
    obtain ⟨-, -, hmember, hparam, -⟩ := h.2 f hf
    simp only [flat_append_iff]
    exact ⟨⟨⟨⟨flat_ofList rfl, flat_of_isWord hmember⟩, flat_ofList rfl⟩, flat_of_isWord hparam⟩,
      flat_ofList rfl⟩
  have hencode : FlatLines (encodeLines s r) := by
    have hrows : FlatLines (r.slots.map (encodeLine s)) := by
      rw [flatLines_map]
      intro f hf
      have hown : Flat (Expr.own f.member).text :=
        flat_append_iff.2 ⟨flat_ofList rfl, flat_of_isWord (h.2 f hf).2.2.1⟩
      rw [encodeLine, flat_append_iff, flat_append_iff, flat_append_iff]
      exact ⟨⟨⟨flat_quote _, flat_ofList rfl⟩, flat_encode s _ hown 0⟩, flat_ofList rfl⟩
    apply flatLines_ite
    · exact flatLines_singleton.2 (flat_ofList rfl)
    · rw [flatLines_append, flatLines_append, flatLines_singleton, flatLines_singleton,
        flatLines_indent flat_margin]
      exact ⟨⟨flat_ofList rfl, hrows⟩, flat_ofList rfl⟩
  have hdecode : FlatLines (decodeLines s r) := by
    have hrows : FlatLines (separated (r.slots.map (argument s))) := by
      apply flatLines_separated
      rw [flatLines_map]
      exact fun f hf => flat_argument s (h.2 f hf).1
    apply flatLines_ite
    all_goals
      simp only [flatLines_append, flatLines_singleton, flatLines_indent flat_margin, flat_append_iff,
        toString_text, hname, hrows, and_true]
      and_intros
      all_goals exact flat_ofList rfl
  have hblank : FlatLines (if r.slots.isEmpty then [] else [""]) :=
    flatLines_ite flatLines_nil (flatLines_singleton.2 (flat_ofList rfl))
  simp only [recordLines, nest, block, flatLines_append, flatLines_cons, flatLines_nil,
    flatLines_indent flat_margin, flat_append_iff, toString_text, hname, hslots, hparams, hassigned,
    hencode, hdecode, hblank, true_and, and_true]
  and_intros
  all_goals exact flat_ofList rfl

theorem flat_declLines (s : Schema) {d : Decl} (hd : Tidy .plain d) : FlatLines (declLines s d) := by
  cases d with
  | constants g =>
    have htype : Flat g.type := hd.1
    rw [declLines, constantsLines, flatLines_map]
    intro c hc
    obtain ⟨hname, hliteral⟩ := hd.2.2 c hc
    simp only [flat_append_iff, toString_text, htype, flat_of_isWord hname, hliteral, and_true]
    and_intros
    all_goals exact flat_ofList rfl
  | choice c => exact flat_choiceLines hd
  | record r => exact flat_recordLines s hd

theorem flat_joined {blocks : List (List String)} (h : ∀ b ∈ blocks, FlatLines b) :
    FlatLines (joined blocks) := by
  rw [joined]
  refine List.foldlRecOn blocks _ flatLines_nil ?_
  intro body hbody b hb
  split
  · exact h b hb
  · rw [flatLines_append, flatLines_cons]
    exact ⟨hbody, flat_ofList rfl, h b hb⟩

theorem flat_body {s : Schema} (hs : s.Spelled) : FlatLines (body s) := by
  refine List.foldrRecOn s.package _ ?_ ?_
  · apply flat_joined
    rw [List.forall_mem_map]
    exact fun d hd => flat_declLines s (tidy_dialect.decls hs d hd)
  · intro inner hinner n hn
    simp only [nest, block, flatLines_append, flatLines_cons, flatLines_nil,
      flatLines_indent flat_margin, flat_append_iff, toString_text, flat_of_isWord (hs.package n hn),
      hinner, and_true]
    and_intros
    all_goals exact flat_ofList rfl

theorem flat_lines {s : Schema} (hs : s.Spelled) : FlatLines (lines s) := by
  rw [lines, flatLines_cons]
  refine ⟨flat_ofList rfl, flatLines_ite flatLines_nil ?_⟩
  rw [flatLines_cons]
  exact ⟨flat_ofList rfl, flat_body hs⟩

/-! ## Sections -/

/-- The parameters of a constructor. -/
def params (r : Record) : String := commas (r.slots.map fun f => s!"{f.param}: {f.type}")

/-- The lines of the plain object of an object. -/
def encodeRows (s : Schema) (r : Record) : List Line :=
  if r.slots.isEmpty then [bare "return \x7b\x7d;"]
  else bare "return \x7b" :: bareLines (r.slots.map (encodeLine s))

/-- The lines of the arguments for an object. -/
def decodeRows (s : Schema) (r : Record) : List Line :=
  if r.slots.isEmpty then [bare s!"return new {r.name}();"]
  else bare s!"return new {r.name}(" :: bareLines (separated (r.slots.map (argument s)))

/-- The sections of a declaration. -/
def declSections (s : Schema) : Decl → List (Heading × List Line)
  | .constants _ => []
  | .choice c =>
    [(.choice c.name.toList, bareLines (c.variants.map fun v => s!"{v.name} = {v.literal},")),
     (.index, "switch (value) \x7b".toList ::
       bareLines ((indexLookup c).labels margin fun r => s!"return {r};")),
     (.value, "switch (index) \x7b".toList ::
       bareLines ((valueLookup c).labels margin fun r => s!"return {r};"))]
  | .record r =>
    [(.record r.name.toList, bareLines (r.slots.map fun f => s!"{f.member}: {f.type};")),
     (.construct (params r).toList, bareLines (r.slots.map fun f => s!"this.{f.member} = {f.param};")),
     (.encode, encodeRows s r),
     (.decode, decodeRows s r)]

@[simp] theorem closes_record (n l : Line) :
    typescript.reader.closes (.record n) l = (l == [] || starts "constructor(" l) := by
  rw [Bool.eq_iff_iff]
  simp [typescript]

@[simp] theorem closes_encode (l : Line) : typescript.reader.closes .encode l = starts "\x7d" l := rfl

@[simp] theorem closes_decode (l : Line) :
    typescript.reader.closes .decode l = (l == [')', ';'] || l == ['}']) := by
  rw [Bool.eq_iff_iff]
  simp [typescript]

@[simp] theorem closes_eq {h : Heading} (hrecord : ∀ n, h ≠ .record n) (hencode : h ≠ .encode)
    (hdecode : h ≠ .decode) (l : Line) : typescript.reader.closes h l = (l == ['}']) := by
  rw [Bool.eq_iff_iff]
  cases h with
  | record n => exact absurd rfl (hrecord n)
  | encode => exact absurd rfl hencode
  | decode => exact absurd rfl hdecode
  | _ => simp [typescript]

theorem closes_of_mem {h : Heading} {l : Line} {c : Char} (hc : c ∈ l) (hne : c ∉ ['}', ')', ';'])
    (hh : (∀ n, h ≠ .record n) ∧ h ≠ .encode) : typescript.reader.closes h l = false := by
  have hbrace : l ≠ ['}'] := ne_of_mem_of_not_mem' hc (by simp_all)
  have hparen : l ≠ [')', ';'] := ne_of_mem_of_not_mem' hc (by simp_all)
  by_cases hdecode : h = .decode
  · subst hdecode
    simp [hbrace, hparen]
  · simp [closes_eq hh.1 hh.2 hdecode, hbrace]

@[simp] theorem opens_eq_none {l : Line} (henum : after? "export enum " l = none)
    (hindex : after? "export function indexOf" l = none)
    (hvalue : after? "export function valueAt" l = none) (hclass : after? "export class " l = none)
    (hnew : after? "constructor(" l = none) (hencode : after? "toObject(): any" l = none)
    (hdecode : after? "static fromObject(" l = none) : typescript.reader.opens l = none := by
  simp only [typescript, named?, between?, henum, hindex, hvalue, hclass, hnew, hencode, hdecode]
  rfl

theorem closes_labels {h : Heading} {l : Lookup} (hh : (∀ n, h ≠ .record n) ∧ h ≠ .encode)
    (hother : ∀ e ∈ l.otherwise, 'r' ∈ e.toList) :
    ∀ x ∈ bareLines (l.labels margin fun r => s!"return {r};"), typescript.reader.closes h x = false := by
  refine forall_labels (P := fun x => typescript.reader.closes h x = false) blank_margin ?_ ?_ ?_ ?_
  · exact fun a => closes_of_mem (mem_bare (c := ':') rfl (by simp)) (by simp) hh
  · exact fun a => closes_of_mem (mem_bare (c := 'r') rfl (by simp)) (by simp) hh
  · exact closes_of_mem (mem_bare (c := ':') rfl (by simp)) (by simp) hh
  · exact fun e he => closes_of_mem (mem_bare rfl (hother e he)) (by simp) hh

theorem opens_choice {n : String} (hn : IsWord n.toList) :
    typescript.reader.opens (bare (s!"export enum {n}" ++ " \x7b")) = some (.choice n.toList) := by
  have hline : bare (s!"export enum {n}" ++ " \x7b") =
      "export enum ".toList ++ (n.toList ++ " \x7b".toList) := bare_start rfl _ _
  rw [hline]
  simp only [typescript]
  rw [named?_append _ _ hn (stops_ofList rfl)]
  rfl

theorem opens_index {n : String} (hn : IsWord n.toList) (x : String) :
    typescript.reader.opens (bare (s!"export function indexOf{n}(value: {x}): number" ++ " \x7b")) =
      some .index := by
  have hline : bare (s!"export function indexOf{n}(value: {x}): number" ++ " \x7b") =
      "export function indexOf".toList ++ (n.toList ++ ("(value: ".toList ++ (x.toList ++
        ("): number".toList ++ " \x7b".toList)))) := by simp
  have hword : ((after? "export function indexOf"
      (bare (s!"export function indexOf{n}(value: {x}): number" ++ " \x7b"))).bind word?).bind
      (fun w => (after? "(value: " w.2).map fun _ => Heading.index) = some .index := by
    rw [hline]
    exact bind_word?_append hn String.toList_ofList rfl _ _
  simp only [typescript, hword]
  rw [hline]
  simp

theorem opens_value {n : String} (hn : IsWord n.toList) (x : String) :
    typescript.reader.opens (bare (s!"export function valueAt{n}(index: number): {x}" ++ " \x7b")) =
      some .value := by
  have hline : bare (s!"export function valueAt{n}(index: number): {x}" ++ " \x7b") =
      "export function valueAt".toList ++ (n.toList ++ ("(index: ".toList ++ ("number): ".toList ++
        (x.toList ++ " \x7b".toList)))) := by simp
  have hword : ((after? "export function valueAt"
      (bare (s!"export function valueAt{n}(index: number): {x}" ++ " \x7b"))).bind word?).bind
      (fun w => (after? "(index: " w.2).map fun _ => Heading.value) = some .value := by
    rw [hline]
    exact bind_word?_append hn String.toList_ofList rfl _ _
  simp only [typescript, hword]
  rw [hline]
  simp

theorem sections_choiceLines {c : Choice} (s : Schema) (h : Tidy .plain (.choice c)) (rest : List Line) :
    sections typescript.reader none (bareLines (choiceLines c) ++ rest) =
      declSections s (.choice c) ++ sections typescript.reader none rest := by
  have hmembers : ∀ n, ∀ l ∈ bareLines (c.variants.map fun v => s!"{v.name} = {v.literal},"),
      typescript.reader.closes (.choice n) l = false := by
    intro n
    rw [forall_bareLines, List.forall_mem_map]
    intro v _
    exact closes_of_mem (mem_bare (c := '=') rfl (by simp)) (by simp) (by simp)
  have hvalue : bare (toString "switch (" ++ toString "value" ++ toString ")" ++ " \x7b") =
      "switch (value) \x7b".toList := by simp
  have hindex : bare (toString "switch (" ++ toString "index" ++ toString ")" ++ " \x7b") =
      "switch (index) \x7b".toList := by simp
  have hindexOther : ∀ e ∈ (indexLookup c).otherwise, 'r' ∈ e.toList := by simp [indexLookup]
  have hvalueOther : ∀ e ∈ (valueLookup c).otherwise, 'r' ∈ e.toList := by simp [valueLookup]
  simp only [choiceLines, nest, block, switch, bareLines_append, bareLines_cons, bareLines_nil,
    bareLines_indent blank_margin, List.append_assoc, List.cons_append, List.nil_append]
  rw [sections_open (opens_choice h.1), sections_body (hmembers _), sections_close, sections_cons,
    sections_cons, sections_open (opens_index h.1 _), sections_step,
    sections_body (closes_labels (by simp) hindexOther), sections_close]
  iterate 3 rw [sections_cons]
  rw [sections_open (opens_value h.1 _), sections_step,
    sections_body (closes_labels (by simp) hvalueOther), sections_close, sections_cons, sections_cons]
  · rw [hvalue, hindex]
    rfl
  -- The other lines are told from their first characters.
  all_goals simp

theorem opens_record {n : String} (hn : IsWord n.toList) :
    typescript.reader.opens (bare (s!"export class {n}" ++ " \x7b")) = some (.record n.toList) := by
  have hline : bare (s!"export class {n}" ++ " \x7b") =
      "export class ".toList ++ (n.toList ++ " \x7b".toList) := bare_start rfl _ _
  rw [hline]
  simp only [typescript]
  rw [named?_append _ _ hn (stops_ofList rfl)]
  simp

theorem opens_new (p : String) :
    typescript.reader.opens (bare (s!"constructor({p})" ++ " \x7b")) = some (.construct p.toList) := by
  have hline : bare (s!"constructor({p})" ++ " \x7b") =
      "constructor(".toList ++ (p.toList ++ ") \x7b".toList) := bare_start_literals rfl _
  rw [hline]
  simp only [typescript]
  rw [between?_append]
  simp

theorem opens_encode : typescript.reader.opens (bare ("toObject(): any" ++ " \x7b")) = some .encode := by
  simp [typescript]

theorem opens_decode (n : String) :
    typescript.reader.opens (bare (s!"static fromObject(data: any): {n}" ++ " \x7b")) = some .decode := by
  simp [typescript]

theorem closes_slot {n : Line} {f : Slot} (hmember : IsWord f.member.toList) :
    typescript.reader.closes (.record n) (bare s!"{f.member}: {f.type};") = false := by
  have hcolon : (": " : String).toList = ':' :: [' '] := String.toList_ofList
  have hline : bare s!"{f.member}: {f.type};" =
      f.member.toList ++ ':' :: (' ' :: (f.type.toList ++ ";".toList)) := by
    simp only [bare, toString_text, String.toList_append, hcolon, List.append_assoc, List.cons_append,
      List.nil_append]
    exact dropWhile_isMargin (unbroken_of_isWord hmember).stops
  have hnew : after? "constructor(" (f.member.toList ++ ':' :: (' ' :: (f.type.toList ++ ";".toList))) =
      none := by
    have hp : ("constructor(" : String).toList =
        ['c', 'o', 'n', 's', 't', 'r', 'u', 'c', 't', 'o', 'r'] ++ '(' :: [] := String.toList_ofList
    rw [after?, hp]
    exact isPrefixOf?_word (List.all_eq_true.1 rfl) rfl hmember.2 rfl (by decide)
  rw [hline]
  simp only [typescript, starts, hnew]
  simp

theorem sections_new {n : Line} {q : Prop} [Decidable q] {ls : List Line} (p : String)
    (rest : List Line) :
    sections typescript.reader (some (.record n, ls))
        (bareLines (if q then [] else [""]) ++ bare (s!"constructor({p})" ++ " \x7b") :: rest) =
      (.record n, ls) :: sections typescript.reader (some (.construct p.toList, [])) rest := by
  split
  · rw [bareLines_nil, List.nil_append, sections_close, sections_open (opens_new p)]
    simp
  · rw [bareLines_cons, bareLines_nil, List.singleton_append, sections_close, sections_cons,
      sections_open (opens_new p)]
    all_goals simp

theorem sections_encodeLines (s : Schema) (r : Record) (rest : List Line) :
    sections typescript.reader (some (.encode, [])) (bareLines (encodeLines s r) ++ bare "\x7d" :: rest) =
      (.encode, encodeRows s r) :: sections typescript.reader none rest := by
  have hrows : ∀ l ∈ bareLines (r.slots.map (encodeLine s)),
      typescript.reader.closes .encode l = false := by
    rw [forall_bareLines, List.forall_mem_map]
    intro f _
    unfold encodeLine
    simp [Text.quote, Text.quoteChars]
  by_cases hslots : r.slots.isEmpty = true
  · rw [encodeLines, encodeRows, if_pos hslots, if_pos hslots, bareLines_cons, bareLines_nil,
      List.singleton_append, sections_step, sections_close, sections_cons]
    · rfl
    all_goals simp
  · rw [encodeLines, encodeRows, if_neg hslots, if_neg hslots, bareLines_append, bareLines_append,
      bareLines_cons, bareLines_nil, bareLines_cons, bareLines_nil, bareLines_indent blank_margin,
      List.append_assoc, List.append_assoc, List.singleton_append, List.singleton_append,
      sections_step, sections_body hrows, sections_close, sections_cons, sections_cons]
    · rfl
    all_goals simp

theorem forall_separated {P : String → Prop} {ls : List String} (h : ∀ l ∈ ls, P l ∧ P (l ++ ",")) :
    ∀ l ∈ separated ls, P l := by
  fun_induction separated ls with
  | case1 => simp
  | case2 l => exact List.forall_mem_singleton.2 (h l List.mem_cons_self).1
  | case3 l ls _ ih =>
    rw [List.forall_mem_cons]
    exact ⟨(h l List.mem_cons_self).2, ih fun x hx => h x (List.mem_cons_of_mem l hx)⟩

theorem sections_decodeLines (s : Schema) {r : Record} (h : Tidy .plain (.record r)) (rest : List Line) :
    sections typescript.reader (some (.decode, [])) (bareLines (decodeLines s r) ++ bare "\x7d" :: rest) =
      (.decode, decodeRows s r) :: sections typescript.reader none rest := by
  have hrows : ∀ l ∈ bareLines (separated (r.slots.map (argument s))),
      typescript.reader.closes .decode l = false := by
    rw [forall_bareLines]
    apply forall_separated
    rw [List.forall_mem_map]
    intro f hf
    have hopen : '[' ∈ (argument s f).toList := by
      obtain ⟨p, q, htext, -⟩ := (argumentText_argument s (h.2 f hf).1 (h.2 f hf).2.1).split
      rw [htext]
      simp
    exact ⟨closes_of_mem (mem_bare rfl hopen) (by simp) (by simp),
      closes_of_mem (mem_bare (c := '[') rfl (by simp [hopen])) (by simp) (by simp)⟩
  by_cases hslots : r.slots.isEmpty = true
  · rw [decodeLines, decodeRows, if_pos hslots, if_pos hslots, bareLines_cons, bareLines_nil,
      List.singleton_append, sections_step, sections_close, sections_cons]
    · rfl
    · simp
    · simp
    · exact closes_of_mem (mem_bare (c := 'r') rfl (by simp)) (by simp) (by simp)
  · rw [decodeLines, decodeRows, if_neg hslots, if_neg hslots, bareLines_append, bareLines_append,
      bareLines_cons, bareLines_nil, bareLines_cons, bareLines_nil, bareLines_indent blank_margin,
      List.append_assoc, List.append_assoc, List.singleton_append, List.singleton_append,
      sections_step, sections_body hrows, sections_close, sections_cons, sections_cons]
    · rfl
    · simp
    · simp
    · simp
    · exact closes_of_mem (mem_bare (c := 'r') rfl (by simp)) (by simp) (by simp)

theorem sections_recordLines {r : Record} (s : Schema) (h : Tidy .plain (.record r)) (rest : List Line) :
    sections typescript.reader none (bareLines (recordLines s r) ++ rest) =
      declSections s (.record r) ++ sections typescript.reader none rest := by
  have hslots : ∀ n, ∀ l ∈ bareLines (r.slots.map fun f => s!"{f.member}: {f.type};"),
      typescript.reader.closes (.record n) l = false := by
    intro n
    rw [forall_bareLines, List.forall_mem_map]
    exact fun f hf => closes_slot (h.2 f hf).2.2.1
  have hassigned : ∀ p, ∀ l ∈ bareLines (r.slots.map fun f => s!"this.{f.member} = {f.param};"),
      typescript.reader.closes (.construct p) l = false := by
    intro p
    rw [forall_bareLines, List.forall_mem_map]
    intro f _
    exact closes_of_mem (mem_bare (c := '=') rfl (by simp)) (by simp) (by simp)
  simp only [recordLines, nest, block, bareLines_append, bareLines_cons, bareLines_nil,
    bareLines_indent blank_margin, List.append_assoc, List.cons_append, List.nil_append]
  rw [sections_open (opens_record h.1), sections_body (hslots _), sections_new,
    sections_body (hassigned _), sections_close, sections_cons, sections_cons,
    sections_open opens_encode, sections_encodeLines]
  iterate 9 rw [sections_cons]
  rw [sections_open (opens_decode _), sections_decodeLines s h, sections_cons]
  · rfl
  all_goals simp

theorem opens_blank : typescript.reader.opens (bare "") = none := by simp

/-- Lines that are read as sections, whatever follows them. -/
def Reads (ls : List String) (ss : List (Heading × List Line)) : Prop :=
  ∀ rest, sections typescript.reader none (bareLines ls ++ rest) =
    ss ++ sections typescript.reader none rest

theorem reads_declLines (s : Schema) {d : Decl} (h : Tidy .plain d) :
    Reads (declLines s d) (declSections s d) := by
  intro rest
  cases d with
  | constants g =>
    apply sections_quiet
    rw [declLines, constantsLines, forall_bareLines, List.forall_mem_map]
    intro c _
    simp
  | choice c => exact sections_choiceLines s h rest
  | record r => exact sections_recordLines s h rest

theorem Reads.eq_nil {ss : List (Heading × List Line)} (h : Reads [] ss) : ss = [] := by
  have hnil := h []
  rw [bareLines_nil, List.nil_append, sections, List.append_nil] at hnil
  exact hnil.symm

theorem Reads.blank {ls : List String} {ss : List (Heading × List Line)} (h : Reads ls ss) :
    Reads (if ls.isEmpty then [] else "" :: ls) ss := by
  split
  · rename_i hnil
    rwa [List.isEmpty_iff.1 hnil] at h
  · intro rest
    rw [bareLines_cons, List.cons_append, sections_cons opens_blank, h]

/-- Blocks are read one after the other, after the lines that stand before them. -/
theorem reads_foldl {α : Type} {f : α → List String} {g : α → List (Heading × List Line)} {as : List α}
    (hf : ∀ a ∈ as, Reads (f a) (g a)) {ls : List String} {ss : List (Heading × List Line)}
    (h : Reads ls ss) :
    Reads ((as.map f).foldl (fun body b => if body.isEmpty then b else body ++ "" :: b) ls)
      (ss ++ as.flatMap g) := by
  induction as generalizing ls ss with
  | nil =>
    rw [List.flatMap_nil, List.append_nil]
    exact h
  | cons a as ih =>
    have ha := hf a List.mem_cons_self
    rw [List.map_cons, List.foldl_cons, List.flatMap_cons, ← List.append_assoc]
    refine ih (fun b hb => hf b (List.mem_cons_of_mem a hb)) ?_
    split
    · rename_i hnil
      rw [List.isEmpty_iff.1 hnil] at h
      rwa [h.eq_nil, List.nil_append]
    · intro rest
      rw [bareLines_append, bareLines_cons, List.append_assoc, List.cons_append, h,
        sections_cons opens_blank, ha, List.append_assoc]

theorem reads_body {s : Schema} (hs : s.Spelled) :
    Reads (body s) ((dialect.decls s).flatMap (declSections s)) := by
  refine List.foldrRecOn (motive := fun ls => Reads ls _) s.package _ ?_ ?_
  · have hnil : Reads [] [] := fun _ => rfl
    exact reads_foldl (fun d hd => reads_declLines s (tidy_dialect.decls hs d hd)) hnil
  · intro inner hinner n _ rest
    simp only [nest, block, bareLines_append, bareLines_cons, bareLines_nil, bareLines_indent blank_margin,
      List.append_assoc, List.cons_append, List.nil_append]
    rw [sections_cons, hinner, sections_cons]
    all_goals simp

/-- The sections of a file are those of its declarations, in order. -/
theorem sectionsOf_lines {s : Schema} (hs : s.Spelled) :
    typescript.sectionsOf (sourceText (lines s)) = (dialect.decls s).flatMap (declSections s) := by
  rw [typescript.sectionsOf_eq rfl, linesOf_sourceText (by simp [lines]) (flat_lines hs), lines, bareLines_cons, List.cons_append,
    sections_cons, (reads_body hs).blank, sections_cons]
  · rw [sections, List.append_nil]
  all_goals simp

/-! ## Enums -/

theorem bare_result (x : String) :
    bare s!"return {x};" = "return ".toList ++ (x.toList ++ ";".toList) := by simp

theorem choice?_choiceLines {c : Choice} (h : Tidy .plain (.choice c)) :
    typescript.choice? c.name.toList
      (bareLines (c.variants.map fun v => s!"{v.name} = {v.literal},"))
      ("switch (value) \x7b".toList ::
        bareLines ((indexLookup c).labels margin fun r => s!"return {r};"))
      ("switch (index) \x7b".toList ::
        bareLines ((valueLookup c).labels margin fun r => s!"return {r};")) =
      some (c.outline .maps false) := by
  have hlookup : ∀ (arms : List (String × String)) (e : String), starts "throw " (bare e) = true →
      labelArms? (starts "throw ") (between? "return " ";")
        (bareLines (Lookup.labels ⟨arms, [e]⟩ margin fun r => s!"return {r};")) =
        some (arms.map (fun a => .maps a.1 a.2) ++ [.fails]) := by
    intro arms e he
    rw [labelArms?_labels (k := id) blank_margin]
    · rfl
    · intro a _
      rw [bare_result, between?_append]
      rfl
    · rw [bareLines_cons, List.any_cons, he, Bool.true_or]
  have hbare : ∀ v ∈ c.variants, unqualified c.name typescript.mark s!"{c.name}.{v.name}" = v.name :=
    fun v _ => unqualified_append c.name "." v.name
  refine choice?_eq (f := fun x => s!"{c.name}.{x}") (g := .maps) ?_ ?_ ?_ hbare
    fun v hv result => congrArg (Arm.maps · result) (hbare v hv)
  · simp only [typescript, bareLines, List.map_map]
    apply mapM_map
    intro v hv
    rw [Function.comp_apply]
    exact constant?_member (nameText_of_isWord (h.2.2 v hv).2.1) v.literal
  · simp only [typescript, under?_cons, Option.bind_some]
    apply hlookup
    simp
  · simp only [typescript, under?_cons, Option.bind_some]
    apply hlookup
    simp

/-! ## Objects -/

/-- What source text says about an object. -/
def outline (s : Schema) (r : Record) : RecordOutline where
  name := r.name
  members := r.slots.map fun f => ⟨f.member, f.type, none⟩
  params := r.slots.map fun f => (f.param, some f.type)
  assigned := r.slots.map fun f => (f.member, f.param)
  encoded := r.slots.map fun f => (f.key, (encode s f.field.type (.own f.member) 0).text)
  decoded := r.slots.map fun f => (f.key, argument s f)

theorem entry?_encodeLine (s : Schema) {f : Slot} (hkey : IsWord f.key.toList) :
    entry? (bare (encodeLine s f)) =
      some (f.key, (encode s f.field.type (.own f.member) 0).text) := by
  have hline : bare (encodeLine s f) = '"' :: (f.key.toList ++ '"' :: (": ".toList ++
      ((encode s f.field.type (.own f.member) 0).text.toList ++ ",".toList))) := by
    unfold encodeLine
    simp only [bare, String.toList_append, toList_quote hkey, List.append_assoc, List.cons_append,
      List.nil_append]
    rfl
  unfold entry?
  rw [hline, quoted?_append hkey]
  simp only [Option.bind_eq_bind, Option.bind_some]
  rw [between?_append]
  simp

theorem encoded_encodeRows {s : Schema} {r : Record} (h : Tidy .plain (.record r)) :
    typescript.encoded (encodeRows s r) =
      some (r.slots.map fun f => (f.key, (encode s f.field.type (.own f.member) 0).text)) := by
  have hempty : after? "return \x7b" (bare "return \x7b\x7d;") = some ['}', ';'] := by simp
  have hhead : after? "return \x7b" (bare "return \x7b") = some [] := by simp
  have hrows : (bareLines (r.slots.map (encodeLine s))).mapM entry? =
      some (r.slots.map fun f => (f.key, (encode s f.field.type (.own f.member) 0).text)) := by
    rw [bareLines, List.map_map]
    apply mapM_map
    intro f hf
    rw [Function.comp_apply]
    exact entry?_encodeLine s (h.2 f hf).2.1
  by_cases hslots : r.slots.isEmpty = true
  · rw [encodeRows, if_pos hslots, List.isEmpty_iff.1 hslots]
    simp only [typescript, hempty, Option.bind_some]
    rfl
  · rw [encodeRows, if_neg hslots]
    simp only [typescript, hhead, Option.bind_some, hrows]

theorem ArgumentText.bare {key : Line} {x : String} (h : ArgumentText key x.toList) (y : String) :
    bare (x ++ y) = x.toList ++ y.toList := by
  obtain ⟨p, q, htext, hp, -⟩ := h.split
  rw [Outline.bare, String.toList_append, htext, List.append_assoc]
  exact dropWhile_isMargin hp.stops

theorem map_separated {ls : List String} (h : ∀ l ∈ ls, ∃ key, ArgumentText key l.toList) :
    (bareLines (separated ls)).map (fun l => (before? "," l).getD l) = ls.map String.toList := by
  fun_induction separated ls with
  | case1 => rfl
  | case2 l =>
    obtain ⟨key, hl⟩ := h l List.mem_cons_self
    have hbare := hl.bare ""
    rw [String.append_empty, String.toList_empty, List.append_nil] at hbare
    rw [bareLines_cons, bareLines_nil, hbare, List.map_singleton, hl.last]
    rfl
  | case3 l ls _ ih =>
    obtain ⟨key, hl⟩ := h l List.mem_cons_self
    rw [bareLines_cons, List.map_cons, List.map_cons, ih fun x hx => h x (List.mem_cons_of_mem l hx),
      hl.bare, before?_append, Option.getD_some]

theorem argument?_argument (s : Schema) {f : Slot} (ht : f.field.type.Spelled)
    (hkey : IsWord f.key.toList) :
    argument? (argument s f).toList = some (f.key, argument s f) := by
  obtain ⟨p, q, htext, -, hp⟩ := (argumentText_argument s ht hkey).split
  rw [argument?, String.ofList_toList, htext, keyIn?_append hp hkey, Option.map_some,
    String.ofList_toList]

theorem decoded_decodeRows {s : Schema} {r : Record} (h : Tidy .plain (.record r)) :
    typescript.decoded (decodeRows s r) = some (r.slots.map fun f => (f.key, argument s f)) := by
  have hhead : ∀ x : String, after? "return new " (bare (s!"return new {r.name}" ++ x)) =
      some (r.name.toList ++ x.toList) := by
    intro x
    have hline : bare (s!"return new {r.name}" ++ x) =
        "return new ".toList ++ (r.name.toList ++ x.toList) := bare_start rfl _ _
    rw [hline, after?_append]
  have hrows : (bareLines (separated (r.slots.map (argument s)))).mapM
      (fun l => argument? ((before? "," l).getD l)) =
      some (r.slots.map fun f => (f.key, argument s f)) := by
    have hkeys : ∀ l ∈ r.slots.map (argument s), ∃ key, ArgumentText key l.toList :=
      List.forall_mem_map.2 fun f hf =>
        ⟨f.key.toList, argumentText_argument s (h.2 f hf).1 (h.2 f hf).2.1⟩
    show (bareLines _).mapM (argument? ∘ fun l => (before? "," l).getD l) = _
    rw [← List.mapM_map, map_separated hkeys, List.map_map]
    apply mapM_map
    intro f hf
    rw [Function.comp_apply]
    exact argument?_argument s (h.2 f hf).1 (h.2 f hf).2.1
  by_cases hslots : r.slots.isEmpty = true
  · rw [decodeRows, if_pos hslots, List.isEmpty_iff.1 hslots]
    show (after? "return new " (bare (s!"return new {r.name}" ++ "();"))).bind _ = _
    rw [hhead]
    rfl
  · rw [decodeRows, if_neg hslots]
    show (after? "return new " (bare (s!"return new {r.name}" ++ "("))).bind _ = _
    rw [hhead, Option.bind_some, hrows]

theorem record?_recordLines (s : Schema) {r : Record} (h : Tidy .plain (.record r)) :
    typescript.record? r.name.toList (bareLines (r.slots.map fun f => s!"{f.member}: {f.type};"))
      (params r).toList (bareLines (r.slots.map fun f => s!"this.{f.member} = {f.param};"))
      (encodeRows s r) (decodeRows s r) = some (outline s r) := by
  have hslots : typescript.slots (bareLines (r.slots.map fun f => s!"{f.member}: {f.type};")) =
      some (r.slots.map fun f => ⟨f.member, f.type, none⟩) := by
    simp only [typescript, bareLines, List.map_map]
    apply mapM_map
    intro f hf
    obtain ⟨-, -, hmember, -, -⟩ := h.2 f hf
    have hline : bare s!"{f.member}: {f.type};" =
        (f.member.toList ++ (": ".toList ++ f.type.toList)) ++ ";".toList := by
      simp only [bare, toString_text, String.toList_append, List.append_assoc]
      exact dropWhile_isMargin (unbroken_of_isWord hmember).stops
    rw [Function.comp_apply, hline, before?_append]
    simp only [Option.bind_eq_bind, Option.bind_some, annotated?_append hmember, String.ofList_toList]
    rfl
  have hparams : (items (params r).toList).mapM typescript.param =
      some (r.slots.map fun f => (f.param, some f.type)) := mapM_annotated? h
  have hassigned : typescript.assigned
      (bareLines (r.slots.map fun f => s!"this.{f.member} = {f.param};")) =
      some (r.slots.map fun f => (f.member, f.param)) := by
    simp only [typescript, bareLines, List.map_map]
    apply mapM_map
    intro f hf
    obtain ⟨-, -, hmember, -, -⟩ := h.2 f hf
    have hline : bare s!"this.{f.member} = {f.param};" =
        "this.".toList ++ bare s!"{f.member} = {f.param};" := by
      have hstops : Stops isMargin (s!"{f.member} = {f.param};").toList := by
        simp only [toString_text, String.toList_append, List.append_assoc]
        exact (unbroken_of_isWord hmember).stops
      rw [bare_of_stops hstops]
      simp
    rw [Function.comp_apply, hline, after?_append, Option.bind_some, assignment?_append hmember]
  rw [Language.record?, hslots, hparams, hassigned, encoded_encodeRows h, decoded_decodeRows h,
    String.ofList_toList]
  rfl

/-! ## Files -/

theorem fresh_declSections (s : Schema) (d : Decl) : Fresh (declSections s d) := by
  cases d <;> simp [Fresh, declSections]

theorem choices_lines {s : Schema} (hs : s.Spelled) :
    typescript.choicesIn (typescript.sectionsOf (sourceText (lines s))) =
      some (s.enums.map fun e => (dialect.choice e).outline .maps false) := by
  rw [sectionsOf_lines hs]
  exact choices_decls tidy_dialect hs rfl (fresh_declSections s)
    (fun g _ _ => choicesIn_skip (by simp [declSections]))
    (fun c h _ _ hcs => choicesIn_choice (choice?_choiceLines h) hcs)
    (fun r _ _ => choicesIn_skip (by simp [declSections]))

theorem records_lines {s : Schema} (hs : s.Spelled) :
    typescript.recordsIn (typescript.sectionsOf (sourceText (lines s))) =
      some (s.objects.map fun o => outline s (dialect.record s o)) := by
  rw [sectionsOf_lines hs]
  exact records_decls tidy_dialect hs rfl (fresh_declSections s)
    (fun g _ _ => recordsIn_skip (by simp [declSections]))
    (fun c _ _ => recordsIn_skip (by simp [declSections]))
    (fun r h _ _ _ hrs => recordsIn_codec (record?_recordLines s h) hrs)

end Idl.TypeScript
