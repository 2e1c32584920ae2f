import Mathlib
import Idl.Proofs.Outline.Texts

/-!
# The outline of Rust source text

* `tidy_dialect`: the words of the target.
* `flat_lines`: no line of a file holds a line end.
* `sectionsOf_lines`: the sections of a file.
* `choices_lines`, `records_lines`: what a file says about enums and objects.
-/

namespace Idl.Rust

open Outline Lexeme

/-! ## Words -/

theorem isWord_owned (p : Primitive) : IsWord (owned p).toList := by
  cases p <;> (rw [owned, String.toList_ofList]; exact isWord_of_all (by simp) rfl)

theorem tidy_dialect : TidyDialect .plain dialect where
  title n hn := hn
  variant e m _ hm := isWord_avoid hm
  member o f _ hf := isWord_avoid hf
  param o f _ hf := isWord_avoid hf
  binding c m hc hm := isWord_binding hc hm
  type s t ht := by
    have hprimitive : ∀ p, TypeText (owned p).toList := fun p => typeText_of_isWord (isWord_owned p)
    refine type_induction (P := fun x => TypeText x.toList) hprimitive ?_ ?_ ?_ ht
    · intro t x hx
      exact typeText_list (w := ['V', 'e', 'c']) String.toList_ofList (isWord_of_all (by simp) rfl) hx
    · intro k v
      exact typeText_map (w := ['H', 'a', 's', 'h', 'M', 'a', 'p']) String.toList_ofList
        (isWord_of_all (by simp) rfl) (hprimitive k) (hprimitive v)
    · exact fun n hn => typeText_of_isWord hn
  constant p := by
    show Flat (lasting p)
    cases p with
    | string => exact flat_ofList rfl
    | _ => exact flat_of_isWord (isWord_owned _)
  text s := by
    have hquote : Flat "\"" := by simp [Flat]
    exact flat_append_iff.2 ⟨flat_append_iff.2 ⟨hquote, flat_escapeAscii s⟩, hquote⟩
  suffix p := by simp [dialect, Flat]

theorem blank_margin : ∀ c ∈ margin.toList, isMargin c = true := by
  rw [margin, String.toList_ofList]
  exact List.all_eq_true.1 rfl

/-! ## No line ends -/

theorem flat_margin : Flat margin := flat_ofList rfl

theorem flat_choiceLines {c : Choice} (h : Tidy .plain (.choice c)) : FlatLines (choiceLines c) := by
  have hname : Flat c.name := flat_of_isWord h.1
  have htype : Flat c.type := h.2.1
  have hkept : Flat (owned c.source.type) := flat_of_isWord (isWord_owned _)
  have hqualified : ∀ n ∈ qualified c, Flat n := flat_qualified h (flat_ofList rfl)
  have hmembers : ∀ v ∈ c.variants, Flat v.name ∧ Flat "," := fun v hv =>
    ⟨flat_of_isWord (h.2.2 v hv).2.1, flat_ofList rfl⟩
  have hpayload : FlatLines ((payloadLookup c).arrows id) := by
    refine flatLines_arrows (fun x hx => hx) ?_ flatLines_nil
    intro a ha
    obtain ⟨hfst, hsnd⟩ := List.of_mem_zip ha
    obtain ⟨v, hv, hliteral⟩ := List.mem_map.1 hsnd
    exact ⟨hqualified _ hfst, hliteral ▸ (h.2.2 v hv).2.2⟩
  have hindex : FlatLines ((indexLookup c).arrows id) :=
    flatLines_arrows (fun x hx => hx) (flat_indexArms hqualified) flatLines_nil
  have hvalue : FlatLines ((valueLookup c).arrows fun v => "Ok(" ++ v ++ ")") := by
    refine flatLines_arrows ?_ (flat_valueArms hqualified) ?_
    · intro x hx
      exact flat_append_iff.2 ⟨flat_append_iff.2 ⟨flat_ofList rfl, hx⟩, flat_ofList rfl⟩
    · simp only [valueLookup, flatLines_cons, flat_append_iff, toString_text]
      exact ⟨⟨⟨flat_ofList rfl, hname⟩, flat_ofList rfl⟩, flatLines_nil⟩
  have hall : Flat (commas (qualified c)) := flat_intercalate (flat_ofList rfl) hqualified
  have hlength : Flat (toString c.variants.length) := flat_toString_nat _
  have hgiven : Flat (if c.source.type = .string then "&str" else c.type) := by
    split
    · exact flat_ofList rfl
    · exact htype
  have hargument : Flat (if c.source.type = .string then "&value" else "value") := by
    split <;> exact flat_ofList rfl
  simp only [choiceLines, enumImpl, nest, block, flatLines_append, flatLines_cons, flatLines_nil,
    flatLines_map, flatLines_indent flat_margin, flat_append_iff, toString_text, hname, htype, hkept,
    hpayload, hindex, hvalue, hall, hlength, hgiven, hargument, and_true]
  and_intros
  all_goals first | exact flat_ofList rfl | exact hmembers

theorem flat_recordLines {r : Record} (h : Tidy .plain (.record r)) : FlatLines (recordLines r) := by
  have hname : Flat r.name := flat_of_isWord h.1
  have hslots : ∀ f ∈ r.slots, FlatLines (slotLines f) := by
    intro f hf
    obtain ⟨-, hkey, hmember, -, htype⟩ := h.2 f hf
    have hkey' : Flat f.key := flat_of_isWord hkey
    have hmember' : Flat f.member := flat_of_isWord hmember
    have htype' : Flat f.type := htype.flat
    rw [slotLines, flatLines_append]
    constructor
    · apply flatLines_ite flatLines_nil
      simp only [flatLines_singleton, flat_append_iff, toString_text, hkey', and_true]
      exact ⟨flat_ofList rfl, flat_ofList rfl⟩
    · simp only [flatLines_singleton, flat_append_iff, toString_text, hmember', htype', and_true]
      exact ⟨⟨flat_ofList rfl, flat_ofList rfl⟩, flat_ofList rfl⟩
  have hparams : Flat (commas (r.slots.map fun f => f.param ++ ": " ++ f.type)) :=
    flat_params (flat_ofList rfl) fun f hf =>
      ⟨flat_of_isWord (h.2 f hf).2.2.2.1, (h.2 f hf).2.2.2.2.flat⟩
  have hset : ∀ f ∈ r.slots, Flat f.param ∧ Flat "," := fun f hf =>
    ⟨flat_of_isWord (h.2 f hf).2.2.2.1, flat_ofList rfl⟩
  simp only [recordLines, nest, block, flatLines_append, flatLines_cons, flatLines_nil,
    flatLines_map, flatLines_flatMap, flatLines_indent flat_margin, flat_append_iff, toString_text,
    hname, hparams, and_true]
  and_intros
  all_goals first
    | exact flat_ofList rfl
    | exact hslots
    | exact hset
    | exact flatLines_ite (flatLines_singleton.2 (flat_ofList rfl)) flatLines_nil

theorem flat_constantsLines {g : Constants} (h : Tidy .plain (.constants g)) :
    FlatLines (constantsLines g) := by
  rw [constantsLines, flatLines_append, flatLines_flatMap]
  refine ⟨?_, flatLines_singleton.2 (flat_ofList rfl)⟩
  intro c hc
  have htype : Flat g.type := h.1
  obtain ⟨hname, hliteral⟩ := h.2.2 c hc
  simp only [constantLines, flatLines_append, flatLines_singleton, flat_append_iff, toString_text,
    flat_of_isWord hname, htype, hliteral, and_true]
  and_intros
  · exact flatLines_ite (flatLines_singleton.2 (flat_ofList rfl)) flatLines_nil
  all_goals exact flat_ofList rfl

theorem flat_declLines {d : Decl} (hd : Tidy .plain d) : FlatLines (declLines d) := by
  cases d with
  | constants g => exact flat_constantsLines hd
  | choice c => exact flat_choiceLines hd
  | record r => exact flat_recordLines hd

theorem flat_lines {s : Schema} (hs : s.Spelled) : FlatLines (lines s) := by
  have himports : FlatLines (imports s) := by
    apply flatLines_ite flatLines_nil
    simp only [flatLines_append, flatLines_singleton]
    and_intros
    · exact flatLines_ite (flatLines_singleton.2 (flat_ofList rfl)) flatLines_nil
    · exact flatLines_ite (flatLines_singleton.2 (flat_ofList rfl)) flatLines_nil
    · exact flatLines_ite (flatLines_singleton.2 (flat_ofList rfl)) flatLines_nil
    · exact flat_ofList rfl
  rw [lines, flatLines_append, flatLines_append, flatLines_append, flatLines_append,
    flatLines_map, flatLines_map, flatLines_flatMap, flatLines_cons, flatLines_singleton]
  refine ⟨⟨⟨⟨⟨flat_ofList rfl, flat_ofList rfl⟩, ?_⟩, himports⟩, ?_⟩, fun _ _ => flat_ofList rfl⟩
  · intro name hname
    have hword : IsWord (avoid keywords name).toList := isWord_avoid (hs.package name hname)
    simp only [flat_append_iff, toString_text]
    exact ⟨⟨flat_ofList rfl, flat_of_isWord hword⟩, flat_ofList rfl⟩
  · exact fun d hd => flat_declLines (tidy_dialect.decls hs d hd)

/-! ## Sections -/

/-- The parameters of a constructor. -/
def params (r : Record) : String := commas (r.slots.map fun s => s!"{s.param}: {s.type}")

/-- The sections of a declaration. -/
def declSections : Decl → List (Heading × List Line)
  | .constants _ => []
  | .choice c =>
    [(.choice c.name.toList, bareLines (c.variants.map fun v => v.name ++ ",")),
     (.index, "match self \x7b".toList :: bareLines ((indexLookup c).arrows id)),
     (.value, "match index \x7b".toList ::
       bareLines ((valueLookup c).arrows fun v => s!"Ok({v})"))]
  | .record r =>
    [(.record r.name.toList, bareLines (r.slots.flatMap slotLines)),
     (.construct (params r).toList,
       "Self \x7b".toList :: bareLines (r.slots.map fun s => s.param ++ ","))]

@[simp] theorem closes_eq (h : Heading) (l : Line) : rust.reader.closes h l = decide (l = ['}']) := by
  simp [rust]

theorem closes_of_mem {h : Heading} {l : Line} {c : Char} (hc : c ∈ l) (hne : c ≠ '}') :
    rust.reader.closes h l = false := by
  rw [closes_eq, decide_eq_false_iff_not]
  exact ne_of_mem_of_not_mem' hc (by simpa using hne)

@[simp] theorem opens_eq_none {l : Line} (henum : after? "pub enum " l = none)
    (hindex : after? "pub fn index_of(" l = none) (hvalue : after? "pub fn value_at(" l = none)
    (hstruct : after? "pub struct " l = none) (hnew : after? "pub fn new(" l = none) :
    rust.reader.opens l = none := by
  simp only [rust, named?, between?, henum, hindex, hvalue, hstruct, hnew]
  rfl

/-- A line that begins with a word and another mark than a blank opens nothing. -/
theorem opens_word {w x : Line} {c : Char} (hw : IsWord w) (hc : isNamePart c = false)
    (hne : ' ' ≠ c) : rust.reader.opens (w ++ c :: x) = none := by
  have hafter : ∀ (p : String) v, p.toList = ['p', 'u', 'b'] ++ ' ' :: v →
      after? p (w ++ c :: x) = none := by
    intro p v hp
    rw [after?, hp]
    exact isPrefixOf?_word (List.all_eq_true.1 rfl) rfl hw.2 hc hne
  exact opens_eq_none (hafter _ _ String.toList_ofList) (hafter _ _ String.toList_ofList)
    (hafter _ _ String.toList_ofList) (hafter _ _ String.toList_ofList) (hafter _ _ String.toList_ofList)

theorem opens_index : rust.reader.opens (bare ("pub fn index_of(self) -> usize" ++ " \x7b")) =
    some .index := by simp [rust]

theorem opens_value :
    rust.reader.opens (bare ("pub fn value_at(index: usize) -> Result<Self, LookupError>" ++ " \x7b")) =
      some .value := by simp [rust]

/-- A line that may be left out opens nothing if it begins like none of the lines that do. -/
theorem opens_note {p : Prop} [Decidable p] {c : Char} {x : List Char} (hc : 'p' ≠ c)
    (hmargin : isMargin c = false) :
    ∀ l ∈ bareLines (if p then [String.ofList (c :: x)] else []), rust.reader.opens l = none := by
  apply forall_bareLines_ite
  · rw [forall_bareLines, List.forall_mem_singleton, bare, String.toList_ofList,
      dropWhile_isMargin (stops_cons.2 hmargin)]
    simp [hc]
  · simp [bareLines]

theorem opens_attribute {p : Prop} [Decidable p] {x : List Char} :
    ∀ l ∈ bareLines (if p then [String.ofList ('#' :: x)] else []), rust.reader.opens l = none :=
  opens_note (by decide) rfl

theorem sections_choiceLines {c : Choice} (h : Tidy .plain (.choice c)) (rest : List Line) :
    sections rust.reader none (bareLines (choiceLines c) ++ rest) =
      declSections (.choice c) ++ sections rust.reader none rest := by
  have hopen : rust.reader.opens (bare (s!"pub enum {c.name}" ++ " \x7b")) =
      some (.choice c.name.toList) := by
    have hline : bare (s!"pub enum {c.name}" ++ " \x7b") =
        "pub enum ".toList ++ (c.name.toList ++ " \x7b".toList) := bare_start rfl _ _
    rw [hline]
    simp only [rust]
    rw [named?_append _ _ h.1 (stops_ofList rfl)]
    rfl
  have hmembers : ∀ h, ∀ l ∈ bareLines (c.variants.map fun v => v.name ++ ","),
      rust.reader.closes h l = false := by
    intro h
    rw [forall_bareLines, List.forall_mem_map]
    intro v _
    refine closes_of_mem (mem_bare (c := ',') rfl ?_) (by decide)
    simp
  have hpayload : ∀ l ∈ bareLines ((payloadLookup c).arrows id), rust.reader.opens l = none := by
    rw [forall_bareLines, Lookup.arrows, payloadLookup, List.map_nil, List.append_nil,
      List.forall_mem_map]
    intro a ha
    obtain ⟨v, hv, hname⟩ := List.mem_map.1 (List.of_mem_zip ha).1
    have hmark : ("::" : String).toList = [':', ':'] := String.toList_ofList
    rw [← hname, bare_of_stops]
    · simp only [toString_text, String.toList_append, List.append_assoc, hmark, List.cons_append]
      exact opens_word h.1 rfl (by decide)
    · simp only [toString_text, String.toList_append, List.append_assoc]
      exact (unbroken_of_isWord h.1).stops
  have harrows : ∀ h (k : Lookup) f, ∀ l ∈ bareLines (k.arrows f),
      rust.reader.closes h l = false :=
    fun h k f l hl => closes_of_mem (comma_mem_arrows k f l hl) (by decide)
  have hself : bare ("match self" ++ " \x7b") = "match self \x7b".toList := bare_literals rfl
  have hindex : bare ("match index" ++ " \x7b") = "match index \x7b".toList := bare_literals rfl
  simp only [choiceLines, enumImpl, nest, block, bareLines_append, bareLines_cons, bareLines_nil,
    bareLines_indent blank_margin, List.append_assoc, List.cons_append, List.nil_append]
  iterate 3 rw [sections_cons]
  rw [sections_open hopen, sections_body (hmembers _), sections_close]
  iterate 7 rw [sections_cons]
  rw [sections_quiet hpayload]
  iterate 3 rw [sections_cons]
  rw [sections_open opens_index, sections_step, sections_body (harrows _ _ _), sections_close]
  iterate 3 rw [sections_cons]
  rw [sections_open opens_value, sections_step, sections_body (harrows _ _ _), sections_close]
  repeat rw [sections_cons]
  · rw [hself, hindex]
    rfl
  -- The other lines are told from their first characters.
  all_goals
    simp

theorem opens_new (p : String) :
    rust.reader.opens (bare (s!"pub fn new({p}) -> Self" ++ " \x7b")) = some (.construct p.toList) := by
  have hline : bare (s!"pub fn new({p}) -> Self" ++ " \x7b") =
      "pub fn new(".toList ++ (p.toList ++ ") -> Self \x7b".toList) := bare_start_literals rfl _
  rw [hline]
  simp only [rust]
  rw [between?_append]
  simp

theorem sections_recordLines {r : Record} (h : Tidy .plain (.record r)) (rest : List Line) :
    sections rust.reader none (bareLines (recordLines r) ++ rest) =
      declSections (.record r) ++ sections rust.reader none rest := by
  have hopen : rust.reader.opens (bare (s!"pub struct {r.name}" ++ " \x7b")) =
      some (.record r.name.toList) := by
    have hline : bare (s!"pub struct {r.name}" ++ " \x7b") =
        "pub struct ".toList ++ (r.name.toList ++ " \x7b".toList) := bare_start rfl _ _
    rw [hline]
    simp only [rust]
    rw [named?_append _ _ h.1 (stops_ofList rfl)]
    simp
  have hslots : ∀ h, ∀ l ∈ bareLines (r.slots.flatMap slotLines), rust.reader.closes h l = false := by
    intro h
    rw [forall_bareLines]
    intro l hl
    obtain ⟨f, -, hl⟩ := List.mem_flatMap.1 hl
    have hpub : 'p' ∈ bare s!"pub {f.member}: {f.type}," :=
      mem_bare rfl (by simp)
    have htag : '#' ∈ bare s!"#[serde(rename = \"{f.key}\")]" :=
      mem_bare rfl (by simp)
    rcases List.mem_append.1 hl with hl | hl
    · split at hl
      · cases hl
      · rw [List.mem_singleton.1 hl]
        exact closes_of_mem htag (by decide)
    · rw [List.mem_singleton.1 hl]
      exact closes_of_mem hpub (by decide)
  have hset : ∀ h, ∀ l ∈ bareLines (r.slots.map fun f => f.param ++ ","),
      rust.reader.closes h l = false := by
    intro h
    rw [forall_bareLines, List.forall_mem_map]
    intro f _
    exact closes_of_mem (mem_bare (c := ',') rfl (by simp)) (by decide)
  have hself : bare ("Self" ++ " \x7b") = "Self \x7b".toList := bare_literals rfl
  simp only [recordLines, nest, block, bareLines_append, bareLines_cons, bareLines_nil,
    bareLines_indent blank_margin, List.append_assoc, List.cons_append, List.nil_append]
  rw [sections_quiet opens_attribute, sections_cons, sections_open hopen, sections_body (hslots _),
    sections_close]
  iterate 2 rw [sections_cons]
  rw [sections_quiet opens_attribute, sections_cons, sections_quiet opens_attribute,
    sections_open (opens_new _), sections_step, sections_body (hset _), sections_close]
  repeat rw [sections_cons]
  · rw [hself]
    rfl
  all_goals
    simp

theorem opens_constantsLines (g : Constants) :
    ∀ l ∈ bareLines (constantsLines g), rust.reader.opens l = none := by
  have hblank : rust.reader.opens (bare "") = none := by simp
  have hrow : ∀ c : Constant,
      rust.reader.opens (bare s!"pub const {c.name}: {g.type} = {c.literal};") = none := by
    intro c
    simp
  rw [constantsLines, bareLines_append, List.forall_mem_append]
  constructor
  · rw [forall_bareLines]
    intro l hl
    obtain ⟨c, -, hl⟩ := List.mem_flatMap.1 hl
    rcases List.mem_append.1 hl with hl | hl
    · exact opens_attribute _ (List.mem_map_of_mem hl)
    · rw [List.mem_singleton.1 hl]
      exact hrow c
  · rw [forall_bareLines, List.forall_mem_singleton]
    exact hblank

theorem sections_declLines {d : Decl} (h : Tidy .plain d) (rest : List Line) :
    sections rust.reader none (bareLines (declLines d) ++ rest) =
      declSections d ++ sections rust.reader none rest := by
  cases d with
  | constants g => exact sections_quiet (opens_constantsLines g)
  | choice c => exact sections_choiceLines h rest
  | record r => exact sections_recordLines h rest

/-- The sections of a file are those of its declarations, in order. -/
theorem sectionsOf_lines {s : Schema} (hs : s.Spelled) :
    rust.sectionsOf (sourceText (lines s)) = (dialect.decls s).flatMap declSections := by
  have hpackage : ∀ l ∈ bareLines (s.package.map fun name => s!"pub mod {avoid keywords name} \x7b"),
      rust.reader.opens l = none := by
    rw [forall_bareLines, List.forall_mem_map]
    intro name _
    simp
  have himports : ∀ l ∈ bareLines (imports s), rust.reader.opens l = none := by
    refine forall_bareLines_ite (P := fun l => rust.reader.opens l = none) (by simp [bareLines]) ?_
    simp only [bareLines_append, List.forall_mem_append]
    refine ⟨⟨⟨opens_note (by decide) rfl, opens_note (by decide) rfl⟩, opens_note (by decide) rfl⟩, ?_⟩
    rw [forall_bareLines, List.forall_mem_singleton, bare, String.toList_ofList]
    simp
  have hends : ∀ l ∈ bareLines (s.package.map fun _ => "\x7d"), rust.reader.opens l = none := by
    rw [forall_bareLines, List.forall_mem_map]
    intro _ _
    simp
  have hdecls : ∀ d ∈ dialect.decls s, ∀ rest,
      sections rust.reader none (bareLines (declLines d) ++ rest) =
        declSections d ++ sections rust.reader none rest :=
    fun d hd => sections_declLines (tidy_dialect.decls hs d hd)
  rw [rust.sectionsOf_eq rfl, linesOf_sourceText (by simp [lines]) (flat_lines hs)]
  simp only [lines, bareLines_append, bareLines_cons, bareLines_flatMap, List.append_assoc,
    List.cons_append, List.nil_append]
  rw [sections_cons, sections_cons, sections_quiet hpackage, sections_quiet himports,
    sections_flatMap hdecls, sections_quiet hends, sections_cons]
  · rw [sections, List.append_nil]
  all_goals
    simp

/-! ## Enums -/

theorem choice?_choiceLines {c : Choice} (h : Tidy .plain (.choice c)) :
    rust.choice? c.name.toList (bareLines (c.variants.map fun v => v.name ++ ","))
      ("match self \x7b".toList :: bareLines ((indexLookup c).arrows id))
      ("match index \x7b".toList :: bareLines ((valueLookup c).arrows fun v => s!"Ok({v})")) =
      some (c.outline .maps true) := by
  have hunbroken : ∀ x ∈ qualified c, Unbroken x.toList :=
    unbroken_qualified h (by simp)
  have hother : starts "Err(" (s!"Err(LookupError::Index \x7b enum_name: \"{c.name}\", index \x7d)").toList
      = true := by simp
  refine choice?_eq (f := fun x => s!"{c.name}::{x}") (g := .ofPattern) ?_ ?_ ?_ ?_ ?_
  · simp only [rust, bareLines, List.map_map]
    exact mapM_map fun v hv => before?_bare (unbroken_of_isWord (h.2.2 v hv).2.1) ","
  · simp only [rust, under?_cons, Option.bind_some]
    exact mapM_indexArms hunbroken (fun _ => rfl) (by simp)
  · simp only [rust, under?_cons, Option.bind_some]
    refine mapM_valueArms ?_ hother
    intro x _
    simp only [toString_text, String.toList_append, List.append_assoc]
    exact between?_append "Ok(" ")" x.toList
  · intro v _
    exact unqualified_append c.name "::" v.name
  · intro v _
    exact mapPattern_qualified ⟨':', by simp [rust], by decide⟩ v.name

/-! ## Objects -/

theorem renamedSlots?_tag (key : String) (rest : List Line) :
    renamedSlots? none (bare s!"#[serde(rename = \"{key}\")]" :: rest) =
      renamedSlots? (some key.toList) rest := by
  have hline : bare s!"#[serde(rename = \"{key}\")]" =
      "#[serde(rename = \"".toList ++ (key.toList ++ "\")]".toList) := bare_start rfl _ _
  rw [renamedSlots?, hline, between?_append]

theorem renamedSlots?_slot {member : String} (hmember : IsWord member.toList) (type : String)
    (key : Option Line) (rest : List Line) :
    renamedSlots? key (bare s!"pub {member}: {type}," :: rest) =
      (renamedSlots? none rest).map
        (⟨member, type, some (.ofList (key.getD member.toList))⟩ :: ·) := by
  have hline : bare s!"pub {member}: {type}," =
      "pub ".toList ++ ((member.toList ++ (": ".toList ++ type.toList)) ++ ",".toList) := by simp
  have htag : between? "#[serde(rename = \"" "\")]" (bare s!"pub {member}: {type},") = none := by
    rw [hline]
    simp
  rw [renamedSlots?, htag, hline, between?_append]
  simp only [Option.bind_eq_bind, Option.bind_some]
  rw [annotated?_append hmember]
  cases renamedSlots? none rest <;> simp

theorem renamedSlots?_slotLines {slots : List Slot} (h : ∀ f ∈ slots, IsWord f.member.toList) :
    renamedSlots? none (bareLines (slots.flatMap slotLines)) =
      some (slots.map fun f => ⟨f.member, f.type, some f.key⟩) := by
  induction slots with
  | nil => rfl
  | cons f fs ih =>
    have hf := h f List.mem_cons_self
    have hrest := ih fun g hg => h g (List.mem_cons_of_mem f hg)
    rw [List.flatMap_cons, bareLines_append, slotLines, List.map_cons]
    by_cases hsame : f.member = f.key
    · rw [if_pos hsame, List.nil_append, bareLines_cons, bareLines_nil, List.singleton_append,
        renamedSlots?_slot hf, hrest, Option.getD_none, String.ofList_toList, ← hsame]
      rfl
    · rw [if_neg hsame, List.singleton_append, bareLines_cons, bareLines_cons, bareLines_nil,
        List.cons_append, List.singleton_append, renamedSlots?_tag, renamedSlots?_slot hf, hrest,
        Option.getD_some, String.ofList_toList]
      rfl

/-- What source text says about an object. -/
def outline (r : Record) : RecordOutline where
  name := r.name
  members := r.slots.map fun f => ⟨f.member, f.type, some f.key⟩
  params := r.slots.map fun f => (f.param, some f.type)
  assigned := r.slots.map fun f => (f.param, f.param)
  encoded := []
  decoded := []

theorem record?_recordLines {r : Record} (h : Tidy .plain (.record r)) :
    rust.record? r.name.toList (bareLines (r.slots.flatMap slotLines)) (params r).toList
      ("Self \x7b".toList :: bareLines (r.slots.map fun s => s.param ++ ",")) [] [] =
      some (outline r) := by
  have hslots : rust.slots (bareLines (r.slots.flatMap slotLines)) =
      some (r.slots.map fun f => ⟨f.member, f.type, some f.key⟩) :=
    renamedSlots?_slotLines fun f hf => (h.2 f hf).2.2.1
  have hparams : (items (params r).toList).mapM rust.param =
      some (r.slots.map fun f => (f.param, some f.type)) := mapM_annotated? h
  have hassigned : rust.assigned ("Self \x7b".toList :: bareLines (r.slots.map fun s => s.param ++ ",")) =
      some (r.slots.map fun f => (f.param, f.param)) := by
    have hnames : (bareLines (r.slots.map fun s => s.param ++ ",")).mapM (before? ",") =
        some (r.slots.map fun f => f.param.toList) := by
      rw [bareLines, List.map_map]
      exact mapM_map fun f hf => before?_bare (unbroken_of_isWord (h.2 f hf).2.2.2.1) ","
    simp only [rust, under?_cons, Option.bind_eq_bind, Option.bind_some, hnames]
    simp [Function.comp_def]
  rw [Language.record?, hslots, hparams, hassigned, String.ofList_toList]
  rfl

/-! ## Files -/

theorem fresh_declSections (d : Decl) : Fresh (declSections d) := by
  cases d <;> simp [Fresh, declSections]

theorem choices_lines {s : Schema} (hs : s.Spelled) :
    rust.choicesIn (rust.sectionsOf (sourceText (lines s))) =
      some (s.enums.map fun e => (dialect.choice e).outline .maps true) := by
  rw [sectionsOf_lines hs]
  exact choices_decls tidy_dialect hs rfl fresh_declSections
    (fun g _ _ => choicesIn_skip (by simp [declSections]))
    (fun c h _ _ hcs => choicesIn_choice (choice?_choiceLines h) hcs)
    (fun r _ _ => choicesIn_skip (by simp [declSections]))

theorem records_lines {s : Schema} (hs : s.Spelled) :
    rust.recordsIn (rust.sectionsOf (sourceText (lines s))) =
      some (s.objects.map fun o => outline (dialect.record s o)) := by
  rw [sectionsOf_lines hs]
  exact records_decls tidy_dialect hs rfl fresh_declSections
    (fun g _ _ => recordsIn_skip (by simp [declSections]))
    (fun c _ _ => recordsIn_skip (by simp [declSections]))
    (fun r h _ _ hrest hrs => recordsIn_construct (record?_recordLines h) hrest hrs)

end Idl.Rust
