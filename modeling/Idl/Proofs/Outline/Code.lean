import Mathlib
import Idl.Proofs.Outline.Package
import Idl.Proofs.Schema.Spellings

/-!
# Code in a source text

What stands in the literals and comments of a Go source text is no code. The text is read character
by character to tell them apart.

* `Go.Place`, `Go.Place.step`: where a character stands.
* `Go.code`: the code of a source text, with a blank for every literal.
* `Go.Spans`: texts that begin and end in code.
* `Go.Uses`: code names something in a package.
* `Go.Calls`: lines that leave no literal or comment open, with the packages that they use at most.
* **`Go.uses_code_iff`**: a file of such lines uses a package if one of its lines does.
-/

namespace Idl.Go

open Computability Outline Lexeme

/-! ## Places -/

/-- What a character of a source text belongs to. -/
inductive Place where
  | code
  /-- A slash was read that may begin a comment. -/
  | slash
  /-- A comment up to the end of its line. -/
  | note
  /-- A comment between marks. -/
  | comment
  /-- A star was read that may end such a comment. -/
  | star
  /-- A literal with escapes, up to a mark. -/
  | literal (mark : Char)
  /-- A backslash was read in such a literal. -/
  | escape (mark : Char)
  /-- A literal without escapes. -/
  | raw
  deriving DecidableEq

/-- The place after a character of code, and the code that is certain then. -/
def stepCode (c : Char) : Place × Line :=
  if c = '/' then (.slash, [])
  else if c = '"' ∨ c = '\x27' then (.literal c, [])
  else if c = '\x60' then (.raw, [])
  else (.code, [c])

/-- The place after a character, and the code that is certain then. A literal is a blank in it. -/
def Place.step : Place → Char → Place × Line
  | code, c => stepCode c
  | slash, c =>
    if c = '/' then (note, [])
    else if c = '*' then (comment, [])
    else ((stepCode c).1, '/' :: (stepCode c).2)
  | note, c => if c = '\n' then (code, ['\n']) else (note, [])
  | comment, c => (if c = '*' then star else comment, [])
  | star, c => if c = '/' then (code, [' ']) else (if c = '*' then star else comment, [])
  | literal mark, c =>
    if c = '\n' then (code, ['\n'])
    else if c = mark then (code, [' '])
    else (if c = '\\' then escape mark else literal mark, [])
  | escape mark, _ => (literal mark, [])
  | raw, c => if c = '\x60' then (code, [' ']) else (raw, [])

/-- The place after a text, and the code in it. -/
def walk : Place → Line → Place × Line
  | p, [] => (p, [])
  | p, c :: l => ((walk (p.step c).1 l).1, (p.step c).2 ++ (walk (p.step c).1 l).2)

/-- The code of a source text. -/
def code (source : String) : Line := (walk .code source.toList).2

theorem walk_append (p : Place) (x y : Line) :
    walk p (x ++ y) = ((walk (walk p x).1 y).1, (walk p x).2 ++ (walk (walk p x).1 y).2) := by
  induction x generalizing p with
  | nil => rfl
  | cons c x ih => simp only [List.cons_append, walk, ih, List.append_assoc]

/-! ## Texts between code -/

/-- The text begins and ends in code, and its code is `out`. -/
def Spans (x out : Line) : Prop := walk .code x = (.code, out)

theorem Spans.append {x y out out' : Line} (h : Spans x out) (h' : Spans y out') :
    Spans (x ++ y) (out ++ out') := by
  rw [Spans, walk_append, show walk .code x = _ from h, show walk .code y = _ from h']

/-- A character that is code by itself. -/
def isPlain (c : Char) : Bool := c != '/' && c != '"' && c != '\x27' && c != '\x60'

theorem spans_of_plain {x : Line} (h : ∀ c ∈ x, isPlain c = true) : Spans x x := by
  induction x with
  | nil => rfl
  | cons c x ih =>
    rw [List.forall_mem_cons] at h
    have hstep : Place.step .code c = (.code, [c]) := by
      have hc := h.1
      simp only [isPlain, Bool.and_eq_true, bne_iff_ne] at hc
      simp [Place.step, stepCode, hc.1.1.1, hc.1.1.2, hc.1.2, hc.2]
    rw [Spans, walk, hstep, show walk .code x = _ from ih h.2]
    rfl

theorem isPlain_of {kind : Char → Bool} (hslash : kind '/' = false) (hquote : kind '"' = false)
    (hrune : kind '\x27' = false) (hraw : kind '\x60' = false) {c : Char} (h : kind c = true) :
    isPlain c = true := by
  have hne : ∀ {d : Char}, kind d = false → (c != d) = true := by
    intro d hd
    rw [bne_iff_ne]
    rintro rfl
    rw [h] at hd
    cases hd
  rw [isPlain, hne hslash, hne hquote, hne hrune, hne hraw]
  rfl

theorem isPlain_of_isNamePart {c : Char} (h : isNamePart c = true) : isPlain c = true :=
  isPlain_of (by decide) (by decide) (by decide) (by decide) h

theorem spans_quoted {x : Line} (hx : x ∈ Pattern.quoted) : Spans x [' '] := by
  obtain ⟨u, hu, rfl⟩ := Pattern.mem_quoted.1 hx
  obtain ⟨units, rfl, hunits⟩ := Language.mem_kstar.1 hu
  -- every unit leads back into the literal
  have hstay : ∀ unit ∈ units, walk (.literal '"') unit = (.literal '"', []) := by
    intro unit hunit
    rcases hunits unit hunit with ⟨c, hc, rfl⟩ | hunit
    · simp only [Bool.and_eq_true, bne_iff_ne] at hc
      simp [walk, Place.step, hc.1.1, hc.1.2, hc.2]
    · obtain ⟨_, ⟨d, hd, rfl⟩, _, ⟨c, -, rfl⟩, rfl⟩ := Language.mem_mul.1 hunit
      obtain rfl := eq_of_beq hd
      rfl
  have hwalk : walk (.literal '"') units.flatten = (.literal '"', []) := by
    clear hx hu hunits
    induction units with
    | nil => rfl
    | cons unit units ih =>
      rw [List.forall_mem_cons] at hstay
      rw [List.flatten_cons, walk_append, hstay.1, ih hstay.2]
      rfl
  have hopen : walk .code ['"'] = (.literal '"', []) := rfl
  rw [Spans, ← List.singleton_append, walk_append, hopen, walk_append, hwalk]
  rfl

theorem spans_quote (s : String) : Spans (Text.quote s).toList [' '] :=
  spans_quoted (Pattern.quote_mem_quoted s)

/-- A character that stands for itself between quotes. -/
def isInner (c : Char) : Bool := c != '"' && c != '\\' && c != '\n'

theorem spans_text {x : Line} (h : ∀ c ∈ x, isInner c = true) :
    Spans ('"' :: (x ++ ['"'])) [' '] := by
  have hplain : x ∈ (Pattern.char isInner)∗ := Pattern.mem_star.2 h
  have hunits : x ∈ Pattern.quotedUnit∗ :=
    (kstar_mono le_self_add : _ ≤ Pattern.quotedUnit∗) hplain
  exact spans_quoted (Pattern.mem_quoted.2 ⟨x, hunits, rfl⟩)

theorem spans_raw {x : Line} (hx : '\x60' ∉ x) : Spans ('\x60' :: (x ++ ['\x60'])) [' '] := by
  have hwalk : walk .raw x = (.raw, []) := by
    induction x with
    | nil => rfl
    | cons c x ih =>
      rw [List.mem_cons, not_or] at hx
      rw [walk, Place.step, if_neg (Ne.symm hx.1), ih hx.2]
      rfl
  have hopen : Place.step .code '\x60' = (.raw, []) := rfl
  rw [Spans, walk, hopen, walk_append, hwalk]
  rfl

/-! ## Lines -/

/-- No literal or comment goes on after the line. -/
def Closed (l : String) : Prop := (walk .code (l.toList ++ ['\n'])).1 = .code

/-- The code of a line, with its end. -/
def lineCode (l : String) : Line := (walk .code (l.toList ++ ['\n'])).2

theorem Spans.line {l : String} {out : Line} (h : Spans l.toList out) :
    Closed l ∧ lineCode l = out ++ ['\n'] := by
  have hend : Spans ['\n'] ['\n'] := rfl
  exact Prod.mk.inj (h.append hend)

theorem comment_line {l : String} {x : Line} (hl : l.toList = '/' :: '/' :: x) (hflat : Flat l) :
    Closed l ∧ lineCode l = ['\n'] := by
  have hx : '\n' ∉ x := fun hmem => hflat (by rw [hl]; simp [hmem])
  have hwalk : walk .note (x ++ ['\n']) = (.code, ['\n']) := by
    clear hl
    induction x with
    | nil => rfl
    | cons c x ih =>
      rw [List.mem_cons, not_or] at hx
      rw [List.cons_append, walk, Place.step, if_neg (Ne.symm hx.1), ih hx.2]
      rfl
  have hstart : walk .code ['/', '/'] = (.note, []) := rfl
  have hline : walk .code (l.toList ++ ['\n']) = (.code, ['\n']) := by
    rw [hl]
    show walk .code (['/', '/'] ++ (x ++ ['\n'])) = _
    rw [walk_append, hstart, hwalk]
    rfl
  exact Prod.mk.inj hline

/-- A line that leaves nothing open ends in the code. -/
theorem Closed.exists_lineCode {l : String} (h : Closed l) : ∃ x, lineCode l = x ++ ['\n'] := by
  have hstep : ∀ p : Place, (p.step '\n').1 = .code → ∃ y, (p.step '\n').2 = y ++ ['\n'] := by
    intro p hp
    cases p with
    | code | note => exact ⟨[], rfl⟩
    | slash => exact ⟨['/'], rfl⟩
    | literal mark => exact ⟨[], rfl⟩
    | comment | star | escape mark | raw => cases hp
  rw [Closed, walk_append] at h
  obtain ⟨y, hy⟩ := hstep _ h
  refine ⟨(walk .code l.toList).2 ++ y, ?_⟩
  rw [lineCode, walk_append, List.append_assoc, ← hy]
  exact congrArg (_ ++ ·) (List.append_nil _)

theorem toList_sourceText {ls : List String} (hne : ls ≠ []) :
    (sourceText ls).toList = ls.flatMap fun l => l.toList ++ ['\n'] := by
  have hend : ("\n" : String).toList = ['\n'] := String.toList_ofList
  rw [sourceText, String.toList_append, String.toList_intercalate, hend]
  induction ls with
  | nil => exact absurd rfl hne
  | cons l ls ih =>
    cases ls with
    | nil => simp
    | cons m ls =>
      rw [List.map_cons, List.map_cons, List.intercalate_cons_cons, List.append_assoc,
        ← List.map_cons, ih (List.cons_ne_nil m ls)]
      rfl

/-- The code of a file is the code of its lines. -/
theorem code_sourceText {ls : List String} (hne : ls ≠ []) (h : ∀ l ∈ ls, Closed l) :
    code (sourceText ls) = ls.flatMap lineCode := by
  have hwalk : walk .code (ls.flatMap fun l => l.toList ++ ['\n']) =
      (.code, ls.flatMap lineCode) := by
    clear hne
    induction ls with
    | nil => rfl
    | cons l ls ih =>
      rw [List.forall_mem_cons] at h
      rw [List.flatMap_cons, walk_append, show (walk .code (l.toList ++ ['\n'])).1 = .code from h.1,
        ih h.2]
      rfl
  rw [code, toList_sourceText hne, hwalk]

/-! ## Packages -/

/-- The code names something in a package. -/
def Uses (package : String) (x : Line) : Prop := (package ++ ".").toList <:+: x

theorem toList_member (package : String) : (package ++ ".").toList = package.toList ++ ['.'] := by
  rw [String.toList_append, String.toList_ofList]

theorem not_uses {package : String} {x : Line} (h : '.' ∉ x) : ¬ Uses package x := fun hx =>
  h (hx.subset (by rw [toList_member]; simp))

theorem infix_lines_iff {q x y : Line} (hq : '\n' ∉ q) :
    q <:+: (x ++ ['\n']) ++ y ↔ q <:+: x ++ ['\n'] ∨ q <:+: y := by
  constructor
  · rintro ⟨u, v, h⟩
    rcases List.append_eq_append_iff.1 h with ⟨w, hx, -⟩ | ⟨w, huq, rfl⟩
    · exact .inl ⟨u, w, hx.symm⟩
    · -- `q` ends behind the end of the line
      rcases List.append_eq_append_iff.1 huq with ⟨z, hz, hqz⟩ | ⟨z, -, rfl⟩
      · rcases List.eq_nil_or_concat' z with rfl | ⟨z, c, rfl⟩
        · rw [List.nil_append] at hqz
          exact .inr ⟨[], v, by rw [hqz]; rfl⟩
        · have hc : '\n' = c := by
            rw [← List.append_assoc] at hz
            exact (List.append_inj' hz rfl).2 |> List.singleton_inj.1
          exact absurd (by rw [hqz, hc]; simp) hq
      · exact .inr ⟨z, v, rfl⟩
  · rintro (h | h)
    · exact h.trans (List.infix_append' [] _ y)
    · exact h.trans (List.suffix_append _ y).isInfix

theorem Closed.uses_append_iff {l package : String} (h : Closed l) (hp : '\n' ∉ package.toList)
    (x : Line) : Uses package (lineCode l ++ x) ↔ Uses package (lineCode l) ∨ Uses package x := by
  obtain ⟨y, hy⟩ := h.exists_lineCode
  rw [Uses, Uses, Uses, hy]
  apply infix_lines_iff
  rw [toList_member]
  simp [hp]

/-- **A file uses a package if one of its lines does.** -/
theorem uses_code_iff {package : String} (hp : '\n' ∉ package.toList) {ls : List String}
    (hne : ls ≠ []) (h : ∀ l ∈ ls, Closed l) :
    Uses package (code (sourceText ls)) ↔ ∃ l ∈ ls, Uses package (lineCode l) := by
  rw [code_sourceText hne h]
  clear hne
  induction ls with
  | nil => simp [Uses]
  | cons l ls ih =>
    rw [List.forall_mem_cons] at h
    rw [List.flatMap_cons, List.exists_mem_cons_iff, h.1.uses_append_iff hp]
    exact or_congr_right (ih h.2)

/-- The end of the line belongs to no name. -/
theorem Spans.uses_iff {l package : String} {out : Line} (h : Spans l.toList out) :
    Uses package (lineCode l) ↔ Uses package out := by
  rw [h.line.2, Uses, Uses, List.infix_concat_iff]
  refine or_iff_right fun hsuffix => ?_
  rw [toList_member] at hsuffix
  exact absurd (List.suffix_concat_iff.1 hsuffix) (by simp)

/-! ## Letters before points -/

/-- The last letter of a package stands before the point. -/
theorem Uses.pair {package : String} {x : Line} {a : Char} (h : Uses package x)
    (ha : package.toList.getLast? = some a) : [a, '.'] <:+: x := by
  obtain ⟨u, hu⟩ := List.getLast?_eq_some_iff.1 ha
  have hpair : [a, '.'] <:+ (package ++ ".").toList := ⟨u, by rw [toList_member, hu]; simp⟩
  exact hpair.isInfix.trans h

/-- Where a letter stands before a point, if the first part has no points. -/
theorem pair_append {x y : Line} {a : Char} (h : [a, '.'] <:+: x ++ y) (hx : '.' ∉ x) :
    [a, '.'] <:+: y ∨ x.getLast? = some a := by
  obtain ⟨u, v, h⟩ := h
  rcases List.append_eq_append_iff.1 h with ⟨w, rfl, -⟩ | ⟨w, huw, rfl⟩
  · exact absurd (by simp) hx
  · rcases List.append_eq_append_iff.1 huw with ⟨z, rfl, hzw⟩ | ⟨z, rfl, rfl⟩
    · rcases z with _ | ⟨b, z⟩
      · exact .inl ⟨[], v, by rw [hzw]; rfl⟩
      · obtain ⟨rfl, -⟩ := List.cons_eq_cons.1 hzw
        rcases z with _ | ⟨b, z⟩
        · exact .inr (by simp)
        · obtain ⟨-, hz⟩ := List.cons_eq_cons.1 hzw
          obtain ⟨rfl, -⟩ := List.cons_eq_cons.1 hz
          exact absurd (by simp) hx
    · exact .inl ⟨z, v, rfl⟩

/-- The packages that are asked about. -/
def libraries : List String := ["json", "fmt"]

theorem isWord_library {p : String} (hp : p ∈ libraries) : IsWord p.toList := by
  rcases List.mem_cons.1 hp with rfl | hp
  · exact isWord_of_all (by decide) (by decide)
  · obtain rfl := List.mem_singleton.1 hp
    exact isWord_of_all (by decide) (by decide)

/-- The line leaves nothing open and uses no packages but these. -/
structure Calls (ps : List String) (l : String) : Prop where
  closed : Closed l
  only : ∀ p ∈ libraries, Uses p (lineCode l) → p ∈ ps

variable {ps : List String} {l : String} {out : Line}

theorem calls_of_spans (h : Spans l.toList out) (hout : '.' ∉ out) : Calls ps l where
  closed := h.line.1
  only _ _ hp := absurd (h.uses_iff.1 hp) (not_uses hout)

/-- The line is a comment. -/
structure IsNote (l : String) : Prop where
  slashes : ['/', '/'] <+: l.toList
  flat : Flat l

theorem IsNote.append (h : IsNote l) {x : String} (hx : Flat x) : IsNote (l ++ x) where
  slashes := by
    rw [String.toList_append]
    exact h.slashes.trans (List.prefix_append _ _)
  flat := flat_append_iff.2 ⟨h.flat, hx⟩

theorem calls_note (h : IsNote l) : Calls ps l := by
  obtain ⟨x, hx⟩ := h.slashes
  obtain ⟨hclosed, hcode⟩ := comment_line hx.symm h.flat
  refine ⟨hclosed, fun p _ hp => ?_⟩
  rw [hcode] at hp
  exact absurd hp (not_uses (by decide))

/-- A line whose code has one point, behind the name of a package. -/
theorem calls_member {p : String} {x y : Line} (hp : p ∈ libraries)
    (hl : Spans l.toList (x ++ '.' :: y)) (hx : '.' ∉ x) (hy : '.' ∉ y) (hlast : p.toList <:+ x) :
    Calls [p] l ∧ Uses p (lineCode l) := by
  have huses : Uses p (x ++ '.' :: y) := by
    obtain ⟨u, rfl⟩ := hlast
    exact ⟨u, y, by rw [toList_member]; simp⟩
  refine ⟨⟨hl.line.1, fun q hq hq' => ?_⟩, hl.uses_iff.2 huses⟩
  have hword := isWord_library hq
  obtain ⟨u, b, hu⟩ := (List.eq_nil_or_concat' q.toList).resolve_left hword.1
  have hb : q.toList.getLast? = some b := by simp [hu]
  have hpoint : b ≠ '.' := hword.ne_of_mem (by simp [hu]) (by decide)
  rcases pair_append ((hl.uses_iff.1 hq').pair hb) hx with hpair | hpair
  · -- the only point stands at the front of what is left
    rcases List.infix_cons_iff.1 hpair with hpair | hpair
    · exact absurd (List.cons_prefix_cons.1 hpair).1 hpoint
    · exact absurd (hpair.subset (by simp)) hy
  · -- the letter before it is the last one of the package
    have hletter : q.toList.getLast? = p.toList.getLast? := by
      obtain ⟨v, rfl⟩ := hlast
      obtain ⟨w, a, hw⟩ := (List.eq_nil_or_concat' p.toList).resolve_left (isWord_library hp).1
      rw [hb, ← hpair, hw]
      simp
    have hinj : ∀ p ∈ libraries, ∀ q ∈ libraries,
        q.toList.getLast? = p.toList.getLast? → q = p := by decide
    exact List.mem_singleton.2 (hinj p hp q hq hletter)

theorem walk_margin (l : String) : walk .code ((margin ++ l).toList ++ ['\n']) =
    ((walk .code (l.toList ++ ['\n'])).1, '\t' :: (walk .code (l.toList ++ ['\n'])).2) := by
  rw [String.toList_append, margin, String.toList_ofList]
  rfl

theorem uses_margin_iff {p : String} (hp : p ∈ libraries) :
    Uses p (lineCode (margin ++ l)) ↔ Uses p (lineCode l) := by
  have hcode : lineCode (margin ++ l) = '\t' :: lineCode l := congrArg Prod.snd (walk_margin l)
  rw [hcode, Uses, Uses, List.infix_cons_iff]
  refine or_iff_right fun hprefix => ?_
  obtain ⟨c, cs, hcs, hc⟩ := (isWord_library hp).exists_cons
  rw [toList_member, hcs] at hprefix
  obtain ⟨rfl, -⟩ := List.cons_prefix_cons.1 hprefix
  exact absurd hc (by decide)

theorem calls_margin_iff : Calls ps (margin ++ l) ↔ Calls ps l := by
  have hclosed : Closed (margin ++ l) ↔ Closed l := by rw [Closed, Closed, walk_margin]
  constructor
  · rintro ⟨hc, honly⟩
    exact ⟨hclosed.1 hc, fun p hp h => honly p hp ((uses_margin_iff hp).2 h)⟩
  · rintro ⟨hc, honly⟩
    exact ⟨hclosed.2 hc, fun p hp h => honly p hp ((uses_margin_iff hp).1 h)⟩

/-- Lines that leave nothing open and use no packages but these. -/
def CallsLines (ps ls : List String) : Prop := ∀ l ∈ ls, Calls ps l

variable {ls ls' : List String}

theorem callsLines_nil : CallsLines ps [] := List.forall_mem_nil _

theorem callsLines_cons : CallsLines ps (l :: ls) ↔ Calls ps l ∧ CallsLines ps ls :=
  List.forall_mem_cons

theorem callsLines_append : CallsLines ps (ls ++ ls') ↔ CallsLines ps ls ∧ CallsLines ps ls' :=
  List.forall_mem_append

theorem callsLines_indent : CallsLines ps (indent margin ls) ↔ CallsLines ps ls := by
  rw [CallsLines, indent, List.forall_mem_map]
  apply forall₂_congr
  intro l _
  split
  · rfl
  · exact calls_margin_iff

/-- Some line uses a package. -/
def UsedIn (package : String) (ls : List String) : Prop := ∃ l ∈ ls, Uses package (lineCode l)

theorem UsedIn.mono {package : String} (h : UsedIn package ls) (hls : ls ⊆ ls') :
    UsedIn package ls' := by
  obtain ⟨l, hl, huses⟩ := h
  exact ⟨l, hls hl, huses⟩

theorem UsedIn.indent {package : String} (h : UsedIn package ls) (hp : package ∈ libraries) :
    UsedIn package (indent margin ls) := by
  obtain ⟨l, hl, huses⟩ := h
  refine ⟨_, List.mem_map_of_mem hl, ?_⟩
  split
  · exact huses
  · exact (uses_margin_iff hp).2 huses

theorem UsedIn.nest {package : String} (h : UsedIn package ls) (hp : package ∈ libraries)
    (head : String) : UsedIn package (nest head ls) :=
  (h.indent hp).mono (by simp [Go.nest, block])

/-! ## Texts made of certain characters -/

/-- All characters of the text are such. -/
def MadeOf (ok : Char → Bool) (x : String) : Prop := ∀ c ∈ x.toList, ok c = true

section MadeOf

variable {ok : Char → Bool} {x y : String}

theorem madeOf_append_iff : MadeOf ok (x ++ y) ↔ MadeOf ok x ∧ MadeOf ok y := by
  rw [MadeOf, String.toList_append, List.forall_mem_append]
  rfl

theorem madeOf_ofList {cs : List Char} (h : cs.all ok = true) : MadeOf ok (String.ofList cs) := by
  rw [MadeOf, String.toList_ofList]
  exact List.all_eq_true.1 h

theorem madeOf_intercalate {sep : String} {xs : List String} (hsep : MadeOf ok sep)
    (h : ∀ x ∈ xs, MadeOf ok x) : MadeOf ok (sep.intercalate xs) := by
  intro c hc
  -- a character that is not such stands in no part
  by_contra hbad
  exact not_mem_intercalate (fun hmem => hbad (hsep c hmem))
    (fun x hx hmem => hbad (h x hx c hmem)) hc

theorem madeOf_digits (hok : ∀ c, c.isDigit = true → ok c = true) {ds : List Char}
    (h : Decimal.Digits ds) : MadeOf ok (String.ofList ds) :=
  madeOf_ofList (List.all_eq_true.2 fun c hc => hok c (h c hc))

theorem madeOf_toString (hok : ∀ c, c.isDigit = true → ok c = true) (hminus : ok '-' = true)
    (i : ℤ) : MadeOf ok (toString i) := by
  have hdigits : ∀ n, ∀ c ∈ Nat.toDigits 10 n, ok c = true := fun n c hc =>
    hok c (Decimal.digits_toDigits n c hc)
  rw [MadeOf, Decimal.toList_toString_int]
  split
  · exact hdigits _
  · exact List.forall_mem_cons.2 ⟨hminus, hdigits _⟩

end MadeOf

/-- A character that is code by itself, and no point. -/
def isQuiet (c : Char) : Bool := isPlain c && c != '.'

theorem isQuiet_iff {c : Char} : isQuiet c = true ↔ isPlain c = true ∧ c ≠ '.' := by
  rw [isQuiet, Bool.and_eq_true, bne_iff_ne]

/-- The text is code without points. -/
abbrev Plain (x : String) : Prop := MadeOf isQuiet x

theorem Plain.spans {x : String} (h : Plain x) : Spans x.toList x.toList :=
  spans_of_plain fun c hc => (isQuiet_iff.1 (h c hc)).1

theorem Plain.not_mem {x : String} (h : Plain x) : '.' ∉ x.toList := fun hmem =>
  (isQuiet_iff.1 (h _ hmem)).2 rfl

theorem calls_plain (h : Plain l) : Calls ps l := calls_of_spans h.spans h.not_mem

theorem plain_of_isWord {x : String} (h : IsWord x.toList) : Plain x := fun c hc =>
  isQuiet_iff.2 ⟨isPlain_of_isNamePart (h.2 c hc), h.ne_of_mem hc (by decide)⟩

theorem plain_pad {x : String} (h : Plain x) (width : ℕ) : Plain (pad width x) :=
  madeOf_append_iff.2 ⟨h, madeOf_ofList (List.all_eq_true.2 fun c hc => by
    rw [List.eq_of_mem_replicate hc]
    rfl)⟩

end Idl.Go
