import Mathlib
import Idl.Proofs.Outline.Words
import Idl.Target.Render

/-!
# Reading source text

Source text is read line by line, without the blanks before each line. Some lines open a section,
which lasts until a line that closes it. A reader knows these lines for a target.

* `linesOf`: the lines of a source text.
* `sections`: the sections that a reader finds.
* `sections_quiet`, `sections_open`, `sections_body`, `sections_close`: how sections follow from the
  lines.
* `splitOn_sourceText`, `linesOf_sourceText`: lines without line ends are found again.
-/

namespace Idl

open Lexeme

/-- A line of source text. -/
abbrev Line := List Char

namespace Outline

/-- A blank before a line. -/
@[simp] def isMargin (c : Char) : Bool := c == ' ' || c == '\t'

/-- The lines of a source text, without the blanks before them. -/
def linesOf (source : String) : List Line :=
  (source.toList.splitOn '\n').map (List.dropWhile isMargin)

/-! ## Parts of a line -/

/-- What follows a text at the beginning of a line. -/
@[simp] def after? (start : String) (l : Line) : Option Line := start.toList.isPrefixOf? l

/-- What precedes a text at the end of a line. -/
def before? (stop : String) (l : Line) : Option Line :=
  (stop.toList.reverse.isPrefixOf? l.reverse).map List.reverse

/-- What stands between two texts that begin and end a line. -/
def between? (start stop : String) (l : Line) : Option Line :=
  (after? start l).bind (before? stop)

/-- Splits off the word at the beginning of a line. -/
def word? (l : Line) : Option (Line × Line) :=
  if l.takeWhile isNamePart = [] then none
  else some (l.takeWhile isNamePart, l.dropWhile isNamePart)

/-- The word that stands between two texts that make up the rest of a line. -/
def named? (start stop : String) (l : Line) : Option Line :=
  (after? start l).bind fun r => (word? r).bind fun w => if w.2 = stop.toList then some w.1 else none

/-! ## Fixed texts

A line is made of fixed texts and names. What it begins with is computed up to its first name. -/

@[simp] theorem isPrefixOf?_nil_left (x : Line) : [].isPrefixOf? x = some x := by
  cases x <;> rfl

@[simp] theorem isPrefixOf?_nil_right (c : Char) (x : Line) : (c :: x).isPrefixOf? [] = none := by
  simp [List.isPrefixOf?]

@[simp] theorem isPrefixOf?_cons_self (c : Char) (x y : Line) :
    (c :: x).isPrefixOf? (c :: y) = x.isPrefixOf? y := by simp [List.isPrefixOf?]

@[simp] theorem isPrefixOf?_cons_of_ne {c d : Char} (h : c ≠ d) (x y : Line) :
    (c :: x).isPrefixOf? (d :: y) = none := by simp [List.isPrefixOf?, h]

@[simp] theorem between?_eq_none {start : String} {l : Line} (h : after? start l = none)
    (stop : String) : between? start stop l = none := by
  rw [between?, h, Option.bind_none]

@[simp] theorem named?_eq_none {start : String} {l : Line} (h : after? start l = none)
    (stop : String) : named? start stop l = none := by
  rw [named?, h, Option.bind_none]

/-! ## Sections -/

/-- What a section is about. -/
inductive Heading where
  /-- The members of an enum. -/
  | choice (name : Line)
  /-- The index of a member. -/
  | index
  /-- The member at an index. -/
  | value
  /-- Constants, or a class of look-ups. -/
  | group (name : Line)
  /-- The members of an object. -/
  | record (name : Line)
  /-- The constructor of an object. -/
  | construct (params : Line)
  /-- The encoded form of an object. -/
  | encode
  /-- The object of an encoded form. -/
  | decode
  deriving DecidableEq

/-- The lines that open and close sections. -/
structure Reader where
  opens : Line → Option Heading
  closes : Heading → Line → Bool

/-- The sections in the rest of a text, with the lines in them. A line that closes a section may open
the next one. -/
def sections (r : Reader) : Option (Heading × List Line) → List Line → List (Heading × List Line)
  | none, [] => []
  | some s, [] => [s]
  | none, l :: ls => sections r ((r.opens l).map (·, [])) ls
  | some (h, body), l :: ls =>
    if r.closes h l then (h, body) :: sections r ((r.opens l).map (·, [])) ls
    else sections r (some (h, body ++ [l])) ls

variable {r : Reader} {h : Heading} {l : Line} {body ls rest : List Line}

theorem sections_open (hl : r.opens l = some h) :
    sections r none (l :: rest) = sections r (some (h, [])) rest := by
  rw [sections, hl, Option.map_some]

theorem sections_step (hl : r.closes h l = false) :
    sections r (some (h, body)) (l :: rest) = sections r (some (h, body ++ [l])) rest := by
  rw [sections, hl, if_neg Bool.false_ne_true]

theorem sections_body (hls : ∀ l ∈ ls, r.closes h l = false) :
    sections r (some (h, body)) (ls ++ rest) = sections r (some (h, body ++ ls)) rest := by
  induction ls generalizing body with
  | nil => simp
  | cons l ls ih =>
    rw [List.cons_append, sections_step (hls l List.mem_cons_self),
      ih fun x hx => hls x (List.mem_cons_of_mem l hx), List.append_assoc, List.singleton_append]

theorem sections_close (hl : r.closes h l = true) :
    sections r (some (h, body)) (l :: rest) = (h, body) :: sections r none (l :: rest) := by
  simp only [sections, hl, if_true]

theorem sections_cons (hl : r.opens l = none) :
    sections r none (l :: rest) = sections r none rest := by
  rw [sections, hl, Option.map_none]

/-- Lines that open nothing are passed over. -/
theorem sections_quiet (hls : ∀ l ∈ ls, r.opens l = none) :
    sections r none (ls ++ rest) = sections r none rest := by
  induction ls with
  | nil => rfl
  | cons l ls ih =>
    rw [List.cons_append, sections_cons (hls l List.mem_cons_self),
      ih fun x hx => hls x (List.mem_cons_of_mem l hx)]

theorem sections_flatMap {α : Type} {f : α → List Line} {g : α → List (Heading × List Line)}
    {as : List α}
    (hf : ∀ a ∈ as, ∀ rest, sections r none (f a ++ rest) = g a ++ sections r none rest) :
    sections r none (as.flatMap f ++ rest) = as.flatMap g ++ sections r none rest := by
  induction as with
  | nil => rfl
  | cons a as ih =>
    rw [List.flatMap_cons, List.flatMap_cons, List.append_assoc, List.append_assoc,
      hf a List.mem_cons_self, ih fun b hb => hf b (List.mem_cons_of_mem a hb)]

/-! ## Lines as they are written -/

/-- A line without the blanks before it. -/
@[simp] def bare (l : String) : Line := l.toList.dropWhile isMargin

/-- Lines without the blanks before them. -/
def bareLines (ls : List String) : List Line := ls.map bare

@[simp] theorem toString_text (s : String) : toString s = s := rfl

theorem bareLines_nil : bareLines [] = [] := rfl

theorem bareLines_cons (l : String) (ls : List String) :
    bareLines (l :: ls) = bare l :: bareLines ls := rfl

theorem bareLines_append (ls ls' : List String) :
    bareLines (ls ++ ls') = bareLines ls ++ bareLines ls' := List.map_append

theorem bareLines_flatMap {α : Type} (f : α → List String) (as : List α) :
    bareLines (as.flatMap f) = as.flatMap fun a => bareLines (f a) := List.map_flatMap

theorem bare_margin {m : String} (hm : ∀ c ∈ m.toList, isMargin c = true) (l : String) :
    bare (m ++ l) = bare l := by
  rw [bare, String.toList_append, List.dropWhile_append_of_pos hm]
  rfl

theorem bareLines_indent {m : String} (hm : ∀ c ∈ m.toList, isMargin c = true) (ls : List String) :
    bareLines (indent m ls) = bareLines ls := by
  rw [bareLines, indent, List.map_map]
  apply List.map_congr_left
  intro l _
  rw [Function.comp_apply]
  split
  · rfl
  · exact bare_margin hm l

theorem forall_bareLines {P : Line → Prop} {ls : List String} :
    (∀ l ∈ bareLines ls, P l) ↔ ∀ l ∈ ls, P (bare l) := List.forall_mem_map

theorem spaced_append (bs bs' : List (List String)) :
    spaced (bs ++ bs') = spaced bs ++ spaced bs' := List.flatMap_append

theorem bareLines_spaced {α : Type} (f : α → List String) (as : List α) :
    bareLines (spaced (as.map f)) = as.flatMap fun a => bare "" :: bareLines (f a) := by
  rw [spaced, List.flatMap_map, bareLines_flatMap]
  rfl

theorem forall_bareLines_ite {P : Line → Prop} {p : Prop} [Decidable p] {ls ls' : List String}
    (hls : ∀ l ∈ bareLines ls, P l) (hls' : ∀ l ∈ bareLines ls', P l) :
    ∀ l ∈ bareLines (if p then ls else ls'), P l := by
  split
  · exact hls
  · exact hls'

theorem forall_labels {P : Line → Prop} {l : Lookup} {m : String} {f : String → String}
    (hm : ∀ c ∈ m.toList, isMargin c = true) (hcase : ∀ a : String, P (bare s!"case {a}:"))
    (hresult : ∀ a, P (bare (f a))) (hdefault : P (bare "default:"))
    (hother : ∀ e ∈ l.otherwise, P (bare e)) : ∀ x ∈ bareLines (l.labels m f), P x := by
  rw [Lookup.labels, bareLines_append, List.forall_mem_append, bareLines_flatMap]
  constructor
  · intro x hx
    obtain ⟨a, -, hx⟩ := List.mem_flatMap.1 hx
    rw [bareLines_cons, bareLines_cons, bareLines_nil, bare_margin hm, List.mem_cons,
      List.mem_singleton] at hx
    rcases hx with rfl | rfl
    · exact hcase a.1
    · exact hresult a.2
  · split
    · simp [bareLines]
    · rw [bareLines_cons, List.forall_mem_cons, bareLines_indent hm, forall_bareLines]
      exact ⟨hdefault, hother⟩

/-! ## Lines without line ends -/

/-- A text without a line end. -/
def Flat (l : String) : Prop := '\n' ∉ l.toList

theorem intercalate_snoc_nil (ls : List (List Char)) (hls : ls ≠ []) :
    ['\n'].intercalate ls ++ ['\n'] = ['\n'].intercalate (ls ++ [[]]) := by
  induction ls with
  | nil => exact absurd rfl hls
  | cons l ls ih =>
    cases ls with
    | nil => simp [List.intercalate]
    | cons l' ls =>
      have hrest := ih (List.cons_ne_nil l' ls)
      simp only [List.intercalate_cons_cons, List.cons_append, List.append_assoc] at hrest ⊢
      rw [hrest]

theorem splitOn_sourceText {ls : List String} (hne : ls ≠ []) (hls : ∀ l ∈ ls, Flat l) :
    (sourceText ls).toList.splitOn '\n' = ls.map String.toList ++ [[]] := by
  have hend : ("\n" : String).toList = ['\n'] := String.toList_ofList
  have hflat : ∀ l ∈ ls.map String.toList ++ [[]], '\n' ∉ l := by
    intro l hl
    rcases List.mem_append.1 hl with hl | hl
    · obtain ⟨x, hx, rfl⟩ := List.mem_map.1 hl
      exact hls x hx
    · rw [List.mem_singleton.1 hl]
      exact List.not_mem_nil
  rw [sourceText, String.toList_append, String.toList_intercalate, hend,
    intercalate_snoc_nil _ (by simpa using hne), List.splitOn_intercalate _ hflat (by simp)]

theorem linesOf_sourceText {ls : List String} (hne : ls ≠ []) (hls : ∀ l ∈ ls, Flat l) :
    linesOf (sourceText ls) = bareLines ls ++ [[]] := by
  rw [linesOf, splitOn_sourceText hne hls]
  simp [bareLines, Function.comp_def]

end Outline

end Idl
