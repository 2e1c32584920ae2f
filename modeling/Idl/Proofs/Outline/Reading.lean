import Mathlib
import Idl.Proofs.Outline.Languages

/-!
# Reading what is written

Each way to read a part of a line undoes the way in which the part is written.

* `Unbroken`: a text without blanks, such as a name, a member of an enum or a number.
* `mapM_arrowArm?`, `labelArms?_labels`: look-ups.
* `items_commas`: lists with commas.
* `flatMap_eq_some`: declarations one after the other.
-/

namespace Idl

open Lexeme

namespace Outline

variable {x y z w : Line} {c : Char}

/-! ## Parts of a line -/

theorem after?_append (p : String) (x : Line) : after? p (p.toList ++ x) = some x :=
  List.isPrefixOf?_eq_some_iff_append_eq.2 rfl

theorem before?_append (q : String) (x : Line) : before? q (x ++ q.toList) = some x := by
  rw [before?, List.reverse_append, List.isPrefixOf?_eq_some_iff_append_eq.2 rfl, Option.map_some,
    List.reverse_reverse]

theorem between?_append (p q : String) (x : Line) :
    between? p q (p.toList ++ (x ++ q.toList)) = some x := by
  rw [between?, after?_append, Option.bind_some, before?_append]

/-- A line that does not begin with a text does not begin with a longer one. -/
theorem after?_eq_none {p q : String} {l y : Line} (hq : q.toList = p.toList ++ y)
    (hl : after? p l = none) : after? q l = none := by
  rw [Option.eq_none_iff_forall_ne_some] at hl ⊢
  intro z hz
  rw [after?, List.isPrefixOf?_eq_some_iff_append_eq, hq, List.append_assoc] at hz
  exact hl (y ++ z) (List.isPrefixOf?_eq_some_iff_append_eq.2 hz)

theorem takeWhile_append_stops {f : Char → Bool} (hx : ∀ c ∈ x, f c = true) (hy : Stops f y) :
    (x ++ y).takeWhile f = x := by
  rw [List.takeWhile_append_of_pos hx]
  cases y with
  | nil => simp
  | cons c y => rw [List.takeWhile_cons_of_neg (by simpa using stops_cons.1 hy), List.append_nil]

theorem dropWhile_append_stops {f : Char → Bool} (hx : ∀ c ∈ x, f c = true) (hy : Stops f y) :
    (x ++ y).dropWhile f = y := by
  rw [List.dropWhile_append_of_pos hx]
  cases y with
  | nil => rfl
  | cons c y => rw [List.dropWhile_cons_of_neg (by simpa using stops_cons.1 hy)]

theorem stops_ofList {f : Char → Bool} {u : List Char} (hc : f c = false) :
    Stops f (String.ofList (c :: u)).toList := by
  rw [String.toList_ofList]
  exact stops_cons.2 hc

theorem stops_ofList_append {f : Char → Bool} {u : List Char} (hc : f c = false) :
    Stops f ((String.ofList (c :: u)).toList ++ x) := by
  rw [String.toList_ofList]
  exact stops_cons.2 hc

theorem word?_append (hw : IsWord w) (hx : Stops isNamePart x) : word? (w ++ x) = some (w, x) := by
  rw [word?, takeWhile_append_stops hw.2 hx, dropWhile_append_stops hw.2 hx, if_neg hw.1]

theorem word?_self (hw : IsWord w) : word? w = some (w, []) := by
  have h := word?_append (x := []) hw rfl
  rwa [List.append_nil] at h

theorem named?_append (p q : String) (hw : IsWord w) (hq : Stops isNamePart q.toList) :
    named? p q (p.toList ++ (w ++ q.toList)) = some w := by
  rw [named?, after?_append, Option.bind_some, word?_append hw hq, Option.bind_some, if_pos rfl]

/-- A word that another mark follows than in a given text. -/
theorem isPrefixOf?_word {u v : Line} {a : Char} (hu : ∀ c ∈ u, isNamePart c = true)
    (ha : isNamePart a = false) (hw : ∀ c ∈ w, isNamePart c = true) (hc : isNamePart c = false)
    (hne : a ≠ c) : (u ++ a :: v).isPrefixOf? (w ++ c :: x) = none := by
  rw [Option.eq_none_iff_forall_ne_some]
  intro z hz
  rw [List.isPrefixOf?_eq_some_iff_append_eq, List.append_assoc] at hz
  have hdrop := congrArg (List.dropWhile isNamePart) hz
  rw [dropWhile_append_stops hu (by exact ha), dropWhile_append_stops hw (by exact hc)] at hdrop
  exact hne (List.cons.inj hdrop).1

/-- A word between two texts. -/
theorem bind_word?_append {α : Type} {p q : String} {v : Line} (hw : IsWord w) (hq : q.toList = c :: v)
    (hc : isNamePart c = false) (a : α) (x : Line) :
    ((after? p (p.toList ++ (w ++ (q.toList ++ x)))).bind word?).bind
      (fun r => (after? q r.2).map fun _ => a) = some a := by
  have hstops : Stops isNamePart (q.toList ++ x) := by
    rw [hq]
    exact stops_cons.2 hc
  rw [after?_append, Option.bind_some, word?_append hw hstops, Option.bind_some, after?_append,
    Option.map_some]

theorem bind_word?_eq_none {α : Type} {p : Line} {f : Line × Line → Option α}
    (hw : ∀ c ∈ w, isNamePart c = true) (hp : ∀ c ∈ p, isNamePart c = true)
    (hc : isNamePart c = false) (hf : ∀ u, f (u, c :: x) = none) :
    ((p.isPrefixOf? (w ++ c :: x)).bind word?).bind f = none := by
  rw [Option.eq_none_iff_forall_ne_some]
  intro a ha
  obtain ⟨q, hq, ha⟩ := Option.bind_eq_some_iff.1 ha
  obtain ⟨z, hz, hq⟩ := Option.bind_eq_some_iff.1 hq
  rw [List.isPrefixOf?_eq_some_iff_append_eq] at hz
  -- What is left of the word ends at the same mark.
  have hdrop := congrArg (List.dropWhile isNamePart) hz
  rw [dropWhile_append_stops hw (by exact hc), List.dropWhile_append_of_pos hp] at hdrop
  rw [word?] at hq
  split at hq
  · cases hq
  · rw [hdrop] at hq
    cases hq
    rw [hf] at ha
    cases ha

/-! ## Texts without blanks -/

/-- A text without blanks. -/
def Unbroken (x : Line) : Prop := x ≠ [] ∧ ∀ c ∈ x, isMargin c = false

theorem isMargin_of_isNamePart {c : Char} (h : isNamePart c = true) : isMargin c = false := by
  rw [isMargin, Bool.or_eq_false_iff, beq_eq_false_iff_ne, beq_eq_false_iff_ne]
  constructor <;> (rintro rfl; exact absurd h (by decide))

theorem unbroken_of_isWord (hw : IsWord w) : Unbroken w :=
  ⟨hw.1, fun c hc => isMargin_of_isNamePart (hw.2 c hc)⟩

theorem Unbroken.append (hx : Unbroken x) (hy : ∀ c ∈ y, isMargin c = false) : Unbroken (x ++ y) := by
  refine ⟨by simp [hx.1], ?_⟩
  intro c hc
  rcases List.mem_append.1 hc with hc | hc
  · exact hx.2 c hc
  · exact hy c hc

theorem Unbroken.ne_blank (hx : Unbroken x) : ∀ c ∈ x, (c != ' ') = true := by
  intro c hc
  have h := hx.2 c hc
  rw [isMargin, Bool.or_eq_false_iff] at h
  simpa [bne] using h.1

theorem Unbroken.stops (hx : Unbroken x) : Stops isMargin (x ++ y) := by
  obtain ⟨c, cs, rfl⟩ := List.exists_cons_of_ne_nil hx.1
  exact hx.2 c List.mem_cons_self

theorem Unbroken.stops_blank (hx : Unbroken x) : Stops (· == ' ') (x ++ y) := by
  obtain ⟨c, cs, rfl⟩ := List.exists_cons_of_ne_nil hx.1
  have h := hx.ne_blank c List.mem_cons_self
  exact stops_cons.2 (by simpa [bne] using h)

theorem dropWhile_isMargin (hx : Stops isMargin x) : x.dropWhile isMargin = x :=
  dropWhile_append_stops (x := []) (by simp) hx

theorem bare_of_stops {l : String} (hl : Stops isMargin l.toList) : bare l = l.toList :=
  dropWhile_isMargin hl

theorem bare_append {l : String} (hl : Unbroken l.toList) (l' : String) :
    bare (l ++ l') = l.toList ++ l'.toList := by
  rw [bare, String.toList_append, dropWhile_isMargin hl.stops]

theorem before?_bare {l : String} (hl : Unbroken l.toList) (q : String) :
    before? q (bare (l ++ q)) = some l.toList := by
  rw [bare_append hl, before?_append]

theorem bare_literals {x y : List Char} (h : Stops isMargin (x ++ y)) :
    bare (String.ofList x ++ String.ofList y) = (String.ofList (x ++ y)).toList := by
  rw [bare, String.toList_append, String.toList_ofList, String.toList_ofList, String.toList_ofList,
    dropWhile_isMargin h]

theorem bare_start {u : List Char} (hc : isMargin c = false) (l l' : String) :
    bare (String.ofList (c :: u) ++ l ++ l') =
      (String.ofList (c :: u)).toList ++ (l.toList ++ l'.toList) := by
  rw [bare, String.toList_append, String.toList_append, String.toList_ofList, List.append_assoc]
  exact dropWhile_isMargin (stops_cons.2 hc)

theorem bare_start_literals {u v v' : List Char} (hc : isMargin c = false) (l : String) :
    bare (String.ofList (c :: u) ++ l ++ String.ofList v ++ String.ofList v') =
      (String.ofList (c :: u)).toList ++ (l.toList ++ (String.ofList (v ++ v')).toList) := by
  rw [String.append_assoc, bare_start hc, ← String.ofList_append]

theorem unbroken_toString (n : ℕ) : Unbroken (toString n).toList := by
  rw [Nat.toString_eq_ofList_toDigits, String.toList_ofList]
  refine ⟨Nat.toDigits_ne_nil, ?_⟩
  intro c hc
  have hdigit := Decimal.digits_toDigits n c hc
  exact isMargin_of_isNamePart (by simp [isNamePart, Char.isAlphanum, hdigit])

theorem starts_toString {p : String} {v : Line} (hp : p.toList = c :: v) (hc : c.isDigit = false)
    (n : ℕ) : starts p (toString n).toList = false := by
  have hdigits := Decimal.digits_toDigits n
  rw [starts, after?, hp, Nat.toString_eq_ofList_toDigits, String.toList_ofList]
  cases hn : Nat.toDigits 10 n with
  | nil => rfl
  | cons d ds =>
    have hd : d.isDigit = true := hdigits d (by rw [hn]; exact List.mem_cons_self)
    have hne : c ≠ d := by
      rintro rfl
      rw [hc] at hd
      cases hd
    simp [List.isPrefixOf?, hne]

theorem cut_append (hx : Unbroken x) (hy : Stops (· != ' ') y) : cut (x ++ y) = (x, y) := by
  rw [cut, takeWhile_append_stops hx.ne_blank hy, dropWhile_append_stops hx.ne_blank hy]

theorem cutLast_append (hy : Unbroken y) : cutLast (x ++ ' ' :: y) = (x, y) := by
  have hrev : ∀ c ∈ y.reverse, (c != ' ') = true := fun c hc => hy.ne_blank c (by simpa using hc)
  have hstop : Stops (· != ' ') (' ' :: x.reverse) := rfl
  rw [cutLast, List.reverse_append, List.reverse_cons, List.append_assoc, List.singleton_append,
    takeWhile_append_stops hrev hstop, dropWhile_append_stops hrev hstop]
  simp

theorem isPrefixOf?_append_append (x y z : Line) :
    (x ++ y).isPrefixOf? (x ++ z) = y.isPrefixOf? z := by
  induction x with
  | nil => rfl
  | cons c x ih => simp [ih]

/-- Texts that begin with parts up to their first blanks. -/
theorem isPrefixOf?_blank {u v : Line} (hu : Unbroken u) (hw : Unbroken w) :
    (u ++ ' ' :: v).isPrefixOf? (w ++ ' ' :: x) = if u = w then v.isPrefixOf? x else none := by
  by_cases h : u = w
  · subst h
    rw [if_pos rfl, isPrefixOf?_append_append]
    simp [List.isPrefixOf?]
  · rw [if_neg h, Option.eq_none_iff_forall_ne_some]
    intro z hz
    rw [List.isPrefixOf?_eq_some_iff_append_eq, List.append_assoc] at hz
    apply h
    have htake := congrArg (List.takeWhile (· != ' ')) hz
    rwa [takeWhile_append_stops hu.ne_blank (by exact rfl),
      takeWhile_append_stops hw.ne_blank (by exact rfl)] at htake

theorem column_append (hx : Unbroken x) (k : ℕ) (hy : Stops (· == ' ') y) :
    column (x ++ (List.replicate k ' ' ++ ' ' :: y)) = (x, y) := by
  have hblanks : List.replicate k ' ' ++ ' ' :: y = List.replicate (k + 1) ' ' ++ y := by
    rw [List.replicate_succ', List.append_assoc, List.singleton_append]
  have hcut : cut (x ++ (List.replicate (k + 1) ' ' ++ y)) = (x, List.replicate (k + 1) ' ' ++ y) := by
    rw [List.replicate_succ, List.cons_append]
    exact cut_append hx rfl
  rw [hblanks, column, hcut, dropWhile_append_stops (by simp) hy]

theorem assignment?_append {n : String} (hn : IsWord n.toList) (x : String) :
    assignment? (bare s!"{n} = {x};") = some (n, x) := by
  have hline : bare s!"{n} = {x};" = n.toList ++ (" = ".toList ++ (x.toList ++ ";".toList)) := by
    simp only [bare, toString_text, String.toList_append, List.append_assoc]
    exact dropWhile_isMargin (unbroken_of_isWord hn).stops
  have hcut : cut (bare s!"{n} = {x};") = (n.toList, " = ".toList ++ (x.toList ++ ";".toList)) := by
    rw [hline]
    apply cut_append (unbroken_of_isWord hn)
    rw [String.toList_ofList]
    rfl
  rw [assignment?, hcut, between?_append]
  simp

theorem quoted?_append (hw : IsWord w) (x : Line) :
    quoted? ('"' :: (w ++ '"' :: x)) = some (w, x) := by
  have hquote : ("\"" : String).toList = ['"'] := String.toList_ofList
  have hopen : after? "\"" ('"' :: (w ++ '"' :: x)) = some (w ++ '"' :: x) := by
    have h := after?_append "\"" (w ++ '"' :: x)
    rwa [hquote] at h
  have hclose : after? "\"" ('"' :: x) = some x := by
    have h := after?_append "\"" x
    rwa [hquote] at h
  rw [quoted?, hopen]
  simp only [Option.bind_eq_bind, Option.bind_some]
  rw [word?_append hw (stops_cons.2 (by decide))]
  simp only [Option.bind_some]
  rw [hclose]
  rfl

/-- The key that stands in the first square brackets of a line. -/
theorem keyIn?_append (hx : ∀ c ∈ x, c ≠ '[') (hw : IsWord w) (y : Line) :
    keyIn? (x ++ '[' :: '"' :: (w ++ '"' :: ("]".toList ++ y))) = some w := by
  have hdrop : (x ++ '[' :: '"' :: (w ++ '"' :: ("]".toList ++ y))).dropWhile (· != '[') =
      '[' :: '"' :: (w ++ '"' :: ("]".toList ++ y)) :=
    dropWhile_append_stops (fun c hc => bne_iff_ne.2 (hx c hc)) rfl
  rw [keyIn?, hdrop, List.tail_cons, quoted?_append hw]
  simp only [Option.bind_eq_bind, Option.bind_some]
  rw [after?_append]
  rfl

theorem annotated?_append (hw : IsWord w) (x : Line) :
    annotated? (w ++ (": ".toList ++ x)) = some (w, x) := by
  have hstops : Stops isNamePart (": ".toList ++ x) := by
    rw [String.toList_ofList]
    rfl
  rw [annotated?, word?_append hw hstops]
  simp only [Option.bind_eq_bind, Option.bind_some]
  rw [after?_append]
  rfl

theorem quoteChar_of_isNamePart {c : Char} (h : isNamePart c = true) : Text.quoteChar c = [c] := by
  have hne : ∀ d, isNamePart d = false → c ≠ d := by
    rintro d hd rfl
    rw [h] at hd
    cases hd
  have hshort : Text.shortEscape? c = none := by
    simp [Text.shortEscape?, hne '"' (by decide), hne '\\' (by decide), hne '\x08' (by decide),
      hne '\t' (by decide), hne '\n' (by decide), hne '\x0c' (by decide), hne '\r' (by decide)]
  have hlow : ¬ c.toNat < 0x20 := by
    intro hlt
    have hall : ∀ n < 0x20, isNamePart (Char.ofNat n) = false := by decide
    have hc := hall c.toNat hlt
    rw [Char.ofNat_toNat, h] at hc
    cases hc
  rw [Text.quoteChar, hshort]
  simp [hlow]

theorem flatMap_quoteChar (hw : ∀ c ∈ w, isNamePart c = true) : w.flatMap Text.quoteChar = w := by
  induction w with
  | nil => rfl
  | cons c w ih =>
    rw [List.flatMap_cons, quoteChar_of_isNamePart (hw c List.mem_cons_self),
      ih fun d hd => hw d (List.mem_cons_of_mem c hd), List.singleton_append]

theorem toList_quote {n : String} (hn : IsWord n.toList) :
    (Text.quote n).toList = '"' :: (n.toList ++ ['"']) := by
  rw [Text.quote, String.toList_ofList, Text.quoteChars, flatMap_quoteChar hn.2]
  rfl

theorem toList_stringText {n : String} (hn : IsWord n.toList) :
    (Dart.stringText n).toList = '"' :: (n.toList ++ ['"']) := by
  have hsame : ∀ v : Line, '$' ∉ v → (v.flatMap fun c => if c = '$' then ['\\', '$'] else [c]) = v := by
    intro v hv
    induction v with
    | nil => rfl
    | cons c v ih =>
      rw [List.mem_cons, not_or] at hv
      rw [List.flatMap_cons, if_neg (Ne.symm hv.1), ih hv.2, List.singleton_append]
  rw [Dart.stringText, String.toList_ofList, Text.quoteChars, flatMap_quoteChar hn.2]
  apply hsame
  have hdollar : '$' ∉ n.toList := hn.not_mem (by decide)
  simp [hdollar]

/-! ## Lines that are no closing lines -/

theorem mem_bare {s : String} {c : Char} (hmargin : isMargin c = false) (hc : c ∈ s.toList) :
    c ∈ bare s := by
  have h : ∀ l : Line, c ∈ l → c ∈ l.dropWhile isMargin := by
    intro l hl
    induction l with
    | nil => exact hl
    | cons d l ih =>
      rw [List.dropWhile_cons]
      split
      · rename_i hd
        rcases List.mem_cons.1 hl with rfl | hl
        · rw [hmargin] at hd
          cases hd
        · exact ih hl
      · exact hl
  exact h _ hc

theorem comma_mem_arrows (l : Lookup) (f : String → String) : ∀ x ∈ bareLines (l.arrows f), ',' ∈ x := by
  have hcomma : ("," : String).toList = [','] := String.toList_ofList
  rw [forall_bareLines, Lookup.arrows, List.forall_mem_append, List.forall_mem_map,
    List.forall_mem_map]
  constructor <;>
  · intro a _
    apply mem_bare rfl
    rw [String.toList_append, toString_text ",", hcomma]
    simp

/-! ## Line by line -/

theorem mapM_map {α β γ : Type} {f : α → β} {g : β → Option γ} {k : α → γ} {as : List α}
    (h : ∀ a ∈ as, g (f a) = some (k a)) : (as.map f).mapM g = some (as.map k) := by
  induction as with
  | nil => rfl
  | cons a as ih =>
    rw [List.map_cons, List.mapM_cons, h a List.mem_cons_self,
      ih fun b hb => h b (List.mem_cons_of_mem a hb)]
    rfl

theorem under?_cons (first : String) (ls : List Line) : under? first (first.toList :: ls) = some ls :=
  if_pos rfl

/-- Sections that begin with no part of what comes before them. -/
def Fresh (rest : List (Heading × List Line)) : Prop :=
  ∀ p ∈ rest.head?, p.1 ≠ .index ∧ p.1 ≠ .encode

theorem fresh_mergeGroups {rest : List (Heading × List Line)} (hrest : Fresh rest) :
    Fresh (mergeGroups rest) := by
  unfold mergeGroups
  split <;> simp_all [Fresh]

theorem flatMap_eq_some {α γ : Type} {F : List (Heading × List Line) → Option (List γ)}
    {g : α → List (Heading × List Line)} {out : α → List γ} {as : List α} (hnil : F [] = some [])
    (hfresh : ∀ a ∈ as, Fresh (g a))
    (h : ∀ a ∈ as, ∀ rest cs, Fresh rest → F rest = some cs → F (g a ++ rest) = some (out a ++ cs)) :
    F (as.flatMap g) = some (as.flatMap out) := by
  suffices Fresh (as.flatMap g) ∧ F (as.flatMap g) = some (as.flatMap out) from this.2
  induction as with
  | nil => exact ⟨by simp [Fresh], hnil⟩
  | cons a as ih =>
    obtain ⟨hrest, hF⟩ := ih (fun b hb => hfresh b (List.mem_cons_of_mem a hb))
      (fun b hb => h b (List.mem_cons_of_mem a hb))
    rw [List.flatMap_cons, List.flatMap_cons]
    refine ⟨?_, h a List.mem_cons_self _ _ hrest hF⟩
    unfold Fresh
    rw [List.head?_append]
    cases hhead : (g a).head? with
    | none => exact hrest
    | some q => simpa [Fresh, hhead] using hfresh a List.mem_cons_self

section Declarations

variable {L : Language} {n params : Line}
  {members index value body encode decode : List Line} {rest : List (Heading × List Line)}

theorem choicesIn_choice {c : ChoiceOutline} {cs : List ChoiceOutline}
    (hc : L.choice? n members index value = some c) (hcs : L.choicesIn rest = some cs) :
    L.choicesIn ((.choice n, members) :: (.index, index) :: (.value, value) :: rest) =
      some (c :: cs) := by
  rw [Language.choicesIn, hc, hcs]
  rfl

theorem choicesIn_skip {ss : List (Heading × List Line)} (hss : ∀ p ∈ ss, ∀ n, p.1 ≠ .choice n) :
    L.choicesIn (ss ++ rest) = L.choicesIn rest := by
  induction ss with
  | nil => rfl
  | cons p ss ih =>
    rw [List.forall_mem_cons] at hss
    obtain ⟨h, body⟩ := p
    refine Eq.trans ?_ (ih hss.2)
    cases h with
    | choice n => exact absurd rfl (hss.1 n)
    | _ => simp [Language.choicesIn]

theorem recordsIn_construct {r : RecordOutline} {rs : List RecordOutline}
    (hr : L.record? n members params body [] [] = some r) (hrest : Fresh rest)
    (hrs : L.recordsIn rest = some rs) :
    L.recordsIn ((.record n, members) :: (.construct params, body) :: rest) = some (r :: rs) := by
  rw [Language.recordsIn, hr, hrs]
  · rfl
  · rintro encode decode rest' rfl
    exact (hrest _ rfl).2 rfl

theorem recordsIn_codec {r : RecordOutline} {rs : List RecordOutline}
    (hr : L.record? n members params body encode decode = some r)
    (hrs : L.recordsIn rest = some rs) :
    L.recordsIn ((.record n, members) :: (.construct params, body) :: (.encode, encode)
      :: (.decode, decode) :: rest) = some (r :: rs) := by
  rw [Language.recordsIn, hr, hrs]
  rfl

theorem recordsIn_skip {ss : List (Heading × List Line)} (hss : ∀ p ∈ ss, ∀ n, p.1 ≠ .record n) :
    L.recordsIn (ss ++ rest) = L.recordsIn rest := by
  induction ss with
  | nil => rfl
  | cons p ss ih =>
    rw [List.forall_mem_cons] at hss
    obtain ⟨h, body⟩ := p
    refine Eq.trans ?_ (ih hss.2)
    cases h with
    | record n => exact absurd rfl (hss.1 n)
    | _ => simp [Language.recordsIn]

end Declarations

/-! ## Look-ups -/

section Arms

variable {fails : Line → Bool} {result? : Line → Option Line}

theorem arrowArm?_eq (fails : Line → Bool) (result? : Line → Option Line) {a : String}
    (ha : Unbroken a.toList) (b : String) :
    arrowArm? fails result? (bare s!"{a} => {b},") =
      if a.toList = ['_'] ∧ fails b.toList then some .fails
      else (result? b.toList).map fun r => .ofPattern a (.ofList r) := by
  have hline : bare s!"{a} => {b}," =
      a.toList ++ (" => ".toList ++ (b.toList ++ ",".toList)) := by
    simp only [toString_text]
    rw [bare_of_stops] <;> simp only [String.toList_append, List.append_assoc]
    exact ha.stops
  have hcut : cut (bare s!"{a} => {b},") = (a.toList, " => ".toList ++ (b.toList ++ ",".toList)) := by
    rw [hline]
    apply cut_append ha
    rw [String.toList_ofList]
    rfl
  rw [arrowArm?, hcut, between?_append]
  simp only [Option.bind_eq_bind, Option.bind_some, String.ofList_toList]
  split
  · rfl
  · cases result? b.toList <;> rfl

theorem mapM_arrowArm? {l : Lookup} {f : String → String} {k : String → String}
    (hpattern : ∀ a ∈ l.arms, Unbroken a.1.toList)
    (hfound : ∀ a ∈ l.arms, a.1.toList = ['_'] → fails (f a.2).toList = false)
    (hresult : ∀ a ∈ l.arms, result? (f a.2).toList = some (k a.2).toList)
    (hother : ∀ e ∈ l.otherwise, fails e.toList = true) :
    (bareLines (l.arrows f)).mapM (arrowArm? fails result?) =
      some ((l.arms.map fun a => .ofPattern a.1 (k a.2)) ++ l.otherwise.map fun _ => .fails) := by
  have harms : (bareLines (l.arms.map fun a => s!"{a.1} => {f a.2},")).mapM
      (arrowArm? fails result?) = some (l.arms.map fun a => .ofPattern a.1 (k a.2)) := by
    rw [bareLines, List.map_map]
    apply mapM_map
    intro a ha
    rw [Function.comp_apply, arrowArm?_eq _ _ (hpattern a ha), if_neg, hresult a ha, Option.map_some,
      String.ofList_toList]
    rintro ⟨hblank, hfails⟩
    rw [hfound a ha hblank] at hfails
    cases hfails
  have hotherwise : (bareLines (l.otherwise.map fun e => s!"_ => {e},")).mapM
      (arrowArm? fails result?) = some (l.otherwise.map fun _ => .fails) := by
    rw [bareLines, List.map_map]
    apply mapM_map
    intro e he
    have hwild : ("_" : String).toList = ['_'] := String.toList_ofList
    have hunbroken : Unbroken ("_" : String).toList := by
      rw [hwild]
      exact ⟨by simp, by simp⟩
    have harm := arrowArm?_eq fails result? hunbroken e
    rw [if_pos ⟨hwild, hother e he⟩] at harm
    exact harm
  rw [Lookup.arrows, bareLines_append, List.mapM_append, harms, hotherwise]
  rfl

theorem mapM_indexArms {names other : List String} (hnames : ∀ x ∈ names, Unbroken x.toList)
    (hfound : ∀ n : ℕ, fails (toString n).toList = false)
    (hother : ∀ e ∈ other, fails e.toList = true) :
    (bareLines ((Lookup.mk (indexArms names) other).arrows id)).mapM (arrowArm? fails some) =
      some ((indexArms names).map (fun a => .ofPattern a.1 a.2) ++ other.map fun _ => .fails) := by
  have hmem : ∀ a ∈ indexArms names, a.1 ∈ names ∧ ∃ n : ℕ, a.2 = toString n := by
    rw [indexArms, List.forall_mem_map]
    exact fun p hp => ⟨List.fst_mem_of_mem_zipIdx hp, p.2, rfl⟩
  refine mapM_arrowArm? (k := id) (fun a ha => hnames _ (hmem a ha).1) ?_ (fun _ _ => rfl) hother
  intro a ha _
  obtain ⟨n, hn⟩ := (hmem a ha).2
  rw [id, hn, hfound n]

/-- No number is written like the mark for everything. -/
theorem toString_ne_mark (n : ℕ) : toString n ≠ "_" := by
  intro hmark
  have hdigits : Nat.toDigits 10 n = ['_'] := by
    rw [← String.toList_ofList (l := Nat.toDigits 10 n), ← Nat.toString_eq_ofList_toDigits, hmark,
      String.toList_ofList]
  have hdigit := Decimal.digits_toDigits n '_' (by rw [hdigits]; exact List.mem_singleton_self _)
  exact absurd hdigit (by decide)

theorem mapM_valueArms {names : List String} {f : String → String} {e : String}
    (hresult : ∀ x ∈ names, result? (f x).toList = some x.toList) (hother : fails e.toList = true) :
    (bareLines ((Lookup.mk (valueArms names) [e]).arrows f)).mapM (arrowArm? fails result?) =
      some ((valueArms names).map (fun a => .maps a.1 a.2) ++ [.fails]) := by
  have hmem : ∀ a ∈ valueArms names, a.2 ∈ names ∧ ∃ n : ℕ, a.1 = toString n := by
    rw [valueArms, List.forall_mem_map]
    exact fun p hp => ⟨List.fst_mem_of_mem_zipIdx hp, p.2, rfl⟩
  have hne : ∀ a ∈ valueArms names, a.1 ≠ "_" := by
    intro a ha
    obtain ⟨n, hn⟩ := (hmem a ha).2
    exact hn ▸ toString_ne_mark n
  have hmaps : (valueArms names).map (fun a => Arm.maps a.1 a.2) =
      (valueArms names).map fun a => .ofPattern a.1 a.2 :=
    List.map_congr_left fun a ha => (congrFun (Arm.ofPattern_of_ne (hne a ha)) a.2).symm
  rw [hmaps]
  refine mapM_arrowArm? (k := id) ?_ ?_ (fun a ha => hresult _ (hmem a ha).1)
    (List.forall_mem_singleton.2 hother)
  · intro a ha
    obtain ⟨n, hn⟩ := (hmem a ha).2
    rw [hn]
    exact unbroken_toString n
  · intro a ha hmark
    exact absurd (String.toList_inj.1 (hmark.trans String.toList_ofList.symm)) (hne a ha)

theorem labelArms?_labels {arms : List (String × String)} {e : String} {es : List String}
    {m : String} {f k : String → String} (hm : ∀ c ∈ m.toList, isMargin c = true)
    (hresult : ∀ a ∈ arms, result? (bare (f a.2)) = some (k a.2).toList)
    (hfails : (bareLines (e :: es)).any fails = true) :
    labelArms? fails result? (bareLines (Lookup.labels ⟨arms, e :: es⟩ m f)) =
      some ((arms.map fun a => .maps a.1 (k a.2)) ++ [.fails]) := by
  have hdefault : bare "default:" = "default:".toList := by
    apply bare_of_stops
    rw [String.toList_ofList]
    rfl
  rw [Lookup.labels, if_neg (by simp)]
  show labelArms? fails result? (bareLines (arms.flatMap _ ++ _)) = _
  induction arms with
  | nil =>
    rw [List.flatMap_nil, List.nil_append, bareLines_cons, bareLines_indent hm]
    rw [bareLines_cons] at hfails ⊢
    rw [labelArms?, if_pos hdefault, if_pos hfails]
    rfl
  | cons a arms ih =>
    have hcase : bare s!"case {a.1}:" = "case ".toList ++ (a.1.toList ++ ":".toList) := by
      simp only [toString_text]
      rw [bare_of_stops] <;> simp only [String.toList_append, List.append_assoc]
      rw [String.toList_ofList]
      rfl
    have hne : bare s!"case {a.1}:" ≠ "default:".toList := by
      rw [hcase, String.toList_ofList, String.toList_ofList]
      exact fun h => absurd (List.cons.inj h).1 (by decide)
    rw [List.flatMap_cons, List.append_assoc, List.cons_append, List.singleton_append,
      bareLines_cons, bareLines_cons, bare_margin hm, labelArms?, if_neg hne, hcase, between?_append,
      hresult a List.mem_cons_self, ih (fun b hb => hresult b (List.mem_cons_of_mem a hb))]
    simp only [Option.bind_eq_bind, Option.bind_some, String.ofList_toList, List.map_cons]
    rfl

end Arms

/-! ## Members of enums -/

theorem unqualified_append (n mark x : String) : unqualified n mark (n ++ mark ++ x) = x := by
  rw [unqualified, String.toList_append, String.toList_append, List.append_assoc, after?_append,
    Option.bind_some, after?_append, Option.getD_some, String.ofList_toList]

theorem unqualified_of_not_mem {n mark x : String} {c : Char} (hmark : c ∈ mark.toList)
    (hx : c ∉ x.toList) : unqualified n mark x = x := by
  have hnone : (after? n x.toList).bind (after? mark) = none := by
    rw [Option.eq_none_iff_forall_ne_some]
    intro z hz
    obtain ⟨y, hy, hz⟩ := Option.bind_eq_some_iff.1 hz
    rw [after?, List.isPrefixOf?_eq_some_iff_append_eq] at hy hz
    apply hx
    rw [← hy, ← hz]
    simp [hmark]
  rw [unqualified, hnone, Option.getD_none, String.ofList_toList]

/-- A member behind the name of its enum has a case of its own, however it is called. -/
theorem mapPattern_qualified {n mark : String} (hmark : ∃ c ∈ mark.toList, c ≠ '_')
    (x result : String) :
    (Arm.ofPattern (n ++ mark ++ x) result).mapPattern (unqualified n mark) = .maps x result := by
  obtain ⟨c, hc, hne⟩ := hmark
  have hpattern : n ++ mark ++ x ≠ "_" := by
    intro heq
    have hmem : c ∈ (n ++ mark ++ x).toList := by simp [hc]
    rw [heq, String.toList_ofList, List.mem_singleton] at hmem
    exact hne hmem
  rw [Arm.ofPattern_of_ne hpattern, Arm.mapPattern, unqualified_append]

/-! ## Lists with commas -/

/-- A text with no comma outside angle brackets. -/
def Whole (x : Line) : Prop :=
  ∀ depth y, pieces depth (x ++ y) = (pieces depth y).modifyHead (x ++ ·)

/-- A text that may stand in angle brackets. -/
def Inner (x : Line) : Prop :=
  ∀ depth y, pieces (depth + 1) (x ++ y) = (pieces (depth + 1) y).modifyHead (x ++ ·)

theorem Whole.inner (hx : Whole x) : Inner x := fun depth y => hx (depth + 1) y

theorem Whole.append (hx : Whole x) (hy : Whole y) : Whole (x ++ y) := by
  intro depth z
  rw [List.append_assoc, hx, hy, List.modifyHead_modifyHead]
  simp [Function.comp_def]

theorem Inner.append (hx : Inner x) (hy : Inner y) : Inner (x ++ y) := by
  intro depth z
  rw [List.append_assoc, hx, hy, List.modifyHead_modifyHead]
  simp [Function.comp_def]

theorem whole_of_plain (hx : ∀ c ∈ x, c ≠ ',' ∧ c ≠ '<' ∧ c ≠ '>') : Whole x := by
  induction x with
  | nil =>
    intro depth y
    rw [List.nil_append]
    cases pieces depth y <;> rfl
  | cons c x ih =>
    intro depth y
    obtain ⟨hcomma, hopen, hclose⟩ := hx c List.mem_cons_self
    rw [List.cons_append, pieces, if_neg (fun h => hcomma h.1)]
    simp only [hopen, hclose, if_false]
    rw [ih (fun d hd => hx d (List.mem_cons_of_mem c hd)), List.modifyHead_modifyHead]
    rfl

theorem inner_comma : Inner [','] := by
  intro depth y
  rw [List.singleton_append, pieces, if_neg (by simp)]
  rfl

theorem Inner.whole (hx : Inner x) : Whole ('<' :: (x ++ ['>'])) := by
  intro depth y
  rw [List.cons_append, pieces, if_neg (by simp)]
  simp only [if_true]
  rw [List.append_assoc, hx, List.singleton_append, pieces, if_neg (by simp)]
  simp [List.modifyHead_modifyHead, Function.comp_def]

theorem pieces_comma (hx : Whole x) : pieces 0 (x ++ ',' :: y) = x :: pieces 0 y := by
  rw [hx, pieces, if_pos ⟨rfl, rfl⟩]
  simp

theorem pieces_self (hx : Whole x) : pieces 0 x = [x] := by
  have h := hx 0 []
  rw [List.append_nil] at h
  rw [h]
  simp [pieces]

/-- A text that may be an item of a list. -/
structure ItemText (x : Line) : Prop where
  whole : Whole x
  stops : Stops isMargin x
  ne_nil : x ≠ []

theorem ItemText.append (hx : ItemText x) (hy : Whole y) : ItemText (x ++ y) where
  whole := hx.whole.append hy
  stops := by
    obtain ⟨c, cs, rfl⟩ := List.exists_cons_of_ne_nil hx.ne_nil
    exact hx.stops
  ne_nil := by simp [hx.ne_nil]

/-- The items of a list are found again. -/
theorem items_commas {xs : List String} (hxs : ∀ x ∈ xs, ItemText x.toList) :
    items (commas xs).toList = xs.map String.toList := by
  have hsep : (", " : String).toList = [',', ' '] := String.toList_ofList
  have hblank : Whole [' '] := whole_of_plain (by simp)
  have hpieces : ∀ x xs, (∀ y ∈ x :: xs, Whole y ∧ Stops isMargin y) →
      (pieces 0 ([',', ' '].intercalate (x :: xs))).map (List.dropWhile isMargin) = x :: xs := by
    intro x xs hall
    induction xs generalizing x with
    | nil =>
      rw [List.intercalate_singleton, pieces_self (hall x List.mem_cons_self).1, List.map_singleton,
        dropWhile_isMargin (hall x List.mem_cons_self).2]
    | cons y xs ih =>
      obtain ⟨hx, hstops⟩ := hall x List.mem_cons_self
      have hrest := ih y fun z hz => hall z (List.mem_cons_of_mem x hz)
      rw [List.intercalate_cons_cons, List.append_assoc, List.cons_append, pieces_comma hx, hblank,
        List.map_cons, dropWhile_isMargin hstops]
      congr 1
      refine Eq.trans ?_ hrest
      cases pieces 0 ([',', ' '].intercalate (y :: xs)) <;> rfl
  cases xs with
  | nil => rfl
  | cons x xs =>
    have hx := (hxs x List.mem_cons_self).ne_nil
    rw [commas, String.toList_intercalate, hsep, List.map_cons, items, if_neg, hpieces]
    · intro y hy
      rw [← List.map_cons] at hy
      obtain ⟨z, hz, rfl⟩ := List.mem_map.1 hy
      exact ⟨(hxs z hz).whole, (hxs z hz).stops⟩
    · cases xs with
      | nil => simpa using hx
      | cons y xs => simp [hx]

theorem mapM_items {α β : Type} {as : List α} {f : α → String} {g : Line → Option β} {k : α → β}
    (hf : ∀ a ∈ as, ItemText (f a).toList)
    (hg : ∀ a ∈ as, g (f a).toList = some (k a)) :
    (items (commas (as.map f)).toList).mapM g = some (as.map k) := by
  rw [items_commas (List.forall_mem_map.2 hf), List.map_map]
  exact mapM_map hg

end Outline

end Idl
