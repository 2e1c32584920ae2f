import Mathlib
import Idl.Proofs.Outline.Bytes

/-!
# The names of a package

A Go package declares its types and functions on lines that begin at the left margin, and its constants
in the rows of blocks. A function with a receiver is a method, which is no name of the package. Which
names a source text declares is read from the text alone.

* `Go.declared`: the names that a source text declares.
* `Go.Declares`: the names in a part of a text, whatever follows it.
* **`Go.declared_lines`**: a file declares the names that `Go.check` compares, in this order.
-/

namespace Idl

open Outline Grammar Lexeme

namespace Go

/-- The name after a keyword at the left margin. -/
def declaredBy (l : Line) : List String :=
  ["type ", "func "].filterMap fun keyword =>
    ((after? keyword l).bind word?).map fun w => .ofList w.1

/-- The first word of a row. -/
def rowName (l : Line) : List String :=
  ((word? (l.dropWhile isMargin)).map fun w => .ofList w.1).toList

/-- The names in the rest of a text, which may begin in a block of constants. -/
def declaredFrom : Bool → List Line → List String
  | _, [] => []
  | false, l :: ls =>
    if l = "const (".toList then declaredFrom true ls else declaredBy l ++ declaredFrom false ls
  | true, l :: ls =>
    if l = ")".toList then declaredFrom false ls else rowName l ++ declaredFrom true ls

/-- The names that a source text declares. -/
def declared (source : String) : List String := declaredFrom false (rowsOf source)

/-! ## Lines -/

@[simp] theorem declaredBy_eq_nil {l : Line} (htype : after? "type " l = none)
    (hfunc : after? "func " l = none) : declaredBy l = [] := by
  rw [declaredBy, List.filterMap_cons, htype, List.filterMap_cons, hfunc]
  rfl

theorem leftmost_declaredBy : Leftmost declaredBy := .of_blank (by simp) (by simp) (by simp)

theorem declaredBy_append {keyword n : String} {c : Char} {x : Line}
    (hkeyword : keyword = "type " ∨ keyword = "func ") (hn : IsWord n.toList)
    (hc : isNamePart c = false) : declaredBy (keyword.toList ++ (n.toList ++ c :: x)) = [n] := by
  have hword : ((after? keyword (keyword.toList ++ (n.toList ++ c :: x))).bind word?).map
      (fun w => String.ofList w.1) = some n := by
    rw [after?_append, Option.bind_some, word?_append hn (stops_cons.2 hc), Option.map_some,
      String.ofList_toList]
  rcases hkeyword with rfl | rfl
  · have hfunc : after? "func " ("type ".toList ++ (n.toList ++ c :: x)) = none := by simp
    rw [declaredBy, List.filterMap_cons, hword, List.filterMap_cons, hfunc]
    rfl
  · have htype : after? "type " ("func ".toList ++ (n.toList ++ c :: x)) = none := by simp
    rw [declaredBy, List.filterMap_cons, htype, List.filterMap_cons, hword]
    rfl

/-- A receiver is no name. -/
theorem declaredBy_method (x : Line) : declaredBy ("func (".toList ++ x) = [] := by
  have htype : after? "type " ("func (".toList ++ x) = none := by simp
  have hfunc : (after? "func " ("func (".toList ++ x)).bind word? = none := by simp [word?, isNamePart]
  rw [declaredBy, List.filterMap_cons, htype, List.filterMap_cons, hfunc]
  rfl

theorem rowName_append {n : String} {x : Line} (hn : IsWord n.toList) (hx : Stops isNamePart x) :
    rowName (margin.toList ++ (n.toList ++ x)) = [n] := by
  rw [rowName, List.dropWhile_append_of_pos blank_margin,
    dropWhile_isMargin (unbroken_of_isWord hn).stops, word?_append hn hx, Option.map_some,
    String.ofList_toList, Option.toList_some]

/-! ## Parts of a text -/

/-- These lines declare these names, whatever follows them. -/
def Declares (ls names : List String) : Prop :=
  ∀ rest, declaredFrom false (rows ls ++ rest) = names ++ declaredFrom false rest

theorem Declares.append {ls ls' names names' : List String} (h : Declares ls names)
    (h' : Declares ls' names') : Declares (ls ++ ls') (names ++ names') := by
  intro rest
  rw [rows_append, List.append_assoc, h, h', List.append_assoc]

theorem Declares.flatMap {α : Type} {f g : α → List String} {as : List α}
    (h : ∀ a ∈ as, Declares (f a) (g a)) : Declares (as.flatMap f) (as.flatMap g) := by
  induction as with
  | nil => exact fun _ => rfl
  | cons a as ih =>
    rw [List.flatMap_cons, List.flatMap_cons]
    exact (h a List.mem_cons_self).append (ih fun b hb => h b (List.mem_cons_of_mem a hb))

theorem declaredFrom_append {ls : List Line} (hls : ∀ l ∈ ls, l ≠ "const (".toList) (rest : List Line) :
    declaredFrom false (ls ++ rest) = ls.flatMap declaredBy ++ declaredFrom false rest := by
  induction ls with
  | nil => rfl
  | cons l ls ih =>
    rw [List.cons_append, declaredFrom, if_neg (hls l List.mem_cons_self),
      ih fun x hx => hls x (List.mem_cons_of_mem l hx), List.flatMap_cons, List.append_assoc]

theorem declares_lines {ls : List String} (hls : ∀ l ∈ ls, l.toList ≠ "const (".toList) :
    Declares ls (ls.flatMap fun l => declaredBy l.toList) := by
  intro rest
  rw [← leftmost_declaredBy.flatMap_rows]
  apply declaredFrom_append
  intro l hl
  obtain ⟨x, hx, rfl⟩ := List.mem_map.1 (List.mem_filter.1 hl).1
  exact hls x hx

theorem declares_line {l : String} (hl : l.toList ≠ "const (".toList) :
    Declares [l] (declaredBy l.toList) := by
  have h := declares_lines (List.forall_mem_singleton.2 hl)
  rwa [List.flatMap_singleton] at h

theorem declares_indent (ls : List String) : Declares (indent margin ls) [] := by
  have hnames := leftmost_declaredBy.flatMap_indent (m := margin) String.toList_ofList rfl ls
  rw [← hnames]
  apply declares_lines
  rw [indent, List.forall_mem_map]
  intro l _
  split
  · rename_i hl
    rw [String.isEmpty_iff.1 hl, String.toList_ofList, String.toList_ofList]
    exact List.cons_ne_nil _ _ |>.symm
  · rw [String.toList_append, margin, String.toList_ofList, String.toList_ofList]
    simp

theorem declares_nest (head : String) (body : List String) :
    Declares (nest head body) (declaredBy (head ++ " \x7b").toList) := by
  have hclose : declaredBy "\x7d".toList = [] := by simp
  -- a brace ends the line, so that it opens no block
  have hhead : (head ++ " \x7b").toList ≠ "const (".toList := by
    rw [String.toList_append, String.toList_ofList, String.toList_ofList]
    intro heq
    simpa using congrArg List.getLast? heq
  have hend : "\x7d".toList ≠ "const (".toList := by simp
  have h := ((declares_line hhead).append (declares_indent body)).append (declares_line hend)
  rwa [hclose, List.append_nil, List.append_nil] at h

theorem declares_other {l : String} {c : Char} (hl : l.toList.head? = some c)
    (hc : c ∉ ['c', 't', 'f']) : Declares [l] [] := by
  simp only [List.mem_cons, List.not_mem_nil, or_false, not_or] at hc
  obtain ⟨x, hx⟩ := List.head?_eq_some_iff.1 hl
  have hnone : l.toList ≠ "const (".toList := by simp [hx, hc.1]
  have hother : declaredBy l.toList = [] := by simp [hx, Ne.symm hc.2.1, Ne.symm hc.2.2]
  have h := declares_line hnone
  rwa [hother] at h

theorem head?_append {x : String} {c : Char} (hx : x.toList.head? = some c) (y : String) :
    (x ++ y).toList.head? = some c := by
  rw [String.toList_append, List.head?_append, hx, Option.some_or]

theorem declares_comment {l : String} (hl : l.toList.head? = some '/') : Declares ["", l] [] :=
  declares_other hl (by decide)

/-! ## Blocks of constants -/

theorem declaredFrom_row {n : String} {x : Line} (hn : IsWord n.toList) (hx : Stops isNamePart x)
    (ls : List Line) :
    declaredFrom true ((margin.toList ++ (n.toList ++ x)) :: ls) = n :: declaredFrom true ls := by
  have hclose : margin.toList ++ (n.toList ++ x) ≠ ")".toList := by
    rw [margin, String.toList_ofList, String.toList_ofList]
    simp
  rw [declaredFrom, if_neg hclose, rowName_append hn hx, List.singleton_append]

theorem exists_toList_pad (width : ℕ) (r : String × String) :
    ∃ x, Stops isNamePart x ∧ (pad width r.1 ++ " " ++ r.2).toList = r.1.toList ++ x := by
  refine ⟨List.replicate (width - r.1.length) ' ' ++ ' ' :: r.2.toList, ?_, ?_⟩
  · cases width - r.1.length with
    | zero => rfl
    | succ k => rfl
  · simp [pad]

theorem rows_cons_of_isWord {l : String} {w x : Line} (hw : IsWord w) (hl : l.toList = w ++ x)
    (ls : List String) : rows (l :: ls) = (w ++ x) :: rows ls := by
  obtain ⟨c, cs, rfl, hc⟩ := hw.exists_cons
  have hfilled : isFilled (c :: cs ++ x) = true := by
    rw [isFilled, List.cons_append, List.all_cons, isMargin_of_isNamePart hc, Bool.false_and, Bool.not_false]
  rw [rows, List.map_cons, hl, List.filter_cons_of_pos hfilled]
  rfl

theorem declaredFrom_rows (width : ℕ) {rs : List (String × String)}
    (hrs : ∀ r ∈ rs, IsWord r.1.toList) (rest : List Line) :
    declaredFrom true ((rows (rs.map fun r => pad width r.1 ++ " " ++ r.2)).map (margin.toList ++ ·)
      ++ rest) = rs.map Prod.fst ++ declaredFrom true rest := by
  induction rs with
  | nil => rfl
  | cons r rs ih =>
    have hr := hrs r List.mem_cons_self
    obtain ⟨x, hx, hrow⟩ := exists_toList_pad width r
    rw [List.map_cons, rows_cons_of_isWord hr hrow, List.map_cons, List.cons_append,
      declaredFrom_row hr hx, ih fun q hq => hrs q (List.mem_cons_of_mem r hq)]
    rfl

/-- A block of constants declares the words in its first column. -/
theorem declares_group {α : Type} (name text : α → String) {as : List α}
    (has : ∀ a ∈ as, IsWord (name a).toList) :
    Declares (group "const" (aligned (as.map fun a => (name a, text a)))) (as.map name) := by
  intro rest
  have hopen : rows ["const" ++ " ("] = ["const (".toList] := by
    rw [rows, List.map_singleton, String.toList_append, String.toList_ofList, String.toList_ofList,
      String.toList_ofList]
    rfl
  have hclose : rows [")"] = [")".toList] := by
    rw [rows, List.map_singleton, String.toList_ofList]
    rfl
  have hrows : ∀ body, rows (group "const" body) =
      "const (".toList :: ((rows body).map (margin.toList ++ ·) ++ [")".toList]) := by
    intro body
    rw [← rows_indent blank_margin, ← hclose, ← rows_append, ← List.singleton_append, ← hopen,
      ← rows_append]
    rfl
  rw [hrows, List.cons_append, declaredFrom, if_pos rfl, List.append_assoc, aligned,
    declaredFrom_rows _ (List.forall_mem_map.2 has), List.singleton_append, declaredFrom, if_pos rfl,
    List.map_map]
  rfl

/-! ## Declarations -/

theorem declares_type {l n : String} {x : Line} (hn : IsWord n.toList)
    (hl : l.toList = "type ".toList ++ (n.toList ++ ' ' :: x)) : Declares [l] [n] := by
  have hnone : l.toList ≠ "const (".toList := by
    rw [hl, String.toList_ofList, String.toList_ofList]
    simp
  have h := declares_line hnone
  rwa [hl, declaredBy_append (.inl rfl) hn (by decide)] at h

theorem declares_named {keyword head n : String} {c : Char} {x : Line} (body : List String)
    (hkeyword : keyword = "type " ∨ keyword = "func ") (hn : IsWord n.toList)
    (hc : isNamePart c = false) (hhead : head.toList = keyword.toList ++ (n.toList ++ c :: x)) :
    Declares (nest head body) [n] := by
  have h := declares_nest head body
  rwa [String.toList_append, hhead, List.append_assoc, List.append_assoc, List.cons_append,
    declaredBy_append hkeyword hn hc] at h

theorem declares_method {head : String} {x : Line} (body : List String)
    (hhead : head.toList = "func (".toList ++ x) : Declares (nest head body) [] := by
  have h := declares_nest head body
  rwa [String.toList_append, hhead, List.append_assoc, declaredBy_method] at h

theorem isWord_before (x : String) {n : String} (hx : x.toList.all isNamePart = true)
    (hn : IsWord n.toList) : IsWord (x ++ n).toList := by
  rw [String.toList_append]
  refine ⟨by simp [hn.1], ?_⟩
  rw [List.forall_mem_append]
  exact ⟨List.all_eq_true.1 hx, hn.2⟩

/-- An enum declares its type, its members and the functions between members and indices. -/
theorem declares_choiceLines {c : Choice} (h : Tidy spelling (.choice c)) :
    Declares (choiceLines c)
      ([c.name] ++ c.variants.map Variant.name ++ ["IndexOf" ++ c.name, "ValueAt" ++ c.name]) := by
  have htype : Declares [s!"type {c.name} {c.type}", ""] [c.name] := by
    refine declares_type (x := c.type.toList) h.1 ?_
    simp
  have hgroup := declares_group Variant.name (fun v => s!"{c.name} = {v.literal}")
    fun v hv => (h.2.2 v hv).2.1
  have hmethod : Declares (nest s!"func (e {c.name}) String() string"
      (switch "e" (nameLookup c) fun r => s!"return {r}")) [] := by
    refine declares_method _ (x := "e ".toList ++ (c.name.toList ++ ") String() string".toList)) ?_
    simp
  have hindex : Declares (nest s!"func IndexOf{c.name}(value {c.name}) (int, error)"
      (switch "value" (indexLookup c) fun r => s!"return {r}, nil")) ["IndexOf" ++ c.name] := by
    refine declares_named _ (.inr rfl) (isWord_before "IndexOf" rfl h.1) (c := '(')
      (x := "value ".toList ++ (c.name.toList ++ ") (int, error)".toList)) (by decide) ?_
    simp
  have hvalue : Declares (nest s!"func ValueAt{c.name}(index int) ({c.name}, error)"
      (switch "index" (valueLookup c) fun r => s!"return {r}, nil")) ["ValueAt" ++ c.name] := by
    refine declares_named _ (.inr rfl) (isWord_before "ValueAt" rfl h.1) (c := '(')
      (x := "index int) (".toList ++ (c.name.toList ++ ", error)".toList)) (by decide) ?_
    simp
  have hcomment : ∀ x y : String, x.toList.head? = some '/' → Declares ["", x ++ c.name ++ y] [] :=
    fun x y hx => declares_comment (head?_append (head?_append hx c.name) y)
  have hname := declares_comment (l := "// String returns the declared name of the value.") rfl
  have hindexed := hcomment "// IndexOf" " returns the declaration index of value." rfl
  have hvalued := hcomment "// ValueAt" " returns the value declared at index." rfl
  have hlines : Declares (choiceLines c) _ :=
    htype.append hgroup |>.append hname |>.append hmethod |>.append hindexed |>.append hindex
      |>.append hvalued |>.append hvalue
  simpa only [List.append_nil, List.append_assoc, List.singleton_append] using hlines

/-- An object declares its type and the functions that make values of it. -/
theorem declares_recordLines {r : Record} (h : Tidy spelling (.record r)) :
    Declares (recordLines r) [r.name, "New" ++ r.name, r.name ++ "FromJSON"] := by
  have hstruct : Declares (nest s!"type {r.name} struct" (slotLines r.slots)) [r.name] := by
    refine declares_named _ (.inl rfl) h.1 (c := ' ') (x := "struct".toList) (by decide) ?_
    simp
  have hnew : ∀ params : String, Declares (nest s!"func New{r.name}({params}) *{r.name}" (resultLines r))
      ["New" ++ r.name] := by
    intro params
    refine declares_named _ (.inr rfl) (isWord_before "New" rfl h.1) (c := '(')
      (x := params.toList ++ (") *".toList ++ r.name.toList)) (by decide) ?_
    simp
  have hmethod : ∀ body, Declares (nest s!"func (o *{r.name}) ToJSON() (string, error)" body) [] := by
    intro body
    refine declares_method _
      (x := "o *".toList ++ (r.name.toList ++ ") ToJSON() (string, error)".toList)) ?_
    simp
  have hfrom : ∀ body, Declares (nest s!"func {r.name}FromJSON(data string) (*{r.name}, error)" body)
      [r.name ++ "FromJSON"] := by
    intro body
    have hword : IsWord (r.name ++ "FromJSON").toList := by
      rw [String.toList_append]
      exact h.1.append (List.all_eq_true.1 rfl)
    refine declares_named _ (.inr rfl) hword (c := '(')
      (x := "data string) (*".toList ++ (r.name.toList ++ ", error)".toList)) (by decide) ?_
    simp
  have hcomment : ∀ x y z : String, x.toList.head? = some '/' →
      Declares ["", x ++ r.name ++ y ++ r.name ++ z] [] := by
    intro x y z hx
    exact declares_comment (head?_append (head?_append (head?_append (head?_append hx _) y) _) z)
  have hbuilt := hcomment "// New" " returns a " " built from its fields in declaration order." rfl
  have hencodes := declares_comment
    (l := "// ToJSON encodes the value with the IDL field names as keys.") rfl
  have hdecodes := hcomment "// " "FromJSON decodes a " " produced by ToJSON." rfl
  exact hstruct.append hbuilt |>.append (hnew _) |>.append hencodes |>.append (hmethod _)
    |>.append hdecodes |>.append (hfrom _)

theorem declares_declLines (s : Schema) {e : Entry} (h : Tidy spelling (dialect.declare s e)) :
    Declares (declLines (dialect.declare s e)) ((declNames (dialect.declare s e)).map Prod.snd) := by
  cases e with
  | const c =>
    have hlength : (c.members.map c.binding).length =
        ((dialect.constants c).rows.map Constant.name).length := by simp [Dialect.constants]
    have hnames := declares_group Constant.name
      (fun m => s!"{(dialect.constants c).type} = {m.literal}") fun m hm => (h.2.2 m hm).1
    show Declares (constantsLines (dialect.constants c)) (((c.members.map c.binding).zip
      ((dialect.constants c).rows.map Constant.name)).map Prod.snd)
    rw [List.map_snd_zip hlength.ge]
    exact hnames
  | enum e =>
    have hnames := declares_choiceLines h
    show Declares (choiceLines (dialect.choice e))
      ((declNames (.choice (dialect.choice e))).map Prod.snd)
    rw [declNames, List.map_append, List.map_append, List.map_map]
    exact hnames
  | object o => exact declares_recordLines h

/-! ## Files -/

theorem declares_importLines (packages : List String) : Declares (importLines packages) [] := by
  have hline : ∀ x : String, Declares ["", "import" ++ x] [] := fun x =>
    declares_other (l := "import" ++ x) (head?_append (c := 'i') rfl x) (by decide)
  have hclose : Declares [")"] [] := declares_other (c := ')') rfl (by decide)
  unfold importLines
  split
  · exact fun _ => rfl
  · rename_i p
    exact hline (" " ++ Text.quote p)
  · exact (hline " (").append (declares_indent _) |>.append hclose

theorem declares_bytesLines : Declares bytesLines ["Uint8List"] := by
  have hlist := declares_comment
    (l := "// Uint8List encodes as a JSON array of numbers instead of base64.") rfl
  have htype : Declares ["type Uint8List []uint8"] ["Uint8List"] := by
    refine declares_type isWord_bytes (x := "[]uint8".toList) ?_
    simp
  have hwrites := declares_comment (l := "// MarshalJSON writes the list as an array of numbers.") rfl
  have hmethod : ∀ body, Declares (nest "func (l Uint8List) MarshalJSON() ([]byte, error)" body) [] := by
    intro body
    refine declares_method body (x := "l Uint8List) MarshalJSON() ([]byte, error)".toList) ?_
    simp
  exact hlist.append htype |>.append hwrites |>.append (hmethod _)

theorem declares_opening (s : Schema) :
    Declares (Target.go.opening s) (if usesBytes s then ["Uint8List"] else []) := by
  have hcomment := declares_comment (l := "// Code generated by bidl. DO NOT EDIT.") rfl
  have hpackage : Declares [s!"package {packageName s}"] [] :=
    declares_other (head?_append (x := "package ") (c := 'p') rfl (packageName s)) (by decide)
  have hbytes : Declares (if usesBytes s then bytesLines else [])
      (if usesBytes s then ["Uint8List"] else []) := by
    split
    · exact declares_bytesLines
    · exact fun _ => rfl
  exact hcomment.append hpackage |>.append (declares_importLines (imports s)) |>.append hbytes

/-- **A file declares the names that are compared**, in the same order. -/
theorem declared_lines {s : Schema} (hs : s.Spelled) :
    declared (sourceText (lines s)) = (topNames s).map Prod.snd := by
  have hdecls : Declares ((dialect.decls s).flatMap declLines)
      ((dialect.decls s).flatMap fun d => (declNames d).map Prod.snd) := by
    apply Declares.flatMap
    rw [Dialect.decls, List.forall_mem_map]
    intro e he
    exact declares_declLines s (tidy_dialect.decls hs _ (List.mem_map_of_mem he))
  have hfile := (declares_opening s).append hdecls (rows (Target.go.closing s))
  rw [rows_append, rows_flatMap, ← rows_lines] at hfile
  have hrows : rowsOf (sourceText (lines s)) = rows (lines s) :=
    rowsOf_sourceText (Target.go.lines_ne_nil s) (flat_lines hs)
  rw [declared, hrows, hfile, topNames, List.map_append, List.map_flatMap]
  show _ ++ [] = _
  rw [List.append_nil]
  congr 1
  split <;> rfl

theorem nodup_declared_iff {s : Schema} (hs : s.Spelled) :
    (declared (sourceText (lines s))).Nodup ↔ distinct (packageName s) (topNames s) = .ok () := by
  rw [declared_lines hs, distinct_eq_ok_iff]

/-- **Names are declared once.** The names that Go source text for a compiled schema declares are those
that are compared, in the same order, and they are different. The comparison passes exactly if the text
would have no name twice. -/
theorem declared_once (text : String) (s : Schema) (hs : Schema.compile text = .ok s) :
    (∀ source, Target.go.render s = .ok source →
      declared source = (topNames s).map Prod.snd ∧ (declared source).Nodup) ∧
    (distinct (packageName s) (topNames s) = .ok () ↔
      (declared (sourceText (Target.go.lines s))).Nodup) := by
  have hspelled := Schema.spelled_of_compile hs
  refine ⟨?_, (nodup_declared_iff hspelled).symm⟩
  intro source hsource
  obtain ⟨hcheck, rfl⟩ := Target.render_eq_ok_iff.1 hsource
  refine ⟨declared_lines hspelled, (nodup_declared_iff hspelled).2 ?_⟩
  exact (bind_unit_eq_ok_iff.1 hcheck).1

/-- A constant, an enum and an object with a list of bytes. -/
theorem declared_once_bytes :
    ∃ s source, Schema.compile ("const bool \x7b A = true \x7d enum E for int8 \x7b A = 1 \x7d " ++
        "object O \x7b list of uint8 xs \x7d") = .ok s ∧
      Target.go.render s = .ok source ∧ (declared source).Nodup ∧
      declared source =
        ["Uint8List", "A", "E", "E_A", "IndexOfE", "ValueAtE", "O", "NewO", "OFromJSON"] := by
  have htrue : MemberOf ["A", "=", "true"] ⟨"A", .bool true, .start⟩ := .mk (by decide) .true _
  have hone : MemberOf ["A", "=", "1"] ⟨"A", .int (.ofInt 1), .start⟩ :=
    .mk (by decide) (.integer (by decide +kernel) (by decide) (by decide)) _
  have hlist : FieldOf ["list", "of", "uint8", "xs"] ⟨.list (.primitive .uint8), "xs", .start⟩ :=
    .mk (.list (.primitive .uint8)) (by decide) _
  have hderives : Derives _ _ := .mk .none
    (.cons (.const (.unnamed .bool (.mk (.cons htrue .nil)) .start))
      (.cons (.enum (.mk (n := "E") (by decide) .int8 (.mk (.cons hone .nil)) .start))
        (.cons (.object (.mk (n := "O") (by decide) (.mk (.cons hlist .nil)) .start)) .nil)))
  obtain ⟨s, source, hs, hsource, hplaced⟩ := Target.render_of_derives .go
    ("const bool \x7b A = true \x7d enum E for int8 \x7b A = 1 \x7d " ++
      "object O \x7b list of uint8 xs \x7d") (by cbv) hderives (by decide +kernel) (by decide +kernel)
  obtain ⟨hdeclared, hnodup⟩ := (declared_once _ s hs).1 source hsource
  refine ⟨s, source, hs, hsource, hnodup, ?_⟩
  rw [hdeclared, ← topNames_unplaced, hplaced]
  decide +kernel

end Go

end Idl
