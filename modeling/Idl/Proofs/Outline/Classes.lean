import Mathlib
import Idl.Proofs.Outline.Introduced

/-!
# Types and members in C# source text

C# marks types and members as public. A member belongs to the type on the last line before it that
has one.

* `CSharp.Introduced`: a type, a part of one, or a member.
* `CSharp.introduced`: what a source text introduces.
* **`CSharp.introduced_lines`**: what a file introduces.
-/

namespace Idl

open Lexeme Outline

namespace Outline

variable {p q : String} {x y : Line} {c d : Char}

theorem between?_eq_some {l z : Line} (h : between? p q l = some z) : l = p.toList ++ (z ++ q.toList) := by
  obtain ⟨r, hr, hz⟩ := Option.bind_eq_some_iff.1 h
  obtain ⟨w, hw, rfl⟩ := Option.map_eq_some_iff.1 hz
  rw [after?, List.isPrefixOf?_eq_some_iff_append_eq] at hr
  rw [List.isPrefixOf?_eq_some_iff_append_eq] at hw
  rw [← hr, ← List.reverse_reverse r, ← hw, List.reverse_append, List.reverse_reverse]

/-- A line that ends with another character. -/
theorem between?_concat (p : String) (hq : q.toList = y ++ [d]) (hne : c ≠ d) (x : Line) :
    between? p q (x ++ [c]) = none := by
  rw [Option.eq_none_iff_forall_ne_some]
  intro z hz
  have hline := congrArg List.getLast? (between?_eq_some hz)
  rw [hq, ← List.append_assoc, ← List.append_assoc, List.getLast?_concat, List.getLast?_concat] at hline
  exact hne (Option.some.inj hline)

/-- A line that does not end with a word. -/
theorem named?_concat (p : String) (hc : isNamePart c = false) (x : Line) :
    named? p "" (x ++ [c]) = none := by
  rw [Option.eq_none_iff_forall_ne_some]
  intro z hz
  obtain ⟨r, hr, hz⟩ := Option.bind_eq_some_iff.1 hz
  obtain ⟨w, hw, hz⟩ := Option.bind_eq_some_iff.1 hz
  rw [after?, List.isPrefixOf?_eq_some_iff_append_eq] at hr
  rw [word?] at hw
  split at hw
  · cases hw
  · rename_i hne
    obtain rfl := Option.some.inj hw
    split at hz
    · rename_i hrest
      -- all that follows the text belongs to the word
      have hall : ∀ a ∈ r, isNamePart a = true := List.dropWhile_eq_nil_iff.1 hrest
      have hr' : r ≠ [] := fun h => hne (by rw [h]; rfl)
      have hlast := congrArg List.getLast? hr
      rw [List.getLast?_append_of_ne_nil _ hr', List.getLast?_concat] at hlast
      have hmem := hall c (List.mem_of_getLast? hlast)
      rw [hc] at hmem
      cases hmem
    · cases hz

end Outline

namespace CSharp

/-- What a line introduces. -/
inductive Introduced where
  /-- A class without values. -/
  | static (name : String)
  /-- A part of a class without values. -/
  | part (name : String)
  /-- An enum, or a class with values. -/
  | type (name : String)
  /-- A member of a class. -/
  | member (owner name : String)
  deriving DecidableEq

/-- The class that the members after a line belong to. -/
def Introduced.scope : Introduced → String
  | static name => name
  | part name => name
  | type name => name
  | member owner _ => owner

/-- A name without the mark of names that are spelled like keywords. -/
def unmarked (l : Line) : String := .ofList ((after? "@" l).getD l)

/-- The name of a property. -/
def propertyName? (l : Line) : Option Line :=
  (between? "public " " \x7b get; set; \x7d" l).map fun r => (cutLast r).2

/-- The name of a method. A constructor has none: nothing stands before the name of its class. -/
def methodName? (l : Line) : Option Line :=
  (between? "public " ")" l).bind fun r =>
    let head := cutLast (r.takeWhile (· != '('))
    if head.1 = [] then none else some head.2

/-- What a line introduces after a line of a class. -/
def introduced? (owner : String) (l : Line) : Option Introduced :=
  ((propertyName? l).map fun n => .member owner (unmarked n)).or <|
  ((nameAt? "public enum " " : " l).map .type).or <|
  ((named? "public static class " "" l).map fun n => .static (.ofList n)).or <|
  ((named? "public static partial class " "" l).map fun n => .part (.ofList n)).or <|
  ((named? "public class " "" l).map fun n => .type (.ofList n)).or <|
  (((after? "public const " l).bind fun _ => constant? l).or (methodName? l)).map fun n =>
    .member owner (unmarked n)

/-- What lines introduce after a line of a class. -/
def introducedFrom : String → List Line → List Introduced
  | _, [] => []
  | owner, l :: ls =>
    match introduced? owner l with
    | some i => i :: introducedFrom i.scope ls
    | none => introducedFrom owner ls

/-- What a source text introduces. -/
def introduced (source : String) : List Introduced := introducedFrom "" (linesOf source)

/-- The class that something is a part of. -/
def Introduced.part? : Introduced → Option String
  | part name => some name
  | _ => none

/-- The name of a type that is no part of a class. -/
def Introduced.type? : Introduced → Option String
  | static name => some name
  | type name => some name
  | _ => none

/-- A member with its class. -/
def Introduced.member? : Introduced → Option (String × String)
  | member owner name => some (owner, name)
  | _ => none

/-- The names of the types of a source text. All parts of a class are one type. -/
def types (source : String) : List String :=
  ((introduced source).filterMap Introduced.part?).dedup
    ++ (introduced source).filterMap Introduced.type?

/-- The members of the classes of a source text, each with the name of its class. -/
def members (source : String) : List (String × String) :=
  (introduced source).filterMap Introduced.member?

/-! ## Lines -/

theorem unmarked_of_isWord {n : String} (hn : IsWord n.toList) : unmarked n.toList = n := by
  obtain ⟨c, cs, hcs, hc⟩ := hn.exists_cons
  have hmark : ('@' == c) = false := beq_false_of_ne (by rintro rfl; exact absurd hc (by decide))
  have hnone : after? "@" n.toList = none := by
    rw [after?, hcs, String.toList_ofList]
    simp [List.isPrefixOf?, hmark]
  rw [unmarked, hnone, Option.getD_none, String.ofList_toList]

theorem unmarked_verbatim {n : String} (hn : IsWord n.toList) : unmarked (verbatim n).toList = n := by
  unfold verbatim
  split
  · rw [String.toList_append, unmarked, after?_append, Option.getD_some, String.ofList_toList]
  · exact unmarked_of_isWord hn

@[simp] theorem introduced?_eq_none {l : Line} (hl : after? "public " l = none) (owner : String) :
    introduced? owner l = none := by
  have hafter : ∀ p y, (p : String).toList = "public ".toList ++ y → after? p l = none :=
    fun p y hp => after?_eq_none hp hl
  have h1 := hafter "public enum " "enum ".toList (by simp)
  have h2 := hafter "public static class " "static class ".toList
    (by simp)
  have h3 := hafter "public static partial class " "static partial class ".toList
    (by simp)
  have h4 := hafter "public class " "class ".toList (by simp)
  have h5 := hafter "public const " "const ".toList (by simp)
  simp only [introduced?, propertyName?, methodName?, between?, nameAt?, named?, hl, h1, h2, h3, h4,
    h5, Option.bind_none, Option.map_none, Option.or_none]

theorem introduced?_concat {x : Line} {c : Char} (hc : isNamePart c = false) (hbrace : c ≠ '}')
    (owner : String) :
    introduced? owner (x ++ [c]) =
      ((nameAt? "public enum " " : " (x ++ [c])).map .type).or
        ((((after? "public const " (x ++ [c])).bind fun _ => constant? (x ++ [c])).or
          (methodName? (x ++ [c]))).map fun n => .member owner (unmarked n)) := by
  have hproperty : propertyName? (x ++ [c]) = none := by
    rw [propertyName?, between?_concat (y := " \x7b get; set; ".toList) "public " _ hbrace,
      Option.map_none]
    simp
  simp only [introduced?, hproperty, named?_concat _ hc, Option.map_none, Option.none_or]

/-- Members of enums, cases and assignments. -/
theorem introduced?_equation {n : Line} (hn : Unbroken n) (x : Line) {c : Char}
    (hc : c = ',' ∨ c = ';') (owner : String) :
    introduced? owner (n ++ ' ' :: '=' :: (x ++ [c])) = none := by
  have hafter : ∀ (p : String) v, p.toList = ['p', 'u', 'b', 'l', 'i', 'c'] ++ ' ' :: v →
      (∀ y, v.isPrefixOf? ('=' :: y) = none) → after? p (n ++ ' ' :: '=' :: (x ++ [c])) = none := by
    intro p v hp hv
    rw [after?, hp, isPrefixOf?_blank (unbroken_of_isWord (isWord_of_all (by simp) rfl)) hn, hv,
      ite_self]
  have henum := hafter "public enum " _ String.toList_ofList (fun _ => rfl)
  have hconst := hafter "public const " _ String.toList_ofList (fun _ => rfl)
  have hline : n ++ ' ' :: '=' :: (x ++ [c]) = (n ++ ' ' :: '=' :: x) ++ [c] := by simp
  have hmethod : methodName? (n ++ ' ' :: '=' :: (x ++ [c])) = none := by
    rw [methodName?, hline, between?_concat (q := ")") (y := []) (d := ')') "public " String.toList_ofList,
      Option.bind_none]
    rcases hc with rfl | rfl <;> decide
  rw [hline, introduced?_concat, ← hline, nameAt?, henum, hconst, hmethod]
  · rfl
  · rcases hc with rfl | rfl <;> rfl
  · rcases hc with rfl | rfl <;> decide

theorem introduced?_property {n : String} (hn : IsWord n.toList) (t owner : String) :
    introduced? owner (bare s!"public {t} {n} \x7b get; set; \x7d") = some (.member owner n) := by
  have hline : bare s!"public {t} {n} \x7b get; set; \x7d" =
      "public ".toList ++ ((t.toList ++ ' ' :: n.toList) ++ " \x7b get; set; \x7d".toList) := by
    have hblank : (" " : String).toList = [' '] := String.toList_ofList
    simp
  have hproperty : propertyName? (bare s!"public {t} {n} \x7b get; set; \x7d") = some n.toList := by
    rw [propertyName?, hline, between?_append, Option.map_some,
      cutLast_append (unbroken_of_isWord hn)]
  rw [introduced?, hproperty, Option.map_some, Option.some_or, unmarked_of_isWord hn]

/-- No property ends with a word. -/
theorem propertyName?_word {w : Line} (hw : IsWord w) (x : Line) : propertyName? (x ++ w) = none := by
  obtain ⟨v, c, rfl⟩ := List.eq_nil_or_concat w |>.resolve_left hw.1
  have hc : c ≠ '}' := hw.ne_of_mem (by simp) (by decide)
  rw [List.concat_eq_append, ← List.append_assoc, propertyName?,
    between?_concat (y := " \x7b get; set; ".toList) "public " _ hc, Option.map_none]
  simp

theorem introduced?_enum {n t : String} (hn : IsWord n.toList) (ht : IsWord t.toList) (owner : String) :
    introduced? owner (bare s!"public enum {n} : {t}") = some (.type n) := by
  have hline : bare s!"public enum {n} : {t}" =
      "public enum ".toList ++ (n.toList ++ (" : ".toList ++ t.toList)) := by simp
  have hproperty : propertyName? (bare s!"public enum {n} : {t}") = none := by
    rw [hline, ← List.append_assoc, ← List.append_assoc]
    exact propertyName?_word ht _
  rw [introduced?, hproperty, hline, nameAt?_append _ hn String.toList_ofList rfl]
  rfl

theorem named?_class (p : String) {n : String} (hn : IsWord n.toList) :
    propertyName? (p.toList ++ n.toList) = none ∧ named? p "" (p.toList ++ n.toList) = some n.toList := by
  have hname := named?_append p "" hn rfl
  rw [String.toList_empty, List.append_nil] at hname
  exact ⟨propertyName?_word hn _, hname⟩

theorem introduced?_static {n : String} (hn : IsWord n.toList) (owner : String) :
    introduced? owner (bare s!"public static class {n}") = some (.static n) := by
  have hline : bare s!"public static class {n}" = "public static class ".toList ++ n.toList := by
    simp
  obtain ⟨hproperty, hname⟩ := named?_class "public static class " hn
  have henum : nameAt? "public enum " " : " ("public static class ".toList ++ n.toList) = none := by
    simp
  rw [hline, introduced?, hproperty, henum, hname, Option.map_some, String.ofList_toList]
  rfl

theorem introduced?_class {n : String} (hn : IsWord n.toList) (owner : String) :
    introduced? owner (bare s!"public class {n}") = some (.type n) := by
  have hline : bare s!"public class {n}" = "public class ".toList ++ n.toList := by simp
  obtain ⟨hproperty, hname⟩ := named?_class "public class " hn
  rw [hline, introduced?, hproperty, hname, Option.map_some, String.ofList_toList]
  simp

theorem introduced?_part (owner : String) :
    introduced? owner (bare s!"public static partial class {constantsClass}") =
      some (.part constantsClass) := rfl

theorem introduced?_const {t n : String} (ht : IsWord t.toList) (hn : NameText n.toList)
    (x owner : String) :
    introduced? owner (bare (constantLine t n x)) = some (.member owner (unmarked n.toList)) := by
  have hline : bare (constantLine t n x) = ("public const ".toList ++ (t.toList ++ (" ".toList ++
      (n.toList ++ (" = ".toList ++ x.toList))))) ++ [';'] := by
    unfold constantLine
    simp
  have hconst : ((after? "public const " (bare (constantLine t n x))).bind fun _ =>
      constant? (bare (constantLine t n x))) = some n.toList := by
    rw [constant?_constantLine ht hn, hline, List.append_assoc, after?_append, Option.bind_some]
  have henum : nameAt? "public enum " " : " (bare (constantLine t n x)) = none := by
    rw [hline]
    simp
  rw [hline, introduced?_concat rfl (by decide), ← hline, henum, hconst]
  rfl

/-- The name of a method, or of a constructor, stands before the parameters. -/
theorem methodName?_append {head : Line} (hhead : '(' ∉ head) (args : Line) :
    methodName? ("public ".toList ++ ((head ++ '(' :: args) ++ ")".toList)) =
      if (cutLast head).1 = [] then none else some (cutLast head).2 := by
  have htake : (head ++ '(' :: args).takeWhile (· != '(') = head :=
    takeWhile_append_stops (fun c hc => bne_iff_ne.2 fun h => hhead (h ▸ hc)) rfl
  rw [methodName?, between?_append, Option.bind_some, htake]

/-- A method. The first of the words before its name is the one for static members, or a type. -/
theorem introduced?_method {head name : Line} (hhead : '(' ∉ head) (hname : IsWord name) (args : Line)
    (owner : String) :
    introduced? owner ("public ".toList ++ ((('s' :: head ++ ' ' :: name) ++ '(' :: args) ++ [')'])) =
      some (.member owner (.ofList name)) := by
  have hparen : '(' ∉ 's' :: head ++ ' ' :: name := by
    have hname' : '(' ∉ name := hname.not_mem (by decide)
    simp [hhead, hname']
  have hmethod := methodName?_append hparen args
  rw [cutLast_append (unbroken_of_isWord hname), if_neg (by simp)] at hmethod
  have hclose : (")" : String).toList = [')'] := String.toList_ofList
  have hmark : unmarked name = .ofList name := by
    have h := unmarked_of_isWord (n := .ofList name) (by rwa [String.toList_ofList])
    rwa [String.toList_ofList] at h
  rw [hclose] at hmethod
  rw [← List.append_assoc, introduced?_concat rfl (by decide), List.append_assoc, hmethod]
  simp [hmark]

theorem introduced?_constructor {n p : String} (hn : IsWord n.toList) (owner : String) :
    introduced? owner (bare s!"public {n}({p})") = none := by
  have hclose : (")" : String).toList = [')'] := String.toList_ofList
  have hline : bare s!"public {n}({p})" =
      "public ".toList ++ ((n.toList ++ '(' :: p.toList) ++ ")".toList) := by simp
  have hafter : ∀ (q : String) u v,
      q.toList = ['p', 'u', 'b', 'l', 'i', 'c', ' '] ++ (u ++ ' ' :: v) →
      u.all isNamePart = true → after? q (bare s!"public {n}({p})") = none := by
    intro q u v hq hu
    rw [hline, List.append_assoc, List.cons_append, after?, hq, String.toList_ofList,
      isPrefixOf?_append_append]
    exact isPrefixOf?_word (List.all_eq_true.1 hu) rfl hn.2 rfl (by decide)
  have henum := hafter "public enum " ['e', 'n', 'u', 'm'] _ String.toList_ofList rfl
  have hconst := hafter "public const " ['c', 'o', 'n', 's', 't'] _ String.toList_ofList rfl
  have hcut : (cutLast n.toList).1 = [] := by
    have hblank : ∀ c ∈ n.toList.reverse, (c != ' ') = true := fun c hc =>
      (unbroken_of_isWord hn).ne_blank c (List.mem_reverse.1 hc)
    rw [cutLast, List.dropWhile_eq_nil_iff.2 hblank]
    rfl
  have hmethod : methodName? (bare s!"public {n}({p})") = none := by
    rw [hline, methodName?_append (hn.not_mem (by decide)), if_pos hcut]
  rw [hclose, ← List.append_assoc] at hline
  rw [hline, introduced?_concat rfl (by decide), ← hline, nameAt?, henum, hconst, hmethod]
  rfl

theorem introduced?_indexOf (t owner : String) :
    introduced? owner (bare s!"public static int IndexOf({t} value)") =
      some (.member owner "IndexOf") := by
  have hhead : '(' ∉ "tatic int".toList := by simp
  have hname : IsWord "IndexOf".toList := isWord_of_all (by simp) rfl
  have hmethod := introduced?_method hhead hname (t.toList ++ " value".toList) owner
  rw [String.ofList_toList] at hmethod
  rw [← hmethod]
  congr 1
  simp

theorem introduced?_valueAt {t : String} (ht : IsWord t.toList) (owner : String) :
    introduced? owner (bare s!"public static {t} ValueAt(int index)") =
      some (.member owner "ValueAt") := by
  have hparen : '(' ∉ t.toList := ht.not_mem (by decide)
  have hhead : '(' ∉ "tatic ".toList ++ t.toList := by simp [hparen]
  have hname : IsWord "ValueAt".toList := isWord_of_all (by simp) rfl
  have hmethod := introduced?_method hhead hname "int index".toList owner
  rw [String.ofList_toList] at hmethod
  rw [← hmethod]
  congr 1
  simp

theorem introduced?_toJson (owner : String) :
    introduced? owner (bare "public string ToJson()") = some (.member owner "ToJson") := by
  have hhead : '(' ∉ "tring".toList := by simp
  have hname : IsWord "ToJson".toList := isWord_of_all (by simp) rfl
  have hmethod := introduced?_method hhead hname [] owner
  rw [String.ofList_toList] at hmethod
  exact hmethod

theorem introduced?_fromJson {n : String} (hn : IsWord n.toList) (owner : String) :
    introduced? owner (bare s!"public static {n} FromJson(string json)") =
      some (.member owner "FromJson") := by
  have hparen : '(' ∉ n.toList := hn.not_mem (by decide)
  have hhead : '(' ∉ "tatic ".toList ++ n.toList := by simp [hparen]
  have hname : IsWord "FromJson".toList := isWord_of_all (by simp) rfl
  have hmethod := introduced?_method hhead hname "string json".toList owner
  rw [String.ofList_toList] at hmethod
  rw [← hmethod]
  congr 1
  simp

/-! ## Scanning -/

variable {owner : String} {l : Line} {ls rest : List Line} {i : Introduced}

theorem introducedFrom_some (h : introduced? owner l = some i) :
    introducedFrom owner (l :: rest) = i :: introducedFrom i.scope rest := by
  rw [introducedFrom, h]

theorem introducedFrom_none (h : introduced? owner l = none) :
    introducedFrom owner (l :: rest) = introducedFrom owner rest := by
  rw [introducedFrom, h]

theorem introducedFrom_quiet (h : ∀ l ∈ ls, introduced? owner l = none) :
    introducedFrom owner (ls ++ rest) = introducedFrom owner rest := by
  induction ls with
  | nil => rfl
  | cons l ls ih =>
    rw [List.cons_append, introducedFrom_none (h l List.mem_cons_self),
      ih fun x hx => h x (List.mem_cons_of_mem l hx)]

theorem introducedFrom_members {α : Type} {as : List α} {f : α → List String} {name : α → String}
    (h : ∀ a ∈ as, ∀ rest, introducedFrom owner (bareLines (f a) ++ rest) =
      .member owner (name a) :: introducedFrom owner rest) :
    introducedFrom owner (bareLines (as.flatMap f) ++ rest) =
      as.map (fun a => .member owner (name a)) ++ introducedFrom owner rest := by
  induction as with
  | nil => rfl
  | cons a as ih =>
    rw [List.flatMap_cons, bareLines_append, List.append_assoc, h a List.mem_cons_self,
      ih fun b hb => h b (List.mem_cons_of_mem a hb), List.map_cons, List.cons_append]

/-! ## Declarations -/

/-- What a declaration introduces. -/
def introducedBy : Decl → List Introduced
  | .constants g =>
    (match g.source.name with
      | some name => .static name
      | none => .part constantsClass) ::
      g.rows.map fun c => .member (ownerOf g.source) (unmarked c.name.toList)
  | .choice c =>
    if c.source.type.isInteger then
      [.type c.name, .static (c.name ++ "Lookup"), .member (c.name ++ "Lookup") "IndexOf",
       .member (c.name ++ "Lookup") "ValueAt"]
    else
      .static c.name :: (c.variants.map fun v => .member c.name (unmarked v.name.toList))
        ++ [.member c.name "IndexOf", .member c.name "ValueAt"]
  | .record r =>
    .type r.name :: (r.slots.map fun f => .member r.name f.member)
      ++ [.member r.name "ToJson", .member r.name "FromJson"]

theorem introducedFrom_constants {α : Type} {as : List α} {f g : α → String} {t : String}
    (ht : IsWord t.toList) (hf : ∀ a ∈ as, NameText (f a).toList) :
    introducedFrom owner (bareLines (as.map fun a => constantLine t (f a) (g a)) ++ rest) =
      as.map (fun a => .member owner (unmarked (f a).toList)) ++ introducedFrom owner rest := by
  rw [List.map_eq_flatMap]
  apply introducedFrom_members
  intro a ha rest
  exact introducedFrom_some (introduced?_const ht (hf a ha) (g a) owner)

theorem introduced?_arrow {a : String} (ha : Unbroken a.toList) (b owner : String) :
    introduced? owner (bare s!"{a} => {b},") = none := by
  have hline : bare s!"{a} => {b}," = a.toList ++ ' ' :: '=' :: ("> ".toList ++ b.toList ++ [',']) := by
    simp only [bare, toString_text, String.toList_append, List.append_assoc]
    rw [dropWhile_isMargin ha.stops]
    simp
  rw [hline]
  exact introduced?_equation ha _ (.inl rfl) owner

theorem quiet_switch {l : Lookup} (hl : ∀ a ∈ l.arms, Unbroken a.1.toList) (subject owner : String) :
    ∀ x ∈ bareLines (switch subject l), introduced? owner x = none := by
  have hwild : Unbroken ("_" : String).toList :=
    unbroken_of_isWord (isWord_of_all (by simp) rfl)
  simp only [switch, bareLines_append, bareLines_cons, bareLines_nil, bareLines_indent blank_margin,
    Lookup.arrows, List.forall_mem_append, List.forall_mem_cons, forall_bareLines,
    List.forall_mem_map, List.not_mem_nil, false_imp_iff, implies_true, and_true]
  refine ⟨⟨⟨introduced?_eq_none ?_ owner, introduced?_eq_none ?_ owner⟩, ?_, ?_⟩,
    introduced?_eq_none ?_ owner⟩
  · simp
  · simp
  · exact fun a ha => introduced?_arrow (hl a ha) _ owner
  · exact fun e _ => introduced?_arrow hwild e owner
  · simp

theorem introduced?_brace (owner : String) : introduced? owner "\x7b".toList = none ∧
    introduced? owner (bare "\x7d") = none ∧ introduced? owner (bare "") = none := by
  refine ⟨introduced?_eq_none ?_ owner, introduced?_eq_none ?_ owner, introduced?_eq_none ?_ owner⟩
  all_goals
    simp

theorem introducedFrom_lookupLines {c : Choice} (h : Tidy spelling (.choice c)) :
    introducedFrom owner (bareLines (lookupLines c) ++ rest) =
      .member owner "IndexOf" :: .member owner "ValueAt" :: introducedFrom owner rest := by
  obtain ⟨hopen, hclose, hblank⟩ := introduced?_brace owner
  have hindex : ∀ a ∈ (indexLookup c).arms, Unbroken a.1.toList := by
    intro a ha
    obtain ⟨p, hp, rfl⟩ := List.mem_map.1 ha
    exact unbroken_qualified h _ (List.fst_mem_of_mem_zipIdx hp)
  have hvalue : ∀ a ∈ (valueLookup c).arms, Unbroken a.1.toList := by
    intro a ha
    obtain ⟨p, hp, rfl⟩ := List.mem_map.1 ha
    exact unbroken_toString p.2
  simp only [lookupLines, bareLines_append, bareLines_nest, bareLines_cons, List.append_assoc,
    List.cons_append, List.nil_append]
  rw [introducedFrom_some (introduced?_indexOf _ _), Introduced.scope, introducedFrom_none hopen,
    introducedFrom_quiet (quiet_switch hindex _ owner), introducedFrom_none hclose,
    introducedFrom_none hblank, introducedFrom_some (introduced?_valueAt (isWord_memberType h) _),
    Introduced.scope, introducedFrom_none hopen, introducedFrom_quiet (quiet_switch hvalue _ owner),
    introducedFrom_none hclose]

theorem introducedFrom_constantsLines {g : Constants} (h : Tidy spelling (.constants g)) :
    introducedFrom owner (bareLines (constantsLines g) ++ rest) =
      introducedBy (.constants g) ++ introducedFrom (ownerOf g.source) rest := by
  obtain ⟨hopen, hclose, -⟩ := introduced?_brace (ownerOf g.source)
  have hrows : introducedFrom (ownerOf g.source)
      (bareLines (g.rows.map fun c => constantLine g.type c.name c.literal) ++ bare "\x7d" :: rest) =
        (g.rows.map fun c => .member (ownerOf g.source) (unmarked c.name.toList))
          ++ introducedFrom (ownerOf g.source) rest := by
    rw [introducedFrom_constants h.1 fun c hc => (h.2.2 c hc).1, introducedFrom_none hclose]
  cases hname : g.source.name with
  | some n =>
    have howner : ownerOf g.source = n := by rw [ownerOf, hname, Option.getD_some]
    simp only [constantsLines, introducedBy, hname, bareLines_nest, List.cons_append,
      List.append_assoc, List.nil_append]
    rw [introducedFrom_some (introduced?_static (h.2.1 n hname) owner), Introduced.scope, ← howner,
      introducedFrom_none hopen, hrows]
  | none =>
    have howner : ownerOf g.source = constantsClass := by rw [ownerOf, hname, Option.getD_none]
    simp only [constantsLines, introducedBy, hname, bareLines_nest, List.cons_append,
      List.append_assoc, List.nil_append]
    rw [introducedFrom_some (introduced?_part owner), Introduced.scope, ← howner,
      introducedFrom_none hopen, hrows]

theorem introducedFrom_choiceLines {c : Choice} (h : Tidy spelling (.choice c)) :
    ∃ owner', ∀ owner rest, introducedFrom owner (bareLines (choiceLines c) ++ rest) =
      introducedBy (.choice c) ++ introducedFrom owner' rest := by
  by_cases hint : c.source.type.isInteger = true
  · refine ⟨c.name ++ "Lookup", ?_⟩
    intro owner rest
    obtain ⟨hopen, hclose, hblank⟩ := introduced?_brace c.name
    obtain ⟨hopen', hclose', -⟩ := introduced?_brace (c.name ++ "Lookup")
    have hvariants : ∀ l ∈ bareLines (c.variants.map fun v => s!"{v.name} = {v.literal},"),
        introduced? c.name l = none := by
      rw [forall_bareLines, List.forall_mem_map]
      intro v hv
      have hv' := (h.2.2 v hv).2.1.unbroken
      have hline : bare s!"{v.name} = {v.literal}," =
          v.name.toList ++ ' ' :: '=' :: (" ".toList ++ v.literal.toList ++ [',']) := by
        simp only [bare, toString_text, String.toList_append, List.append_assoc]
        rw [dropWhile_isMargin hv'.stops]
        simp
      rw [hline]
      exact introduced?_equation hv' _ (.inl rfl) c.name
    have hlookup : introduced? c.name (bare s!"public static class {c.name}Lookup") =
        some (.static (c.name ++ "Lookup")) := by
      have hword : IsWord (c.name ++ "Lookup").toList := by
        rw [String.toList_append, String.toList_ofList]
        exact h.1.append (List.all_eq_true.1 rfl)
      have hstatic := introduced?_static hword c.name
      simp only [toString_text] at hstatic ⊢
      rw [String.append_assoc]
      exact hstatic
    simp only [choiceLines, introducedBy, if_pos hint, bareLines_append, bareLines_nest,
      bareLines_cons, List.append_assoc, List.cons_append, List.nil_append]
    rw [introducedFrom_some (introduced?_enum h.1 h.2.1 owner), Introduced.scope,
      introducedFrom_none hopen, introducedFrom_quiet hvariants, introducedFrom_none hclose,
      introducedFrom_none hblank, introducedFrom_some hlookup, Introduced.scope,
      introducedFrom_none hopen', introducedFrom_lookupLines h, introducedFrom_none hclose']
  · refine ⟨c.name, ?_⟩
    intro owner rest
    obtain ⟨hopen, hclose, hblank⟩ := introduced?_brace c.name
    simp only [choiceLines, introducedBy, if_neg hint, bareLines_append, bareLines_nest,
      bareLines_cons, List.append_assoc, List.cons_append, List.nil_append]
    rw [introducedFrom_some (introduced?_static h.1 owner), Introduced.scope,
      introducedFrom_none hopen,
      introducedFrom_constants (f := Variant.name) h.2.1 fun v hv => (h.2.2 v hv).2.1,
      introducedFrom_none hblank, introducedFrom_lookupLines h, introducedFrom_none hclose]

theorem introducedFrom_recordLines {r : Record} (h : Tidy spelling (.record r)) :
    introducedFrom owner (bareLines (recordLines r) ++ rest) =
      introducedBy (.record r) ++ introducedFrom r.name rest := by
  obtain ⟨hopen, hclose, hblank⟩ := introduced?_brace r.name
  have hslots : ∀ rest, introducedFrom r.name (bareLines (r.slots.flatMap slotLines) ++ rest) =
      r.slots.map (fun f => .member r.name f.member) ++ introducedFrom r.name rest := by
    intro rest
    apply introducedFrom_members
    intro f hf rest
    have htag : introduced? r.name (bare s!"[JsonPropertyName({Text.quote f.key})]") = none := by
      apply introduced?_eq_none
      simp
    simp only [slotLines, bareLines_cons, bareLines_nil, List.cons_append, List.nil_append]
    rw [introducedFrom_none htag, introducedFrom_some (introduced?_property (h.2 f hf).2.2.1 _ _),
      Introduced.scope, introducedFrom_none hblank]
  have hset : ∀ l ∈ bareLines (r.slots.map fun s => s!"{s.member} = {s.param};"),
      introduced? r.name l = none := by
    rw [forall_bareLines, List.forall_mem_map]
    intro f hf
    have hmember := unbroken_of_isWord (h.2 f hf).2.2.1
    have hline : bare s!"{f.member} = {f.param};" =
        f.member.toList ++ ' ' :: '=' :: (" ".toList ++ f.param.toList ++ [';']) := by
      simp only [bare, toString_text, String.toList_append, List.append_assoc]
      rw [dropWhile_isMargin hmember.stops]
      simp
    rw [hline]
    exact introduced?_equation hmember _ (.inr rfl) r.name
  have hquiet : introduced? r.name (bare "[JsonConstructor]") = none ∧
      introduced? r.name (bare "return JsonSerializer.Serialize(this);") = none ∧
      introduced? r.name (bare s!"return JsonSerializer.Deserialize<{r.name}>(json)") = none ∧
      introduced? r.name (bare s!"    ?? throw new JsonException(\"Expected {r.name} but found null\");") =
        none := by
    refine ⟨introduced?_eq_none ?_ _, introduced?_eq_none ?_ _, introduced?_eq_none ?_ _,
      introduced?_eq_none ?_ _⟩
    all_goals
      simp
  obtain ⟨htag, hencode, hdecode, hnull⟩ := hquiet
  simp only [recordLines, introducedBy, bareLines_append, bareLines_nest, bareLines_cons,
    bareLines_nil, List.append_assoc, List.cons_append, List.nil_append]
  rw [introducedFrom_some (introduced?_class h.1 owner), Introduced.scope, introducedFrom_none hopen,
    hslots, introducedFrom_none htag, introducedFrom_none (introduced?_constructor h.1 _),
    introducedFrom_none hopen, introducedFrom_quiet hset, introducedFrom_none hclose,
    introducedFrom_none hblank, introducedFrom_some (introduced?_toJson _), Introduced.scope,
    introducedFrom_none hopen, introducedFrom_none hencode, introducedFrom_none hclose,
    introducedFrom_none hblank, introducedFrom_some (introduced?_fromJson h.1 _), Introduced.scope,
    introducedFrom_none hopen, introducedFrom_none hdecode, introducedFrom_none hnull,
    introducedFrom_none hclose, introducedFrom_none hclose]

/-- A declaration introduces the same after any line. -/
theorem introducedFrom_declLines {d : Decl} (h : Tidy spelling d) :
    ∃ owner', ∀ owner rest, introducedFrom owner (bareLines (declLines d) ++ rest) =
      introducedBy d ++ introducedFrom owner' rest := by
  cases d with
  | constants g => exact ⟨_, fun _ _ => introducedFrom_constantsLines h⟩
  | choice c => exact introducedFrom_choiceLines h
  | record r => exact ⟨_, fun _ _ => introducedFrom_recordLines h⟩

theorem introducedFrom_decls {ds : List Decl} (h : ∀ d ∈ ds, Tidy spelling d) (owner : String) :
    ∃ owner', ∀ rest,
      introducedFrom owner ((ds.flatMap fun d => bare "" :: bareLines (declLines d)) ++ rest) =
        ds.flatMap introducedBy ++ introducedFrom owner' rest := by
  induction ds generalizing owner with
  | nil => exact ⟨owner, fun _ => rfl⟩
  | cons d ds ih =>
    obtain ⟨owner₁, hd⟩ := introducedFrom_declLines (h d List.mem_cons_self)
    obtain ⟨owner₂, hds⟩ := ih (fun x hx => h x (List.mem_cons_of_mem d hx)) owner₁
    refine ⟨owner₂, ?_⟩
    intro rest
    obtain ⟨-, -, hblank⟩ := introduced?_brace owner
    rw [List.flatMap_cons, List.flatMap_cons, List.append_assoc, List.append_assoc, List.cons_append,
      introducedFrom_none hblank, hd, hds]

/-- **What a file introduces** is what its declarations introduce, in order. -/
theorem introduced_lines {s : Schema} (hs : s.Spelled) :
    introduced (sourceText (lines s)) = (dialect.decls s).flatMap introducedBy := by
  obtain ⟨hopen, -, hblank⟩ := introduced?_brace ""
  obtain ⟨owner, hbody⟩ := introducedFrom_decls (tidy_dialect.decls hs) ""
  obtain ⟨-, hclose, hend⟩ := introduced?_brace owner
  rw [← bareLines_spaced] at hbody
  -- the blank line before the first declaration is left out in a namespace
  have hdrop : ∀ rest, introducedFrom ""
      (bareLines ((spaced ((dialect.decls s).map declLines)).drop 1) ++ rest) =
        (dialect.decls s).flatMap introducedBy ++ introducedFrom owner rest := by
    intro rest
    rw [← hbody]
    cases dialect.decls s with
    | nil => rfl
    | cons d ds =>
      rw [List.map_cons, spaced, List.flatMap_cons, List.cons_append, List.drop_one, List.tail_cons,
        bareLines_cons, List.cons_append, introducedFrom_none hblank]
  have hheader : ∀ l ∈ bareLines header, introduced? "" l = none := by
    simp only [header, bareLines_cons, bareLines_nil, List.forall_mem_cons, List.not_mem_nil,
      IsEmpty.forall_iff, implies_true, and_true]
    and_intros
    all_goals
      apply introduced?_eq_none
      simp
  have hnil : bare "" = [] := by
    rw [bare, String.toList_ofList]
    rfl
  have hne : lines s ≠ [] := Target.csharp.lines_ne_nil s
  rw [introduced, linesOf_sourceText hne (flat_lines hs), ← hnil, lines]
  split
  · rw [bareLines_append, List.append_assoc, introducedFrom_quiet hheader, hbody,
      introducedFrom_none hend, introducedFrom, List.append_nil]
  · have hnamespace : introduced? "" (bare ("namespace " ++ ".".intercalate s.package)) = none := by
      apply introduced?_eq_none
      simp
    simp only [bareLines_append, bareLines_cons, bareLines_nest, List.append_assoc, List.cons_append,
      List.nil_append]
    rw [introducedFrom_quiet hheader, introducedFrom_none hblank, introducedFrom_none hnamespace,
      introducedFrom_none hopen, hdrop, introducedFrom_none hclose, introducedFrom_none hend,
      introducedFrom, List.append_nil]

end CSharp

end Idl
