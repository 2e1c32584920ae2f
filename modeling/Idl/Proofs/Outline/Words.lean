import Mathlib
import Idl.Proofs.Layout
import Idl.Proofs.Naming
import Idl.Proofs.Token.Pattern

/-!
# Words

The names of a schema are words of letters, digits and underscores, and so are the names that
targets make of them.

* `IsWord`: a text of the characters of identifiers.
* `isWord_avoid`, `isWord_camel`, `isWord_pascal`: names in targets.
* `Schema.Spelled`, **`Schema.spelled_of_compile`**: the names of a compiled schema are words.
-/

namespace Idl

open Lexeme

/-- A text of the characters of identifiers. -/
def IsWord (x : List Char) : Prop := x ≠ [] ∧ ∀ c ∈ x, isNamePart c = true

theorem isWord_of_all {x : List Char} (hx : x ≠ []) (hall : x.all isNamePart = true) : IsWord x :=
  ⟨hx, List.all_eq_true.1 hall⟩

namespace IsWord

variable {x y : List Char} {c : Char}

theorem append (hx : IsWord x) (hy : ∀ c ∈ y, isNamePart c = true) : IsWord (x ++ y) := by
  refine ⟨by simp [hx.1], ?_⟩
  intro c hc
  rcases List.mem_append.1 hc with hc | hc
  · exact hx.2 c hc
  · exact hy c hc

theorem not_mem (hx : IsWord x) (hc : isNamePart c = false) : c ∉ x := by
  intro hmem
  rw [hx.2 c hmem] at hc
  cases hc

theorem ne_of_mem (hx : IsWord x) {d : Char} (hc : c ∈ x) (hd : isNamePart d = false) : c ≠ d := by
  rintro rfl
  exact hx.not_mem hd hc

theorem exists_cons (hx : IsWord x) : ∃ c cs, x = c :: cs ∧ isNamePart c = true := by
  obtain ⟨c, cs, rfl⟩ := List.exists_cons_of_ne_nil hx.1
  exact ⟨c, cs, rfl, hx.2 c List.mem_cons_self⟩

end IsWord

theorem isWord_of_name {n : String} (h : Grammar.Name n) : IsWord n.toList := by
  unfold Grammar.Name Cursor.isName at h
  split at h
  · cases h
  · rename_i c cs heq
    rw [Bool.and_eq_true, List.all_eq_true] at h
    rw [heq]
    refine ⟨List.cons_ne_nil c cs, ?_⟩
    intro d hd
    rcases List.mem_cons.1 hd with rfl | hd
    · exact isNamePart_of_isNameStart h.1
    · exact h.2 d hd

/-! ## Names in targets -/

theorem isWord_joinWords {cs : List Char} (h : IsWord cs) : IsWord (Naming.joinWords cs) := by
  refine isWord_of_all ?_ ?_
  · obtain ⟨c, rest, rfl, -⟩ := h.exists_cons
    cases rest with
    | nil => simp [Naming.joinWords]
    | cons d rest =>
      rw [Naming.joinWords]
      split_ifs <;> simp
  · rw [Naming.all_joinWords]
    exact List.all_eq_true.2 h.2

theorem isWord_camel {n : String} (h : IsWord n.toList) : IsWord (Naming.camel n).toList := by
  rw [Naming.camel, String.toList_ofList]
  exact isWord_joinWords h

theorem isWord_pascal {n : String} (h : IsWord n.toList) : IsWord (Naming.pascal n).toList := by
  rw [Naming.pascal, String.toList_ofList]
  obtain ⟨c, cs, heq, hc⟩ := (isWord_joinWords h).exists_cons
  have hall := (isWord_joinWords h).2
  rw [heq] at hall ⊢
  refine ⟨by simp [Naming.capitalise], ?_⟩
  intro d hd
  rcases List.mem_cons.1 hd with rfl | hd
  · rwa [Naming.isNamePart_toUpper]
  · exact hall d (List.mem_cons_of_mem c hd)

theorem isWord_avoid {taken : List String} {n : String} (h : IsWord n.toList) :
    IsWord (avoid taken n).toList := by
  unfold avoid
  split
  · rw [String.toList_append]
    exact h.append (by simp [isNamePart])
  · exact h

theorem isWord_binding {c : ConstGroup} {m : Member} (hc : ∀ n, c.name = some n → IsWord n.toList)
    (hm : IsWord m.name.toList) : IsWord (c.binding m).toList := by
  unfold ConstGroup.binding
  split
  · rename_i n hn
    rw [String.toList_append, String.toList_append]
    exact ((hc n hn).append (by simp [isNamePart])).append hm.2
  · exact hm

/-! ## Names of a schema -/

/-- The names in a type are words. -/
def FieldType.Spelled : FieldType → Prop
  | .named n => IsWord n.toList
  | .list t => t.Spelled
  | _ => True

/-- The names in an entry are words. -/
def Entry.Spelled : Entry → Prop
  | .const c => (∀ n, c.name = some n → IsWord n.toList) ∧ ∀ m ∈ c.members, IsWord m.name.toList
  | .enum e => IsWord e.name.toList ∧ ∀ m ∈ e.members, IsWord m.name.toList
  | .object o =>
    IsWord o.name.toList ∧ ∀ f ∈ o.fields, IsWord f.name.toList ∧ f.type.Spelled

/-- The names in a schema are words. -/
structure Schema.Spelled (s : Schema) : Prop where
  package : ∀ n ∈ s.package, IsWord n.toList
  entry : ∀ e ∈ s.entries, e.Spelled

namespace Grammar

theorem Many.forall {α : Type} {G : List String → α → Prop} {P : α → Prop} {ws : List String}
    {as : List α} (hG : ∀ ws a, G ws a → P a) (h : Many G ws as) : ∀ a ∈ as, P a := by
  induction h with
  | nil => simp
  | cons head _ ih =>
    intro a ha
    rcases List.mem_cons.1 ha with rfl | ha
    · exact hG _ _ head
    · exact ih a ha

theorem Braced.forall {α : Type} {G : List String → α → Prop} {P : α → Prop} {ws : List String}
    {as : List α} (hG : ∀ ws a, G ws a → P a) (h : Braced G ws as) : ∀ a ∈ as, P a := by
  obtain ⟨h⟩ := h
  exact h.forall hG

theorem TypeOf.spelled {ws : List String} {t : FieldType} (h : TypeOf ws t) : t.Spelled := by
  induction h with
  | primitive => trivial
  | list _ ih => exact ih
  | map => trivial
  | named name => exact isWord_of_name name

theorem MemberOf.isWord (ws : List String) (m : Member) (h : MemberOf ws m) :
    IsWord m.name.toList := by
  obtain ⟨name, -, -⟩ := h
  exact isWord_of_name name

theorem FieldOf.spelled (ws : List String) (f : Field) (h : FieldOf ws f) :
    IsWord f.name.toList ∧ f.type.Spelled := by
  obtain ⟨type, name, -⟩ := h
  exact ⟨isWord_of_name name, type.spelled⟩

theorem EntryOf.spelled (ws : List String) (e : Entry) (h : EntryOf ws e) : e.Spelled := by
  cases h with
  | const group =>
    cases group with
    | named name p members position =>
      refine ⟨?_, members.forall MemberOf.isWord⟩
      intro n hn
      obtain rfl := Option.some.inj hn
      exact isWord_of_name name
    | unnamed p members position =>
      refine ⟨?_, members.forall MemberOf.isWord⟩
      intro n hn
      cases hn
  | enum decl =>
    obtain ⟨name, p, members, position⟩ := decl
    exact ⟨isWord_of_name name, members.forall MemberOf.isWord⟩
  | object decl =>
    obtain ⟨name, fields, position⟩ := decl
    exact ⟨isWord_of_name name, fields.forall FieldOf.spelled⟩

theorem Derives.spelled {ws : List String} {s : Schema} (h : Derives ws s) : s.Spelled := by
  obtain ⟨package, entries⟩ := h
  refine ⟨?_, entries.forall EntryOf.spelled⟩
  cases package with
  | none => simp
  | path first others =>
    intro n hn
    rcases List.mem_cons.1 hn with rfl | hn
    · exact isWord_of_name first
    · exact isWord_of_name (others n hn)

end Grammar

theorem Schema.derives_of_compile {text : String} {s : Schema} (h : Schema.compile text = .ok s) :
    ∃ ws, Grammar.Derives ws s := by
  obtain ⟨s', hparse, h'⟩ := bind_eq_ok_iff.1 h
  obtain ⟨-, hs⟩ := bind_unit_eq_ok_iff.1 h'
  cases hs
  obtain ⟨ts, hscan, hread⟩ := bind_eq_ok_iff.1 hparse
  obtain ⟨us, e, rfl, hus, he⟩ := scan_eq_ok (mapError_eq_ok_iff.1 hscan)
  exact ⟨_, derives_of_ofTokens hus he (mapError_eq_ok_iff.1 hread)⟩

/-- **The names of a compiled schema are words.** -/
theorem Schema.spelled_of_compile {text : String} {s : Schema}
    (h : Schema.compile text = .ok s) : s.Spelled := by
  obtain ⟨ws, hs⟩ := Schema.derives_of_compile h
  exact hs.spelled

end Idl
