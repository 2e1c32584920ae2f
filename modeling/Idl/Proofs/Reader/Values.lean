import Mathlib.Data.List.TakeWhile
import Mathlib.Order.Basic
import Idl.Proofs.Reader.Grammar

/-!
# Literals by their look

The kind of a literal is found by its look, and its value by the reader of that kind.

* `value_iff`: both together give exactly the values of the grammar.
-/

namespace Idl

open Grammar

/-! ## Integers -/

theorem isDigit_of_isDigit {c : Char} (h : c.isDigit = true) : Text.isDigit c = true := by
  simp [Text.isDigit, h]

theorem digits_of_all {ds : List Char} (hne : ds ≠ []) (hds : ds.all Char.isDigit = true) :
    Lexeme.digits ds = some ⟨ds, []⟩ := by
  have h : ∀ c ∈ ds, Text.isDigit c = true := fun c hc =>
    isDigit_of_isDigit (List.all_eq_true.1 hds c hc)
  have ht : ds.takeWhile Text.isDigit = ds := List.takeWhile_eq_self_iff.2 h
  have hd : ds.dropWhile Text.isDigit = [] := List.dropWhile_eq_nil_iff.2 h
  simp [Lexeme.digits, Lexeme.some1, ht, hd, hne]

theorem isWhole_integer_of_readInt? {w : String} {n : Int} (h : readInt? w = some n) :
    Literal.isWhole Lexeme.integer w = true := by
  simp only [readInt?] at h
  unfold Literal.isWhole
  split at h
  · next ds hw =>
    obtain ⟨⟨hne, hds⟩, -⟩ := Option.ite_none_right_eq_some.1 h
    simp [hw, Lexeme.integer, Lexeme.andThen, Lexeme.optional, Lexeme.one, digits_of_all hne hds]
  · next hw =>
    obtain ⟨⟨hne, hds⟩, -⟩ := Option.ite_none_right_eq_some.1 h
    obtain ⟨c, cs, hc⟩ := List.exists_cons_of_ne_nil hne
    have hminus : c ≠ '-' := fun he => hw cs (by rw [← he]; exact hc)
    have hd := digits_of_all hne hds
    simp only at hc hd
    simp [hc, Lexeme.integer, Lexeme.andThen, Lexeme.optional, Lexeme.one, hminus, hc ▸ hd]

/-! ## Quoted text -/

theorem toNat_ge_of_hexValue? {c : Char} {n : ℕ} (h : Text.hexValue? c = some n) :
    0x20 ≤ c.toNat := by
  have le {a b : Char} (hab : a ≤ b) : a.toNat ≤ b.toNat := hab
  unfold Text.hexValue? at h
  split_ifs at h with h₁ h₂ h₃
  · exact (show 0x20 ≤ '0'.toNat by decide).trans (le h₁.1)
  · exact (show 0x20 ≤ 'a'.toNat by decide).trans (le h₂.1)
  · exact (show 0x20 ≤ 'A'.toNat by decide).trans (le h₃.1)

theorem toNat_ge_of_hexUnit? {a b c d : Char} {n : ℕ} (h : Text.hexUnit? a b c d = some n) :
    ∀ x ∈ [a, b, c, d], 0x20 ≤ x.toNat := by
  simp only [Text.hexUnit?, Option.bind_eq_bind, Option.bind_eq_some_iff] at h
  obtain ⟨_, ha, _, hb, _, hc, _, hd, -⟩ := h
  simp [toNat_ge_of_hexValue? ha, toNat_ge_of_hexValue? hb, toNat_ge_of_hexValue? hc,
    toNat_ge_of_hexValue? hd]

theorem toNat_ge_of_ofShortEscape? {e c : Char} (h : Text.ofShortEscape? e = some c) :
    0x20 ≤ e.toNat := by
  unfold Text.ofShortEscape? at h
  split_ifs at h <;> subst e <;> decide

/-- The characters end in a quote, and none of them is a control. -/
def Closes (cs : List Char) : Prop := cs.getLast? = some '"' ∧ ∀ c ∈ cs, 0x20 ≤ c.toNat

theorem Closes.append {ds : List Char} (h : Closes ds) (cs : List Char)
    (hcs : ∀ c ∈ cs, 0x20 ≤ c.toNat) : Closes (cs ++ ds) := by
  refine ⟨by simp [List.getLast?_append, h.1], fun c hc => ?_⟩
  rcases List.mem_append.1 hc with hc | hc
  · exact hcs c hc
  · exact h.2 c hc

theorem Closes.unit {a b c d : Char} {n : ℕ} {cs : List Char} (h : Closes cs)
    (hn : Text.hexUnit? a b c d = some n) : Closes ('\\' :: 'u' :: a :: b :: c :: d :: cs) := by
  refine h.append ['\\', 'u', a, b, c, d] fun x hx => ?_
  rcases List.mem_append.1 (show x ∈ ['\\', 'u'] ++ [a, b, c, d] from hx) with hx | hx
  · simp only [List.mem_cons, List.not_mem_nil, or_false] at hx
    rcases hx with rfl | rfl <;> decide
  · exact toNat_ge_of_hexUnit? hn x hx

theorem closes_of_unquoteRest? {cs s : List Char} (h : Text.unquoteRest? cs = some s) :
    Closes cs := by
  fun_induction Text.unquoteRest? cs generalizing s with
  | case1 | case3 | case6 => exact absurd h (by simp)
  | case2 rest hrest =>
    obtain rfl := List.isEmpty_iff.1 hrest
    exact ⟨rfl, by simp⟩
  | case4 a b c d rest ih₂ ih₁ =>
    obtain ⟨n, hn, h⟩ := Option.bind_eq_some_iff.1 h
    split_ifs at h
    · split at h
      · obtain ⟨lo, hlo, h⟩ := Option.bind_eq_some_iff.1 h
        split_ifs at h
        obtain ⟨t, ht, -⟩ := Option.bind_eq_some_iff.1 h
        exact ((ih₂ ht).unit hlo).unit hn
      · exact absurd h (by simp)
    · obtain ⟨t, ht, -⟩ := Option.bind_eq_some_iff.1 h
      exact (ih₁ ht).unit hn
  | case5 e rest _ ih =>
    obtain ⟨c, hc, h⟩ := Option.bind_eq_some_iff.1 h
    obtain ⟨t, ht, -⟩ := Option.bind_eq_some_iff.1 h
    refine (ih ht).append ['\\', e] fun x hx => ?_
    simp only [List.mem_cons, List.not_mem_nil, or_false] at hx
    rcases hx with rfl | rfl
    · decide
    · exact toNat_ge_of_ofShortEscape? hc
  | case7 c rest _ _ _ hc ih =>
    obtain ⟨t, ht, -⟩ := Option.bind_eq_some_iff.1 h
    exact (ih ht).append [c] (by simpa using hc)

theorem looksQuoted_of_unquote? {w s : String} (h : Text.unquote? w = some s) :
    Literal.looksQuoted w = true ∧ w.toList.head? = some '"' := by
  obtain ⟨t, ht, -⟩ := Option.map_eq_some_iff.1 h
  unfold Text.unquoteChars? at ht
  split at ht
  · next cs hw =>
    obtain ⟨hlast, hall⟩ := closes_of_unquoteRest? ht
    have hline : '\n' ∉ cs := fun hc => absurd (hall _ hc) (by decide)
    have hpos : 1 ≤ cs.length := List.length_pos_iff.2 (by rintro rfl; simp at hlast)
    simp [Literal.looksQuoted, hw, List.getLast?_cons, hlast, hline, hpos]
  · exact absurd ht (by simp)

theorem isWhole_integer_of_head? {w : String} (h : w.toList.head? = some '"') :
    Literal.isWhole Lexeme.integer w = false := by
  obtain ⟨cs, hw⟩ := List.head?_eq_some_iff.1 h
  have hq : Text.isDigit '"' = false := by decide
  simp [Literal.isWhole, hw, Lexeme.integer, Lexeme.andThen, Lexeme.optional, Lexeme.one,
    Lexeme.digits, Lexeme.some1, hq]

theorem isWhole_anyNumber_of_head? {w : String} (h : w.toList.head? = some '"') :
    Literal.isWhole Literal.anyNumber w = false := by
  obtain ⟨cs, hw⟩ := List.head?_eq_some_iff.1 h
  have hq : Text.isDigit '"' = false := by decide
  simp [Literal.isWhole, hw, Literal.anyNumber, Lexeme.integer, Lexeme.andThen, Lexeme.optional,
    Lexeme.one, Lexeme.digits, Lexeme.some1, hq]

/-! ## All literals -/

/-- The kinds by their looks, each apart from those tried before it. -/
theorem kind?_eq_some_iff {w : String} {k : LiteralKind} :
    Literal.kind? w = some k ↔
      (k = .integer ∧ Literal.isWhole Lexeme.integer w = true) ∨
      (Literal.isWhole Lexeme.integer w = false ∧
        ((k = .float ∧ Literal.isWhole Literal.anyNumber w = true) ∨
        (Literal.isWhole Literal.anyNumber w = false ∧
          ((k = .string ∧ Literal.looksQuoted w = true) ∨
          (Literal.looksQuoted w = false ∧ k = .bool ∧ (w = "true" ∨ w = "false")))))) := by
  unfold Literal.kind?
  split_ifs with h₁ h₂ h₃ h₄ <;> cases k <;> simp_all

theorem int64?_eq_some_iff {n : Int} {i : Int64} :
    Literal.int64? n = some i ↔ (-2 ^ 63 ≤ n ∧ n < 2 ^ 63) ∧ .ofInt n = i := by
  simp [Literal.int64?]

/-- **The values of the grammar** are those of the kind that a text looks like. -/
theorem value_iff {w : String} {v : Literal} :
    Value w v ↔ ∃ k, Literal.kind? w = some k ∧ Literal.read? k w = some v := by
  constructor
  · rintro (⟨hn, hlo, hhi⟩ | ⟨hlook, hint, hx⟩ | hs | _ | _)
    · exact ⟨.integer, kind?_eq_some_iff.2 (.inl ⟨rfl, isWhole_integer_of_readInt? hn⟩),
        by simp [Literal.read?, hn, int64?_eq_some_iff.2 ⟨⟨hlo, hhi⟩, rfl⟩]⟩
    · exact ⟨.float, kind?_eq_some_iff.2 (.inr ⟨hint, .inl ⟨rfl, hlook⟩⟩), by simp [Literal.read?, hx]⟩
    · obtain ⟨hlook, hhead⟩ := looksQuoted_of_unquote? hs
      exact ⟨.string, kind?_eq_some_iff.2 (.inr ⟨isWhole_integer_of_head? hhead,
        .inr ⟨isWhole_anyNumber_of_head? hhead, .inl ⟨rfl, hlook⟩⟩⟩), by simp [Literal.read?, hs]⟩
    · exact ⟨.bool, by decide, rfl⟩
    · exact ⟨.bool, by decide, rfl⟩
  · rintro ⟨k, hk, hv⟩
    rcases kind?_eq_some_iff.1 hk with ⟨rfl, -⟩ | ⟨hint, ⟨rfl, hlook⟩ | ⟨-, ⟨rfl, -⟩ | ⟨-, rfl, hw⟩⟩⟩
    · obtain ⟨i, hi, rfl⟩ := Option.map_eq_some_iff.1 hv
      obtain ⟨n, hn, hi⟩ := Option.bind_eq_some_iff.1 hi
      obtain ⟨⟨hlo, hhi⟩, rfl⟩ := int64?_eq_some_iff.1 hi
      exact .integer hn hlo hhi
    · obtain ⟨x, hx, rfl⟩ := Option.map_eq_some_iff.1 hv
      exact .float hlook hint hx
    · obtain ⟨s, hs, rfl⟩ := Option.map_eq_some_iff.1 hv
      exact .string hs
    · rcases hw with rfl | rfl <;> cases hv
      · exact .true
      · exact .false

end Idl
