import Idl.Target.Dart
import Idl.Text.Escape
import Idl.Text.Quoted
import Mathlib.Data.List.TakeWhile
import Mathlib.Logic.Function.Basic
import Mathlib.Tactic.Common

/-!
# Different texts have different literals

* `unquoteRest?_quoteChar`, **`unquote?_quote`**: a quoted text reads back.
* `quoteChar_cases`: a character is written as it is, or in visible ASCII.
* `PrefixFree`: no character is written as the beginning of another, so texts written character by
  character stay different.
* `quote_injective`, `escapeAscii_injective`, `Dart.stringText_injective`.
-/

namespace Idl.Text

/-! ## Quoted texts read back -/

theorem hexValue?_hexDigit : ∀ n < 16, hexValue? (hexDigit n) = some n := by decide

theorem ofShortEscape?_of_shortEscape? {c e : Char} (h : shortEscape? c = some e) :
    ofShortEscape? e = some c ∧ e ≠ 'u' := by
  unfold shortEscape? at h
  split_ifs at h <;> subst c <;> cases h <;> decide

/-- One character is read back. -/
theorem unquoteRest?_quoteChar (c : Char) (rest : List Char) :
    unquoteRest? (quoteChar c ++ rest) = (unquoteRest? rest).map (c :: ·) := by
  unfold quoteChar
  split
  · rename_i e he
    obtain ⟨hback, hu⟩ := ofShortEscape?_of_shortEscape? he
    change unquoteRest? ('\\' :: e :: rest) = _
    rw [unquoteRest?, hback]
    · cases unquoteRest? rest <;> rfl
    · simp [hu]
  · rename_i hshort
    split_ifs with hlow
    · have hunit : hexUnit? '0' '0' (hexDigit (c.toNat / 16)) (hexDigit (c.toNat % 16)) =
          some c.toNat := by
        simp [hexUnit?, hexValue?_hexDigit (c.toNat / 16) (by omega),
          hexValue?_hexDigit (c.toNat % 16) (by omega), show hexValue? '0' = some 0 by decide]
        omega
      have hhigh : isHighSurrogate c.toNat = false := by simp [isHighSurrogate]; omega
      have hlast : isLowSurrogate c.toNat = false := by simp [isLowSurrogate]; omega
      change unquoteRest? ('\\' :: 'u' :: '0' :: '0' :: _ :: _ :: rest) = _
      rw [unquoteRest?, hunit]
      simp only [Option.bind_eq_bind, Option.bind_some, hhigh, hlast, Bool.false_eq_true, if_false,
        Char.ofNat_toNat]
      cases unquoteRest? rest <;> rfl
    · have hquote : c ≠ '"' := by rintro rfl; simp [shortEscape?] at hshort
      have hslash : c ≠ '\\' := by rintro rfl; simp [shortEscape?] at hshort
      change unquoteRest? (c :: rest) = _
      rw [unquoteRest?, if_neg hlow]
      · cases unquoteRest? rest <;> rfl
      · simp [hquote]
      · simp [hslash]
      · simp [hslash]

theorem unquoteRest?_quoted (cs : List Char) :
    unquoteRest? (cs.flatMap quoteChar ++ ['"']) = some cs := by
  induction cs with
  | nil => rfl
  | cons c cs ih =>
    rw [List.flatMap_cons, List.append_assoc, unquoteRest?_quoteChar, ih]
    rfl

/-- **A quoted text reads back.** -/
theorem unquote?_quote (s : String) : unquote? (quote s) = some s := by
  simp [unquote?, quote, quoteChars, unquoteChars?, unquoteRest?_quoted]

theorem quote_injective : Function.Injective quote := by
  intro s t h
  have hs := unquote?_quote s
  rw [h, unquote?_quote] at hs
  exact (Option.some.inj hs).symm

/-! ## What is written can be seen -/

/-- A character is written as it is, or in visible ASCII. -/
theorem quoteChar_cases (c : Char) : (quoteChar c = [c] ∧ 0x20 ≤ c.toNat) ∨
    (c.toNat < 0x80 ∧ ∀ x ∈ quoteChar c, x ≠ '$' ∧ 0x20 ≤ x.toNat ∧ x.toNat < 0x80) := by
  have hhex : ∀ n < 16, hexDigit n ≠ '$' ∧ 0x20 ≤ (hexDigit n).toNat ∧ (hexDigit n).toNat < 0x80 := by
    decide
  unfold quoteChar
  split
  · rename_i e he
    unfold shortEscape? at he
    right
    simp only [List.forall_mem_cons]
    split_ifs at he <;> subst c <;> cases he <;> exact ⟨by decide, by decide, by decide, nofun⟩
  · split_ifs with hlow
    · refine .inr ⟨by omega, ?_⟩
      simp only [List.forall_mem_cons]
      exact ⟨by decide, by decide, by decide, by decide, hhex _ (by omega), hhex _ (by omega), nofun⟩
    · exact .inl ⟨rfl, by omega⟩

theorem toNat_ge_of_mem_quoteChar {c x : Char} (hx : x ∈ quoteChar c) : 0x20 ≤ x.toNat := by
  rcases quoteChar_cases c with ⟨h, hc⟩ | ⟨-, h⟩
  · rw [h, List.mem_singleton] at hx
    rwa [hx]
  · exact (h x hx).2.1

/-! ## Character by character -/

/-- No character is written as the beginning of what another is written as. -/
def PrefixFree (f : Char → List Char) : Prop :=
  ∀ a b s t, f a ++ s = f b ++ t → a = b

theorem PrefixFree.flatMap_injective {f : Char → List Char} (hf : PrefixFree f)
    (hne : ∀ c, f c ≠ []) : Function.Injective (List.flatMap f) := by
  intro cs ds h
  induction cs generalizing ds with
  | nil =>
    cases ds with
    | nil => rfl
    | cons d ds => simp [hne d] at h
  | cons c cs ih =>
    cases ds with
    | nil => simp [hne c] at h
    | cons d ds =>
      rw [List.flatMap_cons, List.flatMap_cons] at h
      obtain rfl := hf c d _ _ h
      rw [ih (List.append_cancel_left h)]

/-! ## Hexadecimal digits -/

theorem toDigits_sixteen_injective : Function.Injective (Nat.toDigits 16) := by
  have hdigit : ∀ i < 16, ∀ j < 16, i.digitChar = j.digitChar → i = j := by decide
  intro m
  induction m using Nat.strongRecOn with
  | ind m ih =>
    intro n h
    rw [Nat.toDigits_eq_if (n := m) (by omega), Nat.toDigits_eq_if (n := n) (by omega)] at h
    split_ifs at h with hm hn hn
    · exact hdigit m hm n hn (List.singleton_inj.1 h)
    · simpa using congrArg List.length h
    · simpa using congrArg List.length h
    · obtain ⟨hinit, hlast⟩ := List.append_inj' h rfl
      have hdiv := ih (m / 16) (by omega) hinit
      have hmod := hdigit _ (Nat.mod_lt m (by omega)) _ (Nat.mod_lt n (by omega))
        (List.singleton_inj.1 hlast)
      omega

theorem exists_of_mem_toDigits {n : Nat} {x : Char} (hx : x ∈ Nat.toDigits 16 n) :
    ∃ k < 16, x = Nat.digitChar k := by
  induction n using Nat.strongRecOn with
  | ind n ih =>
    rw [Nat.toDigits_eq_if (by omega)] at hx
    split_ifs at hx with hn
    · exact ⟨n, hn, List.mem_singleton.1 hx⟩
    · rcases List.mem_append.1 hx with hx | hx
      · exact ih (n / 16) (by omega) hx
      · exact ⟨n % 16, Nat.mod_lt n (by omega), List.mem_singleton.1 hx⟩

theorem not_mem_toDigits {c : Char} (hc : ∀ k, Nat.digitChar k ≠ c) (n : Nat) :
    c ∉ Nat.toDigits 16 n := by
  intro h
  obtain ⟨k, -, rfl⟩ := exists_of_mem_toDigits h
  exact hc k rfl

theorem toNat_ge_of_mem_toDigits {n : Nat} {x : Char} (hx : x ∈ Nat.toDigits 16 n) :
    0x20 ≤ x.toNat := by
  have hdigit : ∀ k < 16, 0x20 ≤ (Nat.digitChar k).toNat := by decide
  obtain ⟨k, hk, rfl⟩ := exists_of_mem_toDigits hx
  exact hdigit k hk

theorem takeWhile_toDigits (n : Nat) (cs : List Char) :
    (Nat.toDigits 16 n ++ '\x7d' :: cs).takeWhile (· != '\x7d') = Nat.toDigits 16 n := by
  have hall : ∀ c ∈ Nat.toDigits 16 n, (c != '\x7d') = true := by
    intro c hc
    rw [bne_iff_ne]
    rintro rfl
    exact not_mem_toDigits (fun _ => Nat.digitChar_ne '\x7d' rfl) n hc
  rw [List.takeWhile_append_of_pos hall]
  simp

theorem codeEscape_cancel {a b : Char} {s t : List Char}
    (h : codeEscape a ++ s = codeEscape b ++ t) : a = b := by
  simp only [codeEscape, List.cons_append, List.append_assoc, List.cons.injEq, true_and] at h
  have hdigits := congrArg (List.takeWhile (· != '\x7d')) h
  rw [takeWhile_toDigits, takeWhile_toDigits] at hdigits
  exact Char.toNat_inj.1 (toDigits_sixteen_injective hdigits)

/-! ## Printable ASCII -/

/-- The character that a letter after a backslash stands for. -/
def ofAsciiEscape (e : Char) : Char :=
  if e = 't' then '\t' else if e = 'r' then '\r' else if e = 'n' then '\n' else e

theorem escapeAsciiChar_cases (c : Char) :
    (escapeAsciiChar c = [c] ∧ c ≠ '\\') ∨
    (∃ e, escapeAsciiChar c = ['\\', e] ∧ e ≠ 'u' ∧ ofAsciiEscape e = c) ∨
    escapeAsciiChar c = codeEscape c := by
  unfold escapeAsciiChar
  split_ifs with ht hr hn hq hp
  · exact .inr (.inl ⟨'t', rfl, by decide, ht.symm⟩)
  · exact .inr (.inl ⟨'r', rfl, by decide, hr.symm⟩)
  · exact .inr (.inl ⟨'n', rfl, by decide, hn.symm⟩)
  · refine .inr (.inl ⟨c, rfl, ?_⟩)
    rcases hq with rfl | rfl | rfl <;> decide
  · exact .inl ⟨rfl, fun h => hq (.inr (.inr h))⟩
  · exact .inr (.inr rfl)

theorem toNat_ge_of_mem_escapeAsciiChar {c x : Char} (hx : x ∈ escapeAsciiChar c) :
    0x20 ≤ x.toNat := by
  have hpair : ∀ d : Char, 0x20 ≤ d.toNat → x ∈ ['\\', d] → 0x20 ≤ x.toNat := by
    intro d hd hmem
    simp only [List.mem_cons, List.not_mem_nil, or_false] at hmem
    rcases hmem with rfl | rfl
    · decide
    · exact hd
  unfold escapeAsciiChar at hx
  split_ifs at hx with ht hr hn hq hp
  · exact hpair 't' (by decide) hx
  · exact hpair 'r' (by decide) hx
  · exact hpair 'n' (by decide) hx
  · refine hpair c ?_ hx
    rcases hq with rfl | rfl | rfl <;> decide
  · rw [List.mem_singleton] at hx
    exact hx ▸ hp.1
  · simp only [codeEscape, List.cons_append, List.mem_cons, List.mem_append, List.not_mem_nil,
      or_false] at hx
    rcases hx with rfl | rfl | rfl | hx | rfl
    · decide
    · decide
    · decide
    · exact toNat_ge_of_mem_toDigits hx
    · decide

theorem escapeAsciiChar_prefixFree : PrefixFree escapeAsciiChar := by
  intro a b s t h
  rcases escapeAsciiChar_cases a with ⟨ha, ha'⟩ | ⟨e, ha, he, rfl⟩ | ha <;>
    rcases escapeAsciiChar_cases b with ⟨hb, hb'⟩ | ⟨e', hb, he', rfl⟩ | hb <;>
    rw [ha, hb] at h
  · exact (List.cons.inj h).1
  · exact absurd (List.cons.inj h).1 ha'
  · exact absurd (List.cons.inj h).1 ha'
  · exact absurd (List.cons.inj h).1.symm hb'
  · rw [(List.cons.inj (List.cons.inj h).2).1]
  · exact absurd (List.cons.inj (List.cons.inj h).2).1 he
  · exact absurd (List.cons.inj h).1.symm hb'
  · exact absurd (List.cons.inj (List.cons.inj h).2).1.symm he'
  · exact codeEscape_cancel h

theorem escapeAsciiChar_ne_nil (c : Char) : escapeAsciiChar c ≠ [] := by
  rcases escapeAsciiChar_cases c with ⟨h, -⟩ | ⟨e, h, -⟩ | h <;> simp [h, codeEscape]

theorem escapeAscii_injective : Function.Injective escapeAscii := by
  intro s t h
  have hcs := escapeAsciiChar_prefixFree.flatMap_injective escapeAsciiChar_ne_nil
    (String.ofList_injective h)
  exact String.toList_injective hcs

end Idl.Text

namespace Idl.Dart

/-! ## Dollar signs -/

/-- A character with a backslash before it if it is a dollar sign. -/
def dollarChar (c : Char) : List Char := if c = '$' then ['\\', '$'] else [c]

theorem head?_flatMap_dollarChar (cs : List Char) : (cs.flatMap dollarChar).head? ≠ some '$' := by
  cases cs with
  | nil => simp
  | cons c cs => by_cases hc : c = '$' <;> simp [dollarChar, hc]

theorem flatMap_dollarChar_injective : Function.Injective (List.flatMap dollarChar) := by
  intro cs ds h
  induction cs generalizing ds with
  | nil =>
    cases ds with
    | nil => rfl
    | cons d ds => by_cases hd : d = '$' <;> simp [dollarChar, hd] at h
  | cons c cs ih =>
    cases ds with
    | nil => by_cases hc : c = '$' <;> simp [dollarChar, hc] at h
    | cons d ds =>
      -- a backslash before a dollar sign is not one of the text
      have hcs := head?_flatMap_dollarChar cs
      have hds := head?_flatMap_dollarChar ds
      by_cases hc : c = '$' <;> by_cases hd : d = '$' <;>
        simp only [List.flatMap_cons, dollarChar, hc, hd, if_true, if_false, List.cons_append,
          List.nil_append, List.cons.injEq, true_and] at h
      · rw [hc, hd, ih h]
      · exact absurd (by rw [← h.2]; rfl) hds
      · exact absurd (by rw [h.2]; rfl) hcs
      · rw [h.1, ih h.2]

theorem stringText_injective : Function.Injective stringText := by
  intro s t h
  refine Text.quote_injective (congrArg String.ofList ?_)
  exact flatMap_dollarChar_injective (String.ofList_injective h)

end Idl.Dart
