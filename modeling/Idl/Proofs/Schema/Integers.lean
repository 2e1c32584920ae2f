import Mathlib
import Idl.Proofs.Decimal.Numerals
import Idl.Proofs.Layout
import Idl.Proofs.Token.Classes

/-!
# Integer constants

A constant is followed from its text to the schema: how it is cut into tokens, what is read from them
and whether its type holds the value.

* `Cursor.ofTokens_constant`: what is read from the tokens of a group with one constant.
* `constantText`, **`compile_constantText`**: the text of such a group, and what becomes of it.
* `compile_numeral`: the same for the numerals of an integer.
* **`numeral_accepted_iff`**: the integers that an integer type takes.
-/

namespace Idl

open Lexeme

/-! ## Reading -/

namespace Cursor

theorem collect_once {α : Type} {stop : String → Bool} {step : Step α} {c c' : Cursor}
    {y : Except ReadFailure α} (hgo : stop c.text = false) (hstep : step c = y.map (·, c'))
    (hlt : c'.rest.length < c.rest.length) (hstop : stop c'.text = true) :
    collect stop step c = y.map ([·], c') := by
  have hmove : ∀ a d, step c = .ok (a, d) → d.rest.length < c.rest.length := by
    intro a d hd
    rw [hstep] at hd
    cases y with
    | error e => cases hd
    | ok b => cases hd; exact hlt
  rw [Reads.collect_eq_both hgo hmove]
  cases y with
  | error e => simp [Step.map, Step.both, hstep, Except.map, bind, Except.bind]
  | ok a =>
    simp [Step.map, Step.both, hstep, Reads.collect_of_stop hstop, Except.map, bind, Except.bind, pure,
      Except.pure]

variable {w : String} {a b d e f g h i : Position} {y : Except ReadFailure Literal}

section

variable (hy : ∀ r l, Plan.literal.step ⟨⟨w, d⟩ :: r, l⟩ = y.map (·, ⟨r, l⟩))
include hy

theorem member_cons (r : List Token) (l : Token) :
    Plan.member.step ⟨⟨"A", a⟩ :: ⟨"=", b⟩ :: ⟨w, d⟩ :: r, l⟩ =
      y.map fun v => (⟨"A", v, a⟩, ⟨r, l⟩) := by
  have hname : isName "A" = true := by decide
  cases y <;>
    simp [Plan.member, Plan.name, Plan.word, text, current, next, hy, hname, ok_bind, error_bind,
      pure_eq_ok, Except.map]

theorem entry_constant (p : Primitive) (r : List Token) (l : Token) :
    Plan.entry.step ⟨⟨"const", f⟩ :: ⟨p.keyword, g⟩ :: ⟨"\x7b", h⟩ :: ⟨"A", a⟩ :: ⟨"=", b⟩ :: ⟨w, d⟩ ::
        ⟨"\x7d", e⟩ :: r, l⟩ =
      y.map fun v => (.const ⟨none, p, [⟨"A", v, a⟩], g⟩, ⟨r, l⟩) := by
  have hmember : Plan.member.step ⟨⟨"A", a⟩ :: ⟨"=", b⟩ :: ⟨w, d⟩ :: ⟨"\x7d", e⟩ :: r, l⟩ =
      (y.map fun v => ⟨"A", v, a⟩).map (·, ⟨⟨"\x7d", e⟩ :: r, l⟩) := by
    rw [member_cons hy]
    cases y <;> rfl
  have hmembers : collect (· == "\x7d") Plan.member.step _ = _ := collect_once rfl hmember (by simp) rfl
  cases y <;>
    simp [Plan.entry, Plan.constGroup, Plan.groupName, following?, Plan.primitive,
      Primitive.ofKeyword?_keyword, Plan.braced, Plan.word, text, current, next, hmembers, ok_bind,
      error_bind, pure_eq_ok, Except.map]

theorem ofTokens_constant (p : Primitive) :
    Schema.ofTokens [⟨"const", f⟩, ⟨p.keyword, g⟩, ⟨"\x7b", h⟩, ⟨"A", a⟩, ⟨"=", b⟩, ⟨w, d⟩,
        ⟨"\x7d", e⟩, ⟨"", i⟩] =
      y.map fun v => ⟨[], [.const ⟨none, p, [⟨"A", v, a⟩], g⟩]⟩ := by
  have hentry : Plan.entry.step ⟨[⟨"const", f⟩, ⟨p.keyword, g⟩, ⟨"\x7b", h⟩, ⟨"A", a⟩, ⟨"=", b⟩, ⟨w, d⟩,
        ⟨"\x7d", e⟩, ⟨"", i⟩], ⟨"", i⟩⟩ =
      (y.map fun v => .const ⟨none, p, [⟨"A", v, a⟩], g⟩).map (·, ⟨[⟨"", i⟩], ⟨"", i⟩⟩) := by
    rw [entry_constant hy]
    cases y <;> rfl
  have hentries : collect String.isEmpty Plan.entry.step _ = _ := collect_once rfl hentry (by simp) rfl
  have hpackage : ∀ ts l, Plan.package.step ⟨⟨"const", f⟩ :: ts, l⟩ = .ok ([], ⟨⟨"const", f⟩ :: ts, l⟩) :=
    fun _ _ => rfl
  change (schema _).map Prod.fst = _
  cases y <;>
    simp [schema, Plan.schema, hpackage, hentries, ok_bind, error_bind, pure_eq_ok, Except.map]

end

theorem literal_cons {k : LiteralKind} (hk : Literal.kind? w = some k) (r : List Token) (l : Token) :
    Plan.literal.step ⟨⟨w, d⟩ :: r, l⟩ =
      (match Literal.read? k w with
        | some v => Except.ok v
        | none => .error (ReadFailure.complaint (.invalid k w) d)).map (·, ⟨r, l⟩) := by
  have hvalue : ((Literal.kind? w).bind fun kind => Literal.read? kind w) = Literal.read? k w := by
    rw [hk, Option.bind_some]
  cases hread : Literal.read? k w with
  | none =>
    rw [Plan.literal, Plan.step_take_none _ _ _ (hvalue.trans hread), Plan.step_refuse]
    simp [fail, text, current, hk, Except.map]
  | some v =>
    rw [Plan.literal, Plan.step_take_some _ _ _ (hvalue.trans hread)]
    rfl

end Cursor

/-! ## From text to schema -/

/-- A group with one constant. -/
def constantText (p : Primitive) (w : String) : String :=
  "const " ++ p.keyword ++ " \x7b A = " ++ w ++ " \x7d"

theorem scan_constantText (p : Primitive) {w : String} (hw : w.toList ∈ Pattern.token) :
    ∃ f g h a b d e i, scan (constantText p w) =
      .ok [⟨"const", f⟩, ⟨p.keyword, g⟩, ⟨"\x7b", h⟩, ⟨"A", a⟩, ⟨"=", b⟩, ⟨w, d⟩, ⟨"\x7d", e⟩,
        ⟨"", i⟩] := by
  have hline : (constantText p w).toList =
      oneLine ["const".toList, p.keyword.toList, ['\x7b'], ['A'], ['='], w.toList, ['\x7d']] := by
    simp [constantText, oneLine]
  have hname : ∀ {n : String}, Cursor.isName n = true → n.toList ∈ Pattern.token :=
    fun h => .inr (.inr (.inr (isName_iff_mem_name.1 h)))
  have hmark : ∀ {c : Char}, isMark c = true → [c] ∈ Pattern.token :=
    fun h => .inr (.inr (.inl ⟨_, h, rfl⟩))
  have htokens : ∀ v ∈ ["const".toList, p.keyword.toList, ['\x7b'], ['A'], ['='], w.toList, ['\x7d']],
      v ∈ Pattern.token := by
    simp only [List.forall_mem_cons]
    exact ⟨hname (by decide), hname (by cases p <;> decide), hmark (by decide),
      hname (n := "A") (by decide), hmark (by decide), hw, hmark (by decide),
      List.forall_mem_nil _⟩
  rw [scan, hline, scanFrom_oneLine _ htokens]
  simp only [oneLineTokens, String.ofList_toList]
  exact ⟨_, _, _, _, _, _, _, _, rfl⟩

theorem validate_constant (p : Primitive) (v : Literal) (a g : Position) :
    Schema.validate ⟨[], [.const ⟨none, p, [⟨"A", v, a⟩], g⟩]⟩ =
      (p.fit v).mapError fun cause => .misfit cause a := by
  cases h : p.fit v <;>
    simp [Schema.validate, Entry.validate, Entry.names, ConstGroup.binding, firstRepeat?, checkMembers,
      checkLiteral, h, Except.mapError, bind, Except.bind, pure, Except.pure, List.forM]

/-- **What becomes of a constant.** It is refused where its literal has no value, or where the type
does not hold the value. -/
theorem compile_constantText (p : Primitive) {w : String} {k : LiteralKind}
    (hw : w.toList ∈ Pattern.token) (hk : Literal.kind? w = some k) :
    ∃ g a d, Schema.compile (constantText p w) =
      match Literal.read? k w with
      | none => .error (.malformed (.invalid k w) d)
      | some v =>
        match p.fit v with
        | .error cause => .error (.invalid (.misfit cause a))
        | .ok () => .ok ⟨[], [.const ⟨none, p, [⟨"A", v, a⟩], g⟩]⟩ := by
  obtain ⟨f, g, h, a, b, d, e, i, hscan⟩ := scan_constantText p hw
  refine ⟨g, a, d, ?_⟩
  have hread := Cursor.ofTokens_constant (a := a) (b := b) (e := e) (f := f) (g := g) (h := h) (i := i)
    (Cursor.literal_cons (d := d) hk) p
  rw [Schema.compile, Schema.parse, hscan]
  change ((Schema.ofTokens _).mapError Fault.ofReadFailure >>= _) = _
  rw [hread]
  cases hv : Literal.read? k w with
  | none => rfl
  | some v =>
    change (Except.mapError Fault.invalid (Schema.validate _) >>= _) = _
    rw [validate_constant]
    dsimp only
    cases p.fit v <;> rfl

/-! ## Numerals -/

section Numerals

open Decimal

variable {p : Primitive} {lo hi n : ℤ} {w : String}

theorem Decimal.Numeral.mem_integer {cs : List Char} (h : Numeral cs n) : cs ∈ Pattern.integer := by
  have hrun : ∀ {ds : List Char}, Digits ds → ds ≠ [] → ds ∈ Pattern.run Text.isDigit :=
    fun hds hne => Pattern.mem_run.2 ⟨hne, fun c hc => isDigit_of_isDigit (hds c hc)⟩
  cases h with
  | plain hds hne => exact Language.append_mem_mul (a := []) (.inl rfl) (hrun hds hne)
  | minus hds hne =>
    exact Language.append_mem_mul (a := ['-']) (.inr ⟨'-', rfl, rfl⟩) (hrun hds hne)

theorem Decimal.Numeral.mem_token {cs : List Char} (h : Numeral cs n) : cs ∈ Pattern.token := by
  have hnumber : cs ++ ([] ++ []) ∈ Pattern.number :=
    Language.append_mem_mul h.mem_integer (Language.append_mem_mul (.inl rfl) (.inl rfl))
  rw [List.append_nil, List.append_nil] at hnumber
  exact .inr (.inl hnumber)

/-- The bounds of integer types lie within the literals that can be read, but for one. -/
theorem range_within (hp : p.range? = some (lo, hi)) :
    -2 ^ 63 ≤ lo ∧ (p ≠ .uint64 → hi < 2 ^ 63) := by
  cases p <;> cases hp <;> decide

/-- A numeral has a value if it fits in 64 bits with a sign. -/
theorem read?_numeral (hw : Numeral w.toList n) :
    Literal.read? .integer w =
      if -2 ^ 63 ≤ n ∧ n < 2 ^ 63 then some (.int (.ofInt n)) else none := by
  have hint : Literal.int64? n = if -2 ^ 63 ≤ n ∧ n < 2 ^ 63 then some (.ofInt n) else none := rfl
  rw [Literal.read?, readInt?_eq_some_iff.2 hw, Option.bind_some, hint]
  split_ifs <;> rfl

theorem fit_ofInt (hp : p.range? = some (lo, hi)) (hn : -2 ^ 63 ≤ n ∧ n < 2 ^ 63) :
    p.fit (.int (.ofInt n)) =
      if lo ≤ n ∧ n ≤ hi then .ok () else .error (.range (toString n) p) := by
  simp only [Primitive.fit, hp, Int64.toInt_ofInt_of_le hn.1 hn.2]

/-- **What becomes of an integer.** It must fit in 64 bits with a sign before its type is asked. -/
theorem compile_numeral (hp : p.range? = some (lo, hi)) (hw : Numeral w.toList n) :
    ∃ g a d, Schema.compile (constantText p w) =
      if -2 ^ 63 ≤ n ∧ n < 2 ^ 63 then
        if lo ≤ n ∧ n ≤ hi then .ok ⟨[], [.const ⟨none, p, [⟨"A", .int (.ofInt n), a⟩], g⟩]⟩
        else .error (.invalid (.misfit (.range (toString n) p) a))
      else .error (.malformed (.invalid .integer w) d) := by
  have hkind : Literal.kind? w = some .integer :=
    kind?_eq_some_iff.2 (.inl ⟨rfl, isWhole_integer_of_readInt? (readInt?_eq_some_iff.2 hw)⟩)
  obtain ⟨g, a, d, hcompile⟩ := compile_constantText p hw.mem_token hkind
  refine ⟨g, a, d, hcompile.trans ?_⟩
  rw [read?_numeral hw]
  by_cases h64 : -2 ^ 63 ≤ n ∧ n < 2 ^ 63
  · rw [if_pos h64, if_pos h64]
    dsimp only
    rw [fit_ofInt hp h64]
    split_ifs <;> rfl
  · rw [if_neg h64, if_neg h64]

/-- **The integers that an integer type takes**, by any of their numerals: those between its bounds,
except that the widest unsigned type stops where integers with a sign do. -/
theorem numeral_accepted_iff (p : Primitive) (lo hi : ℤ) (hp : p.range? = some (lo, hi)) (w : String)
    (n : ℤ) (hw : Numeral w.toList n) :
    ((∃ s, Schema.compile (constantText p w) = .ok s) ↔
      (lo ≤ n ∧ n ≤ hi) ∧ (p = .uint64 → n < 2 ^ 63)) ∧
    ∀ s, Schema.compile (constantText p w) = .ok s →
      ∃ i : Int64, i.toInt = n ∧
        s.unplaced = ⟨[], [.const ⟨none, p, [⟨"A", .int i, .start⟩], .start⟩]⟩ := by
  obtain ⟨g, a, d, hcompile⟩ := compile_numeral hp hw
  obtain ⟨hlo, hhi⟩ := range_within hp
  have h64 : (-2 ^ 63 ≤ n ∧ n < 2 ^ 63) ∧ (lo ≤ n ∧ n ≤ hi) ↔
      (lo ≤ n ∧ n ≤ hi) ∧ (p = .uint64 → n < 2 ^ 63) := by
    by_cases hu : p = .uint64
    · simp only [hu, true_imp_iff]
      omega
    · have := hhi hu
      simp only [hu, false_imp_iff, and_true]
      omega
  rw [hcompile, ← h64]
  split_ifs with hin hfit
  · exact ⟨iff_of_true ⟨_, rfl⟩ ⟨hin, hfit⟩,
      fun s hs => ⟨.ofInt n, Int64.toInt_ofInt_of_le hin.1 hin.2, by cases hs; rfl⟩⟩
  · exact ⟨iff_of_false nofun fun h => hfit h.2, nofun⟩
  · exact ⟨iff_of_false nofun fun h => hin h.1, nofun⟩

/-- A number between the bounds that is refused, and one with zeros before it that is taken. -/
theorem numeral_accepted_iff_halfway :
    Primitive.range? .uint64 = some (0, 0xffffffffffffffff) ∧
    Numeral "9223372036854775808".toList (2 ^ 63) ∧
    (¬ ∃ s, Schema.compile (constantText .uint64 "9223372036854775808") = .ok s) ∧
    Numeral "009223372036854775807".toList (2 ^ 63 - 1) ∧
    ∃ s, Schema.compile (constantText .uint64 "009223372036854775807") = .ok s := by
  have hover : Numeral "9223372036854775808".toList (2 ^ 63) :=
    readInt?_eq_some_iff.1 (by decide +kernel)
  have hzeros : Numeral "009223372036854775807".toList (2 ^ 63 - 1) :=
    readInt?_eq_some_iff.1 (by decide +kernel)
  refine ⟨rfl, hover, fun hs => ?_, hzeros, ?_⟩
  · have h := (numeral_accepted_iff .uint64 _ _ rfl _ _ hover).1.1 hs
    exact absurd (h.2 rfl) (by decide)
  · exact (numeral_accepted_iff .uint64 _ _ rfl _ _ hzeros).1.2 ⟨by decide, fun _ => by decide⟩

end Numerals

end Idl
