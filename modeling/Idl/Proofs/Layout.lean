import Idl.Proofs.Reader.Verdict
import Idl.Proofs.Target.Unplaced

/-!
# Layout

Two texts with the same lexemes have the same result, however they are laid out.

* `Fault.unplaced`: a fault without its line and column.
* `scan_eq_ok`: a scan ends with the only token that has no text.
* `ofTokens_congr`: schemas and complaints follow from the texts of the tokens, positions apart.
* `Target.compile_unplaced`: after reading, positions are only passed on.
* **`compile_eq_of_texts_eq`**: layout does not change what is read or what is written.
-/

namespace Idl

/-- A complaint without its position. -/
def ReadFailure.unplaced : ReadFailure → ReadFailure
  | complaint cause _ => complaint cause .start
  | endless => endless

/-- A fault without its position. -/
def Fault.unplaced : Fault → Fault
  | stray s => stray { s with position := .start }
  | malformed cause _ => malformed cause .start
  | invalid d => invalid d.unplaced
  | f => f

/-! ## Scanning -/

theorem scanFrom_eq_ok {p : Position} {cs : List Char} {ts : List Token}
    (h : scanFrom p cs = .ok ts) :
    ∃ us e, ts = us ++ [e] ∧ "" ∉ texts us ∧ e.text = "" := by
  fun_induction scanFrom p cs generalizing ts with
  | case1 p => cases h; exact ⟨[], _, rfl, by simp, rfl⟩
  | case2 p c cs a hg ih => exact ih h
  | case3 p c cs hg a ht ih =>
    obtain ⟨us', hok, hts⟩ := bind_eq_ok_iff.1 h
    obtain ⟨us, e, rfl, hus, he⟩ := ih hok
    cases hts
    have hne : String.ofList a.lexeme ≠ "" := fun h0 =>
      Lexeme.consumes_token? _ _ _ ht (by simpa using congrArg String.toList h0)
    exact ⟨⟨String.ofList a.lexeme, p⟩ :: us, e, rfl, by simp [hne.symm, hus], he⟩
  | case4 => cases h

theorem scan_eq_ok {text : String} {ts : List Token} (h : scan text = .ok ts) :
    ∃ us e, ts = us ++ [e] ∧ "" ∉ texts us ∧ e.text = "" :=
  scanFrom_eq_ok h

/-! ## Reading -/

/-- **What is read follows from the texts of the tokens.** -/
theorem ofTokens_congr {ts us : List Token} {e : Token} (hts : texts (ts ++ [e]) = texts us)
    (hne : "" ∉ texts ts) (he : e.text = "") :
    ((Schema.ofTokens (ts ++ [e])).map Schema.unplaced).mapError ReadFailure.unplaced =
      ((Schema.ofTokens us).map Schema.unplaced).mapError ReadFailure.unplaced := by
  cases h : Schema.ofTokens (ts ++ [e]) with
  | ok s =>
    obtain ⟨ts', r, rfl, hts', hr⟩ := exists_of_texts_eq_append (hts.symm.trans List.map_append)
    obtain ⟨e', rfl, he'⟩ := List.map_eq_singleton_iff.1 hr
    obtain ⟨s', hs', heq⟩ := ofTokens_of_derives ts' (he'.trans he)
      (by rw [hts']; exact derives_of_ofTokens hne he h)
    rw [hs']
    exact congrArg Except.ok heq.symm
  | error f =>
    obtain ⟨vs, t, ws, cause, hsplit, rfl, -, hstuck⟩ := ofTokens_error he h
    rw [hsplit] at hts
    obtain ⟨vs', r, rfl, hvs', hr⟩ := exists_of_texts_eq_append (hts.symm.trans List.map_append)
    obtain ⟨t', ws', rfl, ht', -⟩ := List.map_eq_cons_iff.1 hr
    rw [hstuck vs' t' ws' hvs' ht']
    rfl

theorem parse_congr {x y : String} {ts us : List Token} (hx : scan x = .ok ts)
    (hy : scan y = .ok us) (h : texts ts = texts us) :
    ((Schema.parse x).map Schema.unplaced).mapError Fault.unplaced =
      ((Schema.parse y).map Schema.unplaced).mapError Fault.unplaced := by
  obtain ⟨ts, e, rfl, hne, he⟩ := scan_eq_ok hx
  have hparse : ∀ {text ts}, scan text = .ok ts →
      ((Schema.parse text).map Schema.unplaced).mapError Fault.unplaced =
        (((Schema.ofTokens ts).map Schema.unplaced).mapError ReadFailure.unplaced).mapError
          Fault.ofReadFailure := by
    intro text ts hscan
    rw [Schema.parse, hscan]
    change (((Schema.ofTokens ts).mapError Fault.ofReadFailure).map _).mapError _ = _
    cases Schema.ofTokens ts with
    | ok s => rfl
    | error f => cases f <;> rfl
  rw [hparse hx, hparse hy, ofTokens_congr h hne he]

/-! ## Rules and source text -/

/-- After reading, positions are only passed on. -/
theorem Target.compile_unplaced (t : Target) (text : String) :
    (t.compile text).mapError Fault.unplaced =
      (((Schema.parse text).map Schema.unplaced).mapError Fault.unplaced >>= fun s =>
        s.validate.mapError .invalid >>= fun _ => t.render s) := by
  rw [Target.compile, Schema.compile]
  cases Schema.parse text with
  | error f => rfl
  | ok s =>
    change ((s.validate.mapError Fault.invalid >>= fun _ => pure s) >>= t.render).mapError _ =
      (s.unplaced.validate.mapError Fault.invalid >>= fun _ => t.render s.unplaced)
    rw [Schema.validate_unplaced, Target.render_unplaced]
    cases s.validate with
    | error d => rfl
    | ok _ =>
      change (t.render s).mapError _ = t.render s
      rw [Target.render]
      cases t.check s <;> rfl

/-- **Layout changes nothing.** Texts with the same lexemes have the same source text in every
target, or faults that differ in their positions only, and they spell the same schema but for
positions. -/
theorem compile_eq_of_texts_eq (x y : String) (ts us : List Token) (hx : scan x = .ok ts)
    (hy : scan y = .ok us) (h : ts.map Token.text = us.map Token.text) :
    (∀ t : Target,
      (t.compile x).mapError Fault.unplaced = (t.compile y).mapError Fault.unplaced) ∧
    ((Schema.parse x).map Schema.unplaced).mapError Fault.unplaced =
      ((Schema.parse y).map Schema.unplaced).mapError Fault.unplaced := by
  have hparse := parse_congr hx hy h
  exact ⟨fun t => by rw [t.compile_unplaced, t.compile_unplaced, hparse], hparse⟩

/-- A value that is used twice is reported alike, at its own place in each text. -/
theorem compile_eq_two_layouts :
    (Target.go.compile "enum E for int8 \x7b A=1 B=1 \x7d").mapError Fault.unplaced =
      (Target.go.compile "enum E // one line\n  for int8\x7bA=1\n  B= 1\x7d").mapError
        Fault.unplaced :=
  (compile_eq_of_texts_eq _ _ _ _ (by cbv) (by cbv) (by rfl)).1 .go

end Idl
