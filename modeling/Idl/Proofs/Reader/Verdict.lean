import Idl.Proofs.Reader.Parts

/-!
# Which token lists are schemas

Tokens with texts, followed by the token for the end, are read as a whole.

* `derives_of_ofTokens`, `ofTokens_of_derives`: a schema is read from exactly the texts that spell it.
* `ofTokens_error`: a failure is a complaint about the first token that cannot stand where it
  stands, and later tokens do not matter.
* **`ofTokens_ok_iff_derives`**: the reader accepts the grammar and nothing else.
* `FirstWrong`, **`complaint_at_first_wrong_token`**: the tokens before a complaint begin some
  schema, and no schema begins with them and the token complained about.
-/

namespace Idl

open Grammar

variable {ts : List Token} {e : Token} {s : Schema} {f : ReadFailure}

/-- The cursor at the token for the end. -/
def Cursor.atEnd (e : Token) : Cursor := ⟨[e], e⟩

theorem ofTokens_back (c : Cursor) (us : List Token) (hc : c.rest.getLast? = some c.last) :
    Schema.ofTokens (us ++ c.rest) = (Cursor.schema (c.back us)).map Prod.fst := by
  simp [Schema.ofTokens, List.getLast?_append, hc, Cursor.back]

theorem ofTokens_atEnd (ts : List Token) (e : Token) :
    Schema.ofTokens (ts ++ [e]) = (Cursor.schema ((Cursor.atEnd e).back ts)).map Prod.fst :=
  ofTokens_back (.atEnd e) ts rfl

theorem ended_atEnd (ts : List Token) (he : e.text = "") : ((Cursor.atEnd e).back ts).Ended := by
  simp [Cursor.Ended, Cursor.back, Cursor.atEnd, he]

theorem not_mem_texts (hts : ∀ t ∈ ts, t.text ≠ "") : "" ∉ texts ts := by
  simpa using hts

/-- The first token without text is where it is. -/
theorem eq_of_append_eq {us vs ts' : List Token} {t : Token} (h : us ++ e :: vs = ts ++ t :: ts')
    (hus : "" ∉ texts us) (hts : "" ∉ texts ts) (he : e.text = "") (ht : t.text = "") : us = ts := by
  induction us generalizing ts with
  | nil =>
    cases ts with
    | nil => rfl
    | cons x ts =>
      obtain ⟨rfl, -⟩ := List.cons.inj h
      exact absurd (List.mem_cons.2 (.inl he.symm)) hts
  | cons u us ih =>
    cases ts with
    | nil =>
      obtain ⟨rfl, -⟩ := List.cons.inj h
      exact absurd (List.mem_cons.2 (.inl ht.symm)) hus
    | cons x ts =>
      obtain ⟨rfl, htail⟩ := List.cons.inj h
      rw [ih htail (fun hm => hus (List.mem_cons_of_mem _ hm)) fun hm => hts (List.mem_cons_of_mem _ hm)]

theorem derives_of_ofTokens (hts : "" ∉ texts ts) (he : e.text = "")
    (h : Schema.ofTokens (ts ++ [e]) = .ok s) : Derives (texts ts) s := by
  rw [ofTokens_atEnd] at h
  cases hr : Cursor.schema ((Cursor.atEnd e).back ts) with
  | error f => rw [hr] at h; exact absurd h (by simp [Except.map])
  | ok x =>
    obtain ⟨s', c'⟩ := x
    rw [hr] at h
    cases h
    have hend := ended_atEnd ts he
    obtain ⟨us, hus, hs, hc'⟩ := Cursor.reads_schema.sound hend trivial hr
    have hend' := Cursor.reads_schema.ended hend hus hs
    -- the reader stops at the first token without text, which is the last one
    have hrest := congrArg Cursor.rest (hus.trans (congrArg (Cursor.back · us) hend'.eq_back))
    rwa [eq_of_append_eq hrest hts (Cursor.reads_schema.words hs) he (String.isEmpty_iff.1 hc')]

theorem ofTokens_of_derives (ts : List Token) (he : e.text = "") (h : Derives (texts ts) s) :
    ∃ s', Schema.ofTokens (ts ++ [e]) = .ok s' ∧ s'.unplaced = s.unplaced := by
  obtain ⟨s', hok, hs'⟩ := Cursor.reads_schema.complete (c := .atEnd e) h (by
    show e.text.isEmpty = true
    rw [he]; rfl)
  exact ⟨s', by rw [ofTokens_atEnd, hok]; rfl, hs'⟩

/-- **Failures.** The tokens `us` before the complaint begin a schema, and any list of tokens with
their texts and that of `t` is rejected alike. -/
theorem ofTokens_error (he : e.text = "") (h : Schema.ofTokens (ts ++ [e]) = .error f) :
    ∃ us t vs cause, ts ++ [e] = us ++ t :: vs ∧ f = .complaint cause t.position ∧
      Viable Derives (texts us) ∧ ∀ us' t' vs', texts us' = texts us → t'.text = t.text →
        Schema.ofTokens (us' ++ t' :: vs') = .error (.complaint cause t'.position) := by
  rw [ofTokens_atEnd] at h
  cases hr : Cursor.schema ((Cursor.atEnd e).back ts) with
  | ok x => rw [hr] at h; exact absurd h (by simp [Except.map])
  | error f' =>
    rw [hr] at h
    cases h
    have hend := ended_atEnd ts he
    obtain ⟨us, c, cause, hus, hf, hv, hs⟩ := Cursor.reads_schema.stuck hend trivial hr
    have hend' : c.Ended := by
      obtain ⟨ws, s, hws⟩ := hv
      rw [hus] at hend
      exact hend.of_back fun hm => Cursor.reads_schema.words hws (List.mem_append_left _ hm)
    have hrest := congrArg Cursor.rest (hus.trans (congrArg (Cursor.back · us) hend'.eq_back))
    refine ⟨us, c.current, c.next.rest, cause, hrest, hf, hv, fun us' t' vs' hus' ht' => ?_⟩
    obtain ⟨last, hlast⟩ := Option.isSome_iff_exists.1
      (show (t' :: vs').getLast?.isSome = true by simp)
    rw [ofTokens_back ⟨t' :: vs', last⟩ us' hlast, hs us' ⟨t' :: vs', last⟩ hus' ht']
    rfl

/-! ## The reader and the grammar -/

/-- **The reader accepts the grammar and nothing else.** Every other token list leads to a complaint
about one of its tokens. -/
theorem ofTokens_ok_iff_derives (ts : List Token) (e : Token) (hts : ∀ t ∈ ts, t.text ≠ "")
    (he : e.text = "") :
    (∀ s : Schema, (∃ s', Schema.ofTokens (ts ++ [e]) = .ok s' ∧ s'.unplaced = s.unplaced) ↔
      Derives (ts.map Token.text) s) ∧
    ((∀ s, ¬ Derives (ts.map Token.text) s) →
      ∃ cause position, Schema.ofTokens (ts ++ [e]) = .error (.complaint cause position)) := by
  have hts' : "" ∉ texts ts := not_mem_texts hts
  refine ⟨fun s => ⟨?_, ofTokens_of_derives ts he⟩, fun hno => ?_⟩
  · rintro ⟨s', hok, hs'⟩
    exact (derives_of_ofTokens hts' he hok).of_unplaced_eq hs'
  · cases h : Schema.ofTokens (ts ++ [e]) with
    | ok s => exact absurd (derives_of_ofTokens hts' he h) (hno s)
    | error f =>
      obtain ⟨us, t, vs, cause, -, rfl, -⟩ := ofTokens_error he h
      exact ⟨cause, t.position, rfl⟩

/-- Keywords are names, and the word after the first name decides what a group of constants is. -/
theorem derives_keywords :
    Derives ["const", "int32", "for", "bool", "\x7b", "list", "=", "true", "\x7d"]
      ⟨[], [.const ⟨some "int32", .bool, [⟨"list", .bool true, ⟨1, 1⟩⟩], ⟨1, 1⟩⟩]⟩ ∧
    ∃ cause position,
      Schema.ofTokens (["const", "int32", "for"].map (⟨·, ⟨1, 1⟩⟩) ++ [⟨"", ⟨1, 16⟩⟩]) =
        .error (.complaint cause position) := by
  constructor
  · refine ((ofTokens_ok_iff_derives (["const", "int32", "for", "bool", "\x7b", "list", "=", "true",
      "\x7d"].map (⟨·, ⟨1, 1⟩⟩)) ⟨"", ⟨1, 1⟩⟩ (by decide) rfl).1 _).1
        ⟨⟨[], [.const ⟨some "int32", .bool, [⟨"list", .bool true, ⟨1, 1⟩⟩], ⟨1, 1⟩⟩]⟩, by decide +kernel, rfl⟩
  · have h := ofTokens_ok_iff_derives (["const", "int32", "for"].map (⟨·, ⟨1, 1⟩⟩)) ⟨"", ⟨1, 16⟩⟩
      (by decide) rfl
    refine h.2 fun s hs => ?_
    obtain ⟨s', hok, -⟩ := (h.1 s).2 hs
    have herror : Schema.ofTokens (["const", "int32", "for"].map (⟨·, ⟨1, 1⟩⟩) ++ [⟨"", ⟨1, 16⟩⟩]) =
        .error (.complaint (.expected .primitiveType "") ⟨1, 16⟩) := by decide +kernel
    rw [herror] at hok
    cases hok

/-- Token `k` is the first wrong one. The tokens before it begin some schema, and every list that
goes on with the same text is rejected in the same words at its own token `k`. -/
structure FirstWrong (ts : List Token) (k : Nat) (cause : Complaint) : Prop where
  begins : ∃ us e s, (∀ u ∈ us, u.text ≠ "") ∧ e.text = "" ∧
    Schema.ofTokens (ts.take k ++ us ++ [e]) = .ok s
  rejects : ∀ vs : List Token,
    (vs.map Token.text).take (k + 1) = (ts.map Token.text).take (k + 1) →
    ∃ t, vs[k]? = some t ∧ Schema.ofTokens vs = .error (.complaint cause t.position)

theorem FirstWrong.of_split {us vs : List Token} {t : Token} {cause : Complaint}
    (hv : Viable Derives (texts us))
    (hstuck : ∀ us' t' vs', texts us' = texts us → t'.text = t.text →
      Schema.ofTokens (us' ++ t' :: vs') = .error (.complaint cause t'.position)) :
    FirstWrong (us ++ t :: vs) us.length cause where
  begins := by
    obtain ⟨ws, s, hs⟩ := hv
    obtain ⟨ts', rfl⟩ := exists_texts_eq ws
    have hwords := Cursor.reads_schema.words hs
    obtain ⟨s', hok, -⟩ := ofTokens_of_derives (e := ⟨"", t.position⟩) (us ++ ts') rfl
      (by simpa using hs)
    refine ⟨ts', _, s', fun u hu hempty => hwords ?_, rfl, by simpa using hok⟩
    exact List.mem_append_right _ (hempty ▸ List.mem_map_of_mem hu)
  rejects := by
    intro vs' hvs'
    -- the first tokens of the other list have the texts of `us` and of `t`
    have htake : texts (vs'.take (us.length + 1)) = texts us ++ [t.text] := by
      rw [texts, List.map_take, hvs']
      simp [List.take_append, List.take_of_length_le]
    obtain ⟨us', x, hux, hus', hx⟩ := exists_of_texts_eq_append htake
    obtain ⟨t', rfl, ht'⟩ := List.map_eq_singleton_iff.1 hx
    have hlen : us'.length = us.length := by simpa using congrArg List.length hus'
    rw [← List.take_append_drop (us.length + 1) vs', hux, List.append_assoc, List.singleton_append]
    exact ⟨t', by simp [← hlen], hstuck us' t' _ hus' ht'⟩

/-- **A complaint is about the first wrong token.** -/
theorem complaint_at_first_wrong_token (ts : List Token) (e : Token) (he : e.text = "")
    (f : ReadFailure) (h : Schema.ofTokens (ts ++ [e]) = .error f) :
    ∃ k t cause, (ts ++ [e])[k]? = some t ∧ f = .complaint cause t.position ∧
      FirstWrong (ts ++ [e]) k cause := by
  obtain ⟨us, t, vs, cause, hsplit, hf, hv, hstuck⟩ := ofTokens_error he h
  exact ⟨us.length, t, cause, by simp [hsplit], hf, hsplit ▸ .of_split hv hstuck⟩

/-- The brace is wrong where a type must stand. -/
theorem firstWrong_missing_type :
    FirstWrong [⟨"const", ⟨1, 1⟩⟩, ⟨"int32", ⟨1, 7⟩⟩, ⟨"for", ⟨1, 13⟩⟩, ⟨"\x7b", ⟨1, 17⟩⟩,
      ⟨"\x7d", ⟨1, 18⟩⟩, ⟨"", ⟨1, 19⟩⟩] 3 (.expected .primitiveType "\x7b") := by
  obtain ⟨k, t, cause, hk, hf, h⟩ := complaint_at_first_wrong_token
    [⟨"const", ⟨1, 1⟩⟩, ⟨"int32", ⟨1, 7⟩⟩, ⟨"for", ⟨1, 13⟩⟩, ⟨"\x7b", ⟨1, 17⟩⟩, ⟨"\x7d", ⟨1, 18⟩⟩]
    ⟨"", ⟨1, 19⟩⟩ rfl (.complaint (.expected .primitiveType "\x7b") ⟨1, 17⟩) (by decide +kernel)
  obtain ⟨rfl, ht⟩ := ReadFailure.complaint.inj hf
  -- no other token stands in that column
  have hk3 : k = 3 := by
    have hlt : k < 6 := (List.getElem?_eq_some_iff.1 hk).1
    interval_cases k <;> simp at hk <;> simp [← hk] at ht ⊢
  exact hk3 ▸ h

end Idl
