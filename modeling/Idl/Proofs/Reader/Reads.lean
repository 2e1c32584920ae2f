import Mathlib.Tactic.Common
import Idl.Proofs.Outcome
import Idl.Proofs.Reader.Grammar

/-!
# What a step reads

A step of the reader is compared with a relation `G` between the texts that it takes and the values
that it makes. Positions are left aside: texts decide what happens, and a value is fixed up to what
a map `view` keeps of it.

* `Cursor.back`: the cursor before some tokens that were read.
* `Cursor.Ended`: the token for the end still lies ahead.
* `Cursor.Leads`: the tokens between two cursors, where the last token of a list comes again and again.
* **`Reads`**: a step takes exactly the texts of `G`. Where it gives up, the texts before the
  complaint begin a text of `G`, and no token after it was looked at.
* `Reads.token`, `Reads.both`, `Reads.map`, `Reads.after`, `Reads.choose`, `Reads.demand`,
  `Reads.collect`: one rule for each way in which steps are built.
-/

namespace Idl

/-- The texts of tokens. -/
abbrev texts (ts : List Token) : List String := ts.map Token.text

theorem exists_texts_eq (ws : List String) : ∃ ts, texts ts = ws :=
  ⟨ws.map fun w => ⟨w, .start⟩, by simp [texts, Function.comp_def]⟩

theorem exists_of_texts_eq_append {ts : List Token} {us vs : List String}
    (h : texts ts = us ++ vs) : ∃ ts₁ ts₂, ts = ts₁ ++ ts₂ ∧ texts ts₁ = us ∧ texts ts₂ = vs :=
  List.map_eq_append_iff.1 h

namespace Cursor

/-! ## Going back -/

/-- The cursor before the tokens `ts`. -/
def back (c : Cursor) (ts : List Token) : Cursor := { c with rest := ts ++ c.rest }

@[simp] theorem back_nil (c : Cursor) : c.back [] = c := rfl

theorem back_append (c : Cursor) (ts us : List Token) : c.back (ts ++ us) = (c.back us).back ts := by
  simp [back]

@[simp] theorem current_back_cons (c : Cursor) (t : Token) (ts : List Token) :
    (c.back (t :: ts)).current = t := rfl

@[simp] theorem text_back_cons (c : Cursor) (t : Token) (ts : List Token) :
    (c.back (t :: ts)).text = t.text := rfl

theorem text_back (c : Cursor) (ts : List Token) :
    (c.back ts).text = (texts ts).headD c.text := by
  cases ts <;> rfl

theorem text_back_congr {c c' : Cursor} {ts ts' : List Token} (hts : texts ts' = texts ts)
    (hc : c'.text = c.text) : (c'.back ts').text = (c.back ts).text := by
  rw [text_back, text_back, hts, hc]

/-- The token for the end lies ahead. -/
def Ended (c : Cursor) : Prop := "" ∈ texts c.rest

theorem Ended.of_back {c : Cursor} {ts : List Token} (h : (c.back ts).Ended) (hts : "" ∉ texts ts) :
    c.Ended := by
  simp only [Ended, back, texts, List.map_append, List.mem_append] at h
  exact h.resolve_left hts

theorem Ended.eq_back {c : Cursor} (h : c.Ended) : c = c.next.back [c.current] := by
  obtain ⟨_ | ⟨t, r⟩, last⟩ := c
  · simp [Ended] at h
  · rfl

/-! ## Going on -/

/-- The tokens `ts` lead from one cursor to another. -/
inductive Leads : Cursor → List Token → Cursor → Prop
  | nil (c : Cursor) : Leads c [] c
  | cons {c c' : Cursor} {ts : List Token} (tail : Leads c.next ts c') : Leads c (c.current :: ts) c'

theorem leads_current (c : Cursor) : c.Leads [c.current] c.next := .cons (.nil _)

theorem Leads.append {c c₁ c' : Cursor} {ts us : List Token} (h : c.Leads ts c₁)
    (h' : c₁.Leads us c') : c.Leads (ts ++ us) c' := by
  induction h with
  | nil => exact h'
  | cons _ ih => exact .cons (ih h')

/-- Before the token for the end, tokens that lead on are those of the list. -/
theorem Leads.eq_back {c c' : Cursor} {ts : List Token} (h : c.Leads ts c') (hc : c.Ended)
    (hts : "" ∉ texts ts) : c = c'.back ts := by
  induction h with
  | nil => rfl
  | @cons c c' ts _ ih =>
    have hnext : c.next.Ended := by
      refine (hc.eq_back ▸ hc : (c.next.back [c.current]).Ended).of_back fun hm => hts ?_
      exact List.mem_cons.2 (.inl (List.mem_singleton.1 hm))
    rw [hc.eq_back, ih hnext fun hm => hts (List.mem_cons_of_mem _ hm), ← back_append]
    rfl

end Cursor

/-! ## Steps in a row -/

namespace Step

variable {α β : Type}

/-- A step whose value is changed. -/
def map (f : α → β) (p : Step α) : Step β := fun c => do
  let (a, c) ← p c
  return (f a, c)

/-- Two steps in a row. -/
def both (p : Step α) (q : Step β) : Step (α × β) := fun c => do
  let (a, c) ← p c
  let (b, c) ← q c
  return ((a, b), c)

/-- A step that takes one token. -/
def token (read : Token → Except Complaint α) : Step α := fun c =>
  match read c.current with
  | .ok a => .ok (a, c.next)
  | .error cause => c.fail cause

/-- The position of the token at the cursor. -/
def here : Step Position := fun c => .ok (c.current.position, c)

/-- Takes any token. -/
def skip : Step Unit := fun c => .ok ((), c.next)

theorem map_eq_ok {f : α → β} {p : Step α} {c c' : Cursor} {b : β} :
    map f p c = .ok (b, c') ↔ ∃ a, p c = .ok (a, c') ∧ f a = b := by
  simp only [map, bind_eq_ok_iff, Prod.exists, pure, Except.pure, Except.ok.injEq, Prod.mk.injEq]
  constructor
  · rintro ⟨a, c₁, h, hb, rfl⟩; exact ⟨a, h, hb⟩
  · rintro ⟨a, h, hb⟩; exact ⟨a, c', h, hb, rfl⟩

theorem map_eq_error {f : α → β} {p : Step α} {c : Cursor} {e : ReadFailure} :
    map f p c = .error e ↔ p c = .error e := by
  simp [map, bind_eq_error_iff, pure, Except.pure]

theorem both_eq_ok {p : Step α} {q : Step β} {c c' : Cursor} {a : α} {b : β} :
    both p q c = .ok ((a, b), c') ↔ ∃ c₁, p c = .ok (a, c₁) ∧ q c₁ = .ok (b, c') := by
  simp only [both, bind_eq_ok_iff, Prod.exists, pure, Except.pure, Except.ok.injEq, Prod.mk.injEq]
  constructor
  · rintro ⟨_, c₁, hp, _, _, hq, ⟨rfl, rfl⟩, rfl⟩; exact ⟨c₁, hp, hq⟩
  · rintro ⟨c₁, hp, hq⟩; exact ⟨a, c₁, hp, b, c', hq, ⟨rfl, rfl⟩, rfl⟩

theorem both_eq_error {p : Step α} {q : Step β} {c : Cursor} {e : ReadFailure} :
    both p q c = .error e ↔
      p c = .error e ∨ ∃ a c₁, p c = .ok (a, c₁) ∧ q c₁ = .error e := by
  simp [both, bind_eq_error_iff, pure, Except.pure]

end Step

/-! ## Reading what a relation describes -/

variable {α β γ δ : Type}

/-- Some text of `G` begins with `ws`. -/
def Viable (G : List String → α → Prop) (ws : List String) : Prop := ∃ us a, G (ws ++ us) a

/-- After tokens with the texts `ws`, the step complains about any token with the text `w`. -/
def StuckAt (step : Step α) (ws : List String) (w : String) (cause : Complaint) : Prop :=
  ∀ (ts : List Token) (c : Cursor), texts ts = ws → c.text = w →
    step (c.back ts) = .error (.complaint cause c.current.position)

/-- **A step reads `G`.** It starts at a text that satisfies `pre` and leaves the cursor at one that
satisfies `post`. -/
structure Reads (pre post : String → Prop) (view : α → β) (step : Step α)
    (G : List String → α → Prop) : Prop where
  some : ∃ ws a, G ws a
  starts : ∀ {ws a w}, G ws a → post w → pre (ws.headD w)
  /-- The token for the end is never taken. -/
  words : ∀ {ws a}, G ws a → "" ∉ ws
  /-- What is taken may go on past the end of the list. -/
  leads : ∀ {c a} {c' : Cursor}, pre c.text → step c = .ok (a, c') →
    ∃ ts, c.Leads ts c' ∧ G (texts ts) a ∧ post c'.text
  complete : ∀ {ts a c}, G (texts ts) a → post c.text →
    ∃ a', step (c.back ts) = .ok (a', c) ∧ view a' = view a
  stuck : ∀ {c e}, c.Ended → pre c.text → step c = .error e →
    ∃ (ts : List Token) (c' : Cursor) (cause : Complaint), c = c'.back ts ∧
      e = .complaint cause c'.current.position ∧
      Viable G (texts ts) ∧ StuckAt step (texts ts) c'.text cause

/-- No condition on a text. -/
abbrev anyText (_ : String) : Prop := True

namespace Reads

variable {pre mid post : String → Prop} {view : α → β} {view' : γ → δ} {p : Step α} {q : Step γ}
  {G : List String → α → Prop} {H : List String → γ → Prop}

theorem sound {c c' : Cursor} {a : α} (h : Reads pre post view p G) (hc : c.Ended) (hw : pre c.text)
    (hok : p c = .ok (a, c')) : ∃ ts, c = c'.back ts ∧ G (texts ts) a ∧ post c'.text := by
  obtain ⟨ts, hts, ha, hpost⟩ := h.leads hw hok
  exact ⟨ts, hts.eq_back hc (h.words ha), ha, hpost⟩

theorem ended {c c' : Cursor} {a : α} {ts : List Token} (h : Reads pre post view p G)
    (hc : c.Ended) (hback : c = c'.back ts) (ha : G (texts ts) a) : c'.Ended :=
  Cursor.Ended.of_back (hback ▸ hc) (h.words ha)

/-- Nothing that `G` describes goes on with the text that a step is stuck at. -/
theorem not_viable {ws : List String} {w : String} {cause : Complaint} (hpost : ∃ w, post w)
    (h : Reads pre post view p G) (hs : StuckAt p ws w cause) : ¬ Viable G (ws ++ [w]) := by
  rintro ⟨us, a, ha⟩
  obtain ⟨x, hx⟩ := hpost
  obtain ⟨ts, hts⟩ := exists_texts_eq ws
  obtain ⟨ts', hts'⟩ := exists_texts_eq us
  let c : Cursor := ⟨[⟨x, .start⟩], ⟨x, .start⟩⟩
  have ha' : G (texts (ts ++ ⟨w, .start⟩ :: ts')) a := by simpa [hts, hts'] using ha
  obtain ⟨a', hok, -⟩ := h.complete (c := c) ha' hx
  rw [Cursor.back_append, hs ts _ hts rfl] at hok
  exact absurd hok (by simp)

theorem restrict (h : Reads pre post view p G) (pre' : String → Prop) (hpre : ∀ w, pre' w → pre w)
    (hG : ∀ {ws a w}, G ws a → post w → pre' (ws.headD w)) : Reads pre' post view p G where
  some := h.some
  starts := hG
  words := h.words
  leads hw hok := h.leads (hpre _ hw) hok
  complete := h.complete
  stuck hc hw herr := h.stuck hc (hpre _ hw) herr

theorem congr_step {p' : Step α} (h : Reads pre post view p G)
    (hp : ∀ c : Cursor, pre c.text → p' c = p c) : Reads pre post view p' G where
  some := h.some
  starts := h.starts
  words := h.words
  leads hw hok := h.leads hw (hp _ hw ▸ hok)
  complete {ts a c} ha hw := by
    rw [hp _ (by rw [Cursor.text_back]; exact h.starts ha hw)]
    exact h.complete ha hw
  stuck {c e} hc hw herr := by
    rw [hp _ hw] at herr
    obtain ⟨ts, c', cause, rfl, he, hv, hs⟩ := h.stuck hc hw herr
    refine ⟨ts, c', cause, rfl, he, hv, fun us c'' hus hc'' => ?_⟩
    rw [hp _ (by rwa [Cursor.text_back_congr hus hc''])]
    exact hs us c'' hus hc''

theorem congr_rel {G' : List String → α → Prop} (h : Reads pre post view p G)
    (hG : ∀ ws a, G ws a ↔ G' ws a) : Reads pre post view p G' := by
  have : G = G' := by funext ws a; exact propext (hG ws a)
  exact this ▸ h

/-! ## Rules -/

theorem token {read : Token → Except Complaint α}
    (hread : ∀ t t', t.text = t'.text → (read t).map view = (read t').map view)
    (hword : ∀ t a, read t = .ok a → t.text ≠ "") (hsome : ∃ t a, pre t.text ∧ read t = .ok a) :
    Reads pre anyText view (Step.token read)
      fun ws a => ∃ t, ws = [t.text] ∧ pre t.text ∧ read t = .ok a where
  some := by obtain ⟨t, a, ht, ha⟩ := hsome; exact ⟨[t.text], a, t, rfl, ht, ha⟩
  starts := by rintro ws a w ⟨t, rfl, ht, -⟩ -; exact ht
  words := by rintro ws a ⟨t, rfl, -, ha⟩; simpa using (hword t a ha).symm
  leads {c a c'} hw hok := by
    unfold Step.token at hok
    split at hok
    · next a' ha =>
      cases hok
      exact ⟨[c.current], c.leads_current, ⟨c.current, rfl, hw, ha⟩, trivial⟩
    · exact absurd hok (by simp [Cursor.fail])
  complete {ts a c} := by
    rintro ⟨t, hts, -, ha⟩ -
    obtain ⟨t', rfl, ht'⟩ := List.map_eq_singleton_iff.1 hts
    have h := hread t t' ht'.symm
    unfold Step.token
    rw [Cursor.current_back_cons]
    rw [ha] at h
    cases ha' : read t' with
    | error e => rw [ha'] at h; exact absurd h (by simp [Except.map])
    | ok a' =>
      rw [ha'] at h
      exact ⟨a', rfl, (Except.ok.inj h).symm⟩
  stuck {c e} hc hw herr := by
    unfold Step.token at herr
    split at herr
    · exact absurd herr (by simp)
    · next cause hcause =>
      cases herr
      obtain ⟨t, a, ht, ha⟩ := hsome
      refine ⟨[], c, cause, rfl, rfl, ⟨[t.text], a, t, rfl, ht, ha⟩, fun ts c' hts hc' => ?_⟩
      obtain rfl := List.map_eq_nil_iff.1 hts
      have h := hread c.current c'.current hc'.symm
      rw [hcause] at h
      unfold Step.token
      rw [Cursor.back_nil]
      cases hr : read c'.current with
      | error e => rw [hr] at h; cases h; rfl
      | ok a' => rw [hr] at h; exact absurd h (by simp [Except.map])

theorem both (hp : Reads pre mid view p G) (hq : Reads mid post view' q H) :
    Reads pre post (Prod.map view view') (Step.both p q)
      fun ws x => ∃ us vs, ws = us ++ vs ∧ G us x.1 ∧ H vs x.2 where
  some := by
    obtain ⟨us, a, ha⟩ := hp.some
    obtain ⟨vs, b, hb⟩ := hq.some
    exact ⟨us ++ vs, (a, b), us, vs, rfl, ha, hb⟩
  starts := by
    rintro ws x w ⟨us, vs, rfl, ha, hb⟩ hw
    have := hp.starts ha (hq.starts hb hw)
    cases us <;> simpa using this
  words := by
    rintro ws x ⟨us, vs, rfl, ha, hb⟩
    simpa using ⟨hp.words ha, hq.words hb⟩
  leads {c x c'} hw hok := by
    obtain ⟨c₁, hok₁, hok₂⟩ := Step.both_eq_ok.1 hok
    obtain ⟨ts, hts, ha, hmid⟩ := hp.leads hw hok₁
    obtain ⟨us, hus, hb, hpost⟩ := hq.leads hmid hok₂
    exact ⟨ts ++ us, hts.append hus, ⟨_, _, by simp, ha, hb⟩, hpost⟩
  complete {ts x c} := by
    rintro ⟨us, vs, hts, ha, hb⟩ hw
    obtain ⟨ts₁, ts₂, rfl, rfl, rfl⟩ := exists_of_texts_eq_append hts
    obtain ⟨b, hok₂, hvb⟩ := hq.complete hb hw
    have hmid : mid (c.back ts₂).text := by rw [Cursor.text_back]; exact hq.starts hb hw
    obtain ⟨a, hok₁, hva⟩ := hp.complete ha hmid
    rw [Cursor.back_append]
    exact ⟨(a, b), Step.both_eq_ok.2 ⟨_, hok₁, hok₂⟩, Prod.ext hva hvb⟩
  stuck {c e} hc hw herr := by
    rcases Step.both_eq_error.1 herr with herr₁ | ⟨a, c₁, hok, herr₂⟩
    · obtain ⟨ts, c', cause, rfl, he, ⟨us, a, ha⟩, hs⟩ := hp.stuck hc hw herr₁
      obtain ⟨vs, b, hb⟩ := hq.some
      refine ⟨ts, c', cause, rfl, he, ⟨us ++ vs, (a, b), _, vs, by simp, ha, hb⟩, ?_⟩
      exact fun ts' c'' hts hc'' => Step.both_eq_error.2 (.inl (hs ts' c'' hts hc''))
    · obtain ⟨ts, rfl, ha, hmid⟩ := hp.sound hc hw hok
      obtain ⟨us, c', cause, rfl, he, ⟨vs, b, hb⟩, hs⟩ := hq.stuck (hp.ended hc rfl ha) hmid herr₂
      refine ⟨ts ++ us, c', cause, (Cursor.back_append ..).symm, he,
        ⟨vs, (a, b), texts ts, texts us ++ vs, by simp, ha, hb⟩, fun ts' c'' hts hc'' => ?_⟩
      -- the other tokens split where these do, and the first step reads its part of them too
      obtain ⟨ts₁, ts₂, rfl, hts₁, hts₂⟩ :=
        exists_of_texts_eq_append (hts.trans List.map_append)
      have hmid' : mid (c''.back ts₂).text := by rwa [Cursor.text_back_congr hts₂ hc'']
      obtain ⟨a', hok', -⟩ := hp.complete (by rw [hts₁]; exact ha) hmid'
      rw [Cursor.back_append]
      exact Step.both_eq_error.2 (.inr ⟨a', _, hok', hs ts₂ c'' hts₂ hc''⟩)

theorem map (h : Reads pre post view p G) (f : α → γ) (view' : γ → δ)
    (hf : ∀ a a', view a = view a' → view' (f a) = view' (f a')) :
    Reads pre post view' (Step.map f p) fun ws b => ∃ a, G ws a ∧ f a = b where
  some := by obtain ⟨ws, a, ha⟩ := h.some; exact ⟨ws, f a, a, ha, rfl⟩
  starts := by rintro ws b w ⟨a, ha, -⟩ hw; exact h.starts ha hw
  words := by rintro ws b ⟨a, ha, -⟩; exact h.words ha
  leads {c b c'} hw hok := by
    obtain ⟨a, hok', rfl⟩ := Step.map_eq_ok.1 hok
    obtain ⟨ts, hts, ha, hpost⟩ := h.leads hw hok'
    exact ⟨ts, hts, ⟨a, ha, rfl⟩, hpost⟩
  complete {ts b c} := by
    rintro ⟨a, ha, rfl⟩ hw
    obtain ⟨a', hok, hv⟩ := h.complete ha hw
    exact ⟨f a', Step.map_eq_ok.2 ⟨a', hok, rfl⟩, hf _ _ hv⟩
  stuck {c e} hc hw herr := by
    obtain ⟨ts, c', cause, hc', he, ⟨us, a, ha⟩, hs⟩ := h.stuck hc hw (Step.map_eq_error.1 herr)
    exact ⟨ts, c', cause, hc', he, ⟨us, f a, a, ha, rfl⟩,
      fun ts' c'' hts hc'' => Step.map_eq_error.2 (hs ts' c'' hts hc'')⟩

theorem here : Reads pre pre (fun _ => ()) Step.here fun ws _ => ws = [] where
  some := ⟨[], .start, rfl⟩
  starts := by rintro ws a w rfl hw; exact hw
  words := by rintro ws a rfl; simp
  leads {c a c'} hw hok := by cases hok; exact ⟨[], .nil c, rfl, hw⟩
  complete {ts a c} hts _ := by
    obtain rfl := List.map_eq_nil_iff.1 hts
    exact ⟨_, rfl, rfl⟩
  stuck _ _ herr := by exact absurd herr (by simp [Step.here])

theorem skip {w : String} (hw : w ≠ "") :
    Reads (· = w) anyText id Step.skip fun ws _ => ws = [w] where
  some := ⟨[w], (), rfl⟩
  starts := by rintro ws a x rfl -; rfl
  words := by rintro ws a rfl; simpa using hw.symm
  leads {c a c'} hcw hok := by
    cases hok
    exact ⟨[c.current], c.leads_current, congrArg (fun x => [x]) hcw, trivial⟩
  complete {ts a c} hts _ := by
    obtain ⟨t, rfl, -⟩ := List.map_eq_singleton_iff.1 hts
    exact ⟨(), rfl, rfl⟩
  stuck _ _ herr := by exact absurd herr (by simp [Step.skip])

/-- A token that is known already, as `pre` holds of `w` alone, and then a step. -/
theorem after {w : String} (hw : w ≠ "") (h : Reads anyText post view p G) (pre : String → Prop)
    (hpre : ∀ x, pre x → x = w) (hself : pre w) :
    Reads pre post view (fun c => p c.next) fun ws a => ∃ us, ws = w :: us ∧ G us a := by
  have hskip := (skip hw).restrict pre hpre (by rintro ws a x rfl -; exact hself)
  have h' := (hskip.both h).map Prod.snd view fun a a' he => congrArg Prod.snd he
  refine (h'.congr_step fun c _ => ?_).congr_rel fun ws a => ?_
  · simp only [Step.map, Step.both, Step.skip, bind, Except.bind, pure, Except.pure]
    rcases p c.next with e | ⟨a, c'⟩ <;> rfl
  · simp

theorem union {test : String → Prop} {H : List String → α → Prop}
    (hp : Reads (fun w => pre w ∧ test w) post view p G)
    (hq : Reads (fun w => pre w ∧ ¬ test w) post view p H) :
    Reads pre post view p fun ws a => G ws a ∨ H ws a where
  some := by obtain ⟨ws, a, ha⟩ := hp.some; exact ⟨ws, a, .inl ha⟩
  starts := by
    rintro ws a w (ha | ha) hw
    · exact (hp.starts ha hw).1
    · exact (hq.starts ha hw).1
  words := by
    rintro ws a (ha | ha)
    · exact hp.words ha
    · exact hq.words ha
  leads {c a c'} hw hok := by
    by_cases ht : test c.text
    · obtain ⟨ts, hts, ha, hpost⟩ := hp.leads ⟨hw, ht⟩ hok
      exact ⟨ts, hts, .inl ha, hpost⟩
    · obtain ⟨ts, hts, ha, hpost⟩ := hq.leads ⟨hw, ht⟩ hok
      exact ⟨ts, hts, .inr ha, hpost⟩
  complete {ts a c} := by
    rintro (ha | ha) hw
    · exact hp.complete ha hw
    · exact hq.complete ha hw
  stuck {c e} hc hw herr := by
    by_cases ht : test c.text
    · obtain ⟨ts, c', cause, hc', he, ⟨us, a, ha⟩, hs⟩ := hp.stuck hc ⟨hw, ht⟩ herr
      exact ⟨ts, c', cause, hc', he, ⟨us, a, .inl ha⟩, hs⟩
    · obtain ⟨ts, c', cause, hc', he, ⟨us, a, ha⟩, hs⟩ := hq.stuck hc ⟨hw, ht⟩ herr
      exact ⟨ts, c', cause, hc', he, ⟨us, a, .inr ha⟩, hs⟩

theorem choose {test : String → Prop} [DecidablePred test] {q : Step α}
    {H : List String → α → Prop} (hp : Reads (fun w => pre w ∧ test w) post view p G)
    (hq : Reads (fun w => pre w ∧ ¬ test w) post view q H) :
    Reads pre post view (fun c => if test c.text then p c else q c)
      fun ws a => G ws a ∨ H ws a :=
  union (hp.congr_step fun _ hc => if_pos hc.2) (hq.congr_step fun _ hc => if_neg hc.2)

theorem demand {test : String → Prop} [DecidablePred test]
    (hp : Reads (fun w => pre w ∧ test w) post view p G) (cause : String → Complaint) :
    Reads pre post view (fun c => if test c.text then p c else c.fail (cause c.text)) G := by
  have h : Reads (fun w => pre w ∧ test w) post view
      (fun c => if test c.text then p c else c.fail (cause c.text)) G :=
    hp.congr_step fun _ hc => if_pos hc.2
  refine ⟨h.some, fun ha hw => (h.starts ha hw).1, h.words, fun {c a c'} hw hok => ?_, h.complete,
    fun {c e} hc hw herr => ?_⟩
  · by_cases ht : test c.text
    · exact h.leads ⟨hw, ht⟩ hok
    · rw [if_neg ht] at hok
      exact absurd hok (by simp [Cursor.fail])
  · by_cases ht : test c.text
    · exact h.stuck hc ⟨hw, ht⟩ herr
    · rw [if_neg ht, Cursor.fail, Except.error.injEq] at herr
      refine ⟨[], c, cause c.text, rfl, herr.symm, h.some, fun ts c' hts hc' => ?_⟩
      obtain rfl := List.map_eq_nil_iff.1 hts
      simp only [Cursor.back_nil, hc', if_neg ht]
      rfl

/-! ## Repetition -/

section Collect

open Cursor (collect)

variable {stop : String → Bool}

theorem collect_of_stop {c : Cursor} (hs : stop c.text = true) : collect stop p c = .ok ([], c) := by
  rw [collect, if_pos hs]

/-- Where a step moves on, repeating it is doing it once and repeating it. -/
theorem collect_eq_both {c : Cursor} (hs : stop c.text = false)
    (hmove : ∀ a c', p c = .ok (a, c') → c'.rest.length < c.rest.length) :
    collect stop p c = (Step.both p (collect stop p)).map (fun x => x.1 :: x.2) c := by
  rw [collect, if_neg (by simp [hs])]
  simp only [Step.map, Step.both, bind, Except.bind]
  rcases hp : p c with e | ⟨a, c'⟩
  · rfl
  · simp only [dif_pos (hmove a c' hp)]
    rcases collect stop p c' with e | ⟨as, c''⟩ <;> rfl

variable (hne : ∀ ws a, G ws a → ws ≠ [])

include hne in
/-- A step that takes something moves on. -/
theorem length_lt_back {a : α} {ts : List Token} (ha : G (texts ts) a) (c : Cursor) :
    c.rest.length < (c.back ts).rest.length := by
  have : 0 < ts.length := List.length_pos_iff.2 fun h => hne _ _ ha (by simp [h])
  simp only [Cursor.back, List.length_append]
  omega

include hne in
theorem collect_eq_both_of_ended (h : Reads (fun w => stop w = false) anyText view p G) {c : Cursor}
    (hc : c.Ended) (hs : stop c.text = false) :
    collect stop p c = (Step.both p (collect stop p)).map (fun x => x.1 :: x.2) c := by
  refine collect_eq_both hs fun a c' hp => ?_
  obtain ⟨ts, rfl, ha, -⟩ := h.sound hc hs hp
  exact length_lt_back hne ha c'

include hne in
theorem collect_eq_both_back (h : Reads (fun w => stop w = false) anyText view p G) {c : Cursor}
    {ts : List Token} {a a' : α} (ha : G (texts ts) a) (hok : p (c.back ts) = .ok (a', c)) :
    collect stop p (c.back ts) =
      (Step.both p (collect stop p)).map (fun x => x.1 :: x.2) (c.back ts) := by
  refine collect_eq_both ?_ fun b c' hp => ?_
  · rw [Cursor.text_back]
    exact h.starts ha trivial
  · rw [hok] at hp
    cases hp
    exact length_lt_back hne ha c

theorem collect_leads (h : Reads (fun w => stop w = false) anyText view p G) (n : ℕ) :
    ∀ {c c' : Cursor} {as : List α}, c.rest.length = n → collect stop p c = .ok (as, c') →
      ∃ ts, c.Leads ts c' ∧ Grammar.Many G (texts ts) as ∧ stop c'.text = true := by
  -- on the number of tokens that are left
  induction n using Nat.strongRecOn with
  | ind n ih =>
    intro c c' as hn hok
    by_cases hs : stop c.text = true
    · rw [collect_of_stop hs] at hok
      cases hok
      exact ⟨[], .nil c, .nil, hs⟩
    · rw [collect, if_neg hs, bind_eq_ok_iff] at hok
      obtain ⟨⟨a, c₁⟩, hok₁, hok⟩ := hok
      dsimp only at hok
      split at hok
      · rename_i hlt
        obtain ⟨⟨as', c₂⟩, hok₂, hok⟩ := bind_eq_ok_iff.1 hok
        cases hok
        obtain ⟨ts, hts, ha, -⟩ := h.leads (Bool.not_eq_true _ ▸ hs) hok₁
        obtain ⟨us, hus, has, hstop⟩ := ih _ (hn ▸ hlt) rfl hok₂
        refine ⟨ts ++ us, hts.append hus, ?_, hstop⟩
        simpa [texts] using Grammar.Many.cons ha has
      · cases hok

include hne in
theorem collect_complete (h : Reads (fun w => stop w = false) anyText view p G) {c : Cursor}
    (hs : stop c.text = true) {ws : List String} {as : List α} (has : Grammar.Many G ws as) :
    ∀ {ts : List Token}, texts ts = ws →
      ∃ as', collect stop p (c.back ts) = .ok (as', c) ∧ as'.map view = as.map view := by
  induction has with
  | nil =>
    intro ts hts
    obtain rfl := List.map_eq_nil_iff.1 hts
    exact ⟨[], collect_of_stop hs, rfl⟩
  | @cons us ws a as ha _ ih =>
    intro ts hts
    obtain ⟨ts₁, ts₂, rfl, rfl, rfl⟩ := exists_of_texts_eq_append hts
    obtain ⟨a', hok₁, hva⟩ := h.complete (c := c.back ts₂) ha trivial
    obtain ⟨as', hok₂, hvas⟩ := ih rfl
    rw [Cursor.back_append, collect_eq_both_back hne h ha hok₁]
    exact ⟨a' :: as', Step.map_eq_ok.2 ⟨(a', as'), Step.both_eq_ok.2 ⟨_, hok₁, hok₂⟩, rfl⟩,
      by simp [hva, hvas]⟩

include hne in
theorem collect_stuck (h : Reads (fun w => stop w = false) anyText view p G) (n : ℕ) :
    ∀ {c : Cursor} {e : ReadFailure}, c.rest.length = n → c.Ended → collect stop p c = .error e →
      ∃ (ts : List Token) (c' : Cursor) (cause : Complaint), c = c'.back ts ∧
        e = .complaint cause c'.current.position ∧ Viable (Grammar.Many G) (texts ts) ∧
        StuckAt (collect stop p) (texts ts) c'.text cause := by
  induction n using Nat.strongRecOn with
  | ind n ih =>
    intro c e hn hc herr
    have hs : stop c.text = false := by
      by_contra hs
      rw [collect_of_stop (by simpa using hs)] at herr
      exact absurd herr (by simp)
    rw [collect_eq_both_of_ended hne h hc hs] at herr
    rcases Step.both_eq_error.1 (Step.map_eq_error.1 herr) with herr₁ | ⟨a, c₁, hok, herr₂⟩
    · obtain ⟨ts, c', cause, rfl, he, ⟨us, a, ha⟩, hst⟩ := h.stuck hc hs herr₁
      refine ⟨ts, c', cause, rfl, he, ⟨us, [a], ?_⟩, fun ts' c'' hts hc'' => ?_⟩
      · simpa using Grammar.Many.cons ha .nil
      · have herr' := hst ts' c'' hts hc''
        rw [collect_eq_both]
        · exact Step.map_eq_error.2 (Step.both_eq_error.2 (.inl herr'))
        · rwa [Cursor.text_back_congr hts hc'']
        · intro a c₂ hok; rw [herr'] at hok; exact absurd hok (by simp)
    · obtain ⟨ts, rfl, ha, -⟩ := h.sound hc hs hok
      have hlt := length_lt_back hne ha c₁
      obtain ⟨us, c', cause, rfl, he, ⟨vs, as, has⟩, hst⟩ :=
        ih _ (hn ▸ hlt) rfl (h.ended hc rfl ha) herr₂
      refine ⟨ts ++ us, c', cause, (Cursor.back_append ..).symm, he, ⟨vs, a :: as, ?_⟩,
        fun ts' c'' hts hc'' => ?_⟩
      · simpa using Grammar.Many.cons ha has
      · obtain ⟨ts₁, ts₂, rfl, hts₁, hts₂⟩ :=
          exists_of_texts_eq_append (hts.trans List.map_append)
        have ha' : G (texts ts₁) a := by rw [hts₁]; exact ha
        obtain ⟨a', hok', -⟩ := h.complete (c := c''.back ts₂) ha' trivial
        rw [Cursor.back_append, collect_eq_both_back hne h ha' hok']
        exact Step.map_eq_error.2
          (Step.both_eq_error.2 (.inr ⟨a', _, hok', hst ts₂ c'' hts₂ hc''⟩))

/-- A step that takes something, repeated up to a text that passes a test. -/
theorem collect (h : Reads (fun w => stop w = false) anyText view p G)
    (hne : ∀ ws a, G ws a → ws ≠ []) :
    Reads anyText (fun w => stop w = true) (List.map view) (Cursor.collect stop p)
      (Grammar.Many G) where
  some := ⟨[], [], .nil⟩
  starts _ _ := trivial
  words has := by
    induction has with
    | nil => simp
    | cons ha _ ih => simpa using ⟨h.words ha, ih⟩
  leads _ hok := collect_leads h _ rfl hok
  complete has hs := collect_complete hne h hs has rfl
  stuck hc _ herr := collect_stuck hne h _ rfl hc herr

end Collect

end Reads

end Idl
