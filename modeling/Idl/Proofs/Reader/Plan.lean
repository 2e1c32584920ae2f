import Mathlib
import Idl.Proofs.Reader.Endless

/-!
# Where the cursor stands

The reader knows the end of a token list by a token without a text. A step that went past that token
would read on behind the end, or read the last token of the list again and again. The reader is a
plan, so that all places of the cursor on the way to a result can be noted along the same tree.

* `Run`, `Plan.run`: the result of a plan, with every place at which the cursor stood.
* `Plan.outcome_run`: the result is that of the reader.
* `Settled`, `Plan.settled`: the tokens up to the end settle where the cursor stands and what is read.
* **`reading_stays_before_end`**: the reader never leaves the token for the end, and reads the same
  without the tokens behind it.
-/

namespace Idl

/-! ## Runs -/

variable {α β : Type}

/-- What came of a plan, and how. -/
structure Run (α : Type) where
  /-- Where the cursor stood, place after place. -/
  places : List Cursor
  outcome : Except ReadFailure (α × Cursor)

namespace Run

/-- Goes on from the last place of a run that did not fail. -/
def chain (r : Run α) (after : α → Cursor → Run β) : Run β :=
  match r.outcome with
  | .ok (a, c) => ⟨r.places ++ (after a c).places, (after a c).outcome⟩
  | .error e => ⟨r.places, .error e⟩

/-- Runs in a row, as `Cursor.collect` makes them. -/
def repeated (stop : String → Bool) (run : Cursor → Run α) (c : Cursor) : Run (List α) :=
  if stop c.text then ⟨[c], .ok ([], c)⟩
  else (run c).chain fun a c' =>
    if _h : c'.rest.length < c.rest.length then
      (repeated stop run c').chain fun as c'' => ⟨[c''], .ok (a :: as, c'')⟩
    else ⟨[c'], .error .endless⟩
termination_by c.rest.length

theorem outcome_chain (r : Run α) (after : α → Cursor → Run β) :
    (r.chain after).outcome = r.outcome >>= fun x => (after x.1 x.2).outcome := by
  obtain ⟨places, e | ⟨a, c⟩⟩ := r <;> rfl

theorem outcome_repeated {stop : String → Bool} {run : Cursor → Run α} {step : Step α}
    (h : ∀ c, (run c).outcome = step c) (c : Cursor) :
    (repeated stop run c).outcome = Cursor.collect stop step c := by
  induction c using Cursor.collect.induct stop with
  | case1 c hstop => rw [repeated, Cursor.collect, if_pos hstop, if_pos hstop]
  | case2 c hstop ih =>
    rw [repeated, Cursor.collect, if_neg hstop, if_neg hstop, outcome_chain, h c]
    cases step c with
    | error e => rfl
    | ok x =>
      show Run.outcome (dite _ _ _) = dite _ _ _
      by_cases hlt : x.2.rest.length < c.rest.length
      · rw [dif_pos hlt, dif_pos hlt, outcome_chain, ih x.2 hlt]
        rfl
      · rw [dif_neg hlt, dif_neg hlt]

end Run

/-- Follows a plan from a cursor and notes where the cursor stands. -/
def Plan.run {α : Type} : Plan α → Cursor → Run α
  | done a, c => ⟨[c], .ok (a, c)⟩
  | refuse cause, c => ⟨[c], c.fail (cause c.text)⟩
  | look plan, c => (plan c.current).run c
  | ahead first second _ _ yes no, c =>
    if first c.text ∧ c.following? = some second then yes.run c else no.run c
  | take value? _ yes no, c =>
    match value? c.current with
    | some a => ⟨c :: ((yes a).run c.next).places, ((yes a).run c.next).outcome⟩
    | none => no.run c
  | chain plan after, c => (plan.run c).chain fun a => (after a).run
  | repeated stop plan, c => Run.repeated stop plan.run c

/-- **A run has the result of the reader.** -/
theorem Plan.outcome_run (p : Plan α) (c : Cursor) : (p.run c).outcome = p.step c := by
  induction p generalizing c with
  | done a => rfl
  | refuse cause => rfl
  | look plan ih => exact ih c.current c
  | ahead first second hfirst hsecond yes no ihyes ihno =>
    rw [run, step_ahead]
    split_ifs
    · exact ihyes c
    · exact ihno c
  | take value? worded yes no ihyes ihno =>
    cases hv : value? c.current with
    | none =>
      rw [step_take_none _ _ _ hv, run, hv]
      exact ihno c
    | some a =>
      rw [step_take_some _ _ _ hv, run, hv]
      exact ihyes a c.next
  | chain plan after ih ihafter =>
    rw [run, Run.outcome_chain, ih c]
    simp only [ihafter]
    rfl
  | repeated stop plan ih => exact Run.outcome_repeated ih c

/-! ## Up to the end -/

theorem Cursor.current_back {c : Cursor} {e : Token} (hc : c.current = e) (us : List Token) :
    (c.back us).current = us.headD e := by
  cases us with
  | nil => exact hc
  | cons u us => rfl

theorem Cursor.ahead_back {c : Cursor} {e : Token} (hc : c.current = e) (he : e.text = "")
    {first : String → Bool} (hfirst : first "" = false) {second : String} (hsecond : second ≠ "")
    (us : List Token) :
    (first (c.back us).text = true ∧ (c.back us).following? = some second) ↔
      (first (us.headD e).text = true ∧ us[1]?.map Token.text = some second) := by
  rw [Cursor.text, current_back hc]
  rcases us with _ | ⟨u, _ | ⟨v, us⟩⟩
  · simp [he, hfirst]
  · -- behind `u` only the end may stand
    obtain ⟨_ | ⟨t, r⟩, last⟩ := c
    · rfl
    · obtain rfl : t = e := hc
      simp [following?, back, he, hsecond.symm]
  · rfl

/-- Tokens and an end settle what runs do. The runs start before the tokens `us`, behind which the
token `e` stands, and the cursor moves along `us` only. -/
def Settled (e : Token) (us : List Token) (run : Cursor → Run α) : Prop :=
  ∃ (stands : List (List Token)) (result : Except ReadFailure (α × List Token)),
    (∀ vs ∈ stands, vs <:+ us) ∧ (∀ a vs, result = .ok (a, vs) → vs <:+ us) ∧
      ∀ c : Cursor, c.current = e →
        run (c.back us) = ⟨stands.map c.back, result.map fun x => (x.1, c.back x.2)⟩

namespace Settled

variable {e : Token} {us : List Token} {run run' : Cursor → Run α}

theorem congr (h : Settled e us run)
    (heq : ∀ c : Cursor, c.current = e → run' (c.back us) = run (c.back us)) : Settled e us run' := by
  obtain ⟨stands, result, hstands, hresult, hrun⟩ := h
  exact ⟨stands, result, hstands, hresult, fun c hc => (heq c hc).trans (hrun c hc)⟩

theorem value (a : α) : Settled e us fun c => ⟨[c], .ok (a, c)⟩ :=
  ⟨[us], .ok (a, us), by simp, by simp +contextual, fun _ _ => rfl⟩

theorem failure (f : ReadFailure) : Settled e us fun c => (⟨[c], .error f⟩ : Run α) :=
  ⟨[us], .error f, by simp, by simp, fun _ _ => rfl⟩

theorem move {u : Token} (h : Settled e us run) :
    Settled e (u :: us) fun c => ⟨c :: (run c.next).places, (run c.next).outcome⟩ := by
  obtain ⟨stands, result, hstands, hresult, hrun⟩ := h
  have htail : us <:+ u :: us := List.suffix_cons u us
  refine ⟨(u :: us) :: stands, result, ?_, fun a vs h => (hresult a vs h).trans htail, fun c hc => ?_⟩
  · exact List.forall_mem_cons.2 ⟨List.suffix_rfl, fun vs hvs => (hstands vs hvs).trans htail⟩
  · show Run.mk (c.back (u :: us) :: (run (c.back us)).places) (run (c.back us)).outcome = _
    rw [hrun c hc]
    rfl

/-- A run that goes on. What follows may look at the first place. -/
theorem chain {after : Cursor → α → Cursor → Run β} (h : Settled e us run)
    (hafter : ∀ a vs, vs <:+ us → ∃ f : Cursor → Run β, Settled e vs f ∧
      ∀ c : Cursor, c.current = e → after (c.back us) a (c.back vs) = f (c.back vs)) :
    Settled e us fun c => (run c).chain (after c) := by
  obtain ⟨stands, result, hstands, hresult, hrun⟩ := h
  cases result with
  | error f =>
    refine ⟨stands, .error f, hstands, nofun, fun c hc => ?_⟩
    simp only [hrun c hc]
    rfl
  | ok x =>
    obtain ⟨a, vs⟩ := x
    have hvs := hresult a vs rfl
    obtain ⟨f, ⟨stands', result', hstands', hresult', hrun'⟩, hf⟩ := hafter a vs hvs
    refine ⟨stands ++ stands', result', ?_, fun b ws h => (hresult' b ws h).trans hvs, fun c hc => ?_⟩
    · exact List.forall_mem_append.2 ⟨hstands, fun ws hws => (hstands' ws hws).trans hvs⟩
    · simp only [hrun c hc]
      show Run.mk (_ ++ (after _ a (c.back vs)).places) (after _ a (c.back vs)).outcome = _
      rw [hf c hc, hrun' c hc, List.map_append]

theorem repeated {stop : String → Bool} (h : ∀ vs, vs <:+ us → Settled e vs run) :
    Settled e us (Run.repeated stop run) := by
  -- on the number of tokens before the end
  induction hn : us.length using Nat.strongRecOn generalizing us with
  | ind n ih =>
    by_cases hstop : stop (us.headD e).text = true
    · refine (value []).congr fun c hc => ?_
      rw [Run.repeated, if_pos (by rwa [Cursor.text, Cursor.current_back hc])]
    · have hgo : Settled e us fun c => (run c).chain fun a c' =>
          if _h : c'.rest.length < c.rest.length then
            (Run.repeated stop run c').chain fun as c'' => ⟨[c''], .ok (a :: as, c'')⟩
          else ⟨[c'], .error .endless⟩ := by
        refine (h us List.suffix_rfl).chain fun a vs hvs => ?_
        by_cases hlt : vs.length < us.length
        · have hrest : Settled e vs (Run.repeated stop run) :=
            ih vs.length (hn ▸ hlt) (fun ws hws => h ws (hws.trans hvs)) rfl
          have hmore : Settled e vs fun c' =>
              (Run.repeated stop run c').chain fun as c'' => ⟨[c''], .ok (a :: as, c'')⟩ :=
            hrest.chain fun as ws _ => ⟨_, value (a :: as), fun _ _ => rfl⟩
          exact ⟨_, hmore, fun c _ => dif_pos (by simpa [Cursor.back] using hlt)⟩
        · exact ⟨_, failure .endless, fun c _ => dif_neg (by simpa [Cursor.back] using hlt)⟩
      refine hgo.congr fun c hc => ?_
      rw [Run.repeated, if_neg (by rwa [Cursor.text, Cursor.current_back hc])]

end Settled

/-- **The tokens up to the end settle every run of a plan.** -/
theorem Plan.settled (p : Plan α) {e : Token} (he : e.text = "") (us : List Token) :
    Settled e us p.run := by
  induction p generalizing us with
  | done a => exact .value a
  | refuse cause =>
    refine (Settled.failure (.complaint (cause (us.headD e).text) (us.headD e).position)).congr
      fun c hc => ?_
    rw [run, Cursor.fail, Cursor.text, Cursor.current_back hc]
  | look plan ih =>
    refine (ih (us.headD e) us).congr fun c hc => ?_
    rw [run, Cursor.current_back hc]
  | ahead first second hfirst hsecond yes no ihyes ihno =>
    by_cases h : first (us.headD e).text = true ∧ us[1]?.map Token.text = some second
    · refine (ihyes us).congr fun c hc => ?_
      rw [run, if_pos ((Cursor.ahead_back hc he hfirst hsecond us).2 h)]
    · refine (ihno us).congr fun c hc => ?_
      rw [run, if_neg (mt (Cursor.ahead_back hc he hfirst hsecond us).1 h)]
  | take value? worded yes no ihyes ihno =>
    cases hv : value? (us.headD e) with
    | none =>
      refine (ihno us).congr fun c hc => ?_
      rw [run, Cursor.current_back hc, hv]
    | some a =>
      cases us with
      | nil => exact absurd he (worded e a hv)
      | cons u us =>
        refine ((ihyes a us).move (u := u)).congr fun c hc => ?_
        rw [run, Cursor.current_back hc, hv]
  | chain plan after ih ihafter =>
    exact (ih us).chain fun a vs _ => ⟨_, ihafter a vs, fun _ _ => rfl⟩
  | repeated stop plan ih => exact .repeated fun vs _ => ih vs

/-! ## From place to place -/

/-- Places from one cursor to another, at most one token apart. -/
inductive Cursor.Path : Cursor → List Cursor → Cursor → Prop
  | here (c : Cursor) : Path c [c] c
  | stay {c c' : Cursor} {places : List Cursor} (tail : Path c places c') : Path c (c :: places) c'
  | move {c c' : Cursor} {places : List Cursor} (tail : Path c.next places c') : Path c (c :: places) c'

theorem Cursor.Path.append {c c₁ c' : Cursor} {places places' : List Cursor} (h : c.Path places c₁)
    (h' : c₁.Path places' c') : c.Path (places ++ places') c' := by
  induction h with
  | here => exact .stay h'
  | stay _ ih => exact .stay (ih h')
  | move _ ih => exact .move (ih h')

/-- The places of a run from `c` lead to where it ends. -/
def Run.From (c : Cursor) (r : Run α) : Prop :=
  ∃ c', c.Path r.places c' ∧ ∀ x, r.outcome = .ok x → x.2 = c'

theorem Run.From.chain {c : Cursor} {r : Run α} {after : α → Cursor → Run β} (h : r.From c)
    (hafter : ∀ a c', (after a c').From c') : (r.chain after).From c := by
  obtain ⟨c₁, hpath, hend⟩ := h
  obtain ⟨places, f | ⟨a, c₂⟩⟩ := r
  · exact ⟨c₁, hpath, nofun⟩
  · obtain rfl : c₂ = c₁ := hend _ rfl
    obtain ⟨c', hpath', hend'⟩ := hafter a c₂
    exact ⟨c', hpath.append hpath', hend'⟩

theorem Run.From.repeated {stop : String → Bool} {run : Cursor → Run α} (h : ∀ c, (run c).From c)
    (c : Cursor) : (Run.repeated stop run c).From c := by
  have value : ∀ (as : List α) (c : Cursor), Run.From c ⟨[c], .ok (as, c)⟩ := fun as c =>
    ⟨c, .here c, by simp⟩
  induction c using Cursor.collect.induct stop with
  | case1 c hstop =>
    rw [Run.repeated, if_pos hstop]
    exact value [] c
  | case2 c hstop ih =>
    rw [Run.repeated, if_neg hstop]
    refine (h c).chain fun a c' => ?_
    split
    · next hlt => exact (ih c' hlt).chain fun as c'' => value (a :: as) c''
    · exact ⟨c', .here c', nofun⟩

/-- A run stands at its first place first, and moves by one token at a time. -/
theorem Plan.run_from (p : Plan α) (c : Cursor) : (p.run c).From c := by
  induction p generalizing c with
  | done a => exact ⟨c, .here c, by simp [run]⟩
  | refuse cause => exact ⟨c, .here c, by simp [run, Cursor.fail]⟩
  | look plan ih => exact ih c.current c
  | ahead first second _ _ yes no ihyes ihno =>
    rw [run]
    split_ifs
    · exact ihyes c
    · exact ihno c
  | take value? _ yes no ihyes ihno =>
    rw [run]
    cases value? c.current with
    | none => exact ihno c
    | some a =>
      obtain ⟨c', hpath, hend⟩ := ihyes a c.next
      exact ⟨c', .move hpath, hend⟩
  | chain plan after ih ihafter => exact (ih c).chain fun a c' => ihafter a c'
  | repeated stop plan ih => exact .repeated ih c

/-! ## Schemas -/

theorem ofTokens_eq_run (ts : List Token) (last : Token) (h : ts.getLast? = some last) :
    Schema.ofTokens ts = (Plan.schema.run ⟨ts, last⟩).outcome.map Prod.fst := by
  rw [ofTokens_of_getLast? h, Plan.outcome_run]

/-- Tokens up to the first end, that end and what follows. -/
theorem exists_eq_append_end {ts : List Token} (h : ∃ t ∈ ts, t.isEnd = true) :
    ∃ us e vs, ts = us ++ e :: vs ∧ e.text = "" ∧ us.length = ts.findIdx Token.isEnd := by
  have hlt : ts.findIdx Token.isEnd < ts.length := List.findIdx_lt_length.2 h
  refine ⟨ts.take (ts.findIdx Token.isEnd), ts[ts.findIdx Token.isEnd],
    ts.drop (ts.findIdx Token.isEnd + 1), by simp, ?_, by simp [hlt.le]⟩
  simpa [Token.isEnd] using List.findIdx_getElem (w := hlt)

/-- **The reader never leaves the token for the end.** Every place of the cursor is a place of the list
up to the first token without a text, and the tokens behind that one make no difference. -/
theorem reading_stays_before_end (ts : List Token) (hend : ∃ t ∈ ts, t.isEnd = true) (last : Token) :
    let run := Plan.schema.run ⟨ts, last⟩
    run.outcome = Cursor.schema ⟨ts, last⟩ ∧ run.From ⟨ts, last⟩ ∧
      (∀ c ∈ run.places, ∃ i ≤ ts.findIdx Token.isEnd,
        c.rest = ts.drop i ∧ ts[i]? = some c.current) ∧
      Schema.ofTokens ts = run.outcome.map Prod.fst ∧
      Schema.ofTokens ts = Schema.ofTokens (ts.take (ts.findIdx Token.isEnd + 1)) := by
  obtain ⟨us, e, vs, rfl, he, hlen⟩ := exists_eq_append_end hend
  rw [← hlen]
  obtain ⟨stands, result, hstands, -, hrun⟩ := Plan.schema.settled he us
  -- whatever stands behind the end, and whatever would come again
  have hall : ∀ ws x, Plan.schema.run ⟨us ++ e :: ws, x⟩ =
      ⟨stands.map (⟨e :: ws, x⟩ : Cursor).back, result.map fun y => (y.1, Cursor.back ⟨e :: ws, x⟩ y.2)⟩ :=
    fun ws x => hrun ⟨e :: ws, x⟩ rfl
  have hread : ∀ ws x, (Plan.schema.run ⟨us ++ e :: ws, x⟩).outcome.map Prod.fst =
      result.map Prod.fst := fun ws x => by
    rw [hall]
    cases result <;> rfl
  have hof : ∀ ws, Schema.ofTokens (us ++ e :: ws) = result.map Prod.fst := fun ws => by
    rw [ofTokens_eq_run _ _ (List.getLast?_eq_some_getLast (by simp)), hread]
  refine ⟨Plan.schema.outcome_run _, Plan.schema.run_from _, fun c hc => ?_, ?_, ?_⟩
  · rw [hall] at hc
    obtain ⟨ws, hws, rfl⟩ := List.mem_map.1 hc
    obtain ⟨xs, rfl⟩ := hstands ws hws
    refine ⟨xs.length, by simp, by simp [Cursor.back], ?_⟩
    cases ws <;> simp [Cursor.back, Cursor.current]
  · rw [hof, hread]
  · have htake : (us ++ e :: vs).take (us.length + 1) = us ++ [e] := by simp [List.take_append]
    rw [htake, hof, hof]

/-- A list that goes on behind its first end. The fields behind it are read by nobody. -/
theorem reading_stays_before_end_trailing :
    let ts : List Token := ["object", "A", "\x7b", "A", "a", "", "\x7d", "", "B"].map (⟨·, .start⟩)
    (∃ t ∈ ts, t.isEnd = true) ∧ ts.findIdx Token.isEnd = 5 ∧
      Schema.ofTokens ts = Schema.ofTokens (ts.take 6) ∧
      ∀ c ∈ (Plan.schema.run ⟨ts, ⟨"B", .start⟩⟩).places, ∃ i ≤ 5,
        c.rest = ts.drop i ∧ ts[i]? = some c.current := by
  have hend : ∃ t ∈ (["object", "A", "\x7b", "A", "a", "", "\x7d", "", "B"].map
      fun w => Token.mk w .start), t.isEnd = true := ⟨⟨"", .start⟩, by simp, by decide⟩
  obtain ⟨-, -, hplaces, -, hcut⟩ := reading_stays_before_end _ hend ⟨"B", .start⟩
  exact ⟨hend, by decide, hcut, hplaces⟩

end Idl
