import Mathlib
import Idl.Proofs.Reader.Parts

/-!
# Loops of the reader

Past the end of a token list its last token comes again and again, and a loop may go on for ever
there. Most loops of the reader do not, as each round needs two different tokens.

* `Cursor.Leads.eq_past`, `Cursor.Leads.eq_last`: the tokens past the end.
* `Cursor.Loops`: a loop that never ends.
* **`Cursor.collect_eq_endless_iff`**: exactly the loops that never end are called endless.
* `Cursor.Returns`: a step that always ends, with one lemma for each step that does.
-/

namespace Idl

open Grammar

namespace Cursor

/-! ## Past the end -/

variable {c c' : Cursor} {ts us : List Token} {t : Token}

theorem Leads.of_cons (h : c.Leads (t :: ts) c') : t = c.current ∧ c.next.Leads ts c' := by
  cases h with
  | cons tail => exact ⟨rfl, tail⟩

theorem Leads.of_nil (h : c.Leads [] c') : c' = c := by
  cases h
  rfl

theorem Leads.of_texts_cons {w : String} {ws : List String} (h : c.Leads ts c')
    (hts : texts ts = w :: ws) : c.text = w ∧ ∃ us, c.next.Leads us c' ∧ texts us = ws := by
  obtain ⟨t, us, rfl, rfl, hus⟩ := List.map_eq_cons_iff.1 hts
  obtain ⟨rfl, htail⟩ := h.of_cons
  exact ⟨rfl, us, htail, hus⟩

theorem Leads.of_texts_nil (h : c.Leads ts c') (hts : texts ts = []) : c' = c := by
  obtain rfl := List.map_eq_nil_iff.1 hts
  exact h.of_nil

theorem Leads.split (h : c.Leads (ts ++ us) c') : ∃ c₁, c.Leads ts c₁ ∧ c₁.Leads us c' := by
  induction ts generalizing c with
  | nil => exact ⟨c, .nil c, h⟩
  | cons t ts ih =>
    obtain ⟨rfl, htail⟩ := h.of_cons
    obtain ⟨c₁, h₁, h₂⟩ := ih htail
    exact ⟨c₁, .cons h₁, h₂⟩

theorem Leads.eq_drop (h : c.Leads ts c') : c' = ⟨c.rest.drop ts.length, c.last⟩ := by
  induction h with
  | nil => rfl
  | cons _ ih =>
    rw [ih, List.length_cons, ← List.drop_tail]
    rfl

/-- Tokens that lead to a place in a list are tokens of the list. -/
theorem Leads.eq_back_of_rest (h : c.Leads ts c') (hc' : c'.rest ≠ []) : c = c'.back ts := by
  induction h with
  | nil => rfl
  | @cons c c' ts tail ih =>
    obtain ⟨_ | ⟨t, rest⟩, last⟩ := c
    · rw [tail.eq_drop] at hc'
      exact absurd List.drop_nil hc'
    · rw [show (⟨t :: rest, last⟩ : Cursor) = (next ⟨t :: rest, last⟩).back [t] from rfl, ih hc',
        ← back_append]
      rfl

theorem Leads.eq_replicate (h : c.Leads ts c') (hc : c.rest = []) :
    ts = List.replicate ts.length c.last ∧ c' = c := by
  obtain ⟨rest, last⟩ := c
  obtain rfl : rest = [] := hc
  induction ts with
  | nil => exact ⟨rfl, h.of_nil⟩
  | cons t ts ih =>
    obtain ⟨rfl, htail⟩ := h.of_cons
    obtain ⟨hts, rfl⟩ := ih htail
    exact ⟨congrArg (_ :: ·) hts, rfl⟩

theorem Leads.eq_last (h : c.Leads ts c') (hc : c.rest = []) : ∀ w ∈ texts ts, w = c.last.text := by
  intro w hw
  obtain ⟨t, ht, rfl⟩ := List.mem_map.1 hw
  rw [(h.eq_replicate hc).1] at ht
  rw [List.eq_of_mem_replicate ht]

/-- The rest of a list and some more copies of its last token lead past the end. -/
theorem leads_past (rest : List Token) (last : Token) (n : Nat) :
    Leads ⟨rest, last⟩ (rest ++ List.replicate n last) ⟨[], last⟩ := by
  induction rest with
  | nil =>
    induction n with
    | zero => exact .nil _
    | succ n ih => exact .cons ih
  | cons t rest ih => exact .cons ih

theorem Leads.eq_past (h : c.Leads ts c') (hc' : c'.rest = []) :
    ∃ n, ts = c.rest ++ List.replicate n c.last := by
  obtain ⟨rest, last⟩ := c
  induction rest generalizing ts with
  | nil => exact ⟨_, (h.eq_replicate rfl).1⟩
  | cons t rest ih =>
    cases ts with
    | nil =>
      rw [h.of_nil] at hc'
      cases hc'
    | cons t' ts =>
      obtain ⟨rfl, htail⟩ := h.of_cons
      obtain ⟨n, hn⟩ := ih htail
      exact ⟨n, congrArg (_ :: ·) hn⟩

/-! ## Loops -/

section Loops

variable {α β : Type} {stop : String → Bool} {step : Step α}

/-- Rounds of a loop, none of which starts at a text that stops it. -/
inductive Rounds (stop : String → Bool) (step : Step α) : Nat → Cursor → Cursor → Prop
  | zero (c : Cursor) : Rounds stop step 0 c c
  | succ {n : Nat} {c c₁ c' : Cursor} {a : α} (goes : stop c.text = false)
    (once : step c = .ok (a, c₁)) (rest : Rounds stop step n c₁ c') : Rounds stop step (n + 1) c c'

/-- A loop never ends: it has any number of rounds. -/
def Loops (stop : String → Bool) (step : Step α) (c : Cursor) : Prop :=
  ∀ n, ∃ c', Rounds stop step n c c'

theorem loops_iff : Loops stop step c ↔
    stop c.text = false ∧ ∃ a c₁, step c = .ok (a, c₁) ∧ Loops stop step c₁ := by
  constructor
  · intro h
    obtain ⟨_, hfirst⟩ := h 1
    cases hfirst with
    | @succ _ _ c₁ _ a goes once _ =>
      refine ⟨goes, a, c₁, once, fun n => ?_⟩
      obtain ⟨c', hrounds⟩ := h (n + 1)
      cases hrounds with
      | succ _ once' rest =>
        rw [once] at once'
        cases once'
        exact ⟨c', rest⟩
  · rintro ⟨goes, a, c₁, once, h⟩ n
    cases n with
    | zero => exact ⟨c, .zero c⟩
    | succ n =>
      obtain ⟨c', rest⟩ := h n
      exact ⟨c', .succ goes once rest⟩

theorem loops_of_fixed {a : α} (goes : stop c.text = false) (once : step c = .ok (a, c)) :
    Loops stop step c := by
  intro n
  refine ⟨c, ?_⟩
  induction n with
  | zero => exact .zero c
  | succ n ih => exact .succ goes once ih

/-- A step takes at least one token, where a loop does it. -/
def Moves (stop : String → Bool) (step : Step α) : Prop := ∀ c a c', stop c.text = false →
  step c = .ok (a, c') → c'.rest.length < c.rest.length ∨ c.rest = [] ∧ c' = c

theorem moves_of_reads {pre post : String → Prop} {view : α → β} {G : List String → α → Prop}
    (h : Reads pre post view step G) (hpre : ∀ w, stop w = false → pre w)
    (hne : ∀ ws a, G ws a → ws ≠ []) : Moves stop step := by
  intro c a c' goes once
  obtain ⟨ts, hts, ha, -⟩ := h.leads (hpre _ goes) once
  cases hrest : c.rest with
  | nil => exact .inr ⟨rfl, (hts.eq_replicate hrest).2⟩
  | cons t rest =>
    have hpos : 0 < ts.length := List.length_pos_iff.2 fun hnil => hne _ _ ha (by rw [hnil]; rfl)
    rw [hts.eq_drop, hrest, List.length_drop, List.length_cons]
    omega

/-- A step never goes on for ever. -/
def Returns (step : Step α) : Prop := ∀ c, step c ≠ .error .endless

theorem collect_eq_error_iff {e : ReadFailure} : collect stop step c = .error e ↔
    stop c.text = false ∧ (step c = .error e ∨ ∃ a c', step c = .ok (a, c') ∧
      if c'.rest.length < c.rest.length then collect stop step c' = .error e else e = .endless) := by
  by_cases hs : stop c.text = true
  · simp [Reads.collect_of_stop hs, hs]
  · rw [Bool.not_eq_true] at hs
    rw [collect, if_neg (by simp [hs]), bind_eq_error_iff, and_iff_right hs, Prod.exists]
    refine or_congr_right (exists_congr fun a => exists_congr fun c' => and_congr_right fun _ => ?_)
    dsimp only
    split
    · simp [bind_eq_error_iff, pure, Except.pure]
    · rw [Except.error.injEq, eq_comm]

/-- **Exactly the loops that never end are called endless.** -/
theorem collect_eq_endless_iff (hmoves : Moves stop step) (hreturns : Returns step) :
    collect stop step c = .error .endless ↔ Loops stop step c := by
  -- on the number of tokens that are left
  induction hn : c.rest.length using Nat.strongRecOn generalizing c with
  | ind n ih =>
    rw [collect_eq_error_iff, loops_iff, or_iff_right (hreturns c)]
    refine and_congr_right fun goes => exists_congr fun a => exists_congr fun c' =>
      and_congr_right fun once => ?_
    rcases hmoves c a c' goes once with hlt | ⟨hrest, rfl⟩
    · rw [if_pos hlt]
      exact ih _ (hn ▸ hlt) rfl
    · rw [if_neg (lt_irrefl _)]
      exact iff_of_true rfl (loops_of_fixed goes once)

end Loops

/-! ## Steps that end -/

section Returns

variable {α β : Type} {stop : String → Bool} {step : Step α}

theorem returns_ok (a : α) : (Except.ok a : Except ReadFailure α) ≠ .error .endless := by simp

theorem returns_fail (c : Cursor) (cause : Complaint) :
    (c.fail cause : Except ReadFailure α) ≠ .error .endless := by simp [fail]

theorem returns_bind {x : Except ReadFailure α} {f : α → Except ReadFailure β}
    (hx : x ≠ .error .endless) (hf : ∀ a, f a ≠ .error .endless) : (x >>= f) ≠ .error .endless := by
  intro h
  rcases bind_eq_error_iff.1 h with h | ⟨a, -, h⟩
  · exact hx h
  · exact hf a h

/-- A loop ends if its step does not pass at a token that comes again and again. -/
theorem returns_collect (hmoves : Moves stop step) (hreturns : Returns step)
    (hpast : ∀ c a c', c.rest = [] → stop c.text = false → step c ≠ .ok (a, c')) :
    Returns (collect stop step) := by
  intro c h
  induction hn : c.rest.length using Nat.strongRecOn generalizing c with
  | ind n ih =>
    obtain ⟨goes, h⟩ := collect_eq_error_iff.1 h
    obtain ⟨a, c', once, h⟩ := h.resolve_left (hreturns c)
    rcases hmoves c a c' goes once with hlt | ⟨hrest, rfl⟩
    · rw [if_pos hlt] at h
      exact ih _ (hn ▸ hlt) c' h rfl
    · exact hpast _ a _ hrest goes once

theorem returns_take {value? : Token → Option α} {worded : ∀ t a, value? t = some a → t.text ≠ ""}
    {cause : String → Complaint} : Returns (Plan.take value? worded pure (.refuse cause)).step := by
  intro c
  cases ha : value? c.current with
  | none =>
    rw [Plan.step_take_none _ _ _ ha]
    exact nofun
  | some a =>
    rw [Plan.step_take_some _ _ _ ha]
    exact nofun

theorem returns_member : Returns Plan.member.step := fun _ =>
  returns_bind (returns_take _) fun _ => returns_bind (returns_take _) fun _ =>
    returns_bind (returns_take _) fun _ => returns_ok _

theorem returns_innerType : Returns Plan.innerType.step := by
  intro c
  rw [Plan.innerType, Plan.step_ifPrimitive]
  split
  · exact returns_ok _
  · rw [Plan.step_ifWord]
    split
    · exact returns_bind (returns_take _) fun _ => returns_bind (returns_take _) fun _ =>
        returns_bind (returns_take _) fun _ => returns_ok _
    · exact returns_bind (returns_take _) fun _ => returns_ok _

/-- The words `list of` are different. -/
theorem returns_lists : Returns (collect (· != "list") Plan.listOf.step) := by
  refine returns_collect (moves_of_reads reads_listOf (fun _ hw => hw) ?_)
    (fun _ => returns_bind (returns_take _) fun _ => returns_take _) fun c a c' hc goes once => ?_
  · rintro ws x ⟨us, rfl, -⟩
    exact List.cons_ne_nil _ _
  · obtain ⟨ts, hts, ⟨_, hws, rfl, -⟩, -⟩ := reads_listOf.leads goes once
    have heq := hts.eq_last hc
    simp only [hws, List.forall_mem_cons] at heq
    exact absurd (heq.1.trans heq.2.1.symm) (by decide)

theorem returns_fieldType : Returns Plan.fieldType.step := fun _ =>
  returns_bind (returns_lists _) fun _ => returns_bind (returns_innerType _) fun _ => returns_ok _

theorem returns_field : Returns Plan.field.step := fun _ =>
  returns_bind (returns_fieldType _) fun _ => returns_bind (returns_take _) fun _ => returns_ok _

/-- A name is no equals sign. -/
theorem returns_members : Returns (Plan.braced Plan.member).step := by
  have hmembers : Returns (collect (· == "\x7d") Plan.member.step) := by
    refine returns_collect (moves_of_reads reads_member (fun _ _ => trivial) ?_) returns_member
      fun c a c' hc _ once => ?_
    · rintro ws m ⟨-, -, -⟩
      exact List.cons_ne_nil _ _
    · obtain ⟨ts, hts, hm, -⟩ := reads_member.leads trivial once
      have heq := hts.eq_last hc
      generalize texts ts = ws at hm heq
      obtain ⟨hn, -, -⟩ := hm
      simp only [List.forall_mem_cons] at heq
      rw [heq.1, ← heq.2.1] at hn
      exact absurd hn (by decide)
  exact fun _ => returns_bind (returns_take _) fun _ => returns_bind (hmembers _) fun _ =>
    returns_bind (returns_take _) fun _ => returns_ok _

theorem returns_enumDecl : Returns Plan.enumDecl.step := fun _ =>
  returns_bind (returns_take _) fun _ => returns_bind (returns_take _) fun _ =>
    returns_bind (returns_take _) fun _ => returns_bind (returns_members _) fun _ => returns_ok _

theorem returns_constGroup : Returns Plan.constGroup.step := by
  have hname : Returns Plan.groupName.step := by
    intro c
    rw [Plan.groupName, Plan.step_ahead]
    split
    · exact returns_ok _
    · exact returns_bind (returns_take _) fun _ => returns_bind (returns_take _) fun _ => returns_ok _
  exact fun _ => returns_bind (hname _) fun _ => returns_bind (returns_take _) fun _ =>
    returns_bind (returns_members _) fun _ => returns_ok _

/-- A name is no point. -/
theorem returns_package : Returns Plan.package.step := by
  have hpath : Returns (collect (· != ".") Plan.dotted.step) := by
    refine returns_collect (moves_of_reads reads_dotted (fun _ hw => hw) ?_)
      (fun _ => returns_bind (returns_take _) fun _ => returns_take _) fun c a c' hc goes once => ?_
    · rintro ws x ⟨us, rfl, -⟩
      exact List.cons_ne_nil _ _
    · obtain ⟨ts, hts, ⟨_, hws, rfl, hn⟩, -⟩ := reads_dotted.leads goes once
      have heq := hts.eq_last hc
      simp only [hws, List.forall_mem_cons] at heq
      rw [heq.2.1, ← heq.1] at hn
      exact absurd hn (by decide)
  intro c
  rw [Plan.package, Plan.step_ifWord]
  split
  · exact returns_bind (returns_take _) fun _ => returns_bind (hpath _) fun _ => returns_ok _
  · exact returns_ok _

end Returns

end Cursor

end Idl
