import Mathlib
import Idl.Proofs.Layout
import Idl.Proofs.Schema.Rules
import Idl.Proofs.Token.Lossless

/-!
# Places in a schema

An entry, a member and a field keep the place of the token that names them, and a defect of a value
keeps the place of its member.

* `TextAt`: what follows a place of a text. No two places of a text are the same.
* `scan_places`: tokens stand where they say, each after the one before it.
* `Marks`: what a step reads is named by tokens that it takes, in order.
* `Schema.tokens`: the tokens that name the parts of a schema.
* `Schema.FirstMisvalued`: the first member whose value breaks a rule.
* **`places_faithful`**: every part of a schema and every defect of a value is found at its place.
-/

namespace Idl

open Grammar

/-! ## Places in a text -/

/-- One place is before another: on an earlier line, or further left on the same. -/
def Position.Before (p q : Position) : Prop :=
  p.line < q.line ∨ p.line = q.line ∧ p.column < q.column

/-- The text `rest` follows the place `p` of a text. -/
def TextAt (text : List Char) (p : Position) (rest : List Char) : Prop :=
  ∃ before, text = before ++ rest ∧ Position.after before = p

theorem Position.Before.ne {p q : Position} (h : p.Before q) : p ≠ q := by
  rintro rfl
  unfold Before at h
  omega

theorem Position.before_after (u : List Char) {w : List Char} (hw : w ≠ []) :
    (after u).Before (after (u ++ w)) := by
  by_cases hline : '\n' ∈ w
  · left
    have hpos : 0 < w.count '\n' := List.count_pos_iff.2 hline
    simp only [after, List.count_append]
    omega
  · right
    have hall : ∀ c ∈ w.reverse, (c != '\n') = true := by
      intro c hc
      rw [bne_iff_ne]
      rintro rfl
      exact hline (List.mem_reverse.1 hc)
    have hpos : 0 < w.length := List.length_pos_iff.2 hw
    simp only [after, List.count_append, List.count_eq_zero_of_not_mem hline, List.reverse_append,
      List.takeWhile_append_of_pos hall, List.length_append, List.length_reverse]
    omega

/-- A place has one text after it. -/
theorem TextAt.unique {text : List Char} {p : Position} {u v : List Char} (hu : TextAt text p u)
    (hv : TextAt text p v) : u = v := by
  obtain ⟨x, rfl, rfl⟩ := hu
  obtain ⟨y, hsplit, hy⟩ := hv
  rcases List.append_eq_append_iff.1 hsplit with ⟨w, rfl, rfl⟩ | ⟨w, rfl, rfl⟩
  · cases w with
    | nil => rfl
    | cons c w => exact absurd hy.symm (Position.before_after x (List.cons_ne_nil c w)).ne
  · cases w with
    | nil => rfl
    | cons c w => exact absurd hy (Position.before_after y (List.cons_ne_nil c w)).ne

/-- The text `w` stands at the place `p`. -/
def StandsAt (text : List Char) (p : Position) (w : List Char) : Prop :=
  ∃ rest, TextAt text p (w ++ rest)

/-! ## Tokens -/

/-- A token stands where it says. -/
theorem Cuts.exists_split {before after : List Char} {ts : List Token} (h : Cuts before ts after) :
    ∀ t ∈ ts, ∃ u v, before = u ++ (t.text.toList ++ v) ∧ t.position = .after u := by
  induction h with
  | start => simp
  | @gap before w after ts _ _ _ ih =>
    intro t ht
    obtain ⟨u, v, rfl, hu⟩ := ih t ht
    exact ⟨u, v ++ w, by simp, hu⟩
  | @token before w after ts _ _ _ ih =>
    intro t ht
    rcases List.mem_append.1 ht with ht | ht
    · obtain ⟨u, v, rfl, hu⟩ := ih t ht
      exact ⟨u, v ++ w, by simp, hu⟩
    · obtain rfl := List.mem_singleton.1 ht
      exact ⟨before, [], by simp, rfl⟩

theorem Cuts.before {before after : List Char} {ts : List Token} (h : Cuts before ts after) :
    ∀ t ∈ ts, t.position.Before (.after before) := by
  intro t ht
  obtain ⟨u, v, rfl, hu⟩ := h.exists_split t ht
  have hne : t.text.toList ≠ [] := fun hnil => h.texts_ne t ht (String.toList_eq_nil_iff.1 hnil)
  rw [hu]
  exact Position.before_after u (by simp [hne])

theorem Cuts.pairwise {before after : List Char} {ts : List Token} (h : Cuts before ts after) :
    ts.Pairwise fun t u => t.position.Before u.position := by
  induction h with
  | start => exact .nil
  | gap _ _ _ ih => exact ih
  | token hdone _ _ ih =>
    rw [List.pairwise_append]
    refine ⟨ih, List.pairwise_singleton _ _, ?_⟩
    intro t ht u hu
    obtain rfl := List.mem_singleton.1 hu
    exact hdone.before t ht

/-- **Tokens stand where they say,** each after the one before it. -/
theorem scan_places {text : String} {ts : List Token} (h : scan text = .ok ts) :
    (∀ t ∈ ts, StandsAt text.toList t.position t.text.toList) ∧
    ts.Pairwise fun t u => t.position.Before u.position := by
  have hcuts := scan_cuts text
  rw [h] at hcuts
  obtain ⟨us, rfl, -, hus⟩ := hcuts
  constructor
  · intro t ht
    rcases List.mem_append.1 ht with ht | ht
    · obtain ⟨u, v, hsplit, hu⟩ := hus.exists_split t ht
      exact ⟨v, u, hsplit, hu.symm⟩
    · obtain rfl := List.mem_singleton.1 ht
      exact ⟨[], text.toList, by simp, rfl⟩
  · rw [List.pairwise_append]
    refine ⟨hus.pairwise, List.pairwise_singleton _ _, ?_⟩
    intro t ht u hu
    obtain rfl := List.mem_singleton.1 hu
    exact hus.before t ht

/-! ## Names that a step reads -/

/-- What a step reads is named by tokens that it takes, in order. It takes no token for the end. -/
structure Marks {α : Type} (step : Step α) (names : α → List Token) : Prop where
  takes : ∀ {c c' : Cursor} {a : α}, c.Ended → step c = .ok (a, c') →
    ∃ ts, c = c'.back ts ∧ "" ∉ texts ts ∧ (names a).Sublist ts

namespace Marks

variable {α β : Type} {p : Step α} {q : Step β} {names : α → List Token} {names' : β → List Token}

theorem of_reads {γ : Type} {post : String → Prop} {view : α → γ} {G : List String → α → Prop}
    (h : Reads anyText post view p G) : Marks p fun _ => [] where
  takes {c c' a} hc hok := by
    obtain ⟨ts, hback, ha, -⟩ := h.sound hc trivial hok
    exact ⟨ts, hback, h.words ha, List.nil_sublist ts⟩

theorem congr_step {p' : Step α} (h : Marks p names) (hp : ∀ c, p' c = p c) : Marks p' names where
  takes {c _ _} hc hok := h.takes hc (hp c ▸ hok)

theorem both (hp : Marks p names) (hq : Marks q names') :
    Marks (Step.both p q) fun x => names x.1 ++ names' x.2 where
  takes {c c' x} hc hok := by
    obtain ⟨c₁, hok₁, hok₂⟩ := Step.both_eq_ok.1 hok
    obtain ⟨us, rfl, hus, ha⟩ := hp.takes hc hok₁
    obtain ⟨vs, rfl, hvs, hb⟩ := hq.takes (hc.of_back hus) hok₂
    refine ⟨us ++ vs, (Cursor.back_append ..).symm, ?_, ha.append hb⟩
    rw [texts, List.map_append, List.mem_append, not_or]
    exact ⟨hus, hvs⟩

theorem map (h : Marks p names) (f : α → β) (names' : β → List Token)
    (hf : ∀ a, names' (f a) = names a) : Marks (Step.map f p) names' where
  takes {c c' b} hc hok := by
    obtain ⟨a, hok', rfl⟩ := Step.map_eq_ok.1 hok
    rw [hf]
    exact h.takes hc hok'

theorem collect (h : Marks p names) (stop : String → Bool) :
    Marks (Cursor.collect stop p) (List.flatMap names) where
  takes {c c' as} hc hok := by
    -- on the number of tokens that are left
    induction hn : c.rest.length using Nat.strongRecOn generalizing c as with
    | ind n ih =>
      rw [Cursor.collect] at hok
      split at hok
      · cases hok
        exact ⟨[], rfl, by simp, .slnil⟩
      · obtain ⟨⟨a, c₁⟩, hok₁, hrest⟩ := bind_eq_ok_iff.1 hok
        dsimp only at hrest
        split at hrest
        · rename_i hlt
          obtain ⟨⟨as', c₂⟩, hok₂, hdone⟩ := bind_eq_ok_iff.1 hrest
          cases hdone
          obtain ⟨us, rfl, hus, ha⟩ := h.takes hc hok₁
          obtain ⟨vs, rfl, hvs, has⟩ := ih _ (hn ▸ hlt) (hc.of_back hus) hok₂ rfl
          refine ⟨us ++ vs, (Cursor.back_append ..).symm, ?_, ha.append has⟩
          rw [texts, List.map_append, List.mem_append, not_or]
          exact ⟨hus, hvs⟩
        · cases hrest

/-- A token with a text of its own, and then a step. -/
theorem after (h : Marks p names) {c c' : Cursor} {a : α} (hc : c.Ended) (htext : c.text ≠ "")
    (hok : p c.next = .ok (a, c')) : ∃ ts, c = c'.back ts ∧ "" ∉ texts ts ∧ (names a).Sublist ts := by
  have hback := hc.eq_back
  have hne : "" ∉ texts [c.current] := by
    rw [texts, List.map_singleton, List.mem_singleton]
    exact htext.symm
  rw [hback] at hc
  obtain ⟨ts, hts, hwords, ha⟩ := h.takes (hc.of_back hne) hok
  refine ⟨[c.current] ++ ts, ?_, ?_, ha.cons _⟩
  · rw [Cursor.back_append, ← hts, ← hback]
  · rw [texts, List.map_append, List.mem_append, not_or]
    exact ⟨hne, hwords⟩

end Marks

/-! ## The names in a schema -/

/-- The token that names a member. -/
def Member.token (m : Member) : Token := ⟨m.name, m.position⟩

/-- The token that names a field. -/
def Field.token (f : Field) : Token := ⟨f.name, f.position⟩

/-- The tokens that name an entry and then its members or fields, in order. A group of constants
without a name is found by its type. -/
def Entry.tokens : Entry → List Token
  | .const c => ⟨c.name.getD c.type.keyword, c.position⟩ :: c.members.map Member.token
  | .enum e => ⟨e.name, e.position⟩ :: e.members.map Member.token
  | .object o => ⟨o.name, o.position⟩ :: o.fields.map Field.token

/-- The tokens that name the parts of a schema, in order. -/
def Schema.tokens (s : Schema) : List Token := s.entries.flatMap Entry.tokens

namespace Cursor

theorem name_eq_ok {what : Expected} {c c' : Cursor} {t : Token}
    (h : (Plan.name what).step c = .ok (t, c')) : t = c.current := by
  rw [Plan.name, Plan.step_expect] at h
  split at h
  · cases h
    rfl
  · cases h

theorem marks_name (what : Expected) : Marks (Plan.name what).step fun t => [t] where
  takes {c c' t} hc hok := by
    obtain ⟨ts, rfl, ⟨hts, hname⟩, -⟩ := (reads_name what).sound hc trivial hok
    obtain ⟨u, rfl, -⟩ := List.map_eq_singleton_iff.1 hts
    obtain rfl : t = u := name_eq_ok hok
    exact ⟨[t], rfl, (reads_name what).words ⟨hts, hname⟩, .refl _⟩

theorem marks_member : Marks Plan.member.step fun m => [m.token] := by
  have h := ((marks_name .identifier).both (Marks.of_reads
    ((reads_word "=" (by decide)).both reads_literal))).map
    (fun x => Member.mk x.1.text x.2.2 x.1.position) (fun m => [m.token]) fun _ => rfl
  exact h.congr_step fun c => by simp [Plan.member, Step.map, Step.both]

theorem marks_field : Marks Plan.field.step fun f => [f.token] := by
  have h := ((Marks.of_reads reads_fieldType).both (marks_name .fieldName)).map
    (fun x => Field.mk x.1 x.2.text x.2.position) (fun f => [f.token]) fun _ => rfl
  exact h.congr_step fun c => by simp [Plan.field, Step.map, Step.both]

theorem marks_braced {α : Type} {p : Plan α} {token : α → Token}
    (h : Marks p.step fun a => [token a]) : Marks (Plan.braced p).step fun as => as.map token := by
  have hopen := Marks.of_reads (reads_word "\x7b" (by decide))
  have hclose := Marks.of_reads (reads_word "\x7d" (by decide))
  have h' := (hopen.both ((h.collect (· == "\x7d")).both hclose)).map (fun x => x.2.1)
    (fun as => as.map token) fun x => by simp [List.map_eq_flatMap]
  exact h'.congr_step fun c => by simp [Plan.braced, Step.map, Step.both]

theorem marks_enumDecl : Marks Plan.enumDecl.step fun e => (Entry.enum e).tokens := by
  have h := ((marks_name .identifier).both ((Marks.of_reads ((reads_word "for" (by decide)).both
    reads_primitive)).both (marks_braced marks_member))).map
    (fun x => EnumDecl.mk x.1.text x.2.1.2 x.2.2 x.1.position) (fun e => (Entry.enum e).tokens)
    fun _ => rfl
  exact h.congr_step fun c => by simp [Plan.enumDecl, Step.map, Step.both]

theorem marks_objectDecl : Marks Plan.objectDecl.step fun o => (Entry.object o).tokens := by
  have h := ((marks_name .identifier).both (marks_braced marks_field)).map
    (fun x => ObjectDecl.mk x.1.text x.2 x.1.position) (fun o => (Entry.object o).tokens) fun _ => rfl
  exact h.congr_step fun c => by simp [Plan.objectDecl, Step.map, Step.both]

theorem marks_placedPrimitive :
    Marks (Step.both Step.here Plan.primitive.step) fun x => [⟨x.2.keyword, x.1⟩] where
  takes {c c'} := by
    rintro ⟨position, p⟩ hc hok
    obtain ⟨c₁, hhere, hok⟩ := Step.both_eq_ok.1 hok
    cases hhere
    rw [Plan.primitive, Plan.step_ifPrimitive] at hok
    split at hok
    · rename_i p hp
      cases hok
      rw [Primitive.ofKeyword?_eq_some_iff] at hp
      refine ⟨[c.current], hc.eq_back, ?_, ?_⟩
      · rw [texts, List.map_singleton, List.mem_singleton]
        exact fun hempty => (name_keyword p).ne_empty (hp.symm.trans hempty.symm)
      · rw [← hp]
        exact .refl _
    · cases hok

theorem marks_unnamedGroup : Marks unnamedGroup fun g => (Entry.const g).tokens := by
  have h := (marks_placedPrimitive.both (marks_braced marks_member)).map
    (fun x => ConstGroup.mk none x.1.2 x.2 x.1.1) (fun g => (Entry.const g).tokens) fun _ => rfl
  exact h.congr_step fun c => by simp [unnamedGroup, Step.map, Step.both]

theorem marks_namedGroup : Marks namedGroup fun g => (Entry.const g).tokens where
  takes {c c' g} hc hok := by
    have h := ((marks_name .identifier).both ((Marks.of_reads (reads_word "for" (by decide))).both
      ((Marks.of_reads reads_primitive).both (marks_braced marks_member)))).map
      (fun x => ConstGroup.mk (some x.1.text) x.2.2.1 x.2.2.2 x.1.position)
      (fun g => (Entry.const g).tokens) fun _ => rfl
    obtain ⟨⟨position, t, x⟩, hparts, rfl⟩ := Step.map_eq_ok.1 hok
    obtain ⟨c₁, hhere, hrest⟩ := Step.both_eq_ok.1 hparts
    cases hhere
    -- the place is that of the name
    obtain ⟨c₂, hname, -⟩ := Step.both_eq_ok.1 hrest
    obtain rfl := name_eq_ok hname
    exact h.takes hc (Step.map_eq_ok.2 ⟨_, hrest, rfl⟩)

theorem marks_constGroup : Marks Plan.constGroup.step fun g => (Entry.const g).tokens where
  takes {c c' g} hc hok := by
    rw [constGroup_eq] at hok
    split_ifs at hok
    · exact marks_unnamedGroup.takes hc hok
    · exact marks_namedGroup.takes hc hok

theorem marks_entry : Marks Plan.entry.step Entry.tokens where
  takes {c c' e} hc hok := by
    have hword : ∀ w : String, w ≠ "" → c.text = w → c.text ≠ "" := fun w hw h => h ▸ hw
    simp only [Plan.entry, Plan.step_ifWord, Plan.step_bind] at hok
    split_ifs at hok with hconst henum hobject
    · obtain ⟨⟨d, c₁⟩, hdecl, hdone⟩ := bind_eq_ok_iff.1 hok
      cases hdone
      exact marks_constGroup.after hc (hword _ (by decide) hconst) hdecl
    · obtain ⟨⟨d, c₁⟩, hdecl, hdone⟩ := bind_eq_ok_iff.1 hok
      cases hdone
      exact marks_enumDecl.after hc (hword _ (by decide) henum) hdecl
    · obtain ⟨⟨d, c₁⟩, hdecl, hdone⟩ := bind_eq_ok_iff.1 hok
      cases hdone
      exact marks_objectDecl.after hc (hword _ (by decide) hobject) hdecl
    · cases hok

theorem marks_package : Marks Plan.package.step fun _ => [] where
  takes {c c' ns} hc hok := by
    have hpath := (reads_name .packageName).both
      (reads_dotted.collect (by rintro ws t ⟨us, rfl, -⟩; simp))
    rw [Plan.package, Plan.step_ifWord] at hok
    split_ifs at hok with hword
    · have htext : c.text ≠ "" := by
        rw [hword]
        decide
      obtain ⟨⟨t, c₁⟩, hfirst, hrest⟩ := bind_eq_ok_iff.1 hok
      obtain ⟨⟨ts, c₂⟩, hothers, hdone⟩ := bind_eq_ok_iff.1 hrest
      cases hdone
      exact (Marks.of_reads hpath).after hc htext (Step.both_eq_ok.2 ⟨c₁, hfirst, hothers⟩)
    · cases hok
      exact ⟨[], rfl, by simp, .slnil⟩

theorem marks_schema : Marks schema Schema.tokens := by
  have h := (marks_package.both (marks_entry.collect String.isEmpty)).map
    (fun x => Schema.mk x.1 x.2) Schema.tokens fun _ => rfl
  exact h.congr_step fun c => by simp [schema, Plan.schema, Step.map, Step.both]

end Cursor

/-- The names in a schema are tokens of its text, in order. -/
theorem tokens_sublist {text : String} {s : Schema} (h : Schema.parse text = .ok s) :
    ∃ ts, scan text = .ok ts ∧ s.tokens.Sublist ts := by
  obtain ⟨ts, hscan, hread⟩ := bind_eq_ok_iff.1 h
  have hscan := mapError_eq_ok_iff.1 hscan
  obtain ⟨us, e, rfl, -, he⟩ := scan_eq_ok hscan
  have hok := mapError_eq_ok_iff.1 hread
  rw [ofTokens_atEnd] at hok
  cases hschema : Cursor.schema ((Cursor.atEnd e).back us) with
  | error f =>
    rw [hschema] at hok
    cases hok
  | ok x =>
    obtain ⟨s', c⟩ := x
    rw [hschema] at hok
    cases hok
    obtain ⟨vs, hback, -, hvs⟩ := Cursor.marks_schema.takes (ended_atEnd us he) hschema
    have hrest : us ++ [e] = vs ++ c.rest := congrArg Cursor.rest hback
    refine ⟨us ++ [e], hscan, hrest ▸ ?_⟩
    exact hvs.trans (List.sublist_append_left vs c.rest)

/-! ## Wrong values -/

/-- The member `m` of an entry, after the members `before`, has a literal that its type refuses, or a
value that its enum has before it. -/
def Entry.Misvalued (before : List Member) (m : Member) : Entry → Prop
  | .const c => (∃ after, c.members = before ++ m :: after) ∧ c.type.fit m.value ≠ .ok ()
  | .enum e => (∃ after, e.members = before ++ m :: after) ∧
    (e.type.fit m.value ≠ .ok () ∨ ∃ x ∈ before, m.value.same x.value = true)
  | .object _ => False

/-- The first such member of the first entry that has one. -/
def Schema.FirstMisvalued (s : Schema) (m : Member) : Prop :=
  ∃ es e es' before, s.entries = es ++ e :: es' ∧ e.Misvalued before m ∧
    (∀ x ∈ es, ∀ us k, ¬ x.Misvalued us k) ∧
    ∀ us k, us.length < before.length → ¬ e.Misvalued us k

theorem ConstGroup.not_misvalued {c : ConstGroup} (h : ∀ m ∈ c.members, c.type.fit m.value = .ok ())
    (us : List Member) (k : Member) : ¬ (Entry.const c).Misvalued us k := by
  rintro ⟨⟨after, hmembers⟩, hfit⟩
  exact hfit (h k (by simp [hmembers]))

theorem EnumDecl.Distinct.not_misvalued {e : EnumDecl} (h : e.Distinct) (us : List Member)
    (k : Member) : ¬ (Entry.enum e).Misvalued us k := by
  rintro ⟨⟨after, hmembers⟩, hwrong⟩
  obtain ⟨hfit, hpairs⟩ := h
  rcases hwrong with hwrong | ⟨x, hx, hsame⟩
  · exact hwrong (hfit k (by simp [hmembers]))
  · rw [hmembers, List.pairwise_append] at hpairs
    have hdiffer : x.value.same k.value = false := hpairs.2.2 x hx k List.mem_cons_self
    rw [Literal.same_comm, hdiffer] at hsame
    cases hsame

theorem Entry.Valid.not_misvalued {e : Entry} (h : e.Valid) (us : List Member) (k : Member) :
    ¬ e.Misvalued us k := by
  cases e with
  | const c => exact ConstGroup.not_misvalued h us k
  | enum e => exact h.2.2.not_misvalued us k
  | object o => exact id

/-- Of two members the one with fewer members before it is among those before the other. -/
theorem exists_eq_append_of_length_lt {before after us vs : List Member} {m k : Member}
    (h : before ++ m :: after = us ++ k :: vs) (hlt : us.length < before.length) :
    ∃ ws, before = us ++ k :: ws := by
  rcases List.append_eq_append_iff.1 h with ⟨w, rfl, -⟩ | ⟨w, rfl, hw⟩
  · rw [List.length_append] at hlt
    omega
  · cases w with
    | nil =>
      rw [List.append_nil] at hlt
      omega
    | cons x w =>
      cases hw
      exact ⟨w, rfl⟩

theorem Fault.exists_shape_of_kind {f : Fault} (h : f.kind = "InvalidValue") :
    ∃ sentence p, f.shape = .value sentence p := by
  unfold kind at h
  split at h
  case h_2 sentence p hshape => exact ⟨sentence, p, hshape⟩
  all_goals exact absurd h (by decide)

/-- A defect of a value is that of the first member that has one. -/
theorem Entry.Defective.misvalued {e : Entry} {d : Defect} (h : e.Defective d)
    (hd : ∃ sentence p, (Fault.invalid d).shape = .value sentence p) :
    ∃ before m sentence, e.Misvalued before m ∧
      (∀ us k, us.length < before.length → ¬ e.Misvalued us k) ∧
      (Fault.invalid d).shape = .value sentence m.position := by
  cases h with
  | @constant c before after m cause hmembers hbefore hfit =>
    refine ⟨before, m, _, ⟨⟨after, hmembers⟩, by simp [hfit]⟩, ?_, rfl⟩
    rintro us k hlt ⟨⟨vs, hsplit⟩, hk⟩
    obtain ⟨ws, hws⟩ := exists_eq_append_of_length_lt (hmembers.symm.trans hsplit) hlt
    exact ConstGroup.not_misvalued (c := { c with members := before }) hbefore us k ⟨⟨ws, hws⟩, hk⟩
  | noValues | variantTwice | fieldTwice =>
    obtain ⟨_, _, hrule⟩ := hd
    cases hrule
  | @value e before after m _ _ hmembers hbefore hm =>
    have hwrong : ∃ sentence, (e.type.fit m.value ≠ .ok () ∨
        ∃ x ∈ before, m.value.same x.value = true) ∧
        (Fault.invalid d).shape = .value sentence m.position := by
      cases hm with
      | misfit hfit => exact ⟨_, .inl (by simp [hfit]), rfl⟩
      | again _ hv hsame =>
        obtain ⟨x, hx, rfl⟩ := List.mem_map.1 hv
        exact ⟨_, .inr ⟨x, hx, hsame⟩, rfl⟩
    obtain ⟨sentence, hwrong, hshape⟩ := hwrong
    refine ⟨before, m, sentence, ⟨⟨after, hmembers⟩, hwrong⟩, ?_, hshape⟩
    rintro us k hlt ⟨⟨vs, hsplit⟩, hk⟩
    obtain ⟨ws, hws⟩ := exists_eq_append_of_length_lt (hmembers.symm.trans hsplit) hlt
    exact hbefore.not_misvalued us k ⟨⟨ws, hws⟩, hk⟩

theorem Schema.firstMisvalued_of_validate {s : Schema} {d : Defect} (h : s.validate = .error d)
    (hd : ∃ sentence p, (Fault.invalid d).shape = .value sentence p) :
    ∃ m sentence, s.FirstMisvalued m ∧ (Fault.invalid d).shape = .value sentence m.position := by
  rcases validate_eq_error_iff.1 h with ⟨n, -, rfl⟩ | ⟨-, es, e, es', hsplit, hvalid, -, hdefect⟩
  · obtain ⟨_, _, hrule⟩ := hd
    cases hrule
  · obtain ⟨before, m, sentence, hm, hfirst, hshape⟩ := hdefect.misvalued hd
    exact ⟨m, sentence, ⟨es, e, es', before, hsplit, hm,
      fun x hx => (hvalid x hx).not_misvalued, hfirst⟩, hshape⟩

theorem Schema.validate_of_compile_error {text : String} {s : Schema} {f : Fault}
    (hs : Schema.parse text = .ok s) (h : Schema.compile text = .error f) :
    ∃ d, s.validate = .error d ∧ f = .invalid d := by
  rw [Schema.compile, hs] at h
  change s.validate.mapError Fault.invalid >>= _ = _ at h
  cases hvalid : s.validate with
  | ok _ =>
    rw [hvalid] at h
    cases h
  | error d =>
    rw [hvalid] at h
    cases h
    exact ⟨d, rfl, rfl⟩

/-- **Places are faithful.** In a text that spells a schema, the name of every part stands at the
place of this part, for constants without a name of their own the word for their type. Each name
stands after the one before it. If a value breaks a rule, the fault has the place of the first member
whose value is refused or repeats a value of its enum. -/
theorem places_faithful (text : String) (s : Schema) (hs : Schema.parse text = .ok s) :
    (∀ t ∈ s.tokens, (∃ rest, TextAt text.toList t.position rest) ∧
      ∀ rest, TextAt text.toList t.position rest → t.text.toList <+: rest) ∧
    (s.tokens.Pairwise fun t u => t.position.Before u.position) ∧
    ∀ f, Schema.compile text = .error f → f.kind = "InvalidValue" →
      ∃ m sentence, s.FirstMisvalued m ∧ f.shape = .value sentence m.position := by
  obtain ⟨ts, hscan, hsublist⟩ := tokens_sublist hs
  obtain ⟨hstands, hpairs⟩ := scan_places hscan
  refine ⟨fun t ht => ?_, hpairs.sublist hsublist, fun f hf hkind => ?_⟩
  · obtain ⟨rest, hrest⟩ := hstands t (hsublist.subset ht)
    refine ⟨⟨_, hrest⟩, fun rest' hrest' => ?_⟩
    rw [hrest'.unique hrest]
    exact List.prefix_append _ _
  · obtain ⟨d, hvalid, rfl⟩ := Schema.validate_of_compile_error hs hf
    exact Schema.firstMisvalued_of_validate hvalid (Fault.exists_shape_of_kind hkind)

/-- Constants without a name, letters of other scripts, and a zero that is there twice. -/
theorem places_faithful_zeros :
    ∃ text s f m sentence,
      text = "const string \x7b P = \"π\" T = \"τ\" \x7d // ρ\n" ++
        "enum E for float64 \x7b\n\tA = 0.0 B = -0.0 \x7d" ∧
      Schema.parse text = .ok s ∧
      s.tokens = [⟨"string", ⟨1, 7⟩⟩, ⟨"P", ⟨1, 16⟩⟩, ⟨"T", ⟨1, 24⟩⟩, ⟨"E", ⟨2, 6⟩⟩,
        ⟨"A", ⟨3, 2⟩⟩, ⟨"B", ⟨3, 10⟩⟩] ∧
      (∀ t ∈ s.tokens, ∀ rest, TextAt text.toList t.position rest → t.text.toList <+: rest) ∧
      (s.tokens.Pairwise fun t u => t.position.Before u.position) ∧
      Schema.compile text = .error f ∧ f.kind = "InvalidValue" ∧
      s.FirstMisvalued m ∧ f.shape = .value sentence m.position ∧ m.position = ⟨3, 10⟩ := by
  have hs : Schema.parse ("const string \x7b P = \"π\" T = \"τ\" \x7d // ρ\n" ++
      "enum E for float64 \x7b\n\tA = 0.0 B = -0.0 \x7d") = .ok ⟨[], [
      .const ⟨none, .string, [⟨"P", .string "π", ⟨1, 16⟩⟩, ⟨"T", .string "τ", ⟨1, 24⟩⟩], ⟨1, 7⟩⟩,
      .enum ⟨"E", .float64, [⟨"A", .float (.finite false 0 Binary64.fits_zero), ⟨3, 2⟩⟩,
        ⟨"B", .float (.finite true 0 Binary64.fits_zero), ⟨3, 10⟩⟩], ⟨2, 6⟩⟩]⟩ := by decide +kernel
  have hf : Schema.compile ("const string \x7b P = \"π\" T = \"τ\" \x7d // ρ\n" ++
      "enum E for float64 \x7b\n\tA = 0.0 B = -0.0 \x7d") =
      .error (.invalid (.valueTwice (.float (.finite true 0 Binary64.fits_zero)) "E" ⟨3, 10⟩)) := by
    rw [Schema.compile, hs]
    decide +kernel
  obtain ⟨hstands, hbefore, hfault⟩ := places_faithful _ _ hs
  obtain ⟨m, sentence, hm, hshape⟩ := hfault _ hf rfl
  exact ⟨_, _, _, m, sentence, rfl, hs, rfl, fun t ht => (hstands t ht).2, hbefore, hf, rfl, hm,
    hshape, (Fault.Shape.value.inj hshape).2.symm⟩

end Idl
