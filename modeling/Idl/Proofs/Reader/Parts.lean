import Mathlib
import Idl.Proofs.Reader.Reads
import Idl.Proofs.Reader.Values
import Idl.Proofs.Schema.Unplaced

/-!
# Every step reads its part of the grammar

Each step of the reader is matched with its part of the grammar by `Reads`, from single tokens up to
the whole schema.

* `reads_fieldType`: the loop over `list of` is the recursion of types.
* `reads_braced`: a loop reads things between braces, which tell themselves from the closing one.
* `constGroup_eq`, `reads_constGroup`: the second token after `const` decides whether the group has a
  name.
* **`reads_schema`**: the reader of schemas reads what `Derives` says.
-/

namespace Idl

open Grammar

/-! ## Single tokens -/

theorem Primitive.ofKeyword?_keyword (p : Primitive) : ofKeyword? p.keyword = some p := by
  cases p <;> rfl

theorem Primitive.ofKeyword?_eq_some_iff {w : String} {p : Primitive} :
    ofKeyword? w = some p ↔ w = p.keyword := by
  constructor
  · intro h
    have := List.find?_some h
    simpa [eq_comm] using this
  · rintro rfl; exact ofKeyword?_keyword p

theorem Grammar.name_keyword (p : Primitive) : Name p.keyword := by
  cases p <;> rfl

theorem Grammar.Name.ne_empty {w : String} (h : Name w) : w ≠ "" := by
  rintro rfl; exact absurd h (by decide)

namespace Cursor

theorem reads_take {α β : Type} {pre : String → Prop} {view : α → β} {value? : Token → Option α}
    {worded : ∀ t a, value? t = some a → t.text ≠ ""} (cause : String → Complaint)
    (hview : ∀ t t', t.text = t'.text → (value? t).map view = (value? t').map view)
    (hsome : ∃ t a, pre t.text ∧ value? t = some a) :
    Reads pre anyText view (Plan.take value? worded pure (.refuse cause)).step
      fun ws a => ∃ t, ws = [t.text] ∧ pre t.text ∧ value? t = some a := by
  have hok : ∀ {t a}, (value? t).elim (.error (cause t.text)) Except.ok = .ok a ↔ value? t = some a := by
    intro t a
    cases value? t <;> simp
  have h : Reads pre anyText view
      (Step.token fun t => (value? t).elim (.error (cause t.text)) .ok) _ := Reads.token ?_ ?_ ?_
  · refine (h.congr_step fun c _ => ?_).congr_rel fun ws a => by simp only [hok]
    cases ha : value? c.current with
    | none =>
      rw [Plan.step_take_none _ _ _ ha, Step.token, ha]
      rfl
    | some a =>
      rw [Plan.step_take_some _ _ _ ha, Step.token, ha]
      rfl
  · intro t t' ht
    have hmap := hview t t' ht
    cases ha : value? t <;> cases ha' : value? t' <;> simp_all [Except.map]
  · exact fun t a ha => worded t a (hok.1 ha)
  · simpa only [hok] using hsome

theorem step_expect_of_test {c : Cursor} {test : String → Bool} {hend : test "" = false} {what : Expected}
    (h : test c.text = true) : (Plan.expect test hend what).step c = .ok (c.current, c.next) := by
  rw [Plan.step_expect, if_pos h]

theorem step_word_of_text {w : String} {c : Cursor} (h : w ≠ "") (hc : c.text = w) :
    (Plan.word w h).step c = .ok (c.current, c.next) :=
  step_expect_of_test (by simpa using hc)

theorem step_primitive_of_keyword {c : Cursor} {p : Primitive} (h : c.text = p.keyword) :
    Plan.primitive.step c = .ok (p, c.next) := by
  rw [Plan.primitive, Plan.step_ifPrimitive, h, Primitive.ofKeyword?_keyword]
  rfl

theorem reads_expect (pre : String → Prop) (test : String → Bool) (what : Expected)
    (hend : test "" = false) (hsome : ∃ w, pre w ∧ test w = true) :
    Reads pre anyText Token.text (Plan.expect test hend what).step
      fun ws t => ws = [t.text] ∧ pre t.text ∧ test t.text = true := by
  refine (reads_take (.expected what) ?_ ?_).congr_rel fun ws t => ?_
  · intro t t' ht
    by_cases htest : test t'.text = true <;> simp [ht, htest]
  · obtain ⟨w, hpre, hw⟩ := hsome
    exact ⟨⟨w, .start⟩, ⟨w, .start⟩, hpre, if_pos hw⟩
  · simp only [Option.ite_none_right_eq_some, Option.some.injEq]
    constructor
    · rintro ⟨t, rfl, hpre, ht, rfl⟩; exact ⟨rfl, hpre, ht⟩
    · rintro ⟨rfl, hpre, ht⟩; exact ⟨t, rfl, hpre, ht, rfl⟩

theorem reads_name (what : Expected) :
    Reads anyText anyText Token.text (Plan.name what).step
      fun ws t => ws = [t.text] ∧ Name t.text := by
  have h := reads_expect anyText isName what isName_empty ⟨"a", trivial, rfl⟩
  exact h.congr_rel fun ws t => by simp [Name]

theorem reads_word (w : String) (hw : w ≠ "") :
    Reads anyText anyText Token.text (Plan.word w hw).step fun ws t => ws = [w] ∧ t.text = w := by
  have h := reads_expect anyText (· == w) (.word w) (by simpa using hw.symm)
    ⟨w, trivial, by simp⟩
  refine h.congr_rel fun ws t => ?_
  simp only [beq_iff_eq, true_and]
  constructor
  · rintro ⟨rfl, rfl⟩; exact ⟨rfl, rfl⟩
  · rintro ⟨rfl, rfl⟩; exact ⟨rfl, rfl⟩

theorem reads_primitive :
    Reads anyText anyText id Plan.primitive.step fun ws p => ws = [p.keyword] := by
  refine (reads_take (.expected .primitiveType) ?_ ?_).congr_rel fun ws p => ?_
  · intro t t' ht
    rw [ht]
  · exact ⟨⟨"bool", .start⟩, .bool, trivial, Primitive.ofKeyword?_keyword .bool⟩
  · simp only [Primitive.ofKeyword?_eq_some_iff, true_and]
    constructor
    · rintro ⟨t, rfl, ht⟩; rw [ht]
    · rintro rfl; exact ⟨⟨p.keyword, .start⟩, rfl, rfl⟩

theorem reads_literal :
    Reads anyText anyText id Plan.literal.step fun ws v => ∃ w, ws = [w] ∧ Value w v := by
  refine (reads_take _ ?_ ?_).congr_rel fun ws v => ?_
  · intro t t' ht
    rw [ht]
  · exact ⟨⟨"true", .start⟩, .bool true, trivial, Option.bind_eq_some_iff.2 (value_iff.1 .true)⟩
  · simp only [Option.bind_eq_some_iff, ← value_iff, true_and]
    constructor
    · rintro ⟨t, rfl, ht⟩; exact ⟨t.text, rfl, ht⟩
    · rintro ⟨w, rfl, hw⟩; exact ⟨⟨w, .start⟩, rfl, hw⟩

/-! ## Members, fields and their types -/

theorem reads_member : Reads anyText anyText Member.unplaced Plan.member.step MemberOf := by
  have h := ((reads_name .identifier).both ((reads_word "=" (by decide)).both reads_literal)).map
    (fun x => Member.mk x.1.text x.2.2 x.1.position) Member.unplaced
    (by rintro ⟨t, e, v⟩ ⟨t', e', v'⟩ he; simp_all [Member.unplaced])
  refine (h.congr_step fun c _ => ?_).congr_rel fun ws m => ?_
  · simp [Plan.member, Step.map, Step.both]
  · constructor
    · rintro ⟨⟨t, e, v⟩, ⟨_, _, rfl, ⟨rfl, ht⟩, _, _, rfl, ⟨rfl, -⟩, w, rfl, hv⟩, rfl⟩
      exact .mk ht hv _
    · rintro ⟨hn, hv, p⟩
      exact ⟨(⟨_, p⟩, ⟨"=", p⟩, _), ⟨_, _, rfl, ⟨rfl, hn⟩, _, _, rfl, ⟨rfl, rfl⟩, _, rfl, hv⟩, rfl⟩

theorem reads_innerType :
    Reads (fun w => (w != "list") = true) anyText id Plan.innerType.step
      fun ws t => TypeOf ws t ∧ ∀ u, t ≠ .list u := by
  have hprim := (reads_primitive.map FieldType.primitive id (by simp)).restrict
    (fun w => (w != "list") = true ∧ (Primitive.ofKeyword? w).isSome = true)
    (fun _ _ => trivial) (by rintro ws t w ⟨p, rfl, rfl⟩ -; cases p <;> exact ⟨rfl, rfl⟩)
  have hparts := (reads_primitive.both ((reads_word "for" (by decide)).both reads_primitive)).map
    (fun x => FieldType.map x.1 x.2.2) id (by rintro ⟨k, t, v⟩ ⟨k', t', v'⟩ he; simp_all)
  have hmap := hparts.after (by decide)
    (fun w => ((w != "list") = true ∧ ¬ (Primitive.ofKeyword? w).isSome = true) ∧ w = "map")
    (fun _ hw => hw.2) (by decide)
  have hname := (reads_expect (fun w => ((w != "list") = true ∧
    ¬ (Primitive.ofKeyword? w).isSome = true) ∧ ¬ w = "map") isName .type isName_empty ⟨"a", by decide⟩).map
      (fun t => FieldType.named t.text) id (by simp)
  refine ((hprim.choose (hmap.choose hname)).congr_step fun c _ => ?_).congr_rel fun ws t => ?_
  · rw [Plan.innerType, Plan.step_ifPrimitive]
    cases hp : Primitive.ofKeyword? c.text with
    | none => simp [Step.map, Step.both, Plan.name]
    | some p => simp [Step.map, Plan.primitive, hp]
  · constructor
    · rintro (⟨p, rfl, rfl⟩ | ⟨_, rfl, ⟨k, x, v⟩, ⟨_, _, rfl, rfl, _, _, rfl, ⟨rfl, -⟩, rfl⟩, rfl⟩ |
        ⟨x, ⟨rfl, ⟨⟨hl, hp⟩, hm⟩, hx⟩, rfl⟩)
      · exact ⟨.primitive p, by simp⟩
      · exact ⟨.map k v, by simp⟩
      · refine ⟨.named hx (fun p hxp => hp ?_) (by simpa using hl) hm, by simp⟩
        rw [hxp, Primitive.ofKeyword?_keyword]; rfl
    · rintro ⟨ht, hlist⟩
      cases ht with
      | primitive p => exact .inl ⟨p, rfl, rfl⟩
      | list => exact absurd rfl (hlist _)
      | map k v =>
        exact .inr (.inl ⟨_, rfl, (k, ⟨"for", .start⟩, v),
          ⟨[_], _, rfl, rfl, ["for"], _, rfl, ⟨rfl, rfl⟩, rfl⟩, rfl⟩)
      | @named n hn hp hl hm =>
        refine .inr (.inr ⟨⟨n, .start⟩, ⟨rfl, ⟨⟨by simpa using hl, fun h => ?_⟩, hm⟩, hn⟩, rfl⟩)
        obtain ⟨p, hp'⟩ := Option.isSome_iff_exists.1 h
        exact hp p (Primitive.ofKeyword?_eq_some_iff.1 hp')

/-- The words before the element type of a list. -/
def ListOf (ws : List String) (t : Token) : Prop := ∃ us, ws = "list" :: us ∧ us = ["of"] ∧ t.text = "of"

theorem reads_listOf : Reads (fun w => (w != "list") = false) anyText Token.text
    Plan.listOf.step ListOf := by
  have h := (reads_word "of" (by decide)).after (w := "list") (by decide)
    (fun w => (w != "list") = false) (fun w hw => by simpa using hw) rfl
  refine h.congr_step fun c hc => ?_
  rw [Plan.listOf, Plan.step_bind, step_word_of_text _ (by simpa using hc)]
  rfl

/-- A type is some number of lists around a type that is no list. -/
theorem typeOf_iff {ws : List String} {t : FieldType} :
    TypeOf ws t ↔ ∃ us vs, ∃ (lists : List Token) (u : FieldType), ws = us ++ vs ∧
      Many ListOf us lists ∧ (TypeOf vs u ∧ ∀ x, u ≠ .list x) ∧
      lists.foldr (fun _ t => .list t) u = t := by
  constructor
  · intro h
    induction h with
    | list _ ih =>
      obtain ⟨us, vs, lists, u, rfl, hm, hu, rfl⟩ := ih
      exact ⟨"list" :: "of" :: us, vs, ⟨"of", .start⟩ :: lists, u, rfl,
        .cons (show ListOf ["list", "of"] _ from ⟨_, rfl, rfl, rfl⟩) hm, hu, rfl⟩
    | primitive p => exact ⟨[], _, [], _, rfl, .nil, ⟨.primitive p, by simp⟩, rfl⟩
    | map k v => exact ⟨[], _, [], _, rfl, .nil, ⟨.map k v, by simp⟩, rfl⟩
    | named hn hp hl hm => exact ⟨[], _, [], _, rfl, .nil, ⟨.named hn hp hl hm, by simp⟩, rfl⟩
  · rintro ⟨us, vs, lists, u, rfl, hm, ⟨hu, -⟩, rfl⟩
    induction hm with
    | nil => exact hu
    | cons hx _ ih =>
      obtain ⟨_, rfl, rfl, -⟩ := hx
      exact .list ih

theorem reads_fieldType : Reads anyText anyText id Plan.fieldType.step TypeOf := by
  have hlists := reads_listOf.collect (by rintro ws t ⟨us, rfl, -⟩; simp)
  have h := (hlists.both reads_innerType).map (fun x => x.1.foldr (fun _ t => .list t) x.2) id ?_
  · refine (h.congr_step fun c _ => ?_).congr_rel fun ws t => ?_
    · simp [Plan.fieldType, Step.map, Step.both]
    · rw [typeOf_iff]
      simp only [Prod.exists]
      constructor
      · rintro ⟨lists, u, ⟨us, vs, rfl, hm, hu⟩, ht⟩; exact ⟨us, vs, lists, u, rfl, hm, hu, ht⟩
      · rintro ⟨us, vs, lists, u, rfl, hm, hu, ht⟩; exact ⟨lists, u, ⟨us, vs, rfl, hm, hu⟩, ht⟩
  · rintro ⟨l, t⟩ ⟨l', t'⟩ he
    obtain ⟨hl, rfl⟩ : l.map Token.text = l'.map Token.text ∧ t = t' := by simpa using he
    have htexts : ∀ l : List Token, l.foldr (fun _ t => .list t) t =
        (l.map Token.text).foldr (fun _ t => FieldType.list t) t := fun l => by
      rw [List.foldr_map]
    simp only [htexts, hl]

theorem reads_field : Reads anyText anyText Field.unplaced Plan.field.step FieldOf := by
  have h := (reads_fieldType.both (reads_name .fieldName)).map
    (fun x => Field.mk x.1 x.2.text x.2.position) Field.unplaced
    (by rintro ⟨t, x⟩ ⟨t', x'⟩ he; simp_all [Field.unplaced])
  refine (h.congr_step fun c _ => ?_).congr_rel fun ws f => ?_
  · simp [Plan.field, Step.map, Step.both]
  · constructor
    · rintro ⟨⟨t, x⟩, ⟨us, _, rfl, ht, rfl, hx⟩, rfl⟩
      exact .mk ht hx _
    · rintro ⟨ht, hn, p⟩
      exact ⟨(_, ⟨_, p⟩), ⟨_, _, rfl, ht, rfl, hn⟩, rfl⟩

/-! ## Between braces -/

/-- Every text of `G` begins with a name. -/
def Named {α : Type} (G : List String → α → Prop) : Prop :=
  ∀ ws a, G ws a → ∃ n us, ws = n :: us ∧ Name n

theorem named_memberOf : Named MemberOf := by
  rintro _ _ ⟨hn, -, -⟩; exact ⟨_, _, rfl, hn⟩

theorem named_typeOf : Named TypeOf := by
  rintro _ _ (p | _ | _ | hn)
  · exact ⟨_, _, rfl, name_keyword p⟩
  · exact ⟨_, _, rfl, by decide⟩
  · exact ⟨_, _, rfl, by decide⟩
  · exact ⟨_, _, rfl, hn⟩

theorem named_fieldOf : Named FieldOf := by
  rintro _ _ ⟨ht, -, -⟩
  obtain ⟨n, us, rfl, hn⟩ := named_typeOf _ _ ht
  exact ⟨n, _, rfl, hn⟩

theorem reads_braced {α β : Type} {view : α → β} {p : Plan α} {G : List String → α → Prop}
    (h : Reads anyText anyText view p.step G) (hG : Named G) :
    Reads anyText anyText (List.map view) (Plan.braced p).step (Braced G) := by
  have hitems := (h.restrict (fun w => (w == "\x7d") = false) (fun _ _ => trivial) (by
    rintro ws a w ha -
    obtain ⟨n, us, rfl, hn⟩ := hG ws a ha
    have hn' : n ≠ "\x7d" := by rintro rfl; exact absurd hn (by decide)
    simpa using hn')).collect (by
      intro ws a ha hws
      obtain ⟨n, us, rfl, -⟩ := hG ws a ha
      exact absurd hws (by simp))
  have hclose := (reads_word "\x7d" (by decide)).restrict (fun w => (w == "\x7d") = true)
    (fun _ _ => trivial) (by rintro ws a w ⟨rfl, -⟩ -; rfl)
  have h' := ((reads_word "\x7b" (by decide)).both (hitems.both hclose)).map
    (fun x => x.2.1) (List.map view) (by rintro ⟨t, as, u⟩ ⟨t', as', u'⟩ he; simp_all)
  refine (h'.congr_step fun c _ => ?_).congr_rel fun ws as => ?_
  · simp [Plan.braced, Step.map, Step.both]
  · constructor
    · rintro ⟨⟨t, as, u⟩, ⟨_, _, rfl, ⟨rfl, -⟩, us, _, rfl, has, rfl, -⟩, rfl⟩
      exact .mk has
    · rintro ⟨has⟩
      exact ⟨(⟨_, .start⟩, as, ⟨_, .start⟩), ⟨_, _, rfl, ⟨rfl, rfl⟩, _, _, rfl, has, rfl, rfl⟩, rfl⟩

/-! ## Entries -/

theorem reads_enumDecl : Reads anyText anyText EnumDecl.unplaced Plan.enumDecl.step EnumOf := by
  have h := ((reads_name .identifier).both ((reads_word "for" (by decide)).both
    (reads_primitive.both (reads_braced reads_member named_memberOf)))).map
    (fun x => EnumDecl.mk x.1.text x.2.2.1 x.2.2.2 x.1.position) EnumDecl.unplaced
    (by rintro ⟨t, f, p, ms⟩ ⟨t', f', p', ms'⟩ he; simp_all [EnumDecl.unplaced])
  refine (h.congr_step fun c _ => ?_).congr_rel fun ws e => ?_
  · simp [Plan.enumDecl, Step.map, Step.both]
  · constructor
    · rintro ⟨⟨t, f, p, ms⟩, ⟨_, _, rfl, ⟨rfl, ht⟩, _, _, rfl, ⟨rfl, -⟩, _, _, rfl, rfl, hms⟩, rfl⟩
      exact .mk ht p hms _
    · rintro ⟨hn, p, hms, pos⟩
      exact ⟨(⟨_, pos⟩, ⟨"for", pos⟩, p, _),
        ⟨[_], _, rfl, ⟨rfl, hn⟩, ["for"], _, rfl, ⟨rfl, rfl⟩, [_], _, rfl, rfl, hms⟩, rfl⟩

theorem reads_objectDecl : Reads anyText anyText ObjectDecl.unplaced Plan.objectDecl.step ObjectOf := by
  have h := ((reads_name .identifier).both (reads_braced reads_field named_fieldOf)).map
    (fun x => ObjectDecl.mk x.1.text x.2 x.1.position) ObjectDecl.unplaced
    (by rintro ⟨t, fs⟩ ⟨t', fs'⟩ he; simp_all [ObjectDecl.unplaced])
  refine (h.congr_step fun c _ => ?_).congr_rel fun ws o => ?_
  · simp [Plan.objectDecl, Step.map, Step.both]
  · constructor
    · rintro ⟨⟨t, fs⟩, ⟨_, _, rfl, ⟨rfl, ht⟩, hfs⟩, rfl⟩
      exact .mk ht hfs _
    · rintro ⟨hn, hfs, pos⟩
      exact ⟨(⟨_, pos⟩, _), ⟨[_], _, rfl, ⟨rfl, hn⟩, hfs⟩, rfl⟩

/-- A group of constants without a name. -/
def unnamedGroup : Step ConstGroup :=
  (Step.both Step.here (Step.both Plan.primitive.step (Plan.braced Plan.member).step)).map
    fun x => ⟨none, x.2.1, x.2.2, x.1⟩

theorem for_ne_empty : "for" ≠ "" := by decide

/-- A group of constants with a name. -/
def namedGroup : Step ConstGroup :=
  (Step.both Step.here (Step.both (Plan.name .identifier).step
    (Step.both (Plan.word "for" for_ne_empty).step
      (Step.both Plan.primitive.step (Plan.braced Plan.member).step)))).map
        fun x => ⟨some x.2.1.text, x.2.2.2.1, x.2.2.2.2, x.1⟩

theorem reads_unnamedGroup : Reads anyText anyText ConstGroup.unplaced unnamedGroup
    fun ws c => ConstOf ws c ∧ c.name = none := by
  refine ((Reads.here.both (reads_primitive.both (reads_braced reads_member named_memberOf))).map
    _ ConstGroup.unplaced ?_).congr_rel fun ws c => ?_
  · rintro ⟨p, t, ms⟩ ⟨p', t', ms'⟩ he
    simp_all [ConstGroup.unplaced]
  · constructor
    · rintro ⟨⟨pos, p, ms⟩, ⟨_, _, rfl, rfl, _, _, rfl, rfl, hms⟩, rfl⟩
      exact ⟨.unnamed p hms pos, rfl⟩
    · rintro ⟨⟨⟩ | ⟨p, hms, pos⟩, hc⟩
      · exact absurd hc (by simp)
      · exact ⟨(pos, p, _), ⟨[], _, rfl, rfl, [_], _, rfl, rfl, hms⟩, rfl⟩

theorem reads_namedGroup : Reads anyText anyText ConstGroup.unplaced namedGroup
    fun ws c => ConstOf ws c ∧ c.name ≠ none := by
  refine ((Reads.here.both ((reads_name .identifier).both ((reads_word "for" (by decide)).both
    (reads_primitive.both (reads_braced reads_member named_memberOf))))).map
    _ ConstGroup.unplaced ?_).congr_rel fun ws c => ?_
  · rintro ⟨p, n, f, t, ms⟩ ⟨p', n', f', t', ms'⟩ he
    simp_all [ConstGroup.unplaced]
  · constructor
    · rintro ⟨⟨pos, n, f, p, ms⟩,
        ⟨_, _, rfl, rfl, _, _, rfl, ⟨rfl, hn⟩, _, _, rfl, ⟨rfl, -⟩, _, _, rfl, rfl, hms⟩, rfl⟩
      exact ⟨.named hn p hms pos, by simp⟩
    · rintro ⟨⟨hn, p, hms, pos⟩ | ⟨⟩, hc⟩
      · exact ⟨(pos, ⟨_, pos⟩, ⟨"for", pos⟩, p, _), ⟨[], _, rfl, rfl, [_], _, rfl, ⟨rfl, hn⟩,
          ["for"], _, rfl, ⟨rfl, rfl⟩, [_], _, rfl, rfl, hms⟩, rfl⟩
      · exact absurd rfl hc

/-- A primitive type stands right before a brace. -/
def Unnamed (c : Cursor) : Prop :=
  (Primitive.ofKeyword? c.text).isSome = true ∧ c.following? = some "\x7b"

instance (c : Cursor) : Decidable c.Unnamed := inferInstanceAs (Decidable (_ ∧ _))

theorem constGroup_eq (c : Cursor) :
    Plan.constGroup.step c = if c.Unnamed then unnamedGroup c else namedGroup c := by
  by_cases h : c.Unnamed
  · have hname : Plan.groupName.step c = .ok (none, c) := if_pos h
    rw [if_pos h, Plan.constGroup, Plan.step_look, Plan.step_bind, hname]
    simp only [unnamedGroup, Step.map, Step.both, Step.here, bind_assoc, pure_bind]
    rfl
  · have hname : Plan.groupName.step c = _ := if_neg h
    rw [if_neg h, Plan.constGroup, Plan.step_look, Plan.step_bind, hname]
    simp only [namedGroup, Step.map, Step.both, Step.here, Plan.step_bind, Plan.step_pure, bind_assoc,
      pure_bind]
    rfl

/-- Two texts decide which form a group of constants has. -/
theorem unnamed_back_iff {c : Cursor} {ts : List Token} {v w : String} {ws : List String}
    (h : texts ts = v :: w :: ws) :
    (c.back ts).Unnamed ↔ (Primitive.ofKeyword? v).isSome = true ∧ w = "\x7b" := by
  match ts, h with
  | t :: t' :: ts, h =>
    simp only [texts, List.map_cons, List.cons.injEq] at h
    obtain ⟨rfl, rfl, -⟩ := h
    simp [Unnamed, following?, back, text, current]

theorem Unnamed.text_eq {c : Cursor} {t : Token} (h : (c.back [t]).Unnamed) : c.text = "\x7b" := by
  obtain ⟨-, h⟩ := h
  obtain ⟨_ | ⟨t', r⟩, last⟩ := c
  · simp [following?, back] at h
  · simpa [following?, back, text, current] using h

theorem unnamed_back_singleton {c : Cursor} {t : Token} (hc : c.Ended)
    (ht : (Primitive.ofKeyword? t.text).isSome = true) (h : c.text = "\x7b") :
    (c.back [t]).Unnamed := by
  rw [hc.eq_back, ← back_append, List.singleton_append, unnamed_back_iff rfl]
  exact ⟨ht, h⟩

section Form

variable {c c' : Cursor} {ts ts' : List Token} {cause : Complaint}

/-- A group without a name is not stuck before its brace. -/
theorem unnamed_of_stuckAt (h : (c.back ts).Unnamed)
    (hs : StuckAt unnamedGroup (texts ts) c.text cause) (hts : texts ts' = texts ts) :
    (c'.back ts').Unnamed := by
  have hnot := reads_unnamedGroup.not_viable ⟨"", trivial⟩ hs
  obtain ⟨p, hp⟩ := Option.isSome_iff_exists.1 h.1
  rw [Primitive.ofKeyword?_eq_some_iff] at hp
  have hempty : Braced MemberOf ["\x7b", "\x7d"] [] := .mk .nil
  match ts, h, hp, hnot, hts with
  | [], _, hp, hnot, _ =>
    rw [back_nil] at hp
    refine absurd ⟨["\x7b", "\x7d"], ⟨none, p, [], .start⟩, ?_, rfl⟩ hnot
    rw [hp]
    exact .unnamed p hempty .start
  | [t], h, hp, hnot, _ =>
    rw [text_back_cons] at hp
    refine absurd ⟨["\x7d"], ⟨none, p, [], .start⟩, ?_, rfl⟩ hnot
    rw [h.text_eq, texts, List.map_singleton, hp]
    exact .unnamed p hempty .start
  | t :: t' :: us, h, _, _, hts =>
    exact (unnamed_back_iff hts).2 ((unnamed_back_iff rfl).1 h)

/-- A group with a name is not stuck at a primitive type where its name stands. -/
theorem not_unnamed_of_stuckAt (h : ¬ (c.back ts).Unnamed) (hc : c.Ended)
    (hs : StuckAt namedGroup (texts ts) c.text cause) (hts : texts ts' = texts ts)
    (hc' : c'.text = c.text) : ¬ (c'.back ts').Unnamed := by
  intro h'
  match ts, h, hs, hts with
  | [], _, hs, hts =>
    obtain rfl := List.map_eq_nil_iff.1 hts
    obtain ⟨p, hp⟩ := Option.isSome_iff_exists.1 h'.1
    rw [Primitive.ofKeyword?_eq_some_iff, back_nil, hc'] at hp
    refine reads_namedGroup.not_viable ⟨"", trivial⟩ hs
      ⟨["for", "bool", "\x7b", "\x7d"], ⟨some p.keyword, .bool, [], .start⟩, ?_, by simp⟩
    rw [hp]
    exact .named (name_keyword p) .bool (.mk .nil) .start
  | [t], h, _, hts =>
    obtain ⟨t', rfl, ht⟩ := List.map_eq_singleton_iff.1 hts
    exact h (unnamed_back_singleton hc (ht ▸ h'.1) (hc' ▸ h'.text_eq))
  | t :: u :: us, h, _, hts =>
    exact h ((unnamed_back_iff rfl).2 ((unnamed_back_iff hts).1 h'))

end Form

theorem reads_constGroup :
    Reads anyText anyText ConstGroup.unplaced Plan.constGroup.step ConstOf := by
  have hu := reads_unnamedGroup
  have hn := reads_namedGroup
  have hmany : Braced MemberOf ["\x7b", "\x7d"] [] := .mk .nil
  refine ⟨⟨_, _, .unnamed .bool hmany .start⟩, fun _ _ => trivial, ?_, ?_, ?_, ?_⟩
  · rintro ws g hg
    by_cases hname : g.name = none
    · exact hu.words ⟨hg, hname⟩
    · exact hn.words ⟨hg, hname⟩
  · intro c g c' hw hok
    rw [constGroup_eq] at hok
    split_ifs at hok
    · obtain ⟨ts, hts, hg, hpost⟩ := hu.leads hw hok
      exact ⟨ts, hts, hg.1, hpost⟩
    · obtain ⟨ts, hts, hg, hpost⟩ := hn.leads hw hok
      exact ⟨ts, hts, hg.1, hpost⟩
  · intro ts g c hg hw
    rw [constGroup_eq]
    generalize hws : texts ts = ws at hg
    cases hg with
    | named hx p hms pos =>
      rw [if_neg (by rw [unnamed_back_iff hws]; simp)]
      exact hn.complete (hws ▸ ⟨.named hx p hms pos, by simp⟩) hw
    | unnamed p hms pos =>
      obtain ⟨hms'⟩ := hms
      rw [if_pos (by rw [unnamed_back_iff hws, Primitive.ofKeyword?_keyword]; simp)]
      exact hu.complete (hws ▸ ⟨.unnamed p (.mk hms') pos, rfl⟩) hw
  · intro c e hc hw herr
    -- the form was settled by texts up to the one that the step is stuck at
    rw [constGroup_eq] at herr
    split_ifs at herr with hform
    · obtain ⟨ts, c', cause, rfl, he, ⟨us, g, hg⟩, hs⟩ := hu.stuck hc hw herr
      refine ⟨ts, c', cause, rfl, he, ⟨us, g, hg.1⟩, fun ts' c'' hts hc'' => ?_⟩
      rw [constGroup_eq, if_pos (unnamed_of_stuckAt hform hs hts)]
      exact hs ts' c'' hts hc''
    · obtain ⟨ts, c', cause, rfl, he, ⟨us, g, hg⟩, hs⟩ := hn.stuck hc hw herr
      refine ⟨ts, c', cause, rfl, he, ⟨us, g, hg.1⟩, fun ts' c'' hts hc'' => ?_⟩
      have hc' : c'.Ended := hc.of_back fun h => hn.words hg (List.mem_append_left _ h)
      rw [constGroup_eq, if_neg (not_unnamed_of_stuckAt hform hc' hs hts hc'')]
      exact hs ts' c'' hts hc''

theorem reads_entry : Reads anyText anyText Entry.unplaced Plan.entry.step EntryOf := by
  have hconst := (reads_constGroup.map Entry.const Entry.unplaced (by
    intro c c' he; simp [Entry.unplaced, he])).after (by decide)
      (fun w => anyText w ∧ w = "const") (fun _ hw => hw.2) (by decide)
  have henum := (reads_enumDecl.map Entry.enum Entry.unplaced (by
    intro c c' he; simp [Entry.unplaced, he])).after (by decide)
      (fun w => (anyText w ∧ ¬ w = "const") ∧ w = "enum") (fun _ hw => hw.2) (by decide)
  have hobject := (reads_objectDecl.map Entry.object Entry.unplaced (by
    intro c c' he; simp [Entry.unplaced, he])).after (by decide)
      (fun w => ((anyText w ∧ ¬ w = "const") ∧ ¬ w = "enum") ∧ w = "object") (fun _ hw => hw.2)
      (by decide)
  have h := hconst.choose (henum.choose (hobject.demand .unexpected))
  refine (h.congr_step fun c _ => ?_).congr_rel fun ws e => ?_
  · simp only [Plan.entry, Plan.step_ifWord]
    rfl
  constructor
  · rintro (⟨us, rfl, d, hd, rfl⟩ | ⟨us, rfl, d, hd, rfl⟩ | ⟨us, rfl, d, hd, rfl⟩)
    · exact .const hd
    · exact .enum hd
    · exact .object hd
  · rintro (hd | hd | hd)
    · exact .inl ⟨_, rfl, _, hd, rfl⟩
    · exact .inr (.inl ⟨_, rfl, _, hd, rfl⟩)
    · exact .inr (.inr ⟨_, rfl, _, hd, rfl⟩)

/-- An entry begins with one of three keywords. -/
theorem head_entryOf {ws : List String} {e : Entry} (h : EntryOf ws e) :
    ∃ k us, ws = k :: us ∧ k ∈ ["const", "enum", "object"] := by
  rcases h with _ | _ | _ <;> exact ⟨_, _, rfl, by simp⟩

theorem reads_entries : Reads anyText (fun w => w.isEmpty = true) (List.map Entry.unplaced)
    (collect String.isEmpty Plan.entry.step) (Many EntryOf) := by
  refine (reads_entry.restrict _ (fun _ _ => trivial) ?_).collect ?_
  · rintro ws e w he -
    obtain ⟨k, us, rfl, hk⟩ := head_entryOf he
    simp only [List.mem_cons, List.not_mem_nil, or_false] at hk
    rcases hk with rfl | rfl | rfl <;> rfl
  · rintro ws e he rfl
    obtain ⟨k, us, h, -⟩ := head_entryOf he
    exact absurd h (by simp)

/-! ## Schemas -/

/-- A point and a name of a package path. -/
def Dotted (ws : List String) (t : Token) : Prop := ∃ us, ws = "." :: us ∧ us = [t.text] ∧ Name t.text

theorem many_dotted_iff {ws : List String} {ts : List Token} :
    Many Dotted ws ts ↔
      ws = (texts ts).flatMap (fun m => [".", m]) ∧ ∀ m ∈ texts ts, Name m := by
  constructor
  · intro h
    induction h with
    | nil => simp
    | cons hx _ ih =>
      obtain ⟨_, rfl, rfl, hn⟩ := hx
      obtain ⟨rfl, hns⟩ := ih
      exact ⟨rfl, List.forall_mem_cons.2 ⟨hn, hns⟩⟩
  · rintro ⟨rfl, h⟩
    induction ts with
    | nil => exact .nil
    | cons t ts ih =>
      obtain ⟨ht, hts⟩ := List.forall_mem_cons.1 h
      exact .cons (show Dotted [".", t.text] t from ⟨_, rfl, rfl, ht⟩) (ih hts)

theorem reads_dotted : Reads (fun w => (w != ".") = false) anyText Token.text
    Plan.dotted.step Dotted := by
  have h := (reads_name .packageName).after (w := ".") (by decide)
    (fun w => (w != ".") = false) (fun w hw => by simpa using hw) rfl
  refine h.congr_step fun c hc => ?_
  rw [Plan.dotted, Plan.step_bind, step_word_of_text _ (by simpa using hc)]
  rfl

/-- A schema after the keyword of its package path. -/
def packaged : Step Schema :=
  (Step.both (Plan.name .packageName).step (Step.both (collect (· != ".") Plan.dotted.step)
    (collect String.isEmpty Plan.entry.step))).map fun x => ⟨(x.1 :: x.2.1).map Token.text, x.2.2⟩

theorem reads_packaged : Reads anyText (fun w => w.isEmpty = true) Schema.unplaced packaged
    fun ws s => ∃ us vs, ws = us ++ vs ∧ PackageOf ("package" :: us) s.package ∧
      Many EntryOf vs s.entries := by
  have hpath := reads_dotted.collect (by rintro ws t ⟨us, rfl, -⟩; simp)
  have hentries := reads_entries.restrict (fun w => (w != ".") = true) (fun _ _ => trivial) (by
    rintro ws es w hes hw
    cases hes with
    | nil => simp_all
    | cons he _ =>
      obtain ⟨k, us, rfl, hk⟩ := head_entryOf he
      simp only [List.mem_cons, List.not_mem_nil, or_false] at hk
      rcases hk with rfl | rfl | rfl <;> rfl)
  refine (((reads_name .packageName).both (hpath.both hentries)).map _ Schema.unplaced
    ?_).congr_rel fun ws s => ?_
  · rintro ⟨t, ts, es⟩ ⟨t', ts', es'⟩ he
    simp_all [Schema.unplaced]
  · constructor
    · rintro ⟨⟨t, ts, es⟩, ⟨_, _, rfl, ⟨rfl, ht⟩, us, vs, rfl, hts, hes⟩, rfl⟩
      obtain ⟨rfl, hns⟩ := many_dotted_iff.1 hts
      exact ⟨t.text :: _, vs, rfl, .path ht hns, hes⟩
    · rintro ⟨us, vs, rfl, hus, hes⟩
      obtain ⟨package, es⟩ := s
      generalize hw : "package" :: us = ws at hus
      cases hus with
      | none => exact absurd hw (by simp)
      | @path n ns hn hns =>
        obtain rfl := List.tail_eq_of_cons_eq hw
        obtain ⟨ts, rfl⟩ := exists_texts_eq ns
        exact ⟨(⟨n, .start⟩, ts, es), ⟨[n], _, rfl, ⟨rfl, hn⟩, _, vs, rfl,
          many_dotted_iff.2 ⟨rfl, hns⟩, hes⟩, rfl⟩

/-- **Reading a schema follows the grammar.** -/
theorem reads_schema : Reads anyText (fun w => w.isEmpty = true) Schema.unplaced schema Derives := by
  have hpackaged := reads_packaged.after (by decide) (fun w => anyText w ∧ w = "package")
    (fun _ hw => hw.2) (by decide)
  have hplain := (reads_entries.map (fun es => Schema.mk [] es) Schema.unplaced (by
    intro es es' he; simp [Schema.unplaced, he])).restrict
      (fun w => anyText w ∧ ¬ w = "package") (fun _ _ => trivial) (by
        rintro ws s w ⟨es, hes, -⟩ hw
        refine ⟨trivial, ?_⟩
        cases hes with
        | nil => rintro rfl; exact absurd hw (by decide)
        | cons he _ =>
          obtain ⟨k, us, rfl, hk⟩ := head_entryOf he
          rintro rfl
          exact absurd hk (by decide))
  refine ((hpackaged.choose hplain).congr_step fun c _ => ?_).congr_rel fun ws s => ?_
  · rw [schema, Plan.schema, Plan.package, Plan.step_bind, Plan.step_ifWord]
    split_ifs
    · simp [packaged, Step.map, Step.both]
    · simp only [Step.map]
      rfl
  · constructor
    · rintro (⟨_, rfl, us, vs, rfl, hp, hes⟩ | ⟨es, hes, rfl⟩)
      · exact .mk hp hes
      · exact .mk .none hes
    · rintro ⟨hp, hes⟩
      cases hp with
      | none => exact .inr ⟨_, hes, rfl⟩
      | path hn hns => exact .inl ⟨_, rfl, _, _, rfl, .path hn hns, hes⟩

end Cursor

end Idl
