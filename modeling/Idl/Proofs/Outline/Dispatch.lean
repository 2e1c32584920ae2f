import Mathlib
import Idl.Proofs.Outline.Texts

/-!
# What look-ups find

The look-ups of an enum have cases that name its members. What is found depends on what the names mean
where they stand, where an inner name is found before an outer one, and on what is compared: members, or
the values of members.

* `Thing`: what is looked up. `Target.thing?`: what a member is.
* `Target.near`: the names that are found before those of a file.
* `Target.indexOf?`, `Target.valueAt?`: the look-ups.
* `Target.FindsIndices`, `Target.FindsMembers`: look-ups that find what they should.
* **`findsIndices_iff`**, **`findsMembers_iff`**: when they do.
-/

namespace Idl

open Outline

/-! ## Cases -/

namespace Outline

section Find

variable {α : Type} (hits : String → Bool) (result? : String → Option α)

/-- What a case gives. -/
def Arm.find? : Arm → Option α
  | maps pattern result => if hits pattern then result? result else none
  | every result => result? result
  | fails => none

/-- What the first case gives. -/
def lookUp (arms : List Arm) : Option α := arms.findSome? (Arm.find? hits result?)

variable {hits result?}

theorem lookUp_append_fails (arms : List Arm) {q : Prop} [Decidable q] :
    lookUp hits result? (arms ++ if q then [] else [.fails]) = lookUp hits result? arms := by
  rw [lookUp, List.findSome?_append]
  split <;> exact Option.or_none

theorem lookUp_fails (arms : List Arm) :
    lookUp hits result? (arms ++ [.fails]) = lookUp hits result? arms := by
  rw [lookUp, List.findSome?_append]
  exact Option.or_none

end Find

variable {hits : String → Bool} {ids front back : List String}

theorem readInt?_nat (n : ℕ) : readInt? (toString n) = some (n : ℤ) := readInt?_toString n

theorem lookUp_zipIdx (ids : List String) (k : ℕ) :
    lookUp hits readInt? ((ids.zipIdx k).map fun p => .maps p.1 (toString p.2)) =
      (ids.findIdx? hits).map fun i => ((i + k : ℕ) : ℤ) := by
  induction ids generalizing k with
  | nil => rfl
  | cons n ids ih =>
    rw [List.zipIdx_cons, List.map_cons, lookUp, List.findSome?_cons, List.findIdx?_cons, Arm.find?]
    cases hits n with
    | true => simp only [if_true, readInt?_nat, Option.map_some, Nat.zero_add]
    | false =>
      rw [if_neg Bool.false_ne_true, if_neg Bool.false_ne_true, Option.map_map]
      refine (ih (k + 1)).trans (congrArg (Option.map · _) ?_)
      funext i
      show ((i + (k + 1) : ℕ) : ℤ) = ((i + 1 + k : ℕ) : ℤ)
      congr 1
      omega

theorem lookUp_indexed (ids : List String) :
    lookUp hits readInt? (indexed .maps ids) = (ids.findIdx? hits).map Nat.cast :=
  lookUp_zipIdx ids 0

/-! ## Cases for everything -/

/-- Without the mark for everything among them, all members have cases of their own. -/
theorem indexed_ofPattern (h : "_" ∉ ids) : indexed .ofPattern ids = indexed .maps ids := by
  refine List.map_congr_left fun p hp => ?_
  have hne : p.1 ≠ "_" := ne_of_mem_of_not_mem (List.fst_mem_of_mem_zipIdx hp) h
  exact congrFun (Arm.ofPattern_of_ne hne) _

theorem indexed_append_mark :
    indexed .ofPattern (front ++ "_" :: back) = indexed .ofPattern front ++
      .every (toString front.length) ::
        (back.zipIdx (front.length + 1)).map fun p => .ofPattern p.1 (toString p.2) := by
  rw [indexed, List.zipIdx_append, List.map_append, Nat.zero_add, List.zipIdx_cons, List.map_cons]
  rfl

/-- **The mark for everything hides what follows it.** What is found has a case before it or is found
there. -/
theorem lookUp_mark (hmark : "_" ∉ front) (others : List Arm) :
    lookUp hits readInt? (indexed .ofPattern (front ++ "_" :: back) ++ others) =
      some (front.findIdx hits : ℤ) := by
  have hfront : lookUp hits readInt? (indexed .maps front) = (front.findIdx? hits).map Nat.cast :=
    lookUp_indexed front
  rw [lookUp] at hfront
  rw [indexed_append_mark, indexed_ofPattern hmark, List.append_assoc, lookUp, List.findSome?_append,
    hfront]
  cases hfound : front.findIdx? hits with
  | none =>
    rw [List.findIdx?_eq_none_iff_findIdx_eq] at hfound
    rw [hfound, Option.map_none, Option.none_or, List.cons_append, List.findSome?_cons, Arm.find?,
      readInt?_nat]
  | some i =>
    rw [(List.findIdx?_eq_some_iff_findIdx_eq.1 hfound).2]
    rfl

/-! ## Cases for indices -/

section Located

variable {α : Type} {result? : String → Option α} {i : ℤ} {x : α}

theorem lookUp_zipIdx_eq_some_iff (ids : List String) (k : ℕ) :
    lookUp (readInt? · = some i) result?
        ((ids.zipIdx k).map fun p => .maps (toString p.2) p.1) = some x ↔
      ∃ n : ℕ, ((n + k : ℕ) : ℤ) = i ∧ ∃ id, ids[n]? = some id ∧ result? id = some x := by
  induction ids generalizing k with
  | nil => simp [lookUp]
  | cons m ids ih =>
    -- the members after the first have other indices
    have hrest : lookUp (readInt? · = some i) result?
        ((ids.zipIdx (k + 1)).map fun p => .maps (toString p.2) p.1) = some x ↔
          ∃ n : ℕ, ((n + 1 + k : ℕ) : ℤ) = i ∧ ∃ id, (m :: ids)[n + 1]? = some id ∧
            result? id = some x := by
      rw [ih (k + 1)]
      simp only [List.getElem?_cons_succ]
      refine exists_congr fun n => and_congr_left' ?_
      rw [show n + (k + 1) = n + 1 + k by omega]
    rw [List.zipIdx_cons, List.map_cons, lookUp, List.findSome?_cons, Arm.find?, readInt?_nat,
      ← Nat.or_exists_add_one, ← hrest, lookUp]
    by_cases hi : (k : ℤ) = i
    · subst hi
      have hlater := mt hrest.1 (by rintro ⟨n, hn, -⟩; omega)
      rw [lookUp] at hlater
      rw [or_iff_left hlater]
      cases hm : result? m with
      | none => simpa [hm] using hlater
      | some y => simp [hm]
    · simp [hi]

theorem lookUp_located_eq_some_iff :
    lookUp (readInt? · = some i) result? (located ids) = some x ↔
      ∃ n : ℕ, (n : ℤ) = i ∧ ∃ id, ids[n]? = some id ∧ result? id = some x :=
  lookUp_zipIdx_eq_some_iff ids 0

end Located

end Outline

/-! ## Members and names -/

/-- What is looked up: a member of its own, or a value. -/
inductive Thing where
  | member (name : String)
  | value (x : Scalar)
  deriving DecidableEq

/-- The look-ups of an enum. -/
inductive Search where
  | index
  | value

/-- The name of what is looked up. -/
def Search.parameter : Search → String
  | index => "value"
  | value => "index"

/-- The name that objects have for their prototype. -/
def TypeScript.prototype : String := "__proto__"

namespace Target

/-- Members are looked up by their values. In the other targets a member is no value. -/
def compares : Target → Bool
  | go | csharp | typescript => true
  | rust | dart => false

/-- The names of a member and its enum under which nothing is declared. -/
def Void (t : Target) (e : EnumDecl) (m : Member) : Prop :=
  t.dialect.title e.name ∈ t.keywords ∨ match t with
    | rust => e.name = "_" ∨ m.name = "_"
    | go => e.name = "_"
    | typescript => m.name = TypeScript.prototype
    | csharp | dart => False

instance (t : Target) (e : EnumDecl) (m : Member) : Decidable (t.Void e m) := by
  cases t <;> unfold Void <;> infer_instance

/-- What a member is, unless nothing is declared under its name or its value cannot be read. -/
def thing? (t : Target) (e : EnumDecl) (m : Member) : Option Thing :=
  if t.Void e m then none
  else if t.compares then (t.scalar? e.type (t.dialect.literal e.type m.value)).map .value
  else some (.member (t.dialect.variant e m))

/-- What is declared under the name of a member. -/
def declared? (t : Target) (e : EnumDecl) (n : String) : Option Thing :=
  (e.members.find? fun m => t.dialect.variant e m = n).bind (t.thing? e)

/-- What can be looked up in an enum. -/
def Holds (t : Target) (e : EnumDecl) : Thing → Prop
  | .member _ => t.compares = false
  | .value x => t.compares = true ∧ match x with
    | .text _ => e.type = .string
    | .truth _ => e.type = .bool
    | .number _ => (t.precision? e.type).isSome
    | .integer _ => e.type.isInteger ∧ t.precision? e.type = none

section Scope

variable (t : Target) (e : EnumDecl) (c : ChoiceOutline)

/-- The names that are found before those of a file where a look-up names the members: parameters, what
stands in one class with the look-ups, and words that mean something else there. -/
def near : Search → List String :=
  match t with
  | rust => fun _ => []
  | go => fun k => [k.parameter]
  | csharp => fun
    | .index => if e.type.isInteger then ["IndexOf", "ValueAt"] else ["value", "not"]
    | .value => if e.type.isInteger then ["index", "IndexOf", "ValueAt"] else ["index"]
  | dart => fun k => k.parameter :: ["value", "values", "fromValue", "indexOf", "valueAt"] ++ c.members
  | typescript => fun k => [k.parameter, "arguments"]

/-- The name that a reference to a member begins with. -/
def leading (n : String) : String :=
  match t with
  | go => n
  | csharp => if e.type.isInteger then c.name else n
  | rust | dart | typescript => c.name

/-- What a parameter gives in place of a member that it hides. An index is converted to a number. -/
def captured? (i : ℤ) : Option Thing :=
  match t with
  | csharp => (csharp.precision? e.type).map fun P => .value (.number (P.round i))
  | _ => none

/-- The index of what is looked up. A name that is hidden is that of no member. -/
def indexOf? (x : Thing) : Option ℤ :=
  lookUp (fun n => t.leading e c n ∉ t.near e c .index ∧ t.declared? e n = some x) readInt? c.index

/-- What is at an index. A parameter that is called like a constant of the file is none in Rust. -/
def valueAt? (constants : List String) (i : ℤ) : Option Thing :=
  if t = rust ∧ Search.value.parameter ∈ constants then none
  else lookUp (readInt? · = some i)
    (fun n => if t.leading e c n ∈ t.near e c .value then t.captured? e i else t.declared? e n) c.value

/-- All members are found at their indices, and nothing else is found. -/
def FindsIndices : Prop :=
  ∃ xs : List Thing, e.members.map (t.thing? e) = xs.map some ∧
    ∀ x, t.Holds e x → ∀ i, t.indexOf? e c x = some i ↔ ∃ n : ℕ, (n : ℤ) = i ∧ xs[n]? = some x

/-- All indices have their members, and there is nothing else. -/
def FindsMembers (constants : List String) : Prop :=
  ∃ xs : List Thing, e.members.map (t.thing? e) = xs.map some ∧
    ∀ i x, t.valueAt? e c constants i = some x ↔ ∃ n : ℕ, (n : ℤ) = i ∧ xs[n]? = some x

end Scope

end Target

/-! ## Lists that are searched -/

section Lists

variable {α β : Type} {as : List α} {found real : α → Option β}

theorem getElem?_eq_some_iff_of_map {xs : List β} (h : as.map real = xs.map some) (n : ℕ) (x : β) :
    xs[n]? = some x ↔ ∃ hn : n < as.length, real as[n] = some x := by
  have hn : as[n]?.map real = xs[n]?.map some := by
    rw [← List.getElem?_map, h, List.getElem?_map]
  by_cases hlt : n < as.length
  · rw [List.getElem?_eq_getElem hlt, Option.map_some] at hn
    cases hx : xs[n]? with
    | none => simp [hx] at hn
    | some y => simp_all
  · rw [List.getElem?_eq_none (by omega), Option.map_none] at hn
    rw [Option.map_eq_none_iff.1 hn.symm]
    simp [hlt]

theorem exists_getElem?_of_map {xs : List β} (h : as.map real = xs.map some) {n : ℕ}
    (hn : n < as.length) : ∃ x, xs[n]? = some x ∧ real as[n] = some x := by
  have hlength : n < xs.length := by
    have := congrArg List.length h
    simp only [List.length_map] at this
    omega
  have hx := List.getElem?_eq_getElem hlength
  exact ⟨_, hx, ((getElem?_eq_some_iff_of_map h n _).1 hx).2⟩

theorem ne_none_of_map {xs : List β} (h : as.map real = xs.map some) : ∀ a ∈ as, real a ≠ none := by
  intro a ha hnone
  have hmem : none ∈ xs.map some := h ▸ hnone ▸ List.mem_map_of_mem ha
  simp at hmem

theorem findIdx?_congr {p q : α → Bool} (h : ∀ a ∈ as, p a = q a) : as.findIdx? p = as.findIdx? q := by
  induction as with
  | nil => rfl
  | cons a as ih =>
    rw [List.findIdx?_cons, List.findIdx?_cons, h a List.mem_cons_self,
      ih fun b hb => h b (List.mem_cons_of_mem _ hb)]

theorem exists_map_some (h : ∀ a ∈ as, real a ≠ none) : ∃ xs : List β, as.map real = xs.map some := by
  induction as with
  | nil => exact ⟨[], rfl⟩
  | cons a as ih =>
    obtain ⟨xs, hxs⟩ := ih fun b hb => h b (List.mem_cons_of_mem _ hb)
    obtain ⟨x, hx⟩ := Option.ne_none_iff_exists'.1 (h a List.mem_cons_self)
    exact ⟨x :: xs, by rw [List.map_cons, List.map_cons, hx, hxs]⟩

theorem eq_singleton_of_length_append {front back : List α} {a : α}
    (h : (front ++ a :: back).length = 2) (hne : front ≠ []) : ∃ b, front = [b] ∧ back = [] := by
  have hpos := List.length_pos_iff.2 hne
  rw [List.length_append, List.length_cons] at h
  obtain ⟨b, hb⟩ := List.length_eq_one_iff.1 (show front.length = 1 by omega)
  exact ⟨b, hb, List.length_eq_zero_iff.1 (by omega)⟩

/-- A search by first match finds every element at its place exactly if every element is what is found
there and no two elements are the same. -/
theorem finds_first_iff [DecidableEq β] {holds : β → Prop}
    (hholds : ∀ a ∈ as, ∀ x, real a = some x → holds x) :
    (∃ xs : List β, as.map real = xs.map some ∧ ∀ x, holds x → ∀ n,
        as.findIdx? (fun a => found a = some x) = some n ↔ xs[n]? = some x) ↔
      (∀ a ∈ as, real a ≠ none) ∧ (∀ a ∈ as, found a = real a) ∧
        as.Pairwise fun a b => real a ≠ real b := by
  constructor
  · rintro ⟨xs, hxs, hfinds⟩
    have hreal : ∀ n (hn : n < as.length), ∃ x, real as[n] = some x ∧
        as.findIdx? (fun a => found a = some x) = some n := by
      intro n hn
      obtain ⟨x, hx, hreal⟩ := exists_getElem?_of_map hxs hn
      exact ⟨x, hreal, (hfinds _ (hholds _ (List.getElem_mem hn) _ hreal) n).2 hx⟩
    refine ⟨ne_none_of_map hxs, fun a ha => ?_,
      List.pairwise_iff_getElem.2 fun j k hj hk hjk heq => ?_⟩
    · obtain ⟨n, hn, rfl⟩ := List.getElem_of_mem ha
      obtain ⟨x, hx, hn'⟩ := hreal n hn
      obtain ⟨_, hseen, -⟩ := List.findIdx?_eq_some_iff_getElem.1 hn'
      exact (of_decide_eq_true hseen).trans hx.symm
    · obtain ⟨x, hx, hj'⟩ := hreal j hj
      obtain ⟨y, hy, hk'⟩ := hreal k hk
      obtain rfl : x = y := Option.some.inj (hx.symm.trans (heq.trans hy))
      exact hjk.ne (Option.some.inj (hj'.symm.trans hk'))
  · rintro ⟨hsome, hseen, hapart⟩
    obtain ⟨xs, hxs⟩ := exists_map_some hsome
    refine ⟨xs, hxs, fun x _ n => ?_⟩
    rw [getElem?_eq_some_iff_of_map hxs, List.findIdx?_eq_some_iff_getElem]
    refine exists_congr fun hn => ?_
    simp only [decide_eq_true_eq, hseen _ (List.getElem_mem _)]
    refine and_iff_left_of_imp fun hx j hj heq => ?_
    exact List.pairwise_iff_getElem.1 hapart j n _ hn hj (heq.trans hx.symm)

end Lists

/-! ## Truth values -/

theorem eq_bool_of_fit {v : Literal} (h : Primitive.bool.fit v = .ok ()) : ∃ b, v = .bool b := by
  cases v with
  | bool b => exact ⟨b, rfl⟩
  | _ => cases h

theorem EnumDecl.Distinct.length_eq_two_iff {e : EnumDecl} (h : e.Distinct) (htype : e.type = .bool) :
    e.members.length = 2 ↔ ∀ b, .bool b ∈ e.members.map Member.value := by
  have hrange : e.members.map Member.value ∈ Set.range (List.map Literal.bool) := by
    rw [Set.range_list_map]
    show ∀ v ∈ _, v ∈ Set.range _
    rw [List.forall_mem_map]
    intro m hm
    obtain ⟨b, hb⟩ := eq_bool_of_fit (htype ▸ h.1 m hm)
    exact ⟨b, hb.symm⟩
  obtain ⟨bs, hbs⟩ := hrange
  have hnodup : bs.Nodup := by
    have hpair : (e.members.map Member.value).Pairwise fun v w => v.same w = false :=
      List.pairwise_map.2 h.2
    rw [← hbs, List.pairwise_map] at hpair
    exact hpair.imp fun hne heq => by simp [Literal.same, heq] at hne
  have hlength : e.members.length = bs.toFinset.card := by
    rw [List.toFinset_card_of_nodup hnodup, ← List.length_map (f := Literal.bool), hbs,
      List.length_map]
  have hmem : ∀ b, .bool b ∈ e.members.map Member.value ↔ b ∈ bs.toFinset := by
    intro b
    rw [← hbs, List.mem_toFinset]
    simp
  rw [hlength, forall_congr' hmem, ← Finset.eq_univ_iff_forall, ← Finset.card_eq_iff_eq_univ,
    Fintype.card_bool]

/-! ## Members -/

namespace Target

section Members

variable {t : Target} {e : EnumDecl} {m : Member}

theorem thing?_eq (hfit : e.type.fit m.value = .ok ()) :
    t.thing? e m = if t.Void e m then none
      else if t.compares then
        if t.Legible m.value then some (.value (t.value e.type m.value)) else none
      else some (.member (t.dialect.variant e m)) := by
  rw [thing?, scalar?_literal hfit]
  split_ifs <;> rfl

theorem thing?_number {P : Precision} (hP : t.precision? e.type = some P) (hcompares : t.compares = true)
    (hfit : e.type.fit m.value = .ok ()) (hvoid : ¬ t.Void e m) (hlegible : t.Legible m.value) :
    t.thing? e m = some (.value (.number (P.round m.value.exact))) := by
  rw [thing?_eq hfit, if_neg hvoid, if_pos hcompares, if_pos hlegible, value_of_precision hP hfit]

theorem thing?_ne_none_iff (hfit : e.type.fit m.value = .ok ()) :
    t.thing? e m ≠ none ↔ ¬ t.Void e m ∧ (t.compares = true → t.Legible m.value) := by
  rw [thing?_eq hfit]
  split_ifs <;> simp_all

theorem isInteger_of_fit {p : Primitive} {i : Int64} (hp : p.isFloat = false)
    (h : p.fit (.int i) = .ok ()) : p.isInteger = true := by
  simp only [Primitive.fit] at h
  rw [Primitive.isInteger]
  cases hrange : p.range? with
  | some r => rfl
  | none => simp [hrange, hp] at h

theorem holds_thing (hfit : e.type.fit m.value = .ok ()) {x : Thing} (hx : t.thing? e m = some x) :
    t.Holds e x := by
  rw [thing?_eq hfit] at hx
  split_ifs at hx with hvoid hcompares hlegible
  · obtain rfl := Option.some.inj hx
    refine ⟨hcompares, ?_⟩
    obtain ⟨hstring, hbool⟩ := fit_kind hfit
    cases hP : t.precision? e.type with
    | some P =>
      rw [value_of_precision hP hfit]
      exact Option.isSome_some
    | none =>
      cases hv : m.value with
      | string s => exact hstring.2 (by rw [hv]; rfl)
      | bool b => exact hbool.2 (by rw [hv]; rfl)
      | float y =>
        obtain ⟨P, hsome⟩ := exists_precision (t := t) (within_of_fit (hv ▸ hfit)).1
        rw [hP] at hsome
        cases hsome
      | int i =>
        have hfloat : e.type.isFloat = false := by
          by_contra hfloat
          obtain ⟨P, hsome⟩ := exists_precision (t := t) (by simpa using hfloat)
          rw [hP] at hsome
          cases hsome
        simp only [value, hP, and_true]
        exact isInteger_of_fit hfloat (hv ▸ hfit)
  · obtain rfl := Option.some.inj hx
    simpa [Holds] using hcompares

theorem declared?_variant (hnodup : (e.members.map (t.dialect.variant e)).Nodup) (hm : m ∈ e.members) :
    t.declared? e (t.dialect.variant e m) = t.thing? e m := by
  have hfind : e.members.find? (fun a => t.dialect.variant e a = t.dialect.variant e m) = some m := by
    cases h : e.members.find? fun a => t.dialect.variant e a = t.dialect.variant e m with
    | none => exact absurd (List.find?_eq_none.1 h m hm) (by simp)
    | some a =>
      have hname : t.dialect.variant e a = t.dialect.variant e m := by simpa using List.find?_some h
      rw [List.inj_on_of_nodup_map hnodup (List.mem_of_find?_eq_some h) hm hname]
  rw [declared?, hfind, Option.bind_some]

/-- Members that are looked up by their values are told apart unless their values are alike. -/
theorem pairwise_thing?_iff (hdistinct : e.Distinct)
    (hnodup : (e.members.map (t.dialect.variant e)).Nodup)
    (hsome : ∀ m ∈ e.members, t.thing? e m ≠ none) :
    e.members.Pairwise (fun a b => t.thing? e a ≠ t.thing? e b) ↔
      (t.compares = true → e.members.Pairwise fun a b => ¬ t.Alike e.type a.value b.value) := by
  have hfit := hdistinct.1
  cases hcompares : t.compares with
  | false =>
    refine iff_of_true ?_ (by simp)
    rw [List.Nodup, List.pairwise_map] at hnodup
    refine hnodup.imp_of_mem fun {a b} ha hb hne heq => hne ?_
    have ha' := hsome a ha
    have hb' := hsome b hb
    rw [thing?_eq (hfit a ha), thing?_eq (hfit b hb), hcompares] at heq
    rw [thing?_ne_none_iff (hfit a ha)] at ha'
    rw [thing?_ne_none_iff (hfit b hb)] at hb'
    simpa [ha'.1, hb'.1] using heq
  | true =>
    rw [forall_prop_of_true rfl]
    have hpair : ∀ a ∈ e.members, ∀ b ∈ e.members, a.value.same b.value = false →
        (t.thing? e a ≠ t.thing? e b ↔ ¬ t.Alike e.type a.value b.value) := by
      intro a ha b hb hne
      have ha' := (thing?_ne_none_iff (hfit a ha)).1 (hsome a ha)
      have hb' := (thing?_ne_none_iff (hfit b hb)).1 (hsome b hb)
      rw [thing?_eq (hfit a ha), thing?_eq (hfit b hb), hcompares, if_neg ha'.1, if_neg hb'.1,
        if_pos rfl, if_pos rfl, if_pos (ha'.2 hcompares), if_pos (hb'.2 hcompares),
        ← value_eq_iff (hfit a ha) (hfit b hb) hne]
      simp
    rw [List.pairwise_iff_getElem, List.pairwise_iff_getElem]
    exact forall₅_congr fun i j hi hj hij => hpair _ (List.getElem_mem hi) _ (List.getElem_mem hj)
      (hdistinct.same_eq_false hi hj hij.ne)

end Members

/-- A member is written like the mark for everything. This takes a member that is called so, in a target
that leaves out the name of the enum before it. -/
def Blurs : Target → EnumDecl → Prop
  | csharp, e => e.type.isInteger = false ∧ e.name ≠ "_" ∧ "_" ∈ e.members.map Member.name
  | _, _ => False

instance (t : Target) (e : EnumDecl) : Decidable (t.Blurs e) :=
  match t with
  | .csharp => inferInstanceAs (Decidable (_ ∧ _))
  | .rust => .isFalse id
  | .go => .isFalse id
  | .dart => .isFalse id
  | .typescript => .isFalse id

theorem Blurs.compares {t : Target} {e : EnumDecl} (h : t.Blurs e) : t.compares = true := by
  cases t with
  | csharp => rfl
  | _ => exact h.elim

theorem Blurs.leading_not_mem {t : Target} {e : EnumDecl} {c : ChoiceOutline} (h : t.Blurs e) :
    t.leading e c "_" ∉ t.near e c .index := by
  cases t with
  | csharp => simp [leading, near, h.1]
  | _ => exact h.elim

/-- There are infinitely many texts and numbers. -/
theorem exists_holds_not_mem {t : Target} {e : EnumDecl} (hblurs : t.Blurs e) (htype : e.type ≠ .bool)
    (xs : List Thing) : ∃ x, t.Holds e x ∧ x ∉ xs := by
  have hinfinite : ∀ {α : Type} [Infinite α] (f : α → Thing), Function.Injective f →
      (∀ a, t.Holds e (f a)) → ∃ x, t.Holds e x ∧ x ∉ xs := by
    intro α _ f hf hholds
    obtain ⟨x, ⟨a, rfl⟩, hnew⟩ :=
      (Set.infinite_range_of_injective hf).exists_notMem_finset xs.toFinset
    exact ⟨f a, hholds a, by simpa using hnew⟩
  have hnumber : Function.Injective fun k : ℤ => Thing.value (.number (.finite k)) :=
    fun _ _ h => by simpa using h
  have htext : Function.Injective fun s : String => Thing.value (.text s) :=
    fun _ _ h => by simpa using h
  cases t with
  | csharp =>
    cases hp : e.type with
    | bool => exact absurd hp htype
    | string => exact hinfinite _ htext fun _ => by simp [Holds, compares, hp]
    | float32 => exact hinfinite _ hnumber fun _ => by simp [Holds, compares, hp, precision?]
    | float64 => exact hinfinite _ hnumber fun _ => by simp [Holds, compares, hp, precision?]
    | _ => simp [Blurs, hp, Primitive.isInteger, Primitive.range?] at hblurs
  | _ => exact hblurs.elim

theorem holds_truth {t : Target} {e : EnumDecl} (hcompares : t.compares = true) (htype : e.type = .bool)
    {x : Thing} : t.Holds e x ↔ ∃ b, x = .value (.truth b) := by
  cases x with
  | member n => simp [Holds, hcompares]
  | value x =>
    cases x with
    | text s => simp [Holds, htype]
    | truth b => simp [Holds, hcompares, htype]
    | number y => simp [Holds, htype, precision?_bool]
    | integer i => simp [Holds, htype, Primitive.isInteger, Primitive.range?]

theorem value_eq_bool {t : Target} {e : EnumDecl} {m : Member} {b : Bool}
    (hfit : e.type.fit m.value = .ok ()) (hm : t.thing? e m = some (.value (.truth b))) :
    m.value = .bool b := by
  rw [thing?_eq hfit] at hm
  split_ifs at hm
  · have hvalue : t.value e.type m.value = .truth b := by simpa using hm
    cases hv : m.value with
    | bool b' => simpa [hv, value] using hvalue
    | _ => cases hP : t.precision? e.type <;> simp [hv, value, hP] at hvalue
  · cases hm

theorem exists_truth {t : Target} {e : EnumDecl} {m : Member} (hcompares : t.compares = true)
    (htype : e.type = .bool) (hfit : e.type.fit m.value = .ok ()) (hm : t.thing? e m ≠ none) :
    ∃ b, t.thing? e m = some (.value (.truth b)) := by
  obtain ⟨x, hx⟩ := Option.ne_none_iff_exists'.1 hm
  obtain ⟨b, rfl⟩ := (holds_truth hcompares htype).1 (holds_thing hfit hx)
  exact ⟨b, hx⟩

theorem length_eq_two_of_truths {t : Target} {e : EnumDecl} (hdistinct : e.Distinct)
    (htype : e.type = .bool) {xs : List Thing} (hxs : e.members.map (t.thing? e) = xs.map some)
    (h : ∀ b, .value (.truth b) ∈ xs) : e.members.length = 2 := by
  rw [hdistinct.length_eq_two_iff htype]
  intro b
  obtain ⟨m, hm, hthing⟩ : ∃ m ∈ e.members, t.thing? e m = some (.value (.truth b)) := by
    rw [← List.mem_map, hxs]
    exact List.mem_map_of_mem (h b)
  exact List.mem_map.2 ⟨m, hm, value_eq_bool (hdistinct.1 m hm) hthing⟩

theorem getElem?_truths {b b' : Bool} (hne : b ≠ b') (d : Bool) (n : ℕ) :
    [Thing.value (.truth b), .value (.truth b')][n]? = some (.value (.truth d)) ↔
      n = if b = d then 0 else 1 := by
  rcases n with _ | _ | n
  · simp
  · cases b <;> cases b' <;> cases d <;> simp at hne ⊢
  · by_cases hbd : b = d <;> simp [hbd]

/-- Only numbers are alike. -/
theorem pairwise_not_alike {t : Target} {p : Primitive} (hp : p = .bool) (ms : List Member) :
    ms.Pairwise fun a b => ¬ t.Alike p a.value b.value := by
  refine List.pairwise_of_forall ?_
  rintro _ _ ⟨P, hP, -⟩
  simp [hp, precision?_bool] at hP

/-! ## Look-ups -/

section LookUps

variable {t : Target} {e : EnumDecl} {c : ChoiceOutline}

theorem forall_cast_iff {o : Option ℕ} {at_ : ℕ → Prop} :
    (∀ i : ℤ, o.map Nat.cast = some i ↔ ∃ n : ℕ, (n : ℤ) = i ∧ at_ n) ↔ ∀ n, o = some n ↔ at_ n := by
  constructor
  · intro h n
    simpa using h n
  · intro h i
    simp only [Option.map_eq_some_iff, h, and_comm]

section Names

variable (hmembers : c.members = e.members.map (t.dialect.variant e))
  (hnodup : (e.members.map (t.dialect.variant e)).Nodup) (hdistinct : e.Distinct)

include hmembers hnodup

theorem findIdx?_members (x : Thing) :
    c.members.findIdx? (fun n => t.leading e c n ∉ t.near e c .index ∧ t.declared? e n = some x) =
      e.members.findIdx? fun m =>
        (if t.leading e c (t.dialect.variant e m) ∈ t.near e c .index then none else t.thing? e m) =
          some x := by
  rw [hmembers, List.findIdx?_map]
  refine findIdx?_congr fun m hm => ?_
  rw [Function.comp_apply, declared?_variant hnodup hm, decide_eq_decide]
  split_ifs with hhidden <;> simp [hhidden]

include hdistinct

/-- **The index of every member is found** exactly if all members are declared, none is hidden and no two
that are looked up by their values are one number. -/
theorem findsIndices_iff {q : Prop} [Decidable q]
    (hindex : c.index = indexed .maps c.members ++ if q then [] else [.fails]) :
    t.FindsIndices e c ↔ (∀ m ∈ e.members, ¬ t.Void e m ∧ (t.compares = true → t.Legible m.value)) ∧
      (∀ n ∈ c.members, t.leading e c n ∉ t.near e c .index) ∧
      (t.compares = true → e.members.Pairwise fun a b => ¬ t.Alike e.type a.value b.value) := by
  have hindexOf : ∀ x, t.indexOf? e c x = (e.members.findIdx? fun m =>
      (if t.leading e c (t.dialect.variant e m) ∈ t.near e c .index then none else t.thing? e m) =
        some x).map Nat.cast := by
    intro x
    rw [indexOf?, hindex, lookUp_append_fails, lookUp_indexed, findIdx?_members hmembers hnodup]
  simp only [FindsIndices, hindexOf, forall_cast_iff]
  rw [finds_first_iff fun m hm x => holds_thing (hdistinct.1 m hm)]
  rw [← forall₂_congr fun m hm => thing?_ne_none_iff (hdistinct.1 m hm)]
  refine and_congr_right fun hsome => and_congr ?_ (pairwise_thing?_iff hdistinct hnodup hsome)
  rw [hmembers, List.forall_mem_map]
  refine forall₂_congr fun m hm => ?_
  split_ifs with hhidden
  · exact iff_of_false (hsome m hm).symm fun h => h hhidden
  · exact iff_of_true rfl hhidden

/-- **The member at every index is found** exactly if all members are declared and the hidden ones are what
the parameter is converted to. -/
theorem findsMembers_iff (hvalue : c.value = located c.members ++ [.fails]) (hne : e.members ≠ [])
    (constants : List String) :
    t.FindsMembers e c constants ↔
      (∀ m ∈ e.members, ¬ t.Void e m ∧ (t.compares = true → t.Legible m.value)) ∧
      ¬ (t = rust ∧ Search.value.parameter ∈ constants) ∧
      ∀ n (hn : n < e.members.length), t.leading e c (t.dialect.variant e e.members[n]) ∈ t.near e c .value →
        t.captured? e n = t.thing? e e.members[n] := by
  have hvalueAt : ∀ i x, t.valueAt? e c constants i = some x ↔
      ¬ (t = rust ∧ Search.value.parameter ∈ constants) ∧ ∃ n : ℕ, (n : ℤ) = i ∧
        ∃ hn : n < e.members.length,
          (if t.leading e c (t.dialect.variant e e.members[n]) ∈ t.near e c .value then t.captured? e n
            else t.thing? e e.members[n]) = some x := by
    intro i x
    rw [valueAt?, hvalue, lookUp_fails]
    split_ifs with hconstant
    · exact iff_of_false (by simp) fun h => h.1 hconstant
    · rw [lookUp_located_eq_some_iff, and_iff_right hconstant]
      refine exists_congr fun n => and_congr_right ?_
      rintro rfl
      by_cases hn : n < e.members.length
      · have hname : c.members[n]? = some (t.dialect.variant e e.members[n]) := by
          rw [hmembers, List.getElem?_map, List.getElem?_eq_getElem hn, Option.map_some]
        simp [hname, hn, declared?_variant hnodup (List.getElem_mem hn)]
      · have hname : c.members[n]? = none := by
          rw [hmembers, List.getElem?_map, List.getElem?_eq_none (by omega), Option.map_none]
        simp [hname, hn]
  rw [← forall₂_congr fun m hm => thing?_ne_none_iff (t := t) (hdistinct.1 m hm)]
  simp only [FindsMembers, hvalueAt]
  constructor
  · rintro ⟨xs, hxs, hfinds⟩
    refine ⟨ne_none_of_map hxs, ?_, fun n hn hhidden => ?_⟩
    · obtain ⟨x, hx, -⟩ := exists_getElem?_of_map hxs (List.length_pos_iff.2 hne)
      exact ((hfinds _ x).2 ⟨0, rfl, hx⟩).1
    · obtain ⟨x, hn', hx⟩ := exists_getElem?_of_map hxs hn
      obtain ⟨-, k, hk, _, hgiven⟩ := (hfinds n x).2 ⟨n, rfl, hn'⟩
      obtain rfl : k = n := by exact_mod_cast hk
      rwa [if_pos hhidden, ← hx] at hgiven
  · rintro ⟨hsome, hconstant, hhidden⟩
    obtain ⟨xs, hxs⟩ := exists_map_some hsome
    refine ⟨xs, hxs, fun i x => ?_⟩
    rw [and_iff_right hconstant]
    refine exists_congr fun n => and_congr_right fun _ => ?_
    rw [getElem?_eq_some_iff_of_map hxs]
    refine exists_congr fun hn => ?_
    split_ifs with h
    · rw [hhidden n hn h]
    · rfl

end Names

/-! ## Cases for everything that find what they should -/

section Mark

variable {front back : List String} (hsplit : c.members = front ++ "_" :: back) (hmark : "_" ∉ front)
  {others : List Arm} (hindex : c.index = indexed .ofPattern c.members ++ others)
include hsplit hmark hindex

theorem indexOf?_mark (x : Thing) :
    t.indexOf? e c x = some (front.findIdx (fun n =>
      t.leading e c n ∉ t.near e c .index ∧ t.declared? e n = some x) : ℤ) := by
  rw [indexOf?, hindex, hsplit, lookUp_mark hmark]

variable (hblurs : t.Blurs e) (hmembers : c.members = e.members.map (t.dialect.variant e))
  (hdistinct : e.Distinct)
include hblurs hmembers hdistinct

/-- All that is looked up is found, and no more than two things are. -/
theorem bool_of_findsIndices (h : t.FindsIndices e c) :
    e.type = .bool ∧ ∃ n, c.members = [n, "_"] ∧ t.leading e c n ∉ t.near e c .index := by
  obtain ⟨xs, hxs, hfinds⟩ := h
  simp only [indexOf?_mark hsplit hmark hindex] at hfinds
  have hall : ∀ x, t.Holds e x → ∃ n ≤ front.length, xs[n]? = some x := by
    intro x hx
    obtain ⟨n, hn, hxn⟩ := (hfinds x hx _).1 rfl
    refine ⟨n, ?_, hxn⟩
    rw [show n = front.findIdx _ by exact_mod_cast hn]
    exact List.findIdx_le_length
  have htype : e.type = .bool := by
    by_contra htype
    obtain ⟨x, hx, hnew⟩ := exists_holds_not_mem hblurs htype xs
    obtain ⟨n, -, hn⟩ := hall x hx
    exact hnew (List.mem_of_getElem? hn)
  have htruth : ∀ b, ∃ n ≤ front.length, xs[n]? = some (.value (.truth b)) :=
    fun b => hall _ ((holds_truth hblurs.compares htype).2 ⟨b, rfl⟩)
  have hlength : e.members.length = 2 := by
    refine length_eq_two_of_truths hdistinct htype hxs fun b => ?_
    obtain ⟨n, -, hn⟩ := htruth b
    exact List.mem_of_getElem? hn
  -- the two truth values are found at two places, so that some member stands before the mark
  have hfront : front ≠ [] := by
    rintro rfl
    obtain ⟨i, hi, htrue⟩ := htruth true
    obtain ⟨j, hj, hfalse⟩ := htruth false
    rw [Nat.le_zero.1 hi] at htrue
    rw [Nat.le_zero.1 hj, htrue] at hfalse
    cases hfalse
  obtain ⟨n, rfl, rfl⟩ : ∃ n, front = [n] ∧ back = [] := by
    refine eq_singleton_of_length_append (a := "_") ?_ hfront
    rw [← hsplit, hmembers, List.length_map, hlength]
  refine ⟨htype, n, hsplit, fun hhidden => ?_⟩
  have hpos : 0 < e.members.length := by omega
  obtain ⟨x, hx, hthing⟩ := exists_getElem?_of_map hxs hpos
  have hzero := (hfinds x (holds_thing (hdistinct.1 _ (List.getElem_mem hpos)) hthing) 0).2 ⟨0, rfl, hx⟩
  simp [List.findIdx_cons, hhidden] at hzero

variable (hnodup : (e.members.map (t.dialect.variant e)).Nodup)
include hnodup

theorem findsIndices_of_bool (hsome : ∀ m ∈ e.members, t.thing? e m ≠ none) (htype : e.type = .bool)
    {n : String} (hn : c.members = [n, "_"]) (hseen : t.leading e c n ∉ t.near e c .index) :
    t.FindsIndices e c := by
  obtain ⟨m, rest, hm, rfl, hrest⟩ := List.map_eq_cons_iff.1 (hmembers.symm.trans hn)
  obtain ⟨m', rfl, hm'⟩ := List.map_eq_singleton_iff.1 hrest
  obtain ⟨hmem, hmem'⟩ : m ∈ e.members ∧ m' ∈ e.members := by simp [hm]
  obtain ⟨b, hb⟩ := exists_truth hblurs.compares htype (hdistinct.1 m hmem) (hsome m hmem)
  obtain ⟨b', hb'⟩ := exists_truth hblurs.compares htype (hdistinct.1 m' hmem') (hsome m' hmem')
  have hapart : b ≠ b' := by
    have hpair := (pairwise_thing?_iff hdistinct hnodup hsome).2 fun _ => pairwise_not_alike htype _
    simpa [hm, hb, hb'] using hpair
  obtain rfl : front = [t.dialect.variant e m] := by
    have hnames := hsplit.symm.trans hn
    have hfront : front ≠ [] := by
      rintro rfl
      rw [← hmembers, hn, ← (List.cons.inj hnames).1] at hnodup
      simp at hnodup
    obtain ⟨a, rfl, -⟩ := eq_singleton_of_length_append (congrArg List.length hnames) hfront
    rw [(List.cons.inj hnames).1]
  refine ⟨[.value (.truth b), .value (.truth b')], by simp [hm, hb, hb'], fun x hx i => ?_⟩
  obtain ⟨d, rfl⟩ := (holds_truth hblurs.compares htype).1 hx
  have hplace : [t.dialect.variant e m].findIdx (fun n => t.leading e c n ∉ t.near e c .index ∧
      t.declared? e n = some (.value (.truth d))) = if b = d then 0 else 1 := by
    simp [List.findIdx_cons, hseen, declared?_variant hnodup hmem, hb]
  rw [indexOf?_mark hsplit hmark hindex, hplace]
  simp only [getElem?_truths hapart, Option.some.injEq, exists_eq_right]

/-- Look-ups with a case for everything. Only the last of the two truth values may be written so. -/
theorem findsIndices_mark_iff :
    t.FindsIndices e c ↔ (∀ m ∈ e.members, ¬ t.Void e m ∧ (t.compares = true → t.Legible m.value)) ∧
      (∀ n ∈ c.members, t.leading e c n ∉ t.near e c .index) ∧
      e.type = .bool ∧ ∃ n, c.members = [n, "_"] := by
  rw [← forall₂_congr fun m hm => thing?_ne_none_iff (t := t) (hdistinct.1 m hm)]
  constructor
  · intro h
    obtain ⟨htype, n, hn, hseen⟩ :=
      bool_of_findsIndices hsplit hmark hindex hblurs hmembers hdistinct h
    obtain ⟨xs, hxs, -⟩ := h
    refine ⟨ne_none_of_map hxs, ?_, htype, n, hn⟩
    rw [hn]
    simpa [hblurs.leading_not_mem] using hseen
  · rintro ⟨hsome, hseen, htype, n, hn⟩
    exact findsIndices_of_bool hsplit hmark hindex hblurs hmembers hdistinct hnodup hsome htype hn
      (hseen n (by simp [hn]))

end Mark

end LookUps

end Target

end Idl
