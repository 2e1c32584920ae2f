import Mathlib
import Idl.Proofs.Outline.Constants
import Idl.Proofs.Outline.Dispatch

/-!
# Look-ups of enums

* `Target.Exhausts`: the enums whose members are all that can be looked up.
* `Describes`: what source text says about an enum.
* `Target.ClearIndices`, `Target.ClearMembers`: the enums whose look-ups find what they should. Names
  are hidden in others, or two members are one number, or a member is written like the mark for
  everything.
* **`describes_enums`**: source text for a compiled schema describes every enum.
-/

namespace Idl

open Outline Grammar

/-! ## Source text -/

/-- The members of an enum are all that its look-up of an index is asked for. Only in some targets can
the compiler tell. -/
def Target.Exhausts : Target → EnumDecl → Prop
  | rust, _ => True
  | dart, _ => True
  | csharp, e => e.type = .bool ∧ ∀ b, .bool b ∈ e.members.map Member.value
  | go, _ => False
  | typescript, _ => False

instance (t : Target) (e : EnumDecl) : Decidable (t.Exhausts e) :=
  match t with
  | .rust => .isTrue trivial
  | .dart => .isTrue trivial
  | .csharp => inferInstanceAs (Decidable (_ ∧ _))
  | .go => .isFalse id
  | .typescript => .isFalse id

theorem CSharp.isExhaustive_eq {e : EnumDecl} (h : e.Distinct) :
    isExhaustive (dialect.choice e) = decide (Target.csharp.Exhausts e) := by
  rw [isExhaustive, Dialect.choice, List.length_map, Bool.eq_iff_iff, Bool.and_eq_true,
    decide_eq_true_iff, decide_eq_true_iff, decide_eq_true_iff]
  exact and_congr_right h.length_eq_two_iff

namespace CSharp

theorem verbatim_eq_mark_iff {n : String} : verbatim n = "_" ↔ n = "_" := by
  unfold verbatim
  split
  · rename_i hn
    refine iff_of_false ?_ ?_
    · intro heq
      have hhead := congrArg (fun x => x.toList.head?) heq
      simp at hhead
    · rintro rfl
      exact absurd hn (by decide)
  · rfl

/-- A member is written like the mark if it is called so and not set apart from its enum. -/
theorem variant_eq_mark_iff {e : EnumDecl} {m : Member} (hm : IsWord m.name.toList) :
    dialect.variant e m = "_" ↔ m.name = "_" ∧ e.name ≠ "_" := by
  have hitems : "_" ∉ enumItems e := by
    unfold enumItems
    split <;> decide
  have hlong : "_" ≠ m.name ++ "_" := by
    intro heq
    have hlength := congrArg String.length heq
    rw [String.length_append, right_eq_add] at hlength
    exact hm.1 (by simpa using hlength)
  show verbatim (avoid (e.name :: enumItems e) m.name) = "_" ↔ _
  rw [verbatim_eq_mark_iff, avoid_eq_iff, or_iff_right fun h => hlong h.2, List.mem_cons]
  constructor
  · rintro ⟨hfree, hname⟩
    exact ⟨hname.symm, fun he => hfree (.inl (hname.symm.trans he.symm))⟩
  · rintro ⟨hname, he⟩
    rw [hname, not_or]
    exact ⟨⟨he.symm, hitems⟩, rfl⟩

/-- The names of a schema decide whether a member is written like the mark. -/
theorem mark_mem_variants_iff {e : EnumDecl} (hwords : ∀ m ∈ e.members, IsWord m.name.toList) :
    "_" ∈ e.members.map (dialect.variant e) ↔ e.name ≠ "_" ∧ "_" ∈ e.members.map Member.name := by
  simp only [List.mem_map]
  constructor
  · rintro ⟨m, hm, heq⟩
    obtain ⟨hname, he⟩ := (variant_eq_mark_iff (hwords m hm)).1 heq
    exact ⟨he, m, hm, hname⟩
  · rintro ⟨he, m, hm, hname⟩
    exact ⟨m, hm, (variant_eq_mark_iff (hwords m hm)).2 ⟨hname, he⟩⟩

end CSharp

/-- The cases for the members of an enum. Each is for its member alone, unless one of them is written like
the mark. -/
def Target.arm (t : Target) (e : EnumDecl) : String → String → Arm :=
  if t.Blurs e then .ofPattern else .maps

theorem CSharp.indexed_arm {e : EnumDecl} (hwords : ∀ m ∈ e.members, IsWord m.name.toList) :
    indexed (arm (dialect.choice e)) (e.members.map (dialect.variant e)) =
      indexed (Target.csharp.arm e) (e.members.map (dialect.variant e)) := by
  rw [arm, Target.arm]
  show indexed (if e.type.isInteger then _ else _) _ = _
  by_cases hint : e.type.isInteger = true
  · have hclear : ¬ Target.csharp.Blurs e := fun h => by simp [h.1] at hint
    rw [if_pos hint, if_neg hclear]
  · rw [if_neg hint]
    split
    · rfl
    · rename_i hclear
      apply indexed_ofPattern
      rw [mark_mem_variants_iff hwords]
      exact fun h => hclear ⟨by simpa using hint, h⟩

theorem Target.choices_lines (t : Target) {s : Schema} (hs : s.Spelled)
    (hdistinct : ∀ e ∈ s.enums, e.Distinct) :
    t.choices (sourceText (t.lines s)) =
      some (s.enums.map fun e => (t.dialect.choice e).outline (t.arm e) (decide (t.Exhausts e))) := by
  cases t with
  | rust => exact Rust.choices_lines hs
  | go => exact Go.choices_lines hs
  | csharp =>
    refine (CSharp.choices_lines hs).trans (congrArg some (List.map_congr_left ?_))
    intro e he
    have hwords : ∀ m ∈ e.members, IsWord m.name.toList := (hs.entry _ (Schema.mem_enums.1 he)).2
    rw [Choice.outline, CSharp.isExhaustive_eq (hdistinct e he), Dialect.map_name_variants,
      CSharp.indexed_arm hwords, ← Dialect.map_name_variants]
    rfl
  | dart => exact Dart.choices_lines hs
  | typescript => exact TypeScript.choices_lines hs

namespace Target

section Clear

variable (t : Target) (e : EnumDecl) (c : ChoiceOutline)

/-- The look-up of indices finds what it should. -/
structure ClearIndices : Prop where
  /-- All members are declared, with values that can be read. -/
  declared : ∀ m ∈ e.members, ¬ t.Void e m ∧ (t.compares = true → t.Legible m.value)
  /-- No member is hidden. -/
  seen : ∀ n ∈ c.members, t.leading e c n ∉ t.near e c .index
  /-- No two members that are looked up by their values are one number. -/
  apart : t.compares = true → e.members.Pairwise fun a b => ¬ t.Alike e.type a.value b.value
  /-- Only the last of the two truth values may be written like the mark for everything. -/
  marked : t.Blurs e → e.type = .bool ∧ ∃ n, c.members = [n, "_"]

/-- The look-up of members finds what it should, in a file with some constants. -/
structure ClearMembers (constants : List String) : Prop where
  declared : ∀ m ∈ e.members, ¬ t.Void e m ∧ (t.compares = true → t.Legible m.value)
  /-- The parameter is none if a constant of the file has its name. -/
  parameter : ¬ (t = rust ∧ Search.value.parameter ∈ constants)
  /-- No member is hidden, unless it is what the parameter is converted to. -/
  seen : ∀ n (hn : n < e.members.length),
    t.leading e c (t.dialect.variant e e.members[n]) ∈ t.near e c .value →
      t.captured? e n = t.thing? e e.members[n]

end Clear

end Target

/-- What source text for a schema says about an enum. -/
structure Describes (t : Target) (s : Schema) (source : String) (e : EnumDecl) (c : ChoiceOutline) :
    Prop where
  name : c.name = t.dialect.title e.name
  /-- The members are declared in order. -/
  members : c.members = e.members.map (t.dialect.variant e)
  distinct : c.members.Nodup
  /-- Each member has its index. Everything else fails, unless there is nothing else. -/
  index : c.index = indexed (t.arm e) c.members ++ if t.Exhausts e then [] else [.fails]
  /-- Each index has its member. Everything else fails. -/
  value : c.value = located c.members ++ [.fails]
  /-- The cases for members are cases of their own, unless a member is written like the mark. -/
  own : (∀ i, .every i ∉ c.index) ↔ ¬ t.Blurs e
  /-- The index of a member that is written like the mark is found for all that is not found before. -/
  caught : t.Blurs e → ∃ front back, c.members = front ++ "_" :: back ∧
    ∀ x, (∀ n ∈ front, t.declared? e n ≠ some x) → t.indexOf? e c x = some (front.length : ℤ)
  indices : t.FindsIndices e c ↔ t.ClearIndices e c
  positions : t.FindsMembers e c (Rust.constants source) ↔ t.ClearMembers e c s.bindings
  /-- Look-ups that find what they should undo each other. -/
  inverse : t.ClearIndices e c → t.ClearMembers e c s.bindings → ∀ x, t.Holds e x → ∀ i,
    t.indexOf? e c x = some i ↔ t.valueAt? e c (Rust.constants source) i = some x

/-- A member that is written like the mark stands among the members, once. -/
theorem Target.exists_mark {t : Target} {e : EnumDecl} (hwords : ∀ m ∈ e.members, IsWord m.name.toList)
    (hnodup : (e.members.map (t.dialect.variant e)).Nodup) (hblurs : t.Blurs e) :
    ∃ front back, e.members.map (t.dialect.variant e) = front ++ "_" :: back ∧ "_" ∉ front := by
  have hmem : "_" ∈ e.members.map (t.dialect.variant e) := by
    cases t with
    | csharp => exact (CSharp.mark_mem_variants_iff hwords).2 hblurs.2
    | _ => exact hblurs.elim
  obtain ⟨front, back, hsplit⟩ := List.append_of_mem hmem
  refine ⟨front, back, hsplit, fun hfront => ?_⟩
  rw [hsplit] at hnodup
  exact (List.nodup_append.1 hnodup).2.2 _ hfront _ List.mem_cons_self rfl

theorem every_not_mem_indexed (ids : List String) (i : String) : Arm.every i ∉ indexed .maps ids := by
  intro h
  obtain ⟨p, -, hp⟩ := List.mem_map.1 h
  cases hp

section Describes

variable {t : Target} {s : Schema} {e : EnumDecl} {c : ChoiceOutline}
  (hwords : ∀ m ∈ e.members, IsWord m.name.toList) (hdistinct : e.Distinct)
  (hnodup : (e.members.map (t.dialect.variant e)).Nodup)
  (hmembers : c.members = e.members.map (t.dialect.variant e))
  (hindex : c.index = indexed (t.arm e) c.members ++ if t.Exhausts e then [] else [.fails])
include hwords hnodup hmembers hindex

/-- A case for everything is always one for a member that is written like the mark. -/
theorem Target.every_not_mem_iff : (∀ i, .every i ∉ c.index) ↔ ¬ t.Blurs e := by
  rw [hindex]
  constructor
  · intro hown hblurs
    obtain ⟨front, back, hsplit, -⟩ := exists_mark hwords hnodup hblurs
    refine hown (toString front.length) (List.mem_append_left _ ?_)
    rw [arm, if_pos hblurs, hmembers, hsplit, indexed_append_mark]
    simp
  · intro hclear i
    rw [arm, if_neg hclear, List.mem_append, not_or]
    refine ⟨every_not_mem_indexed _ i, ?_⟩
    split <;> simp

/-- All that has no case before the mark is found there. -/
theorem Target.indexOf?_of_blurs (hblurs : t.Blurs e) :
    ∃ front back, c.members = front ++ "_" :: back ∧
      ∀ x, (∀ n ∈ front, t.declared? e n ≠ some x) → t.indexOf? e c x = some (front.length : ℤ) := by
  obtain ⟨front, back, hsplit, hfront⟩ := exists_mark hwords hnodup hblurs
  refine ⟨front, back, hmembers.trans hsplit, fun x hx => ?_⟩
  rw [arm, if_pos hblurs] at hindex
  rw [indexOf?_mark (hmembers.trans hsplit) hfront hindex, List.findIdx_eq_length_of_false]
  intro n hn
  simp [hx n hn]

include hdistinct

theorem Target.findsIndices_iff_clear : t.FindsIndices e c ↔ t.ClearIndices e c := by
  by_cases hblurs : t.Blurs e
  · obtain ⟨front, back, hsplit, hfront⟩ := exists_mark hwords hnodup hblurs
    rw [arm, if_pos hblurs] at hindex
    rw [findsIndices_mark_iff (hmembers.trans hsplit) hfront hindex hblurs hmembers hdistinct hnodup]
    constructor
    · rintro ⟨hdeclared, hseen, htype, hmark⟩
      exact ⟨hdeclared, hseen, fun _ => pairwise_not_alike htype _, fun _ => ⟨htype, hmark⟩⟩
    · rintro ⟨hdeclared, hseen, -, hmarked⟩
      exact ⟨hdeclared, hseen, hmarked hblurs⟩
  · rw [arm, if_neg hblurs] at hindex
    rw [findsIndices_iff hmembers hnodup hdistinct hindex]
    constructor
    · rintro ⟨hdeclared, hseen, hapart⟩
      exact ⟨hdeclared, hseen, hapart, fun h => absurd h hblurs⟩
    · rintro ⟨hdeclared, hseen, hapart, -⟩
      exact ⟨hdeclared, hseen, hapart⟩

end Describes

theorem Target.findsMembers_iff_clear {t : Target} {e : EnumDecl} {c : ChoiceOutline}
    (hdistinct : e.Distinct) (hnodup : (e.members.map (t.dialect.variant e)).Nodup)
    (hmembers : c.members = e.members.map (t.dialect.variant e))
    (hvalue : c.value = located c.members ++ [.fails]) (hne : e.members ≠ []) (constants : List String) :
    t.FindsMembers e c constants ↔ t.ClearMembers e c constants := by
  rw [findsMembers_iff hmembers hnodup hdistinct hvalue hne]
  exact ⟨fun ⟨hdeclared, hparameter, hseen⟩ => ⟨hdeclared, hparameter, hseen⟩,
    fun ⟨hdeclared, hparameter, hseen⟩ => ⟨hdeclared, hparameter, hseen⟩⟩

/-- Look-ups that find what they should undo each other. -/
theorem Target.FindsIndices.inverse {t : Target} {e : EnumDecl} {c : ChoiceOutline}
    {constants : List String} (h : t.FindsIndices e c) (h' : t.FindsMembers e c constants) {x : Thing}
    (hx : t.Holds e x) (i : ℤ) :
    t.indexOf? e c x = some i ↔ t.valueAt? e c constants i = some x := by
  obtain ⟨xs, hxs, hindex⟩ := h
  obtain ⟨ys, hys, hvalue⟩ := h'
  obtain rfl : xs = ys := List.map_injective_iff.2 (Option.some_injective _) (hxs.symm.trans hys)
  rw [hindex x hx, hvalue]

/-- The constants of the file matter in Rust only. -/
theorem Target.clearMembers_congr {t : Target} {s : Schema} (hs : s.Spelled) (e : EnumDecl)
    (c : ChoiceOutline) :
    t.ClearMembers e c (Rust.constants (sourceText (t.lines s))) ↔ t.ClearMembers e c s.bindings := by
  have hparameter : (t = rust ∧ Search.value.parameter ∈ Rust.constants (sourceText (t.lines s))) ↔
      t = rust ∧ Search.value.parameter ∈ s.bindings := by
    refine and_congr_right ?_
    rintro rfl
    rw [show Rust.constants (sourceText (rust.lines s)) = s.bindings from Rust.constants_lines hs]
  exact ⟨fun h => ⟨h.declared, mt hparameter.2 h.parameter, h.seen⟩,
    fun h => ⟨h.declared, mt hparameter.1 h.parameter, h.seen⟩⟩

theorem describes_outline {t : Target} {s : Schema} (hs : s.Spelled) (hvalid : s.validate = .ok ())
    (hcheck : t.check s = .ok ()) {e : EnumDecl} (he : e ∈ s.enums) (hdistinct : e.Distinct) :
    Describes t s (sourceText (t.lines s)) e
      ((t.dialect.choice e).outline (t.arm e) (decide (t.Exhausts e))) := by
  have hwords : ∀ m ∈ e.members, IsWord m.name.toList := (hs.entry _ (Schema.mem_enums.1 he)).2
  have hnodup := Target.nodup_variants hvalid hcheck he
  have hne : e.members ≠ [] :=
    ((Schema.validate_eq_ok_iff.1 hvalid).entry _ (Schema.mem_enums.1 he)).1
  generalize hc : (t.dialect.choice e).outline (t.arm e) (decide (t.Exhausts e)) = c
  have hmembers : c.members = e.members.map (t.dialect.variant e) := by
    rw [← hc]
    exact t.dialect.map_name_variants e
  have hindex : c.index = indexed (t.arm e) c.members ++ if t.Exhausts e then [] else [.fails] := by
    rw [← hc, Choice.outline]
    simp only [decide_eq_true_eq]
  have hvalue : c.value = located c.members ++ [.fails] := by
    rw [← hc]
    rfl
  have hindices := Target.findsIndices_iff_clear hwords hdistinct hnodup hmembers hindex
  have hpositions := (Target.findsMembers_iff_clear hdistinct hnodup hmembers hvalue hne _).trans
    (t.clearMembers_congr hs e c)
  exact {
    name := by rw [← hc]; rfl
    members := hmembers
    distinct := hmembers ▸ hnodup
    index := hindex
    value := hvalue
    own := Target.every_not_mem_iff hwords hnodup hmembers hindex
    caught := Target.indexOf?_of_blurs hwords hnodup hmembers hindex
    indices := hindices
    positions := hpositions
    inverse := fun h h' x hx i => (hindices.2 h).inverse (hpositions.2 h') hx i }

/-- **Look-ups of enums.** Source text for a compiled schema declares every enum with its members, in
order and under different names. It has a case for the index of each member and for the member at each
index, in order, and fails for everything else, where there is anything else. The look-ups find the members
and undo each other exactly if no name that they need is hidden, no two members are one number and no
member is written like the mark for everything, which hides the cases after it. -/
theorem describes_enums (text : String) (s : Schema) (hs : Schema.compile text = .ok s) (t : Target)
    (source : String) (hsource : t.render s = .ok source) :
    ∃ cs, t.choices source = some cs ∧ List.Forall₂ (Describes t s source) s.enums cs := by
  obtain ⟨hcheck, rfl⟩ := Target.render_eq_ok_iff.1 hsource
  have hvalid := Schema.validate_of_compile hs
  have hspelled := Schema.spelled_of_compile hs
  refine ⟨_, t.choices_lines hspelled fun e he => EnumDecl.distinct_of_compile hs he, ?_⟩
  rw [List.forall₂_map_right_iff, List.forall₂_same]
  exact fun e he => describes_outline hspelled hvalid hcheck he (EnumDecl.distinct_of_compile hs he)

/-- A member that is written like the mark for everything hides the one after it, and members that are
called like parameters are hidden. Both truth values leave nothing else. -/
theorem describes_enums_mark :
    ∃ s source a b d c c' c'', Schema.compile ("enum E for string \x7b _ = \"x\" A = \"y\" \x7d " ++
        "enum Coin for bool \x7b heads = true tails = false \x7d " ++
        "enum F for float64 \x7b index = 1 value = 2 \x7d") = .ok s ∧
      Target.csharp.render s = .ok source ∧ s.enums = [a, b, d] ∧
      Target.csharp.choices source = some [c, c', c''] ∧
      c.members = ["_", "A"] ∧ c.index = [.every "0", .maps "A" "1", .fails] ∧
      ¬ Target.csharp.FindsIndices a c ∧
      c'.index = [.maps "heads" "0", .maps "tails" "1"] ∧ Target.csharp.FindsIndices b c' ∧
      Target.csharp.FindsMembers b c' (Rust.constants source) ∧
      c''.value = [.maps "0" "index", .maps "1" "value", .fails] ∧
      ¬ Target.csharp.FindsIndices d c'' ∧
      ¬ Target.csharp.FindsMembers d c'' (Rust.constants source) := by
  have hmark : MemberOf ["_", "=", "\"x\""] ⟨"_", .string "x", .start⟩ :=
    .mk (by decide) (.string (by cbv)) _
  have hother : MemberOf ["A", "=", "\"y\""] ⟨"A", .string "y", .start⟩ :=
    .mk (by decide) (.string (by cbv)) _
  have hheads : MemberOf ["heads", "=", "true"] ⟨"heads", .bool true, .start⟩ := .mk (by decide) .true _
  have htails : MemberOf ["tails", "=", "false"] ⟨"tails", .bool false, .start⟩ :=
    .mk (by decide) .false _
  have hfirst : MemberOf ["index", "=", "1"] ⟨"index", .int 1, .start⟩ :=
    .mk (by decide) (.integer (n := 1) (by decide) (by decide) (by decide)) _
  have hsecond : MemberOf ["value", "=", "2"] ⟨"value", .int 2, .start⟩ :=
    .mk (by decide) (.integer (n := 2) (by decide) (by decide) (by decide)) _
  have htexts : EnumOf _ _ := .mk (n := "E") (by decide) .string
    (.mk (.cons hmark (.cons hother .nil))) .start
  have hcoin : EnumOf _ _ := .mk (n := "Coin") (by decide) .bool
    (.mk (.cons hheads (.cons htails .nil))) .start
  have hfloats : EnumOf _ _ := .mk (n := "F") (by decide) .float64
    (.mk (.cons hfirst (.cons hsecond .nil))) .start
  have hderives : Derives _ _ :=
    .mk .none (.cons (.enum htexts) (.cons (.enum hcoin) (.cons (.enum hfloats) .nil)))
  obtain ⟨s, source, hs, hsource, hplaced⟩ := Target.render_of_derives .csharp
    ("enum E for string \x7b _ = \"x\" A = \"y\" \x7d " ++
      "enum Coin for bool \x7b heads = true tails = false \x7d " ++
      "enum F for float64 \x7b index = 1 value = 2 \x7d")
    (by cbv) hderives (by decide +kernel) (by decide +kernel)
  obtain ⟨cs, hcs, hdescribes⟩ := describes_enums _ s hs .csharp source hsource
  obtain ⟨p, q, r, p', q', r', p'', q'', r'', henums⟩ : ∃ p q r p' q' r' p'' q'' r'', s.enums =
      [⟨"E", .string, [⟨"_", .string "x", p⟩, ⟨"A", .string "y", q⟩], r⟩,
        ⟨"Coin", .bool, [⟨"heads", .bool true, p'⟩, ⟨"tails", .bool false, q'⟩], r'⟩,
        ⟨"F", .float64, [⟨"index", .int 1, p''⟩, ⟨"value", .int 2, q''⟩], r''⟩] := by
    simpa [List.map_eq_cons_iff] using Schema.enums_of_unplaced hplaced
  rw [henums] at hdescribes
  obtain ⟨c, _, hc, hrest, rfl⟩ := List.forall₂_cons_left_iff.1 hdescribes
  obtain ⟨c', _, hc', hlast, rfl⟩ := List.forall₂_cons_left_iff.1 hrest
  obtain ⟨c'', _, hc'', hnil, rfl⟩ := List.forall₂_cons_left_iff.1 hlast
  obtain rfl := List.forall₂_nil_left_iff.1 hnil
  have hmembers : c.members = ["_", "A"] := by
    rw [hc.members]
    show [CSharp.verbatim (avoid ["E", "IndexOf", "ValueAt"] "_"),
      CSharp.verbatim (avoid ["E", "IndexOf", "ValueAt"] "A")] = _
    decide +kernel
  have hmembers' : c'.members = ["heads", "tails"] := by
    rw [hc'.members]
    show [CSharp.verbatim (avoid ["Coin", "IndexOf", "ValueAt"] "heads"),
      CSharp.verbatim (avoid ["Coin", "IndexOf", "ValueAt"] "tails")] = _
    decide +kernel
  have hmembers'' : c''.members = ["index", "value"] := by
    rw [hc''.members]
    show [CSharp.verbatim (avoid ["F", "IndexOf", "ValueAt"] "index"),
      CSharp.verbatim (avoid ["F", "IndexOf", "ValueAt"] "value")] = _
    decide +kernel
  have hplain : ∀ n ∈ ["Coin", "F"], ∀ type ms z m, ¬ Target.csharp.Void ⟨n, type, ms, z⟩ m := by
    have hwords : ∀ n ∈ ["Coin", "F"], n ∉ CSharp.keywords := by decide +kernel
    rintro n hn type ms z m (h | h)
    · exact hwords n hn h
    · exact h
  have hdeclared : ∀ m ∈ [(⟨"heads", .bool true, p'⟩ : Member), ⟨"tails", .bool false, q'⟩],
      ¬ Target.csharp.Void ⟨"Coin", .bool, [⟨"heads", .bool true, p'⟩, ⟨"tails", .bool false, q'⟩], r'⟩ m ∧
        (Target.csharp.compares = true → Target.csharp.Legible m.value) := by
    intro m hm
    refine ⟨hplain _ (by simp) _ _ _ m, fun _ => ?_⟩
    simp only [List.mem_cons, List.not_mem_nil, or_false] at hm
    rcases hm with rfl | rfl <;> trivial
  refine ⟨s, source, _, _, _, c, c', c'', hs, hsource, henums, hcs, hmembers, ?_, ?_, ?_, ?_, ?_, ?_, ?_, ?_⟩
  · rw [hc.index, hmembers, Target.arm, if_pos ⟨rfl, by simp, by simp⟩,
      if_neg (by simp [Target.Exhausts])]
    decide +kernel
  · intro h
    have hmarked := (hc.indices.1 h).marked ⟨rfl, by simp, by simp⟩
    cases hmarked.1
  · rw [hc'.index, hmembers', Target.arm, if_neg (by simp [Target.Blurs]), if_pos ⟨rfl, by simp⟩]
    decide +kernel
  · refine hc'.indices.2 ⟨hdeclared, ?_, ?_, ?_⟩
    · rw [hmembers']
      simp [Target.leading, Target.near, Primitive.isInteger, Primitive.range?]
    · exact fun _ => Target.pairwise_not_alike rfl _
    · exact fun h => by simp [Target.Blurs] at h
  · refine hc'.positions.2 ⟨hdeclared, by simp, fun n hn hhidden => ?_⟩
    have hname : CSharp.dialect.variant _ _ = "index" := List.mem_singleton.1 hhidden
    have hmem : CSharp.dialect.variant _ _ ∈ c'.members :=
      hc'.members ▸ List.mem_map_of_mem (List.getElem_mem hn)
    rw [hmembers', hname] at hmem
    simp at hmem
  · rw [hc''.value, hmembers'']
    decide +kernel
  · intro h
    have hseen := (hc''.indices.1 h).seen "value" (by simp [hmembers''])
    simp [Target.leading, Target.near, Primitive.isInteger, Primitive.range?] at hseen
  · intro h
    have hname := (List.cons.inj (hc''.members.symm.trans hmembers'')).1
    have hgiven := (hc''.positions.1 h).seen 0 (by simp) (List.mem_singleton.2 hname)
    have hfit : Primitive.float64.fit (.int 1) = .ok () := by decide +kernel
    have hthing : ∀ ms z, Target.csharp.thing? ⟨"F", .float64, ms, z⟩ ⟨"index", .int 1, p''⟩ =
        some (.value (.number (Precision.double.round (Literal.int 1).exact))) := fun ms z =>
      Target.thing?_number rfl rfl hfit (hplain _ (by simp) _ _ _ _) trivial
    rw [List.getElem_cons_zero, hthing] at hgiven
    have hrounds : Precision.double.round ((0 : ℕ) : ℤ) = Precision.double.round (Literal.int 1).exact := by
      simpa [Target.captured?, Target.precision?] using hgiven
    exact absurd hrounds (by decide +kernel)

end Idl
