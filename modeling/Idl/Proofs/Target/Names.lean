import Mathlib
import Idl.Proofs.Schema.Rules
import Idl.Proofs.Target.EnumValues
import Idl.Proofs.Target.Unplaced

/-!
# Names that stay different

Where the members of an enum get different names differs from target to target: most targets look at
the members of each enum, one looks at all names of a file, and one keeps the names of the schema.

* `distinct_eq_ok_iff`: the check passes for different names only.
* `FirstClash`, `firstClash?_eq_some`, **`distinct_exact`**: the clash that it finds otherwise.
* `avoid_eq_iff`: names that are set apart from taken ones.
* `Target.render_eq_ok_iff`, `Target.render_of_derives`: the schemas that have source text in a
  target.
* **`Target.nodup_variants`**: the members of an enum have different names in every target.
-/

namespace Idl

/-! ## Checks -/

theorem firstClash?_eq_none_iff {seen names : List (String × String)} :
    firstClash? seen names = none ↔
      (∀ n ∈ names, ∀ p ∈ seen, p.2 ≠ n.2) ∧ (names.map Prod.snd).Nodup := by
  induction names generalizing seen with
  | nil => simp [firstClash?]
  | cons n names ih =>
    rw [firstClash?]
    split
    · rename_i first made hfind
      have hmem := List.mem_of_find?_eq_some hfind
      have hmade : made = n.2 := by simpa using List.find?_some hfind
      simp only [reduceCtorEq, false_iff]
      rintro ⟨hseen, -⟩
      exact hseen n List.mem_cons_self _ hmem hmade
    · rename_i hfind
      have hseen : ∀ p ∈ seen, p.2 ≠ n.2 := by simpa using List.find?_eq_none.1 hfind
      rw [ih, List.map_cons, List.nodup_cons]
      simp only [List.forall_mem_cons, List.mem_map, not_exists, not_and]
      constructor
      · rintro ⟨hnames, hnodup⟩
        exact ⟨⟨hseen, fun m hm => (hnames m hm).2⟩, fun m hm => (hnames m hm).1.symm, hnodup⟩
      · rintro ⟨⟨-, hnames⟩, hnew, hnodup⟩
        exact ⟨fun m hm => ⟨Ne.symm (hnew m hm), hnames m hm⟩, hnodup⟩

theorem distinct_eq_ok_iff {owner : String} {names : List (String × String)} :
    distinct owner names = .ok () ↔ (names.map Prod.snd).Nodup := by
  have hnone : firstClash? [] names = none ↔ _ := firstClash?_eq_none_iff
  simp only [List.not_mem_nil, IsEmpty.forall_iff, implies_true, true_and] at hnone
  rw [← hnone, distinct]
  split <;> simp [*]

/-- The pair `j` is the first whose second component stands in an earlier pair, and `i` is the only pair
before it with that component. -/
structure FirstClash (names : List (String × String)) (i j : Fin names.length) : Prop where
  least : IsLeast {k | ∃ l < k, (names.get l).2 = (names.get k).2} j
  before : i < j
  same : (names.get i).2 = (names.get j).2
  unique : ∀ k < j, (names.get k).2 = (names.get j).2 → k = i

/-- A pair clashes with one of different pairs before it. -/
theorem exists_firstClash {front : List (String × String)} {p n : String × String}
    (hfront : (front.map Prod.snd).Nodup) (hp : p ∈ front) (hsame : p.2 = n.2)
    (after : List (String × String)) :
    ∃ i j, FirstClash (front ++ n :: after) i j ∧ (front ++ n :: after).get i = p ∧
      (front ++ n :: after).get j = n := by
  obtain ⟨i, hi, rfl⟩ := List.getElem_of_mem hp
  have hlength : front.length < (front ++ n :: after).length := by simp
  have hget : ∀ k : Fin (front ++ n :: after).length, ∀ hk : k.1 < front.length,
      (front ++ n :: after).get k = front[k.1] := fun k hk => List.getElem_append_left hk
  have hlast : (front ++ n :: after).get ⟨front.length, hlength⟩ = n := by simp
  -- before `n` a second component tells its place
  have hinj : ∀ k l, ∀ hk : k < front.length, ∀ hl : l < front.length,
      front[k].2 = front[l].2 → k = l := by
    intro k l hk hl h
    have hmade : (front.map Prod.snd).get ⟨k, by simpa⟩ = (front.map Prod.snd).get ⟨l, by simpa⟩ := by
      simpa using h
    exact Fin.mk.inj (List.nodup_iff_injective_get.1 hfront hmade)
  refine ⟨⟨i, hi.trans hlength⟩, ⟨front.length, hlength⟩, ⟨⟨?_, ?_⟩, hi, ?_, ?_⟩, hget _ hi, hlast⟩
  · exact ⟨⟨i, hi.trans hlength⟩, hi, by rw [hlast, hget _ hi, hsame]⟩
  · rintro k ⟨l, hlk, h⟩
    by_contra hk
    rw [not_le, Fin.lt_def] at hk
    have hl : l.1 < front.length := lt_trans hlk hk
    rw [hget l hl, hget k hk] at h
    exact hlk.ne (Fin.ext (hinj _ _ hl hk h))
  · rw [hlast, hget _ hi, hsame]
  · intro k hk h
    rw [hlast, ← hsame, hget k hk] at h
    exact Fin.ext (hinj _ _ hk hi h)

/-- The walk has seen the pairs before, the last of them first, and no two of them clash. It stops at a
pair that clashes with one of them. -/
theorem firstClash?_eq_some {done rest : List (String × String)} {first second made : String}
    (hdone : (done.map Prod.snd).Nodup)
    (h : firstClash? done.reverse rest = some (first, second, made)) :
    ∃ front after, done ++ rest = front ++ (second, made) :: after ∧ (front.map Prod.snd).Nodup ∧
      (first, made) ∈ front := by
  induction rest generalizing done with
  | nil => cases h
  | cons n rest ih =>
    rw [firstClash?] at h
    split at h
    · rename_i x y hfind
      cases h
      have hmem : (first, y) ∈ done := List.mem_reverse.1 (List.mem_of_find?_eq_some hfind)
      have hy : y = n.2 := by simpa using List.find?_some hfind
      exact ⟨done, rest, rfl, hdone, hy ▸ hmem⟩
    · rename_i hfind
      have hnew : n.2 ∉ done.map Prod.snd := by
        intro hn
        obtain ⟨p, hp, hpn⟩ := List.mem_map.1 hn
        simpa [hpn] using List.find?_eq_none.1 hfind p (List.mem_reverse.2 hp)
      have hmore : ((done ++ [n]).map Prod.snd).Nodup := by
        rw [List.map_append, List.map_singleton]
        exact List.Nodup.append hdone (List.nodup_singleton _) (by simpa using hnew)
      obtain ⟨front, after, hsplit, hnodup, hmem⟩ := ih hmore (by simpa using h)
      exact ⟨front, after, by simpa using hsplit, hnodup, hmem⟩

theorem distinct_of_not_nodup (owner : String) {names : List (String × String)}
    (h : ¬ (names.map Prod.snd).Nodup) :
    ∃ i j, FirstClash names i j ∧ distinct owner names =
      .error (.collision (names.get j).2 (.names owner (names.get i).1 (names.get j).1)) := by
  have hfails : distinct owner names ≠ .ok () := mt distinct_eq_ok_iff.1 h
  rw [distinct] at hfails
  split at hfails
  · rename_i first second made hclash
    have hwalk : firstClash? [].reverse names = some (first, second, made) := hclash
    obtain ⟨front, after, rfl, hfront, hmem⟩ := firstClash?_eq_some (by simp) hwalk
    obtain ⟨i, j, hfirst, hi, hj⟩ := exists_firstClash (n := (second, made)) hfront hmem rfl after
    exact ⟨i, j, hfirst, by rw [distinct, hclash, hi, hj]⟩
  · exact absurd rfl hfails

/-- **The check of names is exact.** In every target it passes if no two names of an owner became the
same. Otherwise it reports the first name that became what another one before it did: the target, what
both became, and the two names in order. -/
theorem distinct_exact (t : Target) (owner : String) (names : List (String × String)) :
    ((distinct owner names).mapError (Fault.refused t) = .ok () ↔ (names.map Prod.snd).Nodup) ∧
    (¬ (names.map Prod.snd).Nodup → ∃ i j fault, FirstClash names i j ∧
      (distinct owner names).mapError (Fault.refused t) = .error fault ∧
      fault.shape = .collision t (names.get j).2
        (owner ++ "." ++ (names.get i).1 ++ " and " ++ owner ++ "." ++ (names.get j).1)) := by
  refine ⟨mapError_eq_ok_iff.trans distinct_eq_ok_iff, fun h => ?_⟩
  obtain ⟨i, j, hfirst, herror⟩ := distinct_of_not_nodup owner h
  exact ⟨i, j, _, hfirst, by rw [herror]; rfl, rfl⟩

/-- Two clashes, of which the one that is complete first is reported. -/
theorem distinct_exact_inner :
    ∃ fault, (distinct "A" [("age", "Age"), ("first_name", "FirstName"), ("firstName", "FirstName"),
        ("Age", "Age")]).mapError (Fault.refused .go) = .error fault ∧
      fault.shape = .collision .go "FirstName" "A.first_name and A.firstName" := by
  let names := [("age", "Age"), ("first_name", "FirstName"), ("firstName", "FirstName"), ("Age", "Age")]
  obtain ⟨i, j, fault, hfirst, herror, hshape⟩ := (distinct_exact .go "A" names).2 (by decide)
  have hplaces : ∀ i j : Fin names.length, j ≤ 2 → i < j → (names.get i).2 = (names.get j).2 →
      i = 1 ∧ j = 2 := by decide
  have hleast : j ≤ 2 := hfirst.least.2 ⟨1, by decide, rfl⟩
  obtain ⟨rfl, rfl⟩ := hplaces i j hleast hfirst.before hfirst.same
  exact ⟨fault, herror, hshape⟩

theorem Choice.checkVariants_eq_ok_iff {c : Choice} :
    c.checkVariants = .ok () ↔ (c.variants.map Variant.name).Nodup := by
  rw [checkVariants, distinct_eq_ok_iff, List.map_map]
  rfl

theorem avoid_eq_iff {taken : List String} {n x : String} :
    avoid taken n = x ↔ n ∈ taken ∧ x = n ++ "_" ∨ n ∉ taken ∧ x = n := by
  unfold avoid
  split <;> simp [*, eq_comm]

/-! ## Targets -/

theorem Target.render_eq_ok_iff {t : Target} {s : Schema} {source : String} :
    t.render s = .ok source ↔ t.check s = .ok () ∧ sourceText (t.lines s) = source := by
  rw [render, bind_unit_eq_ok_iff, mapError_eq_ok_iff]
  show _ ∧ Except.ok _ = Except.ok _ ↔ _
  rw [Except.ok.injEq]

/-- What the grammar derives, the rules allow and a target has a form for is rendered. -/
theorem Target.render_of_derives (t : Target) (text : String) {ws : List String} {s : Schema}
    (hscan : (scan text).map texts = .ok (ws ++ [""])) (hs : Grammar.Derives ws s)
    (hvalid : s.unplaced.validate = .ok ()) (hcheck : t.check s.unplaced = .ok ()) :
    ∃ s' source, Schema.compile text = .ok s' ∧ t.render s' = .ok source ∧
      s'.unplaced = s.unplaced := by
  obtain ⟨s', hcompile, heq⟩ := Schema.compile_of_derives hscan hs hvalid
  have hrender : t.render s' = .ok (sourceText (t.lines s'.unplaced)) := by
    rw [← t.render_unplaced s', Target.render_eq_ok_iff, heq]
    exact ⟨hcheck, rfl⟩
  exact ⟨s', _, hcompile, hrender, heq⟩

/-- The class that gathers constants without a group has a name of its own, and every declaration has
a form. -/
theorem CSharp.check_eq_ok_iff {s : Schema} :
    CSharp.check s = .ok () ↔
      ¬ ((s.entries.any fun e => e.name? = some constantsClass) ∧ s.entries.any isUnnamed) ∧
        ∀ x ∈ dialect.decls s, checkDecl x = .ok () := by
  rw [CSharp.check]
  split
  · rename_i h
    constructor
    · intro hs
      cases hs
    · exact fun hs => absurd h hs.1
  · rename_i h
    exact (forM_eq_ok_iff).trans (and_iff_right h).symm

theorem Dialect.choice_mem_decls (d : Dialect) {s : Schema} {e : EnumDecl} (he : e ∈ s.enums) :
    .choice (d.choice e) ∈ d.decls s :=
  List.mem_map.2 ⟨.enum e, Schema.mem_enums.1 he, rfl⟩

theorem Dialect.map_name_variants (d : Dialect) (e : EnumDecl) :
    (d.choice e).variants.map Variant.name = e.members.map (d.variant e) := by
  rw [choice, List.map_map]
  rfl

/-- The names of a file are different, so those of the members of one enum are. -/
theorem Go.nodup_variants {s : Schema} (h : Go.check s = .ok ()) {e : EnumDecl} (he : e ∈ s.enums) :
    ((Go.dialect.choice e).variants.map Variant.name).Nodup := by
  rw [Go.check, bind_unit_eq_ok_iff, distinct_eq_ok_iff, Go.topNames, List.map_append] at h
  have hdecls := h.1.of_append_right
  rw [List.map_flatMap, List.nodup_flatMap] at hdecls
  have hnames := hdecls.1 _ (Go.dialect.choice_mem_decls he)
  rw [Go.declNames, List.map_append, List.map_append, List.map_map] at hnames
  exact hnames.of_append_left.of_append_right

/-- **The members of an enum have different names** in a target that a schema has a form in. -/
theorem Target.nodup_variants {t : Target} {s : Schema} (hvalid : s.validate = .ok ())
    (hcheck : t.check s = .ok ()) {e : EnumDecl} (he : e ∈ s.enums) :
    (e.members.map (t.dialect.variant e)).Nodup := by
  rw [← Dialect.map_name_variants]
  cases t with
  | rust =>
    exact Choice.checkVariants_eq_ok_iff.1
      (forM_eq_ok_iff.1 hcheck _ (Rust.dialect.choice_mem_decls he))
  | go => exact Go.nodup_variants hcheck he
  | csharp =>
    exact Choice.checkVariants_eq_ok_iff.1
      ((CSharp.check_eq_ok_iff.1 hcheck).2 _ (CSharp.dialect.choice_mem_decls he))
  | dart =>
    exact Choice.checkVariants_eq_ok_iff.1
      (forM_eq_ok_iff.1 hcheck _ (Dart.dialect.choice_mem_decls he))
  | typescript =>
    -- The names of the schema are kept, and a valid schema has no two members of one name.
    have hentry := Schema.validate_entry hvalid _ (Schema.mem_enums.1 he)
    rw [Entry.validate] at hentry
    split at hentry
    · cases hentry
    · obtain ⟨hmembers, -⟩ := bind_unit_eq_ok_iff.1 hentry
      rw [Dialect.map_name_variants]
      exact checkMembers_eq_ok_iff.1 hmembers

end Idl
