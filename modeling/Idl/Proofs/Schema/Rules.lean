import Mathlib
import Idl.Proofs.Schema.Validity

/-!
# The rules in full

Validation walks through a schema twice, with the names seen so far, and stops at the first defect.
Here the rules are stated without these walks.

* `Entry.Valid`, `Schema.Valid`: the rules.
* `FirstRepeat`, `Entry.Defective`: which defect is found first.
* `Entry.validate_eq_ok_iff`, `Entry.validate_eq_error_iff`: the rules for one entry.
* **`Schema.validate_exact`**: validation accepts exactly the valid schemas, and otherwise reports the
  first defect.
* `Schema.Valid.enumType?_eq_some_iff`: the enums of a valid schema by their names.
-/

namespace Idl

/-! ## Names -/

theorem firstRepeat?_eq_none_iff {seen names : List String} :
    firstRepeat? seen names = none ↔ (∀ n ∈ names, n ∉ seen) ∧ names.Nodup := by
  induction names generalizing seen with
  | nil => simp [firstRepeat?]
  | cons n names ih =>
    rw [firstRepeat?]
    split
    · rename_i hn
      simp only [reduceCtorEq, false_iff]
      exact fun h => h.1 n List.mem_cons_self hn
    · rename_i hn
      rw [ih, List.nodup_cons, List.forall_mem_cons]
      simp only [List.mem_cons, not_or]
      constructor
      · rintro ⟨hnames, hnodup⟩
        exact ⟨⟨hn, fun m hm => (hnames m hm).2⟩, fun hmem => (hnames n hmem).1 rfl, hnodup⟩
      · rintro ⟨⟨-, hnames⟩, hnew, hnodup⟩
        exact ⟨fun m hm => ⟨ne_of_mem_of_not_mem hm hnew, hnames m hm⟩, hnodup⟩

theorem firstRepeat?_nil_eq_none_iff {names : List String} :
    firstRepeat? [] names = none ↔ names.Nodup := by
  rw [firstRepeat?_eq_none_iff]
  simp

/-- The first name of a list that stands in it before. -/
def FirstRepeat (names : List String) (n : String) : Prop :=
  ∃ before after, names = before ++ n :: after ∧ before.Nodup ∧ n ∈ before

theorem firstRepeat?_eq_some_iff {seen names : List String} {n : String} :
    firstRepeat? seen names = some n ↔
      ∃ before after, names = before ++ n :: after ∧ firstRepeat? seen before = none ∧
        (n ∈ before ∨ n ∈ seen) := by
  induction names generalizing seen with
  | nil => simp [firstRepeat?]
  | cons m names ih =>
    rw [firstRepeat?]
    by_cases hm : m ∈ seen
    · rw [if_pos hm, Option.some.injEq]
      constructor
      · rintro rfl
        exact ⟨[], names, rfl, rfl, .inr hm⟩
      · rintro ⟨before, after, hnames, hbefore, -⟩
        cases before with
        | nil => exact (List.cons.inj hnames).1
        | cons k before =>
          -- the walk would have stopped at the first name
          cases hnames
          simp [firstRepeat?, hm] at hbefore
    · rw [if_neg hm, ih]
      constructor
      · rintro ⟨before, after, rfl, hbefore, hn⟩
        refine ⟨m :: before, after, rfl, by rwa [firstRepeat?, if_neg hm], ?_⟩
        simpa only [List.mem_cons, or_assoc, or_left_comm] using hn
      · rintro ⟨before, after, hnames, hbefore, hn⟩
        cases before with
        | nil =>
          cases hnames
          exact absurd (hn.resolve_left List.not_mem_nil) hm
        | cons k before =>
          cases hnames
          rw [firstRepeat?, if_neg hm] at hbefore
          refine ⟨before, after, rfl, hbefore, ?_⟩
          simpa only [List.mem_cons, or_assoc, or_left_comm] using hn

theorem firstRepeat?_nil_eq_some_iff {names : List String} {n : String} :
    firstRepeat? [] names = some n ↔ FirstRepeat names n := by
  rw [firstRepeat?_eq_some_iff]
  simp only [firstRepeat?_nil_eq_none_iff, List.not_mem_nil, or_false]
  rfl

theorem FirstRepeat.not_nodup {names : List String} {n : String} (h : FirstRepeat names n) :
    ¬ names.Nodup := by
  rw [← firstRepeat?_nil_eq_none_iff, firstRepeat?_nil_eq_some_iff.2 h]
  exact nofun

theorem checkMembers_eq_ok_iff {owner : String} {names : List String} :
    checkMembers owner names = .ok () ↔ names.Nodup := by
  rw [← firstRepeat?_nil_eq_none_iff, checkMembers]
  split <;> simp [*]

theorem checkMembers_eq_error_iff {owner : String} {names : List String} {d : Defect} :
    checkMembers owner names = .error d ↔ ∃ n, FirstRepeat names n ∧ d = .memberTwice n owner := by
  simp only [← firstRepeat?_nil_eq_some_iff]
  rw [checkMembers]
  split <;> simp [*, eq_comm]

/-! ## Values -/

theorem checkLiteral_eq_error_iff {p : Primitive} {m : Member} {d : Defect} :
    checkLiteral p m = .error d ↔
      ∃ cause, p.fit m.value = .error cause ∧ d = .misfit cause m.position := by
  rw [checkLiteral]
  cases p.fit m.value with
  | ok _ =>
    constructor
    · intro h
      cases h
    · rintro ⟨_, h, -⟩
      cases h
  | error cause =>
    change Except.error _ = Except.error d ↔ _
    simp [eq_comm]

/-- What is wrong with a member of an enum, after members with the values `seen`. -/
inductive EnumDecl.Amiss (e : EnumDecl) (seen : List Literal) (m : Member) : Defect → Prop
  /-- The type does not hold the value. -/
  | misfit {cause : Misfit} :
    e.type.fit m.value = .error cause → Amiss e seen m (.misfit cause m.position)
  /-- The value has been used. -/
  | again {v : Literal} :
    e.type.fit m.value = .ok () → v ∈ seen → m.value.same v = true →
      Amiss e seen m (.valueTwice m.value e.name m.position)

theorem EnumDecl.Amiss.mono {e : EnumDecl} {seen seen' : List Literal} {m : Member} {d : Defect}
    (h : e.Amiss seen m d) (hseen : seen ⊆ seen') : e.Amiss seen' m d := by
  cases h with
  | misfit hfit => exact .misfit hfit
  | again hfit hv hsame => exact .again hfit (hseen hv) hsame

theorem checkValues_eq_error_iff {e : EnumDecl} {seen : List Literal} {ms : List Member} {d : Defect} :
    checkValues e seen ms = .error d ↔
      ∃ before m after, ms = before ++ m :: after ∧ checkValues e seen before = .ok () ∧
        e.Amiss (before.map Member.value ++ seen) m d := by
  induction ms generalizing seen with
  | nil => simp [checkValues]
  | cons m ms ih =>
    rw [checkValues, bind_eq_error_iff, checkLiteral_eq_error_iff]
    constructor
    · rintro (⟨cause, hfit, rfl⟩ | ⟨⟨⟩, hfit, hrest⟩)
      · exact ⟨[], m, ms, rfl, rfl, .misfit hfit⟩
      · split at hrest
        · rename_i hseen
          obtain ⟨v, hv, hsame⟩ := List.any_eq_true.1 hseen
          cases hrest
          exact ⟨[], m, ms, rfl, rfl, .again (checkLiteral_eq_ok_iff.1 hfit) hv hsame⟩
        · rename_i hseen
          obtain ⟨before, x, after, rfl, hbefore, hx⟩ := ih.1 hrest
          refine ⟨m :: before, x, after, rfl, ?_, hx.mono ?_⟩
          · rw [checkValues, hfit]
            exact (if_neg hseen).trans hbefore
          · intro v hv
            simpa [or_left_comm] using hv
    · rintro ⟨before, x, after, hms, hbefore, hx⟩
      cases before with
      | nil =>
        cases hms
        cases hx with
        | misfit hfit => exact .inl ⟨_, hfit, rfl⟩
        | again hfit hv hsame =>
          exact .inr ⟨(), checkLiteral_eq_ok_iff.2 hfit, if_pos (List.any_eq_true.2 ⟨_, hv, hsame⟩)⟩
      | cons y before =>
        cases hms
        rw [checkValues, bind_unit_eq_ok_iff] at hbefore
        obtain ⟨hfit, hbefore⟩ := hbefore
        split at hbefore
        · cases hbefore
        · rename_i hseen
          refine .inr ⟨(), hfit, (if_neg hseen).trans (ih.2 ⟨before, x, after, rfl, hbefore, hx.mono ?_⟩)⟩
          intro v hv
          simpa [or_left_comm] using hv

/-! ## Entries -/

/-- The rules for one entry. The names of constants count among those of the schema. -/
def Entry.Valid : Entry → Prop
  | .const c => ∀ m ∈ c.members, c.type.fit m.value = .ok ()
  | .enum e => e.members ≠ [] ∧ (e.members.map Member.name).Nodup ∧ e.Distinct
  | .object o => (o.fields.map Field.name).Nodup

/-- The rules for a schema. -/
structure Schema.Valid (s : Schema) : Prop where
  /-- No two names are declared alike, constants by the names that they have outside their group. -/
  names : (s.entries.flatMap Entry.names).Nodup
  entry : ∀ e ∈ s.entries, e.Valid

/-- The defect of an entry that is found first. -/
inductive Entry.Defective : Entry → Defect → Prop
  /-- A constant that its type does not hold, after constants that it does. -/
  | constant {c : ConstGroup} {before after : List Member} {m : Member} {cause : Misfit} :
    c.members = before ++ m :: after → (∀ x ∈ before, c.type.fit x.value = .ok ()) →
      c.type.fit m.value = .error cause → Defective (.const c) (.misfit cause m.position)
  | noValues {e : EnumDecl} : e.members = [] → Defective (.enum e) (.noValues e.name)
  | variantTwice {e : EnumDecl} {n : String} :
    FirstRepeat (e.members.map Member.name) n → Defective (.enum e) (.memberTwice n e.name)
  /-- A member whose value is amiss, after members whose values are not. -/
  | value {e : EnumDecl} {before after : List Member} {m : Member} {d : Defect} :
    (e.members.map Member.name).Nodup → e.members = before ++ m :: after →
      { e with members := before }.Distinct → e.Amiss (before.map Member.value) m d →
      Defective (.enum e) d
  | fieldTwice {o : ObjectDecl} {n : String} :
    FirstRepeat (o.fields.map Field.name) n → Defective (.object o) (.memberTwice n o.name)

theorem checkValues_nil_eq_ok_iff {e : EnumDecl} {ms : List Member} :
    checkValues e [] ms = .ok () ↔ { e with members := ms }.Distinct := by
  rw [checkValues_eq_ok_iff]
  simp [EnumDecl.Distinct]

/-- Constants of one group that have different names outside have different names in the group. -/
theorem ConstGroup.nodup_names {c : ConstGroup} (h : (Entry.const c).names.Nodup) :
    (c.members.map Member.name).Nodup := by
  have hbindings : (c.members.map c.binding).Nodup := h.of_append_right
  cases hname : c.name with
  | some k =>
    have hmap : c.members.map c.binding = (c.members.map Member.name).map (k ++ "_" ++ ·) := by
      simp [binding, hname]
    exact (hmap ▸ hbindings).of_map
  | none =>
    have hmap : c.members.map c.binding = c.members.map Member.name := by simp [binding, hname]
    exact hmap ▸ hbindings

theorem Entry.validate_enum {e : EnumDecl} (h : e.members ≠ []) :
    (Entry.enum e).validate =
      checkMembers e.name (e.members.map Member.name) >>= fun _ => checkValues e [] e.members := by
  rw [validate, if_neg (by simpa using h)]

theorem Entry.validate_eq_ok_iff {e : Entry} (h : e.names.Nodup) :
    e.validate = .ok () ↔ e.Valid := by
  cases e with
  | const c =>
    rw [validate, bind_unit_eq_ok_iff, checkMembers_eq_ok_iff, forM_eq_ok_iff]
    simp only [c.nodup_names h, true_and, checkLiteral_eq_ok_iff]
    rfl
  | enum e =>
    by_cases hmembers : e.members = []
    · rw [validate, if_pos (by simpa using hmembers)]
      constructor
      · intro hvalid
        cases hvalid
      · exact fun hvalid => absurd hmembers hvalid.1
    · rw [validate_enum hmembers, bind_unit_eq_ok_iff, checkMembers_eq_ok_iff,
        checkValues_nil_eq_ok_iff]
      exact (and_iff_right hmembers).symm
  | object o => exact checkMembers_eq_ok_iff

theorem Entry.validate_eq_error_iff {e : Entry} (h : e.names.Nodup) {d : Defect} :
    e.validate = .error d ↔ e.Defective d := by
  cases e with
  | const c =>
    rw [validate, bind_eq_error_iff, checkMembers_eq_ok_iff.2 (c.nodup_names h), forM_eq_error_iff]
    simp only [checkLiteral_eq_ok_iff, checkLiteral_eq_error_iff]
    constructor
    · rintro (hd | ⟨_, -, before, m, after, hmembers, hbefore, cause, hfit, rfl⟩)
      · cases hd
      · exact .constant hmembers hbefore hfit
    · rintro ⟨⟩
      rename_i before after m cause hmembers hbefore hfit
      exact .inr ⟨(), trivial, before, m, after, hmembers, hbefore, cause, hfit, rfl⟩
  | enum e =>
    by_cases hmembers : e.members = []
    · rw [validate, if_pos (by simpa using hmembers)]
      constructor
      · rintro ⟨⟩
        exact .noValues hmembers
      · intro hd
        cases hd with
        | noValues => rfl
        | variantTwice hn =>
          obtain ⟨before, after, hnames, -⟩ := hn
          simp [hmembers] at hnames
        | value _ hsplit => simp [hmembers] at hsplit
    · rw [validate_enum hmembers, bind_eq_error_iff, checkMembers_eq_error_iff,
        checkValues_eq_error_iff]
      constructor
      · rintro (⟨n, hn, rfl⟩ | ⟨_, hok, before, m, after, hsplit, hbefore, hm⟩)
        · exact .variantTwice hn
        · rw [List.append_nil] at hm
          exact .value (checkMembers_eq_ok_iff.1 hok) hsplit (checkValues_nil_eq_ok_iff.1 hbefore) hm
      · intro hd
        cases hd with
        | noValues hnil => exact absurd hnil hmembers
        | variantTwice hn => exact .inl ⟨_, hn, rfl⟩
        | value hnames hsplit hbefore hm =>
          refine .inr ⟨(), checkMembers_eq_ok_iff.2 hnames, _, _, _, hsplit,
            checkValues_nil_eq_ok_iff.2 hbefore, ?_⟩
          rwa [List.append_nil]
  | object o =>
    rw [validate, checkMembers_eq_error_iff]
    constructor
    · rintro ⟨n, hn, rfl⟩
      exact .fieldTwice hn
    · rintro ⟨⟩
      rename_i n hn
      exact ⟨n, hn, rfl⟩

theorem Entry.Defective.not_valid {e : Entry} {d : Defect} (h : e.names.Nodup)
    (hd : e.Defective d) : ¬ e.Valid := by
  rw [← validate_eq_ok_iff h, (validate_eq_error_iff h).2 hd]
  exact nofun

/-! ## Schemas -/

namespace Schema

variable {s : Schema}

theorem validate_of_nodup (h : (s.entries.flatMap Entry.names).Nodup) :
    s.validate = s.entries.forM Entry.validate := by
  rw [validate, firstRepeat?_nil_eq_none_iff.2 h]

theorem validate_of_firstRepeat {n : String} (h : FirstRepeat (s.entries.flatMap Entry.names) n) :
    s.validate = .error (.nameTwice n) := by
  rw [validate, firstRepeat?_nil_eq_some_iff.2 h]
  rfl

theorem exists_firstRepeat (h : ¬ (s.entries.flatMap Entry.names).Nodup) :
    ∃ n, FirstRepeat (s.entries.flatMap Entry.names) n := by
  rw [← firstRepeat?_nil_eq_none_iff] at h
  obtain ⟨n, hn⟩ := Option.ne_none_iff_exists'.1 h
  exact ⟨n, firstRepeat?_nil_eq_some_iff.1 hn⟩

theorem nodup_names (h : (s.entries.flatMap Entry.names).Nodup) {e : Entry} (he : e ∈ s.entries) :
    e.names.Nodup :=
  (List.nodup_flatMap.1 h).1 e he

theorem validate_eq_ok_iff : s.validate = .ok () ↔ s.Valid := by
  by_cases h : (s.entries.flatMap Entry.names).Nodup
  · rw [validate_of_nodup h, forM_eq_ok_iff]
    constructor
    · exact fun hs => ⟨h, fun e he => (Entry.validate_eq_ok_iff (nodup_names h he)).1 (hs e he)⟩
    · exact fun hs e he => (Entry.validate_eq_ok_iff (nodup_names h he)).2 (hs.entry e he)
  · obtain ⟨n, hn⟩ := exists_firstRepeat h
    rw [validate_of_firstRepeat hn]
    exact ⟨nofun, fun hs => absurd hs.names h⟩

theorem validate_eq_error_iff {d : Defect} :
    s.validate = .error d ↔
      (∃ n, FirstRepeat (s.entries.flatMap Entry.names) n ∧ d = .nameTwice n) ∨
      (s.entries.flatMap Entry.names).Nodup ∧ ∃ before e after, s.entries = before ++ e :: after ∧
        (∀ x ∈ before, x.Valid) ∧ ¬ e.Valid ∧ e.Defective d := by
  by_cases h : (s.entries.flatMap Entry.names).Nodup
  · have hnames : ∀ {before e after}, s.entries = before ++ e :: after →
        e.names.Nodup ∧ ∀ x ∈ before, x.names.Nodup := by
      intro before e after hsplit
      exact ⟨nodup_names h (by simp [hsplit]), fun x hx => nodup_names h (by simp [hsplit, hx])⟩
    rw [validate_of_nodup h, forM_eq_error_iff]
    constructor
    · rintro ⟨before, e, after, hsplit, hbefore, he⟩
      obtain ⟨hnodup, hnodups⟩ := hnames hsplit
      have hdefect := (Entry.validate_eq_error_iff hnodup).1 he
      exact .inr ⟨h, before, e, after, hsplit,
        fun x hx => (Entry.validate_eq_ok_iff (hnodups x hx)).1 (hbefore x hx),
        hdefect.not_valid hnodup, hdefect⟩
    · rintro (⟨n, hn, -⟩ | ⟨-, before, e, after, hsplit, hbefore, -, he⟩)
      · exact absurd h hn.not_nodup
      · obtain ⟨hnodup, hnodups⟩ := hnames hsplit
        exact ⟨before, e, after, hsplit,
          fun x hx => (Entry.validate_eq_ok_iff (hnodups x hx)).2 (hbefore x hx),
          (Entry.validate_eq_error_iff hnodup).2 he⟩
  · obtain ⟨n, hn⟩ := exists_firstRepeat h
    rw [validate_of_firstRepeat hn, Except.error.injEq]
    constructor
    · rintro rfl
      exact .inl ⟨n, hn, rfl⟩
    · rintro (⟨m, hm, rfl⟩ | ⟨hnodup, -⟩)
      · have := validate_of_firstRepeat hm
        rw [validate_of_firstRepeat hn] at this
        exact Except.error.inj this
      · exact absurd hnodup h

/-- Constants of one name are found when names are compared across the schema. -/
theorem validate_of_constant_twice {c : ConstGroup} (hc : .const c ∈ s.entries)
    (h : ¬ (c.members.map Member.name).Nodup) : ∃ n, s.validate = .error (.nameTwice n) := by
  have hnames : ¬ (s.entries.flatMap Entry.names).Nodup := fun hnodup =>
    h (ConstGroup.nodup_names (nodup_names hnodup hc))
  obtain ⟨n, hn⟩ := exists_firstRepeat hnames
  exact ⟨n, validate_of_firstRepeat hn⟩

/-- **Validation is exact.** It accepts a schema exactly if it is valid. Otherwise a name that is
declared twice is reported before everything else, and then the first defect of the first invalid
entry. A group whose constants have one name declares a name twice, so that two members of one name
are reported of enums and objects only. -/
theorem validate_exact (s : Schema) :
    (s.validate = .ok () ↔ s.Valid) ∧
    (∀ d, s.validate = .error d ↔
      (∃ n, FirstRepeat (s.entries.flatMap Entry.names) n ∧ d = .nameTwice n) ∨
      (s.entries.flatMap Entry.names).Nodup ∧ ∃ before e after, s.entries = before ++ e :: after ∧
        (∀ x ∈ before, x.Valid) ∧ ¬ e.Valid ∧ e.Defective d) ∧
    (∀ c, .const c ∈ s.entries → ¬ (c.members.map Member.name).Nodup →
      ∃ n, s.validate = .error (.nameTwice n)) ∧
    (∀ member owner, s.validate = .error (.memberTwice member owner) →
      (∃ e ∈ s.enums, e.name = owner ∧ FirstRepeat (e.members.map Member.name) member) ∨
      ∃ o ∈ s.objects, o.name = owner ∧ FirstRepeat (o.fields.map Field.name) member) := by
  refine ⟨validate_eq_ok_iff, fun d => validate_eq_error_iff,
    fun c hc h => validate_of_constant_twice hc h, ?_⟩
  intro member owner h
  rcases validate_eq_error_iff.1 h with ⟨n, -, hd⟩ | ⟨-, before, e, after, hsplit, -, -, hd⟩
  · cases hd
  · have he : e ∈ s.entries := by simp [hsplit]
    cases hd with
    | variantTwice hn => exact .inl ⟨_, mem_enums.2 he, rfl, hn⟩
    | value _ _ _ hm => cases hm
    | fieldTwice hn => exact .inr ⟨_, mem_objects.2 he, rfl, hn⟩

/-! ## Names of enums -/

theorem sublist_enumNames (s : Schema) :
    (s.enums.map EnumDecl.name).Sublist (s.entries.flatMap Entry.names) := by
  rw [enums]
  induction s.entries with
  | nil => exact .slnil
  | cons e es ih =>
    rw [List.flatMap_cons]
    cases e with
    | const c => exact ih.trans (List.sublist_append_right _ _)
    | enum e => exact ih.cons_cons e.name
    | object o => exact ih.cons o.name

theorem Valid.enumType?_eq_some_iff (h : s.Valid) {n : String} {p : Primitive} :
    s.enumType? n = some p ↔ ∃ e ∈ s.enums, e.name = n ∧ e.type = p := by
  have hnodup : (s.enums.map EnumDecl.name).Nodup := h.names.sublist s.sublist_enumNames
  rw [enumType?, Option.map_eq_some_iff]
  constructor
  · rintro ⟨e, hfind, rfl⟩
    have he := List.mem_reverse.1 (List.mem_of_find?_eq_some hfind)
    exact ⟨e, he, by simpa using List.find?_some hfind, rfl⟩
  · rintro ⟨e, he, rfl, rfl⟩
    have hsome : (s.enums.reverse.find? fun x => x.name = e.name).isSome :=
      List.find?_isSome.2 ⟨e, List.mem_reverse.2 he, by simp⟩
    obtain ⟨x, hx⟩ := Option.isSome_iff_exists.1 hsome
    have hmem := List.mem_reverse.1 (List.mem_of_find?_eq_some hx)
    have hname : x.name = e.name := by simpa using List.find?_some hx
    exact ⟨e, List.inj_on_of_nodup_map hnodup hmem he hname ▸ hx, rfl⟩

end Schema

end Idl
