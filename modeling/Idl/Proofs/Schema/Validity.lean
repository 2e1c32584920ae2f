import Idl.Compile
import Idl.Proofs.Reader.Verdict

/-!
# What valid schemas promise

* `checkValues_eq_ok_iff`: the values of an enum fit its type and are different.
* `Literal.same_comm`: being the same value goes both ways.
* `Schema.compile_of_derives`: every schema of the grammar that obeys the rules compiles.
* `EnumDecl.Distinct`, **`EnumDecl.distinct_of_compile`**: what holds of the enums of a compiled
  schema.
-/

namespace Idl

theorem Binary64.sameNumber_comm (x y : Binary64) : x.sameNumber y = y.sameNumber x := by
  cases x <;> cases y <;> simp only [sameNumber]
  · exact Bool.beq_comm
  · rename_i n a ha m b hb
    rw [Bool.eq_iff_iff]
    simp only [Bool.and_eq_true, Bool.or_eq_true, beq_iff_eq]
    constructor
    · rintro ⟨rfl, h⟩
      exact ⟨rfl, h.imp_left Eq.symm⟩
    · rintro ⟨rfl, h⟩
      exact ⟨rfl, h.imp_left Eq.symm⟩

theorem Literal.same_comm (v w : Literal) : v.same w = w.same v := by
  cases v <;> cases w <;> simp only [same]
  · exact Bool.beq_comm
  · exact Binary64.sameNumber_comm _ _
  · exact Bool.beq_comm
  · exact Bool.beq_comm

theorem checkLiteral_eq_ok_iff {p : Primitive} {m : Member} :
    checkLiteral p m = .ok () ↔ p.fit m.value = .ok () :=
  mapError_eq_ok_iff

/-- The values fit, differ from those seen before, and differ among themselves. -/
theorem checkValues_eq_ok_iff {e : EnumDecl} {seen : List Literal} {ms : List Member} :
    checkValues e seen ms = .ok () ↔
      (∀ m ∈ ms, e.type.fit m.value = .ok ()) ∧
      (∀ m ∈ ms, ∀ v ∈ seen, m.value.same v = false) ∧
      ms.Pairwise fun m n => m.value.same n.value = false := by
  induction ms generalizing seen with
  | nil => simp [checkValues]
  | cons m ms ih =>
    rw [checkValues, bind_unit_eq_ok_iff, checkLiteral_eq_ok_iff]
    by_cases h : seen.any (m.value.same ·) = true
    · rw [if_pos h]
      obtain ⟨v, hv, hsame⟩ := List.any_eq_true.1 h
      simp only [reduceCtorEq, and_false, false_iff]
      rintro ⟨-, hseen, -⟩
      exact absurd (hseen m (by simp) v hv) (by simp [hsame])
    · have hm : ∀ v ∈ seen, m.value.same v = false := by simpa using h
      rw [if_neg h, ih]
      simp only [List.forall_mem_cons, List.pairwise_cons]
      constructor
      · rintro ⟨hfit, hfits, hnew, hpair⟩
        exact ⟨⟨hfit, hfits⟩, ⟨hm, fun n hn => (hnew n hn).2⟩,
          fun n hn => Literal.same_comm n.value m.value ▸ (hnew n hn).1, hpair⟩
      · rintro ⟨⟨hfit, hfits⟩, ⟨-, hseen⟩, hnew, hpair⟩
        exact ⟨hfit, hfits,
          fun n hn => ⟨Literal.same_comm m.value n.value ▸ hnew n hn, hseen n hn⟩, hpair⟩

/-- The values of an enum fit its type, and no two are the same. -/
def EnumDecl.Distinct (e : EnumDecl) : Prop :=
  (∀ m ∈ e.members, e.type.fit m.value = .ok ()) ∧
    e.members.Pairwise fun m n => m.value.same n.value = false

theorem EnumDecl.distinct_of_validate {e : EnumDecl} (h : (Entry.enum e).validate = .ok ()) :
    e.Distinct := by
  rw [Entry.validate] at h
  split at h
  · cases h
  · obtain ⟨-, hvalues⟩ := bind_unit_eq_ok_iff.1 h
    obtain ⟨hfit, -, hpair⟩ := checkValues_eq_ok_iff.1 hvalues
    exact ⟨hfit, hpair⟩

theorem Schema.validate_entry {s : Schema} (h : s.validate = .ok ()) :
    ∀ e ∈ s.entries, e.validate = .ok () := by
  rw [Schema.validate] at h
  split at h
  · cases h
  · exact forM_eq_ok_iff.1 h

theorem Schema.mem_enums {s : Schema} {e : EnumDecl} : e ∈ s.enums ↔ .enum e ∈ s.entries := by
  simp only [enums, List.mem_filterMap]
  constructor
  · rintro ⟨x, hx, h⟩
    cases x <;> cases h
    exact hx
  · exact fun h => ⟨_, h, rfl⟩

theorem Schema.mem_objects {s : Schema} {o : ObjectDecl} : o ∈ s.objects ↔ .object o ∈ s.entries := by
  simp only [objects, List.mem_filterMap]
  constructor
  · rintro ⟨x, hx, h⟩
    cases x <;> cases h
    exact hx
  · exact fun h => ⟨_, h, rfl⟩

theorem Schema.validate_of_compile {text : String} {s : Schema} (h : Schema.compile text = .ok s) :
    s.validate = .ok () := by
  obtain ⟨s', -, h'⟩ := bind_eq_ok_iff.1 h
  obtain ⟨hvalid, hs⟩ := bind_unit_eq_ok_iff.1 h'
  cases hs
  exact mapError_eq_ok_iff.1 hvalid

theorem Schema.compile_of_parse {text : String} {s : Schema} (h : Schema.parse text = .ok s)
    (hvalid : s.validate = .ok ()) : Schema.compile text = .ok s := by
  rw [Schema.compile, h]
  show s.validate.mapError Fault.invalid >>= _ = _
  rw [hvalid]
  rfl

/-- What the grammar derives and the rules allow compiles, positions apart. -/
theorem Schema.compile_of_derives {text : String} {ws : List String} {s : Schema}
    (hscan : (scan text).map texts = .ok (ws ++ [""])) (hs : Grammar.Derives ws s)
    (hvalid : s.unplaced.validate = .ok ()) :
    ∃ s', Schema.compile text = .ok s' ∧ s'.unplaced = s.unplaced := by
  cases h : scan text with
  | error => rw [h] at hscan; cases hscan
  | ok us =>
    rw [h] at hscan
    obtain ⟨ts, r, rfl, rfl, hr⟩ := exists_of_texts_eq_append (Except.ok.inj hscan)
    obtain ⟨e, rfl, he⟩ := List.map_eq_singleton_iff.1 hr
    obtain ⟨s', hok, heq⟩ := ofTokens_of_derives ts he hs
    rw [← heq, Schema.validate_unplaced, mapError_eq_ok_iff] at hvalid
    refine ⟨s', Schema.compile_of_parse ?_ hvalid, heq⟩
    rw [Schema.parse, h]
    show (Schema.ofTokens (ts ++ [e])).mapError Fault.ofReadFailure = _
    rw [hok]
    rfl

/-- **Enums of a compiled schema** have values that fit and differ. -/
theorem EnumDecl.distinct_of_compile {text : String} {s : Schema} {e : EnumDecl}
    (h : Schema.compile text = .ok s) (he : e ∈ s.enums) : e.Distinct :=
  distinct_of_validate (Schema.validate_entry (Schema.validate_of_compile h) _ (Schema.mem_enums.1 he))

end Idl
