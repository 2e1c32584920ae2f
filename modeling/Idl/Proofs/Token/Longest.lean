import Idl.Proofs.Token.Pattern

/-!
# Recognisers take the longest lexeme

* `Within`, `Exact`: what a recogniser takes is in a language, and it takes what is in the language.
* `Takes`: a recogniser takes the longest piece of a kind.
* `takes_number`: a fraction or an exponent is left out only if a word would go on after it.
* **`takes_token?`**, **`takes_gap?`**: the recognisers of a scan.
-/

namespace Idl

open Computability Text Lexeme

/-! ## What a recogniser takes -/

namespace Lexeme

/-- What the recogniser takes is in the language. -/
def Within (p : Recogniser) (L : Language Char) : Prop := ∀ cs a, p cs = some a → a.lexeme ∈ L

/-- The recogniser takes a piece of the language off, if what follows is as it should be. -/
def Exact (p : Recogniser) (L : Language Char) (S : List Char → Prop) : Prop :=
  ∀ w r, w ∈ L → S r → p (w ++ r) = some ⟨w, r⟩

section Parts

variable {p q : Recogniser} {L K : Language Char} {S T : List Char → Prop}

theorem Within.mono (h : Within p L) (hLK : L ≤ K) : Within p K :=
  fun cs a ha => hLK (h cs a ha)

theorem within_one (f : Char → Bool) : Within (one f) (Pattern.char f) := by
  intro cs a h
  cases cs with
  | nil => simp [one] at h
  | cons c cs =>
    simp only [one] at h
    split_ifs at h with hc
    cases h
    exact ⟨c, hc, rfl⟩

theorem within_some1 (f : Char → Bool) : Within (some1 f) (Pattern.run f) := by
  intro cs a h
  unfold some1 at h
  split_ifs at h with hne
  cases h
  rw [Pattern.mem_run]
  exact ⟨by simpa using hne, fun c hc => List.mem_takeWhile_imp hc⟩

theorem within_many (f : Char → Bool) : Within (many f) (Pattern.char f)∗ := by
  intro cs a h
  cases h
  exact Pattern.mem_star.2 fun c hc => List.mem_takeWhile_imp hc

theorem within_andThen (hp : Within p L) (hq : Within q K) : Within (andThen p q) (L * K) := by
  intro cs a h
  simp only [andThen, Option.bind_eq_some_iff, Option.map_eq_some_iff] at h
  obtain ⟨x, hx, y, hy, rfl⟩ := h
  exact Language.append_mem_mul (hp _ _ hx) (hq _ _ hy)

theorem within_optional (hp : Within p L) : Within (optional p) (1 + L) := by
  intro cs a h
  cases hx : p cs with
  | none =>
    rw [optional, hx] at h
    cases h
    exact .inl rfl
  | some x =>
    rw [optional, hx] at h
    cases h
    exact .inr (hp _ _ hx)

theorem exact_one (f : Char → Bool) : Exact (one f) (Pattern.char f) fun _ => True := by
  rintro _ r ⟨c, hc, rfl⟩ -
  simp [one, hc]

theorem takeWhile_of_stops {f : Char → Bool} {w r : List Char} (hw : ∀ c ∈ w, f c = true)
    (hr : Stops f r) : (w ++ r).takeWhile f = w ∧ (w ++ r).dropWhile f = r := by
  rw [List.takeWhile_append_of_pos hw, List.dropWhile_append_of_pos hw]
  cases r with
  | nil => simp
  | cons c r =>
    have hc : f c = false := hr
    simp [hc]

theorem exact_some1 (f : Char → Bool) : Exact (some1 f) (Pattern.run f) (Stops f) := by
  intro w r hw hr
  obtain ⟨hne, hall⟩ := Pattern.mem_run.1 hw
  obtain ⟨htake, hdrop⟩ := takeWhile_of_stops hall hr
  rw [some1, htake, hdrop, if_neg (by simpa using hne)]

theorem exact_many (f : Char → Bool) : Exact (many f) (Pattern.char f)∗ (Stops f) := by
  intro w r hw hr
  obtain ⟨htake, hdrop⟩ := takeWhile_of_stops (Pattern.mem_star.1 hw) hr
  rw [many, htake, hdrop]

theorem exact_andThen (hp : Exact p L S) (hq : Exact q K T)
    (hST : ∀ w r, w ∈ K → T r → S (w ++ r)) : Exact (andThen p q) (L * K) T := by
  intro w r hw hr
  obtain ⟨u, hu, v, hv, rfl⟩ := Language.mem_mul.1 hw
  rw [andThen, List.append_assoc, hp u _ hu (hST v r hv hr), Option.bind_some, hq v r hv hr]
  rfl

theorem exact_optional (hp : Exact p L S) :
    Exact (optional p) (1 + L) fun r => p r = none ∧ S r := by
  rintro w r (rfl | hw) ⟨hnone, hr⟩
  · show optional p r = _
    rw [optional, hnone]
    rfl
  · rw [optional, hp w r hw hr]
    rfl

theorem exact_optional_one (f : Char → Bool) :
    Exact (optional (one f)) (1 + Pattern.char f) (Stops f) := by
  intro w r hw hr
  refine exact_optional (exact_one f) w r hw ⟨?_, trivial⟩
  cases r with
  | nil => rfl
  | cons c r =>
    have hc : f c = false := hr
    simp [one, hc]

end Parts

/-- The recogniser takes the longest piece that stands as `M` says before what follows. -/
structure Takes (p : Recogniser) (M : List Char → List Char → Prop) : Prop where
  sound : ∀ {cs a}, p cs = some a → M a.lexeme a.rest
  longest : ∀ {w r}, M w r → ∃ a, p (w ++ r) = some a ∧ w.length ≤ a.lexeme.length

/-! ## Numbers -/

theorem stops_of_mem_run {f g : Char → Bool} {w : List Char} (r : List Char)
    (hw : w ∈ Pattern.run f) (hfg : ∀ c, f c = true → g c = false) : Stops g (w ++ r) := by
  obtain ⟨hne, hall⟩ := Pattern.mem_run.1 hw
  obtain ⟨c, v, rfl⟩ := List.exists_cons_of_ne_nil hne
  exact hfg c (hall c (by simp))

theorem exact_integer : Exact integer Pattern.integer (Stops isDigit) := by
  refine exact_andThen (exact_optional_one _) (exact_some1 _) fun w r hw _ => ?_
  refine stops_of_mem_run r hw fun c hc => ?_
  rw [beq_eq_false_iff_ne]
  rintro rfl
  revert hc
  decide

theorem exact_fraction : Exact fraction Pattern.fraction (Stops isDigit) :=
  exact_andThen (exact_one _) (exact_some1 _) fun _ _ _ _ => trivial

theorem exact_exponent : Exact exponent Pattern.exponent (Stops isDigit) := by
  refine exact_andThen (exact_one _) (exact_andThen (exact_optional_one _) (exact_some1 _)
    fun w r hw _ => ?_) fun _ _ _ _ => trivial
  refine stops_of_mem_run r hw fun c hc => ?_
  rw [Bool.or_eq_false_iff, beq_eq_false_iff_ne, beq_eq_false_iff_ne]
  constructor <;> rintro rfl <;> revert hc <;> decide

theorem andThen_one_eq_none {f : Char → Bool} (q : Recogniser) {r : List Char} (h : Stops f r) :
    andThen (one f) q r = none := by
  cases r with
  | nil => rfl
  | cons c r =>
    have hc : f c = false := h
    simp [andThen, one, hc]

theorem exponent_eq_none {r : List Char} (h : Stops isWord r) : exponent r = none := by
  refine andThen_one_eq_none _ (h.mono fun c hc => ?_)
  rw [Bool.or_eq_true, beq_iff_eq, beq_iff_eq] at hc
  rcases hc with rfl | rfl <;> decide

theorem fraction_eq_none {w r : List Char} (hw : w ∈ Pattern.exponent) :
    fraction (w ++ r) = none := by
  obtain ⟨_, ⟨c, hc, rfl⟩, v, -, rfl⟩ := Language.mem_mul.1 hw
  refine andThen_one_eq_none _ (stops_cons.2 ?_)
  rw [Bool.or_eq_true, beq_iff_eq, beq_iff_eq] at hc
  rcases hc with rfl | rfl <;> decide

theorem stops_isDigit_fraction {w : List Char} (r : List Char) (hw : w ∈ Pattern.fraction) :
    Stops isDigit (w ++ r) := by
  obtain ⟨_, ⟨c, hc, rfl⟩, v, -, rfl⟩ := Language.mem_mul.1 hw
  rw [beq_iff_eq] at hc
  subst hc
  exact stops_cons.2 (by decide)

theorem stops_isDigit_exponent {w : List Char} (r : List Char) (hw : w ∈ Pattern.exponent) :
    Stops isDigit (w ++ r) := by
  obtain ⟨_, ⟨c, hc, rfl⟩, v, -, rfl⟩ := Language.mem_mul.1 hw
  refine stops_cons.2 ?_
  rw [Bool.or_eq_true, beq_iff_eq, beq_iff_eq] at hc
  rcases hc with rfl | rfl <;> decide

theorem within_integer : Within integer Pattern.integer :=
  within_andThen (within_optional (within_one _)) (within_some1 _)

theorem within_fraction : Within fraction Pattern.fraction :=
  within_andThen (within_one _) (within_some1 _)

theorem within_exponent : Within exponent Pattern.exponent :=
  within_andThen (within_one _) (within_andThen (within_optional (within_one _)) (within_some1 _))

theorem number_sound {cs : List Char} {a : Cut} (h : number cs = some a) :
    a.lexeme ∈ Pattern.number ∧ Stops isWord a.rest := by
  obtain ⟨p, hp, hpa⟩ := List.exists_of_findSome?_eq_some h
  have hone : ∀ L : Language Char, (1 : Language Char) ≤ 1 + L := fun L w hw => .inl hw
  have hself : ∀ L : Language Char, L ≤ 1 + L := fun L w hw => .inr hw
  simp only [List.mem_cons, List.not_mem_nil, or_false] at hp
  rcases hp with rfl | rfl | rfl | rfl <;>
    obtain ⟨hcut, hend⟩ := Option.filter_eq_some_iff.1 hpa <;>
    refine ⟨?_, wordEnds_iff.1 hend⟩
  · refine (within_andThen within_integer (within_andThen within_fraction within_exponent)).mono ?_
      _ _ hcut
    exact mul_le_mul' le_rfl (mul_le_mul' (hself _) (hself _))
  · refine (within_andThen within_integer within_fraction).mono ?_ _ _ hcut
    calc Pattern.integer * Pattern.fraction
        = Pattern.integer * (Pattern.fraction * 1) := by rw [mul_one]
      _ ≤ Pattern.number := mul_le_mul' le_rfl (mul_le_mul' (hself _) (hone _))
  · refine (within_andThen within_integer within_exponent).mono ?_ _ _ hcut
    calc Pattern.integer * Pattern.exponent
        = Pattern.integer * (1 * Pattern.exponent) := by rw [one_mul]
      _ ≤ Pattern.number := mul_le_mul' le_rfl (mul_le_mul' (hone _) (hself _))
  · refine within_integer.mono ?_ _ _ hcut
    calc Pattern.integer = Pattern.integer * (1 * 1) := by rw [mul_one, mul_one]
      _ ≤ Pattern.number := mul_le_mul' le_rfl (mul_le_mul' (hone _) (hone _))

theorem integer_length_le {cs : List Char} {a i : Cut} (h : number cs = some a)
    (hi : integer cs = some i) : i.lexeme.length ≤ a.lexeme.length := by
  have hand : ∀ q, andThen integer q cs = some a → i.lexeme.length ≤ a.lexeme.length := by
    intro q hq
    rw [andThen, hi, Option.bind_some, Option.map_eq_some_iff] at hq
    obtain ⟨b, -, rfl⟩ := hq
    simp
  obtain ⟨p, hp, hpa⟩ := List.exists_of_findSome?_eq_some h
  simp only [List.mem_cons, List.not_mem_nil, or_false] at hp
  rcases hp with rfl | rfl | rfl | rfl <;> have hcut := (Option.filter_eq_some_iff.1 hpa).1
  · exact hand _ hcut
  · exact hand _ hcut
  · exact hand _ hcut
  · rw [hi] at hcut
    cases hcut
    exact le_rfl

/-- **The longest number.** A fraction or an exponent that can be there is taken. -/
theorem takes_number : Takes number fun w r => w ∈ Pattern.number ∧ Stops isWord r where
  sound := number_sound
  longest := by
    rintro w r ⟨hw, hr⟩
    have hdigit : Stops isDigit r := hr.mono fun _ => isWord_of_isDigit
    have hend : wordEnds r = true := wordEnds_iff.2 hr
    obtain ⟨i, hi, _, hfe, rfl⟩ := Language.mem_mul.1 hw
    obtain ⟨f, hf, e, he, rfl⟩ := Language.mem_mul.1 hfe
    rcases hf with rfl | hf <;> rcases he with rfl | he
    · have hint := exact_integer i r hi hdigit
      have hlast : (atWordEnd integer (i ++ r)).isSome = true := by
        rw [atWordEnd, hint, Option.filter_some, if_pos hend]
        rfl
      have hsome : (number (i ++ r)).isSome = true :=
        List.findSome?_isSome_iff.2 ⟨_, by simp, hlast⟩
      obtain ⟨a, ha⟩ := Option.isSome_iff_exists.1 hsome
      refine ⟨a, by simpa using ha, ?_⟩
      simpa using integer_length_le ha hint
    · have hint := exact_integer i (e ++ r) hi (stops_isDigit_exponent r he)
      have hcut := exact_exponent e r he hdigit
      refine ⟨⟨i ++ e, r⟩, ?_, by simp⟩
      simp [number, firstOf, atWordEnd, andThen, hint, hcut, fraction_eq_none he, hend]
    · have hint := exact_integer i (f ++ r) hi (stops_isDigit_fraction r hf)
      have hcut := exact_fraction f r hf hdigit
      refine ⟨⟨i ++ f, r⟩, ?_, by simp⟩
      simp [number, firstOf, atWordEnd, andThen, hint, hcut, exponent_eq_none hr, hend]
    · have hint := exact_integer i (f ++ (e ++ r)) hi (stops_isDigit_fraction _ hf)
      have hfrac := exact_fraction f (e ++ r) hf (stops_isDigit_exponent r he)
      have hcut := exact_exponent e r he hdigit
      refine ⟨⟨i ++ (f ++ e), r⟩, ?_, by simp⟩
      simp [number, firstOf, atWordEnd, andThen, hint, hfrac, hcut, hend]

/-! ## The other kinds -/

theorem quotedRest_append {u : List Char} (hu : u ∈ Pattern.quotedUnit) (cs : List Char) :
    quotedRest (u ++ cs) = (quotedRest cs).map fun a => ⟨u ++ a.lexeme, a.rest⟩ := by
  rcases hu with ⟨c, hc, rfl⟩ | hu
  · simp only [Bool.and_eq_true, bne_iff_ne, ne_eq] at hc
    obtain ⟨⟨hq, hb⟩, hn⟩ := hc
    rw [List.singleton_append, quotedRest, if_neg (by simp [hn, hb])]
    · rfl
    · simp [hq]
    · simp [hb]
  · obtain ⟨_, ⟨b, hb, rfl⟩, _, ⟨c, hc, rfl⟩, rfl⟩ := Language.mem_mul.1 hu
    rw [beq_iff_eq] at hb
    rw [bne_iff_ne] at hc
    subst hb
    show quotedRest ('\\' :: c :: cs) = _
    rw [quotedRest, if_neg hc]
    rfl

theorem quotedRest_units {us : List Char} (hus : us ∈ Pattern.quotedUnit∗) (r : List Char) :
    quotedRest (us ++ '"' :: r) = some ⟨us ++ ['"'], r⟩ := by
  obtain ⟨L, rfl, hL⟩ := Language.mem_kstar.1 hus
  induction L with
  | nil => rfl
  | cons u L ih =>
    rw [List.forall_mem_cons] at hL
    rw [List.flatten_cons, List.append_assoc, quotedRest_append hL.1,
      ih hL.2 (Language.join_mem_kstar hL.2)]
    simp

theorem quotedRest_sound {cs : List Char} {a : Cut} (h : quotedRest cs = some a) :
    a.lexeme ∈ Pattern.quotedUnit∗ * Pattern.char (· == '"') := by
  -- one more unit before what is between the quotes
  have hcons : ∀ {u v : List Char}, u ∈ Pattern.quotedUnit →
      v ∈ Pattern.quotedUnit∗ * Pattern.char (· == '"') →
      u ++ v ∈ Pattern.quotedUnit∗ * Pattern.char (· == '"') := by
    intro u v hu hv
    obtain ⟨us, hus, q, hq, rfl⟩ := Language.mem_mul.1 hv
    rw [← List.append_assoc]
    have hmore : u ++ us ∈ Pattern.quotedUnit∗ := by
      rw [← Language.one_add_self_mul_kstar_eq_kstar]
      exact .inr (Language.append_mem_mul hu hus)
    exact Language.append_mem_mul hmore hq
  fun_induction quotedRest cs generalizing a with
  | case1 => cases h
  | case2 cs =>
    cases h
    exact Language.append_mem_mul (Language.nil_mem_kstar _) ⟨'"', rfl, rfl⟩
  | case3 => cases h
  | case4 c cs hc ih =>
    obtain ⟨b, hb, rfl⟩ := Option.map_eq_some_iff.1 h
    refine hcons (u := ['\\', c]) (.inr ?_) (ih hb)
    exact Language.append_mem_mul (a := ['\\']) ⟨_, rfl, rfl⟩ ⟨c, by simpa using hc, rfl⟩
  | case5 => cases h
  | case6 c cs hq _ hc ih =>
    obtain ⟨b, hb, rfl⟩ := Option.map_eq_some_iff.1 h
    rw [not_or] at hc
    have hq' : c ≠ '"' := fun h => hq h
    exact hcons (u := [c]) (.inl ⟨c, by simp [hq', hc.1, hc.2], rfl⟩) (ih hb)

theorem exact_quoted : Exact quoted Pattern.quoted fun _ => True := by
  intro w r hw _
  obtain ⟨us, hus, rfl⟩ := Pattern.mem_quoted.1 hw
  simp [quoted, andThen, one, quotedRest_units hus]

theorem takes_quoted : Takes quoted fun w _ => w ∈ Pattern.quoted where
  sound h := within_andThen (within_one _) (fun _ _ => quotedRest_sound) _ _ h
  longest hw := ⟨_, exact_quoted _ _ hw trivial, le_rfl⟩

theorem takes_mark : Takes (one isMark) fun w _ => w ∈ Pattern.mark where
  sound h := within_one _ _ _ h
  longest hw := ⟨_, exact_one _ _ _ hw trivial, le_rfl⟩

theorem takes_name : Takes name fun w r => w ∈ Pattern.name ∧ Stops isWord r where
  sound := by
    intro cs a h
    obtain ⟨hcut, hend⟩ := Option.filter_eq_some_iff.1 h
    exact ⟨within_andThen (within_one _) (within_many _) _ _ hcut, wordEnds_iff.1 hend⟩
  longest := by
    rintro w r ⟨hw, hr⟩
    have hcut := exact_andThen (exact_one _) (exact_many _) (fun _ _ _ _ => trivial) w r hw
      (hr.mono fun _ => isWord_of_isNamePart)
    refine ⟨⟨w, r⟩, ?_, le_rfl⟩
    rw [name, atWordEnd, hcut, Option.filter_some, if_pos (wordEnds_iff.2 hr)]

theorem length_le_takeWhile {f : Char → Bool} {w : List Char} (r : List Char)
    (hw : ∀ c ∈ w, f c = true) : w.length ≤ ((w ++ r).takeWhile f).length := by
  rw [List.takeWhile_append_of_pos hw, List.length_append]
  omega

theorem takes_comment : Takes comment fun w _ => w ∈ Pattern.comment where
  sound h := within_andThen (within_one _) (within_andThen (within_one _) (within_many _)) _ _ h
  longest := by
    intro w r hw
    obtain ⟨u, rfl, hline⟩ := Pattern.mem_comment.1 hw
    refine ⟨⟨'/' :: '/' :: (u ++ r).takeWhile (· != '\n'), (u ++ r).dropWhile (· != '\n')⟩, ?_, ?_⟩
    · simp [comment, andThen, one, many]
    · simpa using length_le_takeWhile r fun c hc => bne_iff_ne.2 (ne_of_mem_of_not_mem hc hline)

theorem takes_blanks : Takes blanks fun w _ => w ∈ Pattern.blanks where
  sound h := within_some1 _ _ _ h
  longest := by
    intro w r hw
    obtain ⟨hne, hall⟩ := Pattern.mem_run.1 hw
    have hlen := length_le_takeWhile r hall
    have hpos := List.length_pos_iff.2 hne
    refine ⟨⟨(w ++ r).takeWhile isBlank, (w ++ r).dropWhile isBlank⟩, ?_, hlen⟩
    rw [blanks, some1, if_neg]
    rw [List.isEmpty_iff, ← List.length_eq_zero_iff]
    omega

/-! ## All kinds together -/

theorem takes_or {p : Recogniser} {ps : List Recogniser} {M N : List Char → List Char → Prop}
    (hp : Takes p M) (hps : Takes (firstOf ps) N) (hsplit : Splits p)
    (hne : ∀ w r v u, M w r → N v u → w ++ r ≠ v ++ u) :
    Takes (firstOf (p :: ps)) fun w r => M w r ∨ N w r where
  sound := by
    intro cs a h
    rw [firstOf, List.findSome?_cons] at h
    split at h
    · rename_i b hb
      cases h
      exact .inl (hp.sound hb)
    · exact .inr (hps.sound h)
  longest := by
    rintro w r (h | h)
    · obtain ⟨a, ha, hlen⟩ := hp.longest h
      exact ⟨a, by rw [firstOf, List.findSome?_cons, ha], hlen⟩
    · obtain ⟨a, ha, hlen⟩ := hps.longest h
      refine ⟨a, ?_, hlen⟩
      cases hpw : p (w ++ r) with
      | none => rwa [firstOf, List.findSome?_cons, hpw]
      | some b => exact absurd (hsplit _ _ hpw) (hne _ _ _ _ (hp.sound hpw) h)

/-- **The longest token.** -/
theorem takes_token? (inside : Bool) : Takes (token? inside) fun w r =>
    w ∈ Pattern.quoted ∨ (w ∈ Pattern.number ∧ Stops isWord r) ∨ w ∈ Pattern.mark ∨
      (inside = false ∧ w ∈ Pattern.name ∧ Stops isWord r) := by
  have hname : Takes (firstOf (if inside then [] else [name])) fun w r =>
      inside = false ∧ w ∈ Pattern.name ∧ Stops isWord r := by
    cases inside with
    | true => exact ⟨nofun, nofun⟩
    | false =>
      constructor
      · intro cs a h
        exact ⟨rfl, takes_name.sound (by simpa [firstOf] using h)⟩
      · rintro w r ⟨-, h⟩
        obtain ⟨a, ha, hlen⟩ := takes_name.longest h
        exact ⟨a, by simpa [firstOf] using ha, hlen⟩
  refine takes_or takes_quoted (takes_or takes_number (takes_or takes_mark hname (splits_one _) ?_)
    splits_number ?_) (splits_andThen (splits_one _) splits_quotedRest) ?_
  · rintro w r v u hw ⟨-, hv, -⟩
    exact append_ne_of_begins (begins_mark hw) (begins_name hv) nofun r u
  · rintro w r v u ⟨hw, -⟩ (hv | ⟨-, hv, -⟩)
    · exact append_ne_of_begins (begins_number hw) (begins_mark hv) nofun r u
    · exact append_ne_of_begins (begins_number hw) (begins_name hv) nofun r u
  · rintro w r v u hw (⟨hv, -⟩ | hv | ⟨-, hv, -⟩)
    · exact append_ne_of_begins (begins_quoted hw) (begins_number hv) nofun r u
    · exact append_ne_of_begins (begins_quoted hw) (begins_mark hv) nofun r u
    · exact append_ne_of_begins (begins_quoted hw) (begins_name hv) nofun r u

/-- **The longest gap.** -/
theorem takes_gap? : Takes gap? fun w _ => w ∈ Pattern.comment ∨ w ∈ Pattern.blanks := by
  have hblanks : Takes (firstOf [blanks]) fun w _ => w ∈ Pattern.blanks := by
    constructor
    · intro cs a h
      exact takes_blanks.sound (by simpa [firstOf] using h)
    · intro w r h
      obtain ⟨a, ha, hlen⟩ := takes_blanks.longest (r := r) h
      exact ⟨a, by simpa [firstOf] using ha, hlen⟩
  refine takes_or takes_comment hblanks
    (splits_andThen (splits_one _) (splits_andThen (splits_one _) (splits_many _))) ?_
  intro w r v u hw hv
  exact append_ne_of_begins (begins_comment hw) (begins_blanks hv) nofun r u

end Lexeme

end Idl
