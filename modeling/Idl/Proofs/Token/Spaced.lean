import Idl.Proofs.Token.Lossless

/-!
# Tokens with gaps between them

Tokens are read as they are, whatever blanks and comments stand between them.

* `Pattern.token`: the pieces that make tokens.
* `Pattern.separator`: what may stand between tokens.
* `Pattern.solid`: texts in which no gap begins. Every token that is not quoted is one.
* **`exact_token?`**: a token before a gap, or at the end, is taken as it stands.
* `scanFrom_separator`: a scan passes over separators.
* `oneLine`, `oneLineTokens`, `scanFrom_oneLine`: tokens with a blank between them, and where they are
  found.
* `scanFrom_spread`, **`scan_spread`**: the tokens of a text, spread over another.
-/

namespace Idl

open Computability Text Lexeme

namespace Pattern

/-- A piece that makes a token. -/
def token : Language Char := quoted + (number + (mark + name))

/-- What may stand between tokens: blanks, and comments with the ends of their lines. -/
def separator : Language Char := (char isBlank + comment * char (· == '\n'))∗

/-- A character that begins a gap. -/
def beginsGap (c : Char) : Bool := isBlank c || c == '/'

/-- Characters that begin no gap. -/
def solid : Language Char := (char fun c => !beginsGap c)∗

theorem beginsGap_of_mem_solid {w : List Char} (hw : w ∈ solid) : ∀ c ∈ w, beginsGap c = false := by
  simpa using mem_star.1 hw

theorem char_le_solid {p : Char → Bool} (hp : ∀ c, p c = true → beginsGap c = false) :
    char p ≤ solid := by
  rintro _ ⟨c, hc, rfl⟩
  exact mem_star.2 (by simp [hp c hc])

theorem mul_le_solid {L K : Language Char} (hL : L ≤ solid) (hK : K ≤ solid) : L * K ≤ solid :=
  (mul_le_mul' hL hK).trans (kstar_mul_kstar _).le

theorem optional_le_solid {L : Language Char} (hL : L ≤ solid) : 1 + L ≤ solid :=
  add_le one_le_kstar hL

theorem kstar_le_solid {L : Language Char} (hL : L ≤ solid) : L∗ ≤ solid :=
  (kstar_mono hL).trans (kstar_idem _).le

theorem isWord_of_beginsGap {c : Char} (h : beginsGap c = true) : isWord c = false := by
  rw [beginsGap, Bool.or_eq_true, beq_iff_eq] at h
  rcases h with h | rfl
  · exact isWord_of_isBlank h
  · decide

theorem beginsGap_of_isWord {c : Char} (h : isWord c = true) : beginsGap c = false := by
  by_contra hb
  rw [Bool.not_eq_false] at hb
  rw [isWord_of_beginsGap hb] at h
  cases h

theorem digits_le_solid : run isDigit ≤ solid := by
  have hdigit : char isDigit ≤ solid := char_le_solid fun c hc => beginsGap_of_isWord (isWord_of_isDigit hc)
  exact mul_le_solid hdigit (kstar_le_solid hdigit)

theorem number_le_solid : number ≤ solid := by
  have hminus : char (· == '-') ≤ solid := char_le_solid (by rintro c hc; rw [eq_of_beq hc]; decide)
  have hpoint : char (· == '.') ≤ solid := char_le_solid (by rintro c hc; rw [eq_of_beq hc]; decide)
  have hmark : (char fun c => c == 'e' || c == 'E') ≤ solid := by
    refine char_le_solid fun c hc => ?_
    rw [Bool.or_eq_true, beq_iff_eq, beq_iff_eq] at hc
    rcases hc with rfl | rfl <;> decide
  have hsign : (char fun c => c == '+' || c == '-') ≤ solid := by
    refine char_le_solid fun c hc => ?_
    rw [Bool.or_eq_true, beq_iff_eq, beq_iff_eq] at hc
    rcases hc with rfl | rfl <;> decide
  have hinteger : integer ≤ solid := mul_le_solid (optional_le_solid hminus) digits_le_solid
  have hfraction : fraction ≤ solid := mul_le_solid hpoint digits_le_solid
  have hexponent : exponent ≤ solid :=
    mul_le_solid hmark (mul_le_solid (optional_le_solid hsign) digits_le_solid)
  exact mul_le_solid hinteger
    (mul_le_solid (optional_le_solid hfraction) (optional_le_solid hexponent))

theorem mark_le_solid : mark ≤ solid := by
  refine char_le_solid fun c hc => ?_
  simp only [isMark, Bool.or_eq_true, beq_iff_eq] at hc
  rcases hc with ((rfl | rfl) | rfl) | rfl <;> decide

theorem name_le_solid : name ≤ solid :=
  mul_le_solid (char_le_solid fun _ hc => beginsGap_of_isWord (isWord_of_isNameStart hc))
    (kstar_le_solid (char_le_solid fun _ hc => beginsGap_of_isWord (isWord_of_isNamePart hc)))

end Pattern

namespace Lexeme

/-! ## A token before a gap -/

/-- The text is empty or begins like a gap. -/
def GapNext (r : List Char) : Prop := ∀ c ∈ r.head?, Pattern.beginsGap c = true

theorem gapNext_nil : GapNext [] := by simp [GapNext]

theorem GapNext.stops {r : List Char} (h : GapNext r) : Stops isWord r := by
  cases r with
  | nil => rfl
  | cons c r => exact stops_cons.2 (Pattern.isWord_of_beginsGap (h c rfl))

/-- The longest piece without gaps ends before a gap. -/
theorem exact_of_takes {p : Recogniser} {M : List Char → List Char → Prop} {L : Language Char}
    (hp : Takes p M) (hsplit : Splits p) (hstart : ∀ w r, w ∈ L → GapNext r → M w r)
    (hsolid : ∀ w r, M w r → w ∈ Pattern.solid) : Exact p L GapNext := by
  intro w r hw hr
  obtain ⟨a, ha, hlen⟩ := hp.longest (hstart w r hw hr)
  have hwhole := hsplit _ _ ha
  obtain ⟨u, hu⟩ : w <+: a.lexeme :=
    List.prefix_of_prefix_length_le ⟨r, rfl⟩ ⟨a.rest, hwhole⟩ hlen
  rw [← hu, List.append_assoc, List.append_cancel_left_eq] at hwhole
  cases u with
  | nil =>
    rw [List.append_nil] at hu
    rw [List.nil_append] at hwhole
    rw [ha, hu, ← hwhole]
  | cons c u =>
    have hgap : Pattern.beginsGap c = true := hr c (by rw [← hwhole]; rfl)
    have hmem : c ∈ a.lexeme := by rw [← hu]; simp
    rw [Pattern.beginsGap_of_mem_solid (hsolid _ _ (hp.sound ha)) c hmem] at hgap
    cases hgap

theorem exact_or {p : Recogniser} {ps : List Recogniser} {L K : Language Char}
    {S : List Char → Prop} (hp : Exact p L S) (hps : Exact (firstOf ps) K S)
    (hne : ∀ w r, w ∈ K → p (w ++ r) = none) : Exact (firstOf (p :: ps)) (L + K) S := by
  rintro w r (hw | hw) hr
  · rw [firstOf, List.findSome?_cons, hp w r hw hr]
  · rw [firstOf, List.findSome?_cons, hne w r hw]
    exact hps w r hw hr

/-- A recogniser declines what begins with a lexeme of another kind. -/
theorem eq_none_of_begins {p : Recogniser} {M : List Char → List Char → Prop} {j : Kind}
    (hp : Takes p M) (hsplit : Splits p) (hM : ∀ w r, M w r → Begins j w) (k : Kind) (hjk : j ≠ k)
    (w : List Char) (hw : Begins k w) (r : List Char) : p (w ++ r) = none := by
  cases ha : p (w ++ r) with
  | none => rfl
  | some a => exact absurd (hsplit _ _ ha) (append_ne_of_begins (hM _ _ (hp.sound ha)) hw hjk _ _)

/-- **A token before a gap is taken as it stands.** -/
theorem exact_token? : Exact (token? false) Pattern.token GapNext := by
  have hquoted : Exact quoted Pattern.quoted GapNext := fun w r hw _ => exact_quoted w r hw trivial
  have hnumber : Exact number Pattern.number GapNext :=
    exact_of_takes takes_number splits_number (fun _ _ hw hr => ⟨hw, hr.stops⟩)
      fun _ _ h => Pattern.number_le_solid h.1
  have hmark : Exact (one isMark) Pattern.mark GapNext :=
    exact_of_takes takes_mark (splits_one _) (fun _ _ hw _ => hw) fun _ _ h => Pattern.mark_le_solid h
  have hname : Exact (firstOf [name]) Pattern.name GapNext := by
    intro w r hw hr
    have := exact_of_takes takes_name
      (splits_atWordEnd (splits_andThen (splits_one _) (splits_many _))) (fun _ _ hw hr => ⟨hw, hr.stops⟩)
      (fun _ _ h => Pattern.name_le_solid h.1) w r hw hr
    simp [firstOf, this]
  -- the first character tells the kinds apart
  have hquoted' := eq_none_of_begins takes_quoted (splits_andThen (splits_one _) splits_quotedRest)
    fun _ _ => begins_quoted
  have hnumber' := eq_none_of_begins takes_number splits_number fun _ _ h => begins_number h.1
  have hmark' := eq_none_of_begins takes_mark (splits_one _) fun _ _ => begins_mark
  refine exact_or hquoted (exact_or hnumber (exact_or hmark hname ?_) ?_) ?_
  · exact fun w r hw => hmark' .name (by decide) w (begins_name hw) r
  · rintro w r (hw | hw)
    · exact hnumber' .mark (by decide) w (begins_mark hw) r
    · exact hnumber' .name (by decide) w (begins_name hw) r
  · rintro w r (hw | hw | hw)
    · exact hquoted' .number (by decide) w (begins_number hw) r
    · exact hquoted' .mark (by decide) w (begins_mark hw) r
    · exact hquoted' .name (by decide) w (begins_name hw) r

end Lexeme

/-! ## Steps of a scan -/

theorem scanFrom_of_gap {p : Position} {cs : List Char} {a : Cut} (h : gap? cs = some a) :
    scanFrom p cs = scanFrom (p.advance a.lexeme) a.rest := by
  cases cs with
  | nil => cases h
  | cons c cs =>
    rw [scanFrom]
    split
    · rename_i b hb
      rw [h] at hb
      cases hb
      rfl
    · rename_i hb
      rw [h] at hb
      cases hb

theorem scanFrom_of_token {p : Position} {cs : List Char} {a : Cut} (hgap : gap? cs = none)
    (h : token? false cs = some a) :
    scanFrom p cs =
      (scanFrom (p.advance a.lexeme) a.rest).map (⟨String.ofList a.lexeme, p⟩ :: ·) := by
  cases cs with
  | nil => cases h
  | cons c cs =>
    rw [scanFrom]
    split
    · rename_i b hb
      rw [hgap] at hb
      cases hb
    · split
      · rename_i b hb
        rw [h] at hb
        cases hb
        cases scanFrom (p.advance a.lexeme) a.rest <;> rfl
      · rename_i hb
        rw [h] at hb
        cases hb

theorem tokenAt_of_token {w : List Char} (hw : w ∈ Pattern.token) : TokenAt [] w [] := by
  rw [tokenAt_iff]
  rcases hw with hw | hw | hw | hw
  · exact .inl hw
  · exact .inr (.inl ⟨hw, rfl⟩)
  · exact .inr (.inr (.inl hw))
  · exact .inr (.inr (.inr ⟨rfl, hw, rfl⟩))

theorem gap?_of_token {w : List Char} (hw : w ∈ Pattern.token) (r : List Char) :
    gap? (w ++ r) = none := by
  cases ha : gap? (w ++ r) with
  | none => rfl
  | some a =>
    obtain ⟨k, hc, hb, hk⟩ := (tokenAt_of_token hw).begins
    rcases takes_gap?.sound ha with hgap | hgap
    · exact absurd (splits_gap? _ _ ha).symm (append_ne_of_begins hk (begins_comment hgap) hc _ _)
    · exact absurd (splits_gap? _ _ ha).symm (append_ne_of_begins hk (begins_blanks hgap) hb _ _)

/-! ## Separators -/

theorem scanFrom_dropBlanks (p : Position) (cs : List Char) :
    scanFrom p cs = scanFrom (p.advance (cs.takeWhile isBlank)) (cs.dropWhile isBlank) := by
  cases cs with
  | nil => rfl
  | cons c cs =>
    by_cases hc : isBlank c = true
    · have hblanks : blanks (c :: cs) =
          some ⟨(c :: cs).takeWhile isBlank, (c :: cs).dropWhile isBlank⟩ := by
        simp [blanks, some1, hc]
      have hcomment : comment (c :: cs) = none := by
        refine andThen_one_eq_none _ (stops_cons.2 ?_)
        exact isBlank_cases (P := fun c => (c == '/') = false) (by decide +kernel) hc
      refine scanFrom_of_gap (a := ⟨(c :: cs).takeWhile isBlank, (c :: cs).dropWhile isBlank⟩) ?_
      rw [gap?, firstOf, List.findSome?_cons, hcomment, List.findSome?_singleton, hblanks]
    · rw [List.takeWhile_cons_of_neg hc, List.dropWhile_cons_of_neg hc]
      rfl

/-- A blank may stand before anything, also before other blanks. -/
theorem scanFrom_blank {c : Char} (hc : isBlank c = true) (p : Position) (r : List Char) :
    scanFrom p (c :: r) = scanFrom (p.next c) r := by
  rw [scanFrom_dropBlanks p, scanFrom_dropBlanks (p.next c), List.takeWhile_cons_of_pos hc,
    List.dropWhile_cons_of_pos hc]
  rfl

theorem exact_comment : Exact comment Pattern.comment (Stops (· != '\n')) :=
  exact_andThen (exact_one _) (exact_andThen (exact_one _) (exact_many _) fun _ _ _ _ => trivial)
    fun _ _ _ _ => trivial

theorem scanFrom_comment {w : List Char} (hw : w ∈ Pattern.comment) (p : Position) (r : List Char) :
    scanFrom p (w ++ '\n' :: r) = scanFrom (p.advance (w ++ ['\n'])) r := by
  have hcomment := exact_comment w ('\n' :: r) hw rfl
  have hgap : gap? (w ++ '\n' :: r) = some ⟨w, '\n' :: r⟩ := by
    rw [gap?, firstOf, List.findSome?_cons, hcomment]
  rw [scanFrom_of_gap hgap, scanFrom_blank (by decide), Position.advance_append]
  rfl

/-- **A scan passes over separators.** -/
theorem scanFrom_separator {s : List Char} (hs : s ∈ Pattern.separator) (p : Position)
    (r : List Char) : scanFrom p (s ++ r) = scanFrom (p.advance s) r := by
  obtain ⟨units, rfl, hunits⟩ := Language.mem_kstar.1 hs
  clear hs
  induction units generalizing p with
  | nil => rfl
  | cons u units ih =>
    rw [List.forall_mem_cons] at hunits
    rw [List.flatten_cons, List.append_assoc, Position.advance_append,
      ← ih (p.advance u) hunits.2]
    rcases hunits.1 with ⟨c, hc, rfl⟩ | hu
    · exact scanFrom_blank hc p _
    · obtain ⟨w, hw, _, ⟨c, hc, rfl⟩, rfl⟩ := Language.mem_mul.1 hu
      rw [beq_iff_eq] at hc
      subst hc
      rw [List.append_assoc]
      exact scanFrom_comment hw p _

theorem gapNext_separator {s : List Char} (hs : s ∈ Pattern.separator) (hne : s ≠ [])
    (r : List Char) : GapNext (s ++ r) := by
  rw [Pattern.separator, ← Language.one_add_self_mul_kstar_eq_kstar] at hs
  rcases hs with hs | hs
  · exact absurd hs hne
  · obtain ⟨u, hu, v, -, rfl⟩ := Language.mem_mul.1 hs
    rcases hu with ⟨c, hc, rfl⟩ | hu
    · simp [GapNext, Pattern.beginsGap, hc]
    · obtain ⟨w, hw, e, -, rfl⟩ := Language.mem_mul.1 hu
      obtain ⟨u, rfl, -⟩ := Pattern.mem_comment.1 hw
      simp [GapNext, Pattern.beginsGap]

theorem blank_mem_separator {c : Char} (hc : isBlank c = true) : [c] ∈ Pattern.separator := by
  refine Language.mem_kstar.2 ⟨[[c]], rfl, ?_⟩
  exact List.forall_mem_singleton.2 (.inl ⟨c, hc, rfl⟩)

theorem comment_mem_separator {w : List Char} (hw : '\n' ∉ w) :
    '/' :: '/' :: (w ++ ['\n']) ∈ Pattern.separator := by
  have hcomment : '/' :: '/' :: w ∈ Pattern.comment := Pattern.mem_comment.2 ⟨w, rfl, hw⟩
  refine Language.mem_kstar.2 ⟨['/' :: '/' :: (w ++ ['\n'])], by simp, ?_⟩
  exact List.forall_mem_singleton.2 (.inr (Language.append_mem_mul hcomment ⟨'\n', rfl, rfl⟩))

theorem append_mem_separator {u v : List Char} (hu : u ∈ Pattern.separator)
    (hv : v ∈ Pattern.separator) : u ++ v ∈ Pattern.separator := by
  have h := Language.append_mem_mul hu hv
  rwa [Pattern.separator, kstar_mul_kstar] at h

/-! ## Tokens in a row -/

/-- Pieces with a blank between them. -/
def oneLine : List (List Char) → List Char
  | [] => []
  | [w] => w
  | w :: ws => w ++ ' ' :: oneLine ws

/-- The tokens of such a text that begins at a place, and the token for the end. -/
def oneLineTokens (p : Position) : List (List Char) → List Token
  | [] => [⟨"", p⟩]
  | [w] => [⟨String.ofList w, p⟩, ⟨"", p.advance w⟩]
  | w :: ws => ⟨String.ofList w, p⟩ :: oneLineTokens ((p.advance w).advance [' ']) ws

/-- **Tokens with blanks between them are read as they are.** -/
theorem scanFrom_oneLine (p : Position) {ws : List (List Char)} (hws : ∀ w ∈ ws, w ∈ Pattern.token) :
    scanFrom p (oneLine ws) = .ok (oneLineTokens p ws) := by
  fun_induction oneLineTokens p ws with
  | case1 p => rw [oneLine, scanFrom]
  | case2 p w =>
    have hw := hws w (by simp)
    have htoken : token? false w = some ⟨w, []⟩ := by
      simpa using exact_token? w [] hw gapNext_nil
    have hgap : gap? w = none := by simpa using gap?_of_token hw []
    rw [oneLine, scanFrom_of_token hgap htoken, scanFrom]
    rfl
  | case3 p w ws hne ih =>
    rw [List.forall_mem_cons] at hws
    have hspace : [' '] ∈ Pattern.separator := blank_mem_separator (by decide)
    have hnext : GapNext (' ' :: oneLine ws) := gapNext_separator hspace (by simp) _
    have hpass := scanFrom_separator hspace (p.advance w) (oneLine ws)
    rw [oneLine, scanFrom_of_token (gap?_of_token hws.1 _) (exact_token? w _ hws.1 hnext)]
    · exact (congrArg _ (hpass.trans (ih hws.2)))
    · exact hne

/-! ## Other gaps -/

/-- A scan cuts tokens off. -/
theorem Cuts.mem_token {before after : List Char} {ts : List Token} (h : Cuts before ts after) :
    ∀ t ∈ ts, t.text.toList ∈ Pattern.token := by
  induction h with
  | start => simp
  | gap _ _ _ ih => exact ih
  | token _ hw _ ih =>
    intro t ht
    rcases List.mem_append.1 ht with ht | ht
    · exact ih t ht
    · rw [List.mem_singleton.1 ht, String.toList_ofList]
      rcases hw with h | ⟨h, -⟩ | h | ⟨-, h, -⟩
      · exact .inl h
      · exact .inr (.inl h)
      · exact .inr (.inr (.inl h))
      · exact .inr (.inr (.inr h))

/-- Tokens with a separator after each of them. -/
def spread (pieces : List (String × List Char)) : List Char :=
  pieces.flatMap fun x => x.1.toList ++ x.2

/-- Tokens that are spread are read as they are. -/
theorem scanFrom_spread {pieces : List (String × List Char)}
    (htokens : ∀ x ∈ pieces, x.1.toList ∈ Pattern.token)
    (hseparators : ∀ x ∈ pieces, x.2 ∈ Pattern.separator)
    (hapart : ∀ x ∈ pieces.dropLast, x.2 ≠ []) (p : Position) :
    ∃ ts, scanFrom p (spread pieces) = .ok ts ∧
      ts.map Token.text = pieces.map Prod.fst ++ [""] := by
  induction pieces generalizing p with
  | nil => exact ⟨[⟨"", p⟩], by rw [spread, List.flatMap_nil, scanFrom], rfl⟩
  | cons x pieces ih =>
    rw [List.forall_mem_cons] at htokens hseparators
    have hrest : ∀ y ∈ pieces.dropLast, y.2 ≠ [] := by
      cases pieces with
      | nil => simp
      | cons y ys => exact fun z hz => hapart z (List.mem_cons_of_mem _ hz)
    -- nothing follows the last token, or a separator does
    have hnext : GapNext (x.2 ++ spread pieces) := by
      by_cases hx : x.2 = []
      · cases pieces with
        | nil => rw [hx]; exact gapNext_nil
        | cons y ys => exact absurd hx (hapart x (by simp))
      · exact gapNext_separator hseparators.1 hx _
    obtain ⟨ts, hts, htexts⟩ := ih htokens.2 hseparators.2 hrest ((p.advance x.1.toList).advance x.2)
    refine ⟨⟨x.1, p⟩ :: ts, ?_, by simp [htexts]⟩
    rw [spread, List.flatMap_cons, List.append_assoc, ← spread,
      scanFrom_of_token (gap?_of_token htokens.1 _) (exact_token? _ _ htokens.1 hnext),
      scanFrom_separator hseparators.1, hts, String.ofList_toList]
    rfl

/-- **Tokens do not depend on the gaps between them.** The tokens of a text are read again from any
text in which they stand in order, with separators around them that are not empty between two. -/
theorem scan_spread (text : String) (ts : List Token) (h : scan text = .ok ts) (first : List Char)
    (pieces : List (String × List Char))
    (hpieces : ts.map Token.text = pieces.map Prod.fst ++ [""])
    (hfirst : first ∈ Pattern.separator) (hseparators : ∀ x ∈ pieces, x.2 ∈ Pattern.separator)
    (hapart : ∀ x ∈ pieces.dropLast, x.2 ≠ []) :
    ∃ us, scan (String.ofList (first ++ spread pieces)) = .ok us ∧
      us.map Token.text = ts.map Token.text := by
  obtain ⟨vs, rfl, hcuts⟩ := scanFrom_eq_ok_cuts (.start _) (.inl rfl) h
  have htexts : vs.map Token.text = pieces.map Prod.fst := by
    rw [List.map_append] at hpieces
    exact List.append_cancel_right hpieces
  have htokens : ∀ x ∈ pieces, x.1.toList ∈ Pattern.token := by
    intro x hx
    obtain ⟨t, ht, hxt⟩ := List.mem_map.1 (htexts ▸ List.mem_map_of_mem (f := Prod.fst) hx)
    exact hxt ▸ hcuts.mem_token t ht
  obtain ⟨us, hus, hustexts⟩ := scanFrom_spread htokens hseparators hapart (Position.start.advance first)
  refine ⟨us, ?_, hustexts.trans hpieces.symm⟩
  rw [scan, String.toList_ofList, scanFrom_separator hfirst, hus]

/-- Comments, line feeds and a wide blank between tokens that stood close together, with one of them
right after a number. -/
theorem scan_spread_wide :
    ∃ us, scan "// a\n a //b\n\u2003=\t-1.5e3//\n\"x y\"" = .ok us ∧
      us.map Token.text = ["a", "=", "-1.5e3", "\"x y\"", ""] := by
  have hspace : [' '] ∈ Pattern.separator := blank_mem_separator (by decide)
  have htab : ['\t'] ∈ Pattern.separator := blank_mem_separator (by decide)
  have hwide : ['\u2003'] ∈ Pattern.separator := blank_mem_separator (by decide)
  let pieces : List (String × List Char) := [("a", [' '] ++ (['/', '/', 'b', '\n'] ++ ['\u2003'])),
    ("=", ['\t']), ("-1.5e3", ['/', '/', '\n']), ("\"x y\"", [])]
  have hpieces : ∀ x ∈ pieces, x.2 ∈ Pattern.separator := by
    intro x hx
    simp only [pieces, List.mem_cons, List.not_mem_nil, or_false] at hx
    rcases hx with rfl | rfl | rfl | rfl
    · exact append_mem_separator hspace
        (append_mem_separator (comment_mem_separator (w := ['b']) (by simp)) hwide)
    · exact htab
    · exact comment_mem_separator (w := []) (by simp)
    · exact Language.nil_mem_kstar _
  have hscan : scan "a=-1.5e3\"x y\"" = .ok [⟨"a", ⟨1, 1⟩⟩, ⟨"=", ⟨1, 2⟩⟩, ⟨"-1.5e3", ⟨1, 3⟩⟩,
    ⟨"\"x y\"", ⟨1, 9⟩⟩, ⟨"", ⟨1, 14⟩⟩] := by cbv
  exact scan_spread _ _ hscan (['/', '/', ' ', 'a', '\n'] ++ [' ']) pieces rfl
    (append_mem_separator (comment_mem_separator (w := [' ', 'a']) (by simp)) hspace) hpieces
    (by decide)

end Idl
