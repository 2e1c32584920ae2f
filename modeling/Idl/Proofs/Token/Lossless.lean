import Idl.Fault
import Idl.Proofs.Outcome
import Idl.Proofs.Token.Longest

/-!
# Scanning loses nothing

A text is cut from left to right into gaps and tokens. Each piece is the longest lexeme at its
place, and each token has the place of its first character.

* `Position.after`: the place after a text, by its line feeds and the length of its last line.
* `Starts`: a lexeme begins at a place.
* `Cuts`: the pieces before a place.
* `StrayAt`: a piece before the next lexeme.
* **`scan_cuts`**: what a scan returns, and where it stops.
-/

namespace Idl

open Text Lexeme

/-! ## Places -/

/-- The place after a text: the line by its line feeds, the column by what follows the last one. -/
def Position.after (cs : List Char) : Position :=
  ⟨1 + cs.count '\n', 1 + (cs.reverse.takeWhile (· != '\n')).length⟩

theorem Position.advance_append (p : Position) (u v : List Char) :
    p.advance (u ++ v) = (p.advance u).advance v :=
  List.foldl_append

theorem Position.start_advance (cs : List Char) : start.advance cs = after cs := by
  induction cs using List.reverseRecOn with
  | nil => rfl
  | append_singleton cs c ih =>
    rw [advance_append, ih]
    by_cases hc : c = '\n'
    · simp [advance, next, after, hc]
      omega
    · simp [advance, next, after, hc]
      omega

theorem Position.after_append (u v : List Char) : (after u).advance v = after (u ++ v) := by
  rw [← start_advance, ← start_advance, advance_append]

/-! ## Lexemes at a place -/

/-- The piece `w` between two texts is a lexeme. -/
def LexemeAt (before w after : List Char) : Prop := TokenAt before w after ∨ IsGap w

/-- A lexeme begins between two texts. -/
def Starts (before after : List Char) : Prop := ∃ w r, w ++ r = after ∧ LexemeAt before w r

/-- No longer piece is a lexeme at that place. -/
def Longest (before w after : List Char) : Prop :=
  ∀ v r, v ++ r = w ++ after → LexemeAt before v r → v.length ≤ w.length

theorem TokenAt.begins {before w r : List Char} (h : TokenAt before w r) :
    ∃ k, k ≠ .comment ∧ k ≠ .blanks ∧ Begins k w := by
  rcases h with h | ⟨h, -⟩ | h | ⟨-, h, -⟩
  · exact ⟨.quoted, nofun, nofun, begins_quoted h⟩
  · exact ⟨.number, nofun, nofun, begins_number h⟩
  · exact ⟨.mark, nofun, nofun, begins_mark h⟩
  · exact ⟨.name, nofun, nofun, begins_name h⟩

/-- No text begins with a token and with a gap. -/
theorem TokenAt.append_ne {before w r v u : List Char} (h : TokenAt before w r) (hv : IsGap v) :
    w ++ r ≠ v ++ u := by
  obtain ⟨k, hc, hb, hk⟩ := h.begins
  rcases hv with hv | hv
  · exact append_ne_of_begins hk (begins_comment hv) hc r u
  · exact append_ne_of_begins hk (begins_blanks hv) hb r u

theorem isGap_iff {w : List Char} : IsGap w ↔ w ∈ Pattern.comment ∨ w ∈ Pattern.blanks :=
  ⟨fun h => by rcases h with h | h; exacts [.inl h, .inr h],
    fun h => by rcases h with h | h; exacts [.comment h, .blanks h]⟩

theorem gap?_eq_some (before : List Char) {cs : List Char} {a : Cut} (h : gap? cs = some a) :
    IsGap a.lexeme ∧ Longest before a.lexeme a.rest := by
  have hgap := isGap_iff.2 (takes_gap?.sound h)
  refine ⟨hgap, fun v r hvr hv => ?_⟩
  rw [splits_gap? _ _ h] at hvr
  rcases hv with hv | hv
  · exact absurd (hvr.trans (splits_gap? _ _ h).symm) (hv.append_ne hgap)
  · obtain ⟨b, hb, hlen⟩ := takes_gap?.longest (r := r) (isGap_iff.1 hv)
    rw [hvr, h] at hb
    cases hb
    exact hlen

theorem token?_eq_some {before cs : List Char} {a : Cut}
    (h : token? (insideWord before) cs = some a) :
    TokenAt before a.lexeme a.rest ∧ Longest before a.lexeme a.rest := by
  have htoken := tokenAt_iff.2 ((takes_token? _).sound h)
  refine ⟨htoken, fun v r hvr hv => ?_⟩
  rcases hv with hv | hv
  · rw [splits_token? _ _ _ h] at hvr
    obtain ⟨b, hb, hlen⟩ := (takes_token? _).longest (tokenAt_iff.1 hv)
    rw [hvr, h] at hb
    cases hb
    exact hlen
  · exact absurd hvr.symm (htoken.append_ne hv)

theorem starts_iff {before cs : List Char} :
    Starts before cs ↔ (gap? cs).isSome = true ∨ (token? (insideWord before) cs).isSome = true := by
  constructor
  · rintro ⟨w, r, rfl, hw | hw⟩
    · obtain ⟨a, ha, -⟩ := (takes_token? _).longest (tokenAt_iff.1 hw)
      exact .inr (by rw [ha]; rfl)
    · obtain ⟨a, ha, -⟩ := takes_gap?.longest (r := r) (isGap_iff.1 hw)
      exact .inl (by rw [ha]; rfl)
  · rintro (h | h) <;> obtain ⟨a, ha⟩ := Option.isSome_iff_exists.1 h
    · exact ⟨a.lexeme, a.rest, splits_gap? _ _ ha, .inr (gap?_eq_some before ha).1⟩
    · exact ⟨a.lexeme, a.rest, splits_token? _ _ _ ha, .inl (token?_eq_some ha).1⟩

/-! ## Between lexemes -/

/-- No word goes on from one text to the other. -/
def Apart (before after : List Char) : Prop := insideWord before = false ∨ Stops isWord after

theorem token?_of_apart {before cs : List Char} (h : Apart before cs) :
    token? false cs = token? (insideWord before) cs := by
  rcases h with h | h
  · rw [h]
  · have hname : name cs = none := by
      rw [name, atWordEnd, andThen_one_eq_none _ (h.mono fun _ => isWord_of_isNameStart)]
      rfl
    cases insideWord before with
    | false => rfl
    | true =>
      show firstOf ([quoted, number, one isMark] ++ [name]) cs = firstOf [quoted, number, one isMark] cs
      rw [firstOf, firstOf, List.findSome?_append, List.findSome?_singleton, hname, Option.or_none]

theorem TokenAt.apart {before w r : List Char} (h : TokenAt before w r) : Apart (before ++ w) r := by
  rcases tokenAt_iff.1 h with h | ⟨-, h⟩ | ⟨c, hc, rfl⟩ | ⟨-, -, h⟩
  · obtain ⟨us, -, rfl⟩ := Pattern.mem_quoted.1 h
    refine .inl ?_
    rw [← List.cons_append, ← List.append_assoc, insideWord_append _ (by simp)]
    decide
  · exact .inr h
  · refine .inl ?_
    rw [insideWord_append _ (by simp)]
    simp only [isMark, Bool.or_eq_true, beq_iff_eq] at hc
    rcases hc with ((rfl | rfl) | rfl) | rfl <;> decide
  · exact .inr h

/-- A comment goes up to the end of its line. -/
theorem stops_of_longest_comment {before w r : List Char} (hw : w ∈ Pattern.comment)
    (h : Longest before w r) : Stops (· != '\n') r := by
  cases r with
  | nil => rfl
  | cons c r =>
    by_contra hc
    simp only [stops_cons, Bool.not_eq_false] at hc
    have hmore : w ++ [c] ∈ Pattern.comment := by
      obtain ⟨u, rfl, hline⟩ := Pattern.mem_comment.1 hw
      refine Pattern.mem_comment.2 ⟨u ++ [c], rfl, ?_⟩
      rw [List.mem_append, List.mem_singleton]
      exact fun h => h.elim hline fun h => bne_iff_ne.1 hc h.symm
    have hlen := h (w ++ [c]) r (by simp) (.inr (.comment hmore))
    simp at hlen

theorem IsGap.apart {before w r : List Char} (hw : IsGap w) (h : Longest before w r) :
    Apart (before ++ w) r := by
  rcases hw with hw | hw
  · refine .inr ((stops_of_longest_comment hw h).mono fun c hc => ?_)
    rw [bne_iff_ne]
    rintro rfl
    revert hc
    decide
  · obtain ⟨hne, hall⟩ := Pattern.mem_run.1 hw
    refine .inl ?_
    rw [insideWord_append _ hne, insideWord, List.getLast?_eq_some_getLast hne]
    exact isWord_of_isBlank (hall _ (List.getLast_mem hne))

/-! ## Cutting a text -/

/-- The text `before` is cut into gaps and the tokens `ts`, and the text `after` follows. -/
inductive Cuts : List Char → List Token → List Char → Prop
  | start (text : List Char) : Cuts [] [] text
  | gap {before w after : List Char} {ts : List Token} (done : Cuts before ts (w ++ after))
    (lexeme : IsGap w) (longest : Longest before w after) : Cuts (before ++ w) ts after
  | token {before w after : List Char} {ts : List Token} (done : Cuts before ts (w ++ after))
    (lexeme : TokenAt before w after) (longest : Longest before w after) :
    Cuts (before ++ w) (ts ++ [⟨String.ofList w, .after before⟩]) after

/-- The piece `w` stands before the next lexeme, or at the end, and no lexeme begins in it. -/
structure StrayAt (before w after : List Char) : Prop where
  nonempty : w ≠ []
  none : ∀ u v, u ++ v = w → v ≠ [] → ¬ Starts (before ++ u) (v ++ after)
  next : after = [] ∨ Starts (before ++ w) after

theorem strayAt_cons {before : List Char} {c : Char} {cs : List Char}
    (h : ¬ Starts before (c :: cs)) :
    ∃ after, cs = strayAfter c cs ++ after ∧ StrayAt before (c :: strayAfter c cs) after := by
  induction cs generalizing before c with
  | nil =>
    refine ⟨[], rfl, by simp [strayAfter], fun u v huv hv hs => ?_, .inl rfl⟩
    rw [strayAfter, List.append_eq_singleton_iff] at huv
    obtain ⟨rfl, rfl⟩ | ⟨-, rfl⟩ := huv
    · exact h (by simpa using hs)
    · exact hv rfl
  | cons d cs ih =>
    have hinside : insideWord (before ++ [c]) = isWord c := by
      rw [insideWord_append _ (by simp)]
      rfl
    by_cases hd : Starts (before ++ [c]) (d :: cs)
    · have hstray : strayAfter c (d :: cs) = [] := by
        rw [strayAfter, if_pos]
        rwa [Bool.or_eq_true, ← hinside, ← starts_iff]
      rw [hstray]
      refine ⟨d :: cs, rfl, by simp, fun u v huv hv hs => ?_, .inr hd⟩
      rw [List.append_eq_singleton_iff] at huv
      obtain ⟨rfl, rfl⟩ | ⟨-, rfl⟩ := huv
      · exact h (by simpa using hs)
      · exact hv rfl
    · have hstray : strayAfter c (d :: cs) = d :: strayAfter d cs := by
        rw [strayAfter, if_neg]
        rwa [Bool.or_eq_true, ← hinside, ← starts_iff]
      obtain ⟨after, hcs, hne, hnone, hnext⟩ := ih hd
      rw [hstray]
      refine ⟨after, by simpa using hcs, by simp, fun u v huv hv hs => ?_, by simpa using hnext⟩
      cases u with
      | nil =>
        rw [List.nil_append] at huv
        subst huv
        refine h ?_
        rw [hcs]
        simpa using hs
      | cons x u =>
        rw [List.cons_append, List.cons.injEq] at huv
        obtain ⟨rfl, huv⟩ := huv
        exact hnone u v huv hv (by simpa using hs)

theorem scanFrom_eq_ok_cuts {before cs : List Char} {us ts : List Token} (hcuts : Cuts before us cs)
    (hapart : Apart before cs) (h : scanFrom (.after before) cs = .ok ts) :
    ∃ vs, ts = vs ++ [⟨"", .after (before ++ cs)⟩] ∧ Cuts (before ++ cs) (us ++ vs) [] := by
  generalize hp : Position.after before = p at h
  fun_induction scanFrom p cs generalizing before us ts with
  | case1 p =>
    cases h
    subst hp
    exact ⟨[], by simp, by simpa using hcuts⟩
  | case2 p c cs a hg ih =>
    obtain ⟨hgap, hlongest⟩ := gap?_eq_some before hg
    have hsplit := splits_gap? _ _ hg
    rw [← hsplit] at hcuts ⊢
    rw [← List.append_assoc]
    exact ih (hcuts.gap hgap hlongest) (hgap.apart hlongest) (by rw [← hp, Position.after_append]) h
  | case3 p c cs hg a ht ih =>
    rw [token?_of_apart hapart] at ht
    obtain ⟨htoken, hlongest⟩ := token?_eq_some ht
    have hsplit := splits_token? _ _ _ ht
    obtain ⟨vs, hok, hts⟩ := bind_eq_ok_iff.1 h
    cases hts
    rw [← hsplit] at hcuts ⊢
    obtain ⟨vs', rfl, hdone⟩ := ih (hcuts.token htoken hlongest) htoken.apart
      (by rw [← hp, Position.after_append]) hok
    refine ⟨⟨String.ofList a.lexeme, p⟩ :: vs', by simp, ?_⟩
    simpa [hp] using hdone
  | case4 => cases h

theorem scanFrom_eq_error_cuts {before cs : List Char} {us : List Token} {s : Stray}
    (hcuts : Cuts before us cs) (hapart : Apart before cs)
    (h : scanFrom (.after before) cs = .error s) :
    ∃ mid w after vs, cs = mid ++ w ++ after ∧ Cuts (before ++ mid) (us ++ vs) (w ++ after) ∧
      StrayAt (before ++ mid) w after ∧ s = ⟨String.ofList w, .after (before ++ mid)⟩ := by
  generalize hp : Position.after before = p at h
  fun_induction scanFrom p cs generalizing before us s with
  | case1 => cases h
  | case2 p c cs a hg ih =>
    obtain ⟨hgap, hlongest⟩ := gap?_eq_some before hg
    have hsplit := splits_gap? _ _ hg
    rw [← hsplit] at hcuts ⊢
    obtain ⟨mid, w, after, vs, hrest, hdone, hstray, hs⟩ := ih (hcuts.gap hgap hlongest)
      (hgap.apart hlongest) (by rw [← hp, Position.after_append]) h
    rw [List.append_assoc] at hdone hstray hs
    exact ⟨a.lexeme ++ mid, w, after, vs, by simp [hrest], hdone, hstray, hs⟩
  | case3 p c cs hg a ht ih =>
    rw [token?_of_apart hapart] at ht
    obtain ⟨htoken, hlongest⟩ := token?_eq_some ht
    have hsplit := splits_token? _ _ _ ht
    have herror : scanFrom (p.advance a.lexeme) a.rest = .error s := by
      rcases bind_eq_error_iff.1 h with h | ⟨_, _, h⟩
      · exact h
      · cases h
    rw [← hsplit] at hcuts ⊢
    obtain ⟨mid, w, after, vs, hrest, hdone, hstray, hs⟩ := ih (hcuts.token htoken hlongest)
      htoken.apart (by rw [← hp, Position.after_append]) herror
    rw [List.append_assoc] at hdone hstray hs
    rw [List.append_assoc us] at hdone
    exact ⟨a.lexeme ++ mid, w, after, _, by simp [hrest], hdone, hstray, hs⟩
  | case4 p c cs hg ht =>
    cases h
    have hnone : ¬ Starts before (c :: cs) := by
      rw [starts_iff, ← token?_of_apart hapart, hg, ht]
      simp
    obtain ⟨after, hcs, hstray⟩ := strayAt_cons hnone
    refine ⟨[], c :: strayAfter c cs, after, [], by simp [← hcs], ?_, by simpa using hstray,
      by simp [hp]⟩
    simpa [← hcs] using hcuts

theorem Cuts.texts_ne {before after : List Char} {ts : List Token} (h : Cuts before ts after) :
    ∀ t ∈ ts, t.text ≠ "" := by
  induction h with
  | start => simp
  | gap _ _ _ ih => exact ih
  | token _ hw _ ih =>
    intro t ht
    rcases List.mem_append.1 ht with ht | ht
    · exact ih t ht
    · rw [List.mem_singleton.1 ht]
      obtain ⟨k, -, -, hk⟩ := hw.begins
      intro hempty
      rw [String.ofList_eq_empty_iff] at hempty
      rw [hempty] at hk
      cases hk

/-- **Scanning loses nothing.** The text is made of gaps and of the tokens, which have their places
and texts, and the token without text stands at its end. If there is no such cut, the text is cut up
to a place where no lexeme begins, and the fault has that place and what stands before the next
lexeme. -/
theorem scan_cuts (text : String) :
    match scan text with
    | .ok ts => ∃ us, ts = us ++ [⟨"", .after text.toList⟩] ∧ (∀ t ∈ us, t.text ≠ "") ∧
        Cuts text.toList us []
    | .error stray => ∃ before w after us, text.toList = before ++ w ++ after ∧
        Cuts before us (w ++ after) ∧ StrayAt before w after ∧
        (Fault.stray stray).shape =
          .parse ("Syntax error: " ++ quote (String.ofList w)) (.after before) := by
  have hstart : Apart [] text.toList := .inl rfl
  cases h : scan text with
  | ok ts =>
    obtain ⟨us, rfl, hcuts⟩ := scanFrom_eq_ok_cuts (.start _) hstart h
    exact ⟨us, rfl, hcuts.texts_ne, hcuts⟩
  | error s =>
    obtain ⟨before, w, after, us, htext, hcuts, hstray, rfl⟩ :=
      scanFrom_eq_error_cuts (.start _) hstart h
    exact ⟨before, w, after, us, htext, hcuts, hstray, rfl⟩

end Idl
