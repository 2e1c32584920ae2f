import Mathlib
import Idl.Proofs.Reader.Loops
import Idl.Proofs.Reader.Verdict

/-!
# Token lists without end

One word can be a type and a name for ever. So a list that breaks off within the fields of an object
may have no end for the reader.

* `FieldWord`: the words that can be a type and a name.
* `Cursor.field_leads`: fields are read past the end too.
* `Cursor.loops_field_iff`: the fields that never end.
* `Cursor.entry_eq_endless_iff`, `Cursor.schema_eq_endless_iff`: nothing else goes on for ever.
* `RunsOn`, `LoopsInObject`: the lists without an end, by their texts and by the loop that never ends.
* **`ofTokens_returns_iff`**: all other lists give a schema or a complaint.
-/

namespace Idl

open Grammar

/-! ## Words of fields -/

namespace Grammar

/-- A word that can be a type and a name. -/
def FieldWord (w : String) : Prop := Name w ∧ w ≠ "list" ∧ w ≠ "map"

instance : DecidablePred FieldWord := fun _ => inferInstanceAs (Decidable (_ ∧ _))

theorem FieldWord.fieldOf {w : String} (h : FieldWord w) : ∃ f, FieldOf [w, w] f := by
  by_cases hp : ∃ p : Primitive, w = p.keyword
  · obtain ⟨p, rfl⟩ := hp
    exact ⟨_, .mk (.primitive p) h.1 .start⟩
  · exact ⟨_, .mk (.named h.1 (not_exists.1 hp) h.2.1 h.2.2) h.1 .start⟩

theorem FieldOf.fieldWord {ws : List String} {f : Field} {w : String} (h : FieldOf ws f)
    (heq : ∀ x ∈ ws, x = w) : FieldWord w := by
  obtain ⟨ht, hn, -⟩ := h
  simp only [List.forall_mem_append, List.forall_mem_singleton] at heq
  obtain ⟨htype, rfl⟩ := heq
  cases ht with
  | primitive p =>
    rw [← htype _ List.mem_cons_self]
    cases p <;> decide
  | list _ =>
    simp only [List.forall_mem_cons] at htype
    exact absurd (htype.1.trans htype.2.1.symm) (by decide)
  | map k v =>
    simp only [List.forall_mem_cons] at htype
    exact absurd (htype.1.trans htype.2.2.1.symm) (by decide)
  | named _ _ hlist hmap =>
    rw [htype _ List.mem_cons_self] at hlist hmap
    exact ⟨hn, hlist, hmap⟩

end Grammar

namespace Cursor

variable {c c' : Cursor} {ts : List Token}

/-! ## Fields -/

/-- A type that is no list is read without a loop. -/
theorem fieldType_of_ne (h : c.text ≠ "list") : Plan.fieldType.step c = Plan.innerType.step c := by
  rw [Plan.fieldType, Plan.step_bind, Plan.step_repeated, Reads.collect_of_stop (by simpa using h)]
  show (Plan.innerType.step c >>= fun x => Except.ok (x.1, x.2)) = _
  cases Plan.innerType.step c <;> rfl

theorem fieldType_list (h : c.text = "list") (h' : c.next.text = "of") :
    Plan.fieldType.step c = (Plan.fieldType.step c.next.next).map fun x => (.list x.1, x.2) := by
  have hlt : c.next.next.rest.length < c.rest.length := by
    obtain ⟨_ | ⟨t, rest⟩, last⟩ := c
    · exact absurd (h.symm.trans h') (by decide)
    · show rest.tail.length < rest.length + 1
      rw [List.length_tail]
      omega
  have honce : Plan.listOf.step c = .ok (c.next.current, c.next.next) := by
    rw [Plan.listOf, Plan.step_bind, step_word_of_text _ h]
    exact step_word_of_text _ h'
  have hlists : collect (· != "list") Plan.listOf.step c =
      (collect (· != "list") Plan.listOf.step c.next.next).map
        fun x => (c.next.current :: x.1, x.2) := by
    rw [collect, if_neg (by simp [h]), honce]
    show dite _ _ _ = _
    rw [dif_pos hlt]
    cases collect _ _ _ <;> rfl
  simp only [Plan.fieldType, Plan.step_bind, Plan.step_repeated, hlists]
  cases collect (· != "list") Plan.listOf.step c.next.next with
  | error e => rfl
  | ok x =>
    show (Plan.innerType.step x.2 >>= _) = Except.map _ (Plan.innerType.step x.2 >>= _)
    cases Plan.innerType.step x.2 <;> rfl

theorem fieldType_leads {type : FieldType} (h : TypeOf (texts ts) type) (hts : c.Leads ts c') :
    ∃ type', Plan.fieldType.step c = .ok (type', c') := by
  generalize hws : texts ts = ws at h
  induction h generalizing c ts with
  | primitive p =>
    obtain ⟨hc, us, hus, hws⟩ := hts.of_texts_cons hws
    have hne : c.text ≠ "list" := by
      rw [hc]
      cases p <;> decide
    refine ⟨.primitive p, ?_⟩
    rw [fieldType_of_ne hne, Plan.innerType, Plan.step_ifPrimitive, hc, Primitive.ofKeyword?_keyword,
      hus.of_texts_nil hws]
    rfl
  | list _ ih =>
    obtain ⟨hc, us, hus, hws⟩ := hts.of_texts_cons hws
    obtain ⟨hc₁, vs, hvs, hws⟩ := hus.of_texts_cons hws
    obtain ⟨element, hok⟩ := ih hvs hws
    exact ⟨.list element, by rw [fieldType_list hc hc₁, hok]; rfl⟩
  | map k v =>
    obtain ⟨hc, us, hus, hws⟩ := hts.of_texts_cons hws
    obtain ⟨hc₁, us, hus, hws⟩ := hus.of_texts_cons hws
    obtain ⟨hc₂, us, hus, hws⟩ := hus.of_texts_cons hws
    obtain ⟨hc₃, us, hus, hws⟩ := hus.of_texts_cons hws
    refine ⟨.map k v, ?_⟩
    have hprimitive : Primitive.ofKeyword? "map" = none := rfl
    rw [fieldType_of_ne (by rw [hc]; decide), Plan.innerType, Plan.step_ifPrimitive, hc, hprimitive]
    show (Plan.ifWord "map" _ _).step c = _
    rw [Plan.step_ifWord, if_pos hc, Plan.step_bind, step_primitive_of_keyword hc₁]
    show ((Plan.word "for").step c.next.next >>= _) = _
    rw [step_word_of_text _ hc₂]
    show (Plan.primitive.step c.next.next.next >>= _) = _
    rw [step_primitive_of_keyword hc₃, hus.of_texts_nil hws]
    rfl
  | @named n hn hp hl hm =>
    obtain ⟨hc, us, hus, hws⟩ := hts.of_texts_cons hws
    have hprimitive : Primitive.ofKeyword? c.text = none := by
      rw [Option.eq_none_iff_forall_ne_some]
      intro p hsome
      exact hp p (hc ▸ Primitive.ofKeyword?_eq_some_iff.1 hsome)
    refine ⟨.named c.text, ?_⟩
    rw [fieldType_of_ne (hc ▸ hl), Plan.innerType, Plan.step_ifPrimitive, hprimitive]
    show (Plan.ifWord "map" _ _).step c = _
    rw [Plan.step_ifWord, if_neg (hc ▸ hm), Plan.step_bind, Plan.name, step_expect_of_test (hc ▸ hn),
      hus.of_texts_nil hws]
    rfl

theorem field_leads {f : Field} (h : FieldOf (texts ts) f) (hts : c.Leads ts c') :
    ∃ f', field c = .ok (f', c') := by
  generalize hws : texts ts = ws at h
  obtain ⟨htype, hn, -⟩ := h
  obtain ⟨us, vs, rfl, rfl, hvs⟩ := exists_of_texts_eq_append hws
  obtain ⟨c₁, hus, hlast⟩ := hts.split
  obtain ⟨type, hok⟩ := fieldType_leads htype hus
  obtain ⟨hc₁, us', hus', hnil⟩ := hlast.of_texts_cons hvs
  refine ⟨⟨type, c₁.text, c₁.current.position⟩, ?_⟩
  rw [field, Plan.field, Plan.step_bind, hok]
  show ((Plan.name .fieldName).step c₁ >>= _) = _
  rw [Plan.name, step_expect_of_test (hc₁ ▸ hn), hus'.of_texts_nil hnil]
  rfl

theorem moves_field : Moves (· == "\x7d") field := by
  refine moves_of_reads reads_field (fun _ _ => trivial) fun ws f hf => ?_
  obtain ⟨n, us, rfl, -⟩ := named_fieldOf ws f hf
  exact List.cons_ne_nil n us

theorem ne_close_of_name (h : Name c.text) : (c.text == "\x7d") = false := by
  rw [beq_eq_false_iff_ne]
  intro hc
  rw [hc] at h
  exact absurd h (by decide)

/-- **The fields that never end.** The last word of the list can be a type and a name, and with some
more copies of it the fields are complete. -/
theorem loops_field_iff : Loops (· == "\x7d") field c ↔
    FieldWord c.last.text ∧ ∃ ts c' fs, c.Leads ts c' ∧ c'.rest = [] ∧ Many FieldOf (texts ts) fs := by
  constructor
  · intro h
    induction hn : c.rest.length using Nat.strongRecOn generalizing c with
    | ind n ih =>
      obtain ⟨goes, f, c₁, once, h⟩ := loops_iff.1 h
      obtain ⟨ts, hts, hf, -⟩ := reads_field.leads trivial once
      rcases moves_field c f c₁ goes once with hlt | ⟨hrest, rfl⟩
      · obtain ⟨hword, us, c', fs, hus, hc', hfs⟩ := ih _ (hn ▸ hlt) h rfl
        refine ⟨?_, ts ++ us, c', f :: fs, hts.append hus, hc', ?_⟩
        · rwa [hts.eq_drop] at hword
        · simpa [texts] using Many.cons hf hfs
      · exact ⟨hf.fieldWord (hts.eq_last hrest), [], c₁, [], .nil _, hrest, .nil⟩
  · rintro ⟨hword, ts, c', fs, hts, hc', hfs⟩
    generalize hws : texts ts = ws at hfs
    induction hfs generalizing c ts with
    | nil =>
      obtain rfl := hts.of_texts_nil hws
      obtain ⟨rest, last⟩ := c'
      obtain rfl : rest = [] := hc'
      obtain ⟨f, hf⟩ := hword.fieldOf
      have hlast : FieldOf (texts [last, last]) f := hf
      obtain ⟨f', once⟩ := field_leads hlast (leads_past [] last 2)
      exact loops_of_fixed (ne_close_of_name hword.1) once
    | @cons us ws f fs hf _ ih =>
      obtain ⟨ts₁, ts₂, rfl, rfl, rfl⟩ := exists_of_texts_eq_append hws
      obtain ⟨c₁, hts₁, hts₂⟩ := hts.split
      obtain ⟨f', once⟩ := field_leads hf hts₁
      obtain ⟨n, us, hus, hn⟩ := named_fieldOf _ _ hf
      have goes := ne_close_of_name ((hts₁.of_texts_cons hus).1 ▸ hn)
      refine loops_iff.2 ⟨goes, f', c₁, once, ih ?_ ts₂ hts₂ rfl⟩
      rwa [hts₁.eq_drop]

/-! ## Entries -/

theorem bind_expect_eq_endless_iff {α : Type} {test : String → Bool} {hend : test "" = false}
    {what : Expected} {f : Token × Cursor → Except ReadFailure α} :
    ((Plan.expect test hend what).step c >>= f) = .error .endless ↔
      test c.text = true ∧ f (c.current, c.next) = .error .endless := by
  by_cases h : test c.text = true
  · rw [step_expect_of_test h, and_iff_right h]
    rfl
  · rw [Plan.step_expect, if_neg h]
    exact iff_of_false (returns_fail c (.expected what c.text)) fun h' => h h'.1

theorem bind_eq_endless_iff {α β : Type} {x : Except ReadFailure α} {f : α → Except ReadFailure β}
    (hf : ∀ a, f a ≠ .error .endless) : (x >>= f) = .error .endless ↔ x = .error .endless := by
  cases x with
  | error e => simp [bind, Except.bind]
  | ok a => exact iff_of_false (hf a) (returns_ok _)

/-- Objects are the only entries that may go on for ever. -/
theorem entry_eq_endless_iff : Plan.entry.step c = .error .endless ↔
    c.text = "object" ∧ Name c.next.text ∧ c.next.next.text = "\x7b" ∧
      Loops (· == "\x7d") field c.next.next.next := by
  simp only [Plan.entry, Plan.step_ifWord]
  split
  · rename_i h
    refine iff_of_false (returns_bind (returns_constGroup _) fun _ => returns_ok _) fun h' => ?_
    exact absurd (h.symm.trans h'.1) (by decide)
  split
  · rename_i h
    refine iff_of_false (returns_bind (returns_enumDecl _) fun _ => returns_ok _) fun h' => ?_
    exact absurd (h.symm.trans h'.1) (by decide)
  split
  · rename_i h
    rw [and_iff_right h, ← collect_eq_endless_iff moves_field returns_field]
    refine (bind_eq_endless_iff fun _ => returns_ok _).trans ?_
    rw [Plan.objectDecl, Plan.step_bind, Plan.name, bind_expect_eq_endless_iff]
    refine and_congr_right fun _ => (bind_eq_endless_iff fun _ => returns_ok _).trans ?_
    rw [Plan.braced, Plan.step_bind, Plan.word, bind_expect_eq_endless_iff, beq_iff_eq]
    exact and_congr_right fun _ => bind_eq_endless_iff fun _ =>
      returns_bind (returns_take _) fun _ => returns_ok _
  · rename_i h
    exact iff_of_false (returns_fail _ _) fun h' => h h'.1

theorem rest_ne_nil_of_entry (h : Plan.entry.step c = .error .endless) : c.rest ≠ [] := by
  intro hc
  obtain ⟨hobject, -, hopen, -⟩ := entry_eq_endless_iff.1 h
  obtain ⟨rest, last⟩ := c
  obtain rfl : rest = [] := hc
  exact absurd (hobject.symm.trans hopen) (by decide)

theorem moves_entry : Moves String.isEmpty Plan.entry.step := by
  refine moves_of_reads reads_entry (fun _ _ => trivial) fun ws e he => ?_
  obtain ⟨k, us, rfl, -⟩ := head_entryOf he
  exact List.cons_ne_nil k us

theorem open_mem_entryOf {ws : List String} {e : Entry} (h : EntryOf ws e) : "\x7b" ∈ ws := by
  rcases h with ⟨⟨_, _, ⟨_⟩, _⟩ | ⟨_, ⟨_⟩, _⟩⟩ | ⟨⟨_, _, ⟨_⟩, _⟩⟩ | ⟨⟨_, ⟨_⟩, _⟩⟩ <;> simp

/-- An entry needs two different words, so none is read past the end. -/
theorem not_entry_past {e : Entry} (hc : c.rest = []) : Plan.entry.step c ≠ .ok (e, c') := by
  intro once
  obtain ⟨ts, hts, he, -⟩ := reads_entry.leads trivial once
  have heq := hts.eq_last hc
  obtain ⟨k, us, hws, hk⟩ := head_entryOf he
  have hopen := heq _ (open_mem_entryOf he)
  rw [hws, List.forall_mem_cons] at heq
  rw [heq.1, ← hopen] at hk
  exact absurd hk (by decide)

/-- Entries go on for ever in the first one that does. -/
theorem entries_eq_endless_iff : collect String.isEmpty Plan.entry.step c = .error .endless ↔
    ∃ ts es c₁, c = c₁.back ts ∧ Many EntryOf (texts ts) es ∧ Plan.entry.step c₁ = .error .endless := by
  constructor
  · intro h
    induction hn : c.rest.length using Nat.strongRecOn generalizing c with
    | ind n ih =>
      obtain ⟨goes, h | ⟨e, c', once, h⟩⟩ := collect_eq_error_iff.1 h
      · exact ⟨[], [], c, rfl, .nil, h⟩
      · rcases moves_entry c e c' goes once with hlt | ⟨hrest, -⟩
        · rw [if_pos hlt] at h
          obtain ⟨us, es, c₁, rfl, hes, hend⟩ := ih _ (hn ▸ hlt) h rfl
          obtain ⟨ts, hts, he, -⟩ := reads_entry.leads trivial once
          have hrest : (c₁.back us).rest ≠ [] :=
            List.append_ne_nil_of_right_ne_nil us (rest_ne_nil_of_entry hend)
          refine ⟨ts ++ us, e :: es, c₁, ?_, ?_, hend⟩
          · rw [back_append]
            exact hts.eq_back_of_rest hrest
          · simpa [texts] using Many.cons he hes
        · exact absurd once (not_entry_past hrest)
  · rintro ⟨ts, es, c₁, rfl, hes, hend⟩
    generalize hws : texts ts = ws at hes
    induction hes generalizing ts with
    | nil =>
      obtain rfl := List.map_eq_nil_iff.1 hws
      have goes : c₁.text.isEmpty = false := by
        rw [(entry_eq_endless_iff.1 hend).1]
        rfl
      exact collect_eq_error_iff.2 ⟨goes, .inl hend⟩
    | @cons us ws e es he _ ih =>
      obtain ⟨ts₁, ts₂, rfl, rfl, rfl⟩ := exists_of_texts_eq_append hws
      obtain ⟨e', once, -⟩ := reads_entry.complete (c := c₁.back ts₂) he trivial
      have hne : ∀ ws e, EntryOf ws e → ws ≠ [] := by
        rintro ws e he rfl
        exact List.not_mem_nil (open_mem_entryOf he)
      have hlt := Reads.length_lt_back hne he (c₁.back ts₂)
      obtain ⟨k, us, hus, hk⟩ := head_entryOf he
      rw [back_append]
      refine collect_eq_error_iff.2 ⟨?_, .inr ⟨e', _, once, by rw [if_pos hlt]; exact ih ts₂ rfl⟩⟩
      rw [text_back, hus]
      simp only [List.mem_cons, List.not_mem_nil, or_false] at hk
      rcases hk with rfl | rfl | rfl <;> rfl

theorem text_of_entries (h : collect String.isEmpty Plan.entry.step c = .error .endless) :
    c.rest ≠ [] ∧ c.text ∈ ["const", "enum", "object"] := by
  obtain ⟨ts, es, c₁, rfl, hes, hend⟩ := entries_eq_endless_iff.1 h
  refine ⟨List.append_ne_nil_of_right_ne_nil ts (rest_ne_nil_of_entry hend), ?_⟩
  rw [text_back]
  generalize texts ts = ws at hes
  cases hes with
  | nil =>
    show c₁.text ∈ _
    rw [(entry_eq_endless_iff.1 hend).1]
    decide
  | cons he _ =>
    obtain ⟨k, us, rfl, hk⟩ := head_entryOf he
    exact hk

/-! ## Schemas -/

theorem reads_path : Reads anyText (fun w => (w != ".") = true) (List.map Token.text)
    (collect (· != ".") Plan.dotted.step) (Many Dotted) :=
  reads_dotted.collect (by rintro ws t ⟨us, rfl, -⟩; simp)

theorem package_leads {path : List String} (h : Plan.package.step c = .ok (path, c')) :
    ∃ ts, c.Leads ts c' ∧ PackageOf (texts ts) path := by
  rw [Plan.package, Plan.step_ifWord] at h
  split at h
  · rename_i hc
    obtain ⟨⟨t, c₁⟩, hname, h⟩ := bind_eq_ok_iff.1 h
    obtain ⟨⟨others, c₂⟩, hothers, h⟩ := bind_eq_ok_iff.1 h
    cases h
    obtain ⟨us, hus, ⟨htext, hn⟩, -⟩ := (reads_name .packageName).leads trivial hname
    obtain ⟨vs, hvs, hmany, -⟩ := reads_path.leads trivial hothers
    obtain ⟨hdots, hns⟩ := many_dotted_iff.1 hmany
    have htexts : texts (c.current :: (us ++ vs)) = c.text :: (texts us ++ texts vs) :=
      congrArg (c.text :: ·) List.map_append
    refine ⟨c.current :: (us ++ vs), .cons (hus.append hvs), ?_⟩
    rw [htexts, hc, htext, hdots]
    exact .path hn hns
  · cases h
    exact ⟨[], .nil c, .none⟩

theorem package_back {path : List String} (h : PackageOf (texts ts) path)
    (hc : c.text ∈ ["const", "enum", "object"]) : ∃ path', Plan.package.step (c.back ts) = .ok (path', c) := by
  generalize hws : texts ts = ws at h
  cases h with
  | none =>
    obtain rfl := List.map_eq_nil_iff.1 hws
    have hne : c.text ≠ "package" := by
      rintro hpackage
      rw [hpackage] at hc
      exact absurd hc (by decide)
    refine ⟨[], ?_⟩
    rw [back_nil, Plan.package, Plan.step_ifWord, if_neg hne]
    rfl
  | @path n ns hn hns =>
    obtain ⟨t, us, rfl, ht, hus⟩ := List.map_eq_cons_iff.1 hws
    obtain ⟨t', vs, rfl, ht', hvs⟩ := List.map_eq_cons_iff.1 hus
    obtain ⟨others, rfl⟩ := exists_texts_eq ns
    have hstop : (c.text != ".") = true := by
      rw [bne_iff_ne]
      intro hdot
      rw [hdot] at hc
      exact absurd hc (by decide)
    have hmany : Many Dotted (texts vs) others := many_dotted_iff.2 ⟨hvs, hns⟩
    obtain ⟨others', hok, -⟩ := reads_path.complete hmany hstop
    have hfirst : (Plan.name .packageName).step (c.back (t' :: vs)) = .ok (t', c.back vs) :=
      step_expect_of_test (by rw [text_back_cons, ht']; exact hn)
    refine ⟨(t' :: others').map Token.text, ?_⟩
    rw [Plan.package, Plan.step_ifWord, text_back_cons, if_pos ht, Plan.step_bind]
    show ((Plan.name .packageName).step (c.back (t' :: vs)) >>= _) = _
    rw [hfirst]
    show (collect _ _ (c.back vs) >>= _) = _
    rw [hok]
    rfl

theorem schema_eq_endless_iff : schema c = .error .endless ↔
    ∃ ts path c₁, c = c₁.back ts ∧ PackageOf (texts ts) path ∧
      collect String.isEmpty Plan.entry.step c₁ = .error .endless := by
  constructor
  · intro h
    obtain ⟨⟨path, c₁⟩, hpackage, h⟩ := (bind_eq_error_iff.1 h).resolve_left (returns_package c)
    have hentries := (bind_eq_endless_iff fun _ => returns_ok _).1 h
    obtain ⟨ts, hts, hpath⟩ := package_leads hpackage
    exact ⟨ts, path, c₁, hts.eq_back_of_rest (text_of_entries hentries).1, hpath, hentries⟩
  · rintro ⟨ts, path, c₁, rfl, hpath, hentries⟩
    obtain ⟨path', hpackage⟩ := package_back hpath (text_of_entries hentries).2
    rw [schema, Plan.schema, Plan.step_bind, hpackage]
    exact (bind_eq_endless_iff fun _ => returns_ok _).2 hentries

end Cursor

/-! ## Token lists -/

/-- A package path, entries and an object up to its brace. -/
inductive OpensObject : List String → Prop
  | mk {us ws path : List String} {es : List Entry} {n : String} (package : PackageOf us path)
    (entries : Many EntryOf ws es) (name : Name n) : OpensObject (us ++ ws ++ ["object", n, "\x7b"])

/-- A token list runs on: its last word can be a type and a name, and with some more copies of that
word it is an object with complete fields and without a closing brace. -/
def RunsOn (ts : List Token) : Prop :=
  ∃ last, ts.getLast? = some last ∧ FieldWord last.text ∧ ∃ n hs ws fs,
    ts.map Token.text ++ List.replicate n last.text = hs ++ ws ∧ OpensObject hs ∧ Many FieldOf ws fs

/-- The loop over the fields of an object at the end of a token list never ends. -/
def LoopsInObject (ts : List Token) : Prop :=
  ∃ us vs last, ts = us ++ vs ∧ ts.getLast? = some last ∧ OpensObject (us.map Token.text) ∧
    Cursor.Loops (· == "\x7d") Cursor.field ⟨vs, last⟩

theorem OpensObject.exists_tokens {us : List Token} (h : OpensObject (texts us)) :
    ∃ ps ws o m b path es, us = ps ++ ws ++ [o, m, b] ∧ PackageOf (texts ps) path ∧
      Many EntryOf (texts ws) es ∧ o.text = "object" ∧ Name m.text ∧ b.text = "\x7b" := by
  generalize hus : texts us = hs at h
  obtain ⟨hpath, hes, hn⟩ := h
  obtain ⟨_, os, rfl, hbefore, hos⟩ := exists_of_texts_eq_append hus
  obtain ⟨ps, ws, rfl, rfl, rfl⟩ := exists_of_texts_eq_append hbefore
  obtain ⟨o, _, rfl, ho, hname⟩ := List.map_eq_cons_iff.1 hos
  obtain ⟨m, _, rfl, rfl, hbrace⟩ := List.map_eq_cons_iff.1 hname
  obtain ⟨b, rfl, hb⟩ := List.map_eq_singleton_iff.1 hbrace
  exact ⟨ps, ws, o, m, b, _, _, rfl, hpath, hes, ho, hn, hb⟩

theorem OpensObject.getLast? {ws : List String} (h : OpensObject ws) : ws.getLast? = some "\x7b" := by
  obtain ⟨-, -, -⟩ := h
  simp

/-- The three tokens of an open object are tokens of the list. -/
theorem Cursor.exists_open {c : Cursor} (hlast : c.rest.getLast? = some c.last)
    (hobject : c.text = "object") (hn : Name c.next.text) (hopen : c.next.next.text = "\x7b") :
    ∃ ts, c = c.next.next.next.back ts ∧ texts ts = ["object", c.next.text, "\x7b"] := by
  obtain ⟨_ | ⟨t, _ | ⟨t', _ | ⟨t'', rest⟩⟩⟩, last⟩ := c
  · cases hlast
  · obtain rfl : t = last := Option.some.inj hlast
    exact absurd (hobject.symm.trans hopen) (by decide)
  · obtain rfl : t' = last := Option.some.inj hlast
    have htext : t'.text = "\x7b" := hopen
    have hname : Name t'.text := hn
    rw [htext] at hname
    exact absurd hname (by decide)
  · refine ⟨[t, t', t''], rfl, ?_⟩
    rw [← hobject, ← hopen]
    rfl

section Lists

variable {ts : List Token} {last : Token}

theorem ofTokens_of_getLast? (hlast : ts.getLast? = some last) :
    Schema.ofTokens ts = (Cursor.schema ⟨ts, last⟩).map Prod.fst := by
  rw [Schema.ofTokens, hlast]

theorem ofTokens_eq_error_iff {f : ReadFailure} (hlast : ts.getLast? = some last) :
    Schema.ofTokens ts = .error f ↔ Cursor.schema ⟨ts, last⟩ = .error f := by
  rw [ofTokens_of_getLast? hlast]
  cases Cursor.schema ⟨ts, last⟩ <;> simp [Except.map]

theorem ofTokens_eq_endless_iff : Schema.ofTokens ts = .error .endless ↔ LoopsInObject ts := by
  cases hlast : ts.getLast? with
  | none =>
    rw [Schema.ofTokens, hlast]
    refine iff_of_false (by simp) ?_
    rintro ⟨us, vs, last, -, hsome, -⟩
    rw [hlast] at hsome
    cases hsome
  | some last =>
    rw [ofTokens_eq_error_iff hlast, Cursor.schema_eq_endless_iff]
    constructor
    · rintro ⟨us, path, c₁, hus, hpath, hentries⟩
      obtain ⟨ws, es, c, rfl, hes, hend⟩ := Cursor.entries_eq_endless_iff.1 hentries
      obtain ⟨hobject, hn, hopen, hloop⟩ := Cursor.entry_eq_endless_iff.1 hend
      rw [← Cursor.back_append] at hus
      obtain ⟨hts, rfl⟩ := Cursor.mk.inj hus
      have hc : c.rest.getLast? = some c.last := by
        rw [← hlast, hts, List.getLast?_append_of_ne_nil _ (Cursor.rest_ne_nil_of_entry hend)]
      obtain ⟨os, hos, htexts⟩ := Cursor.exists_open hc hobject hn hopen
      refine ⟨us ++ ws ++ os, c.next.next.next.rest, c.last, ?_, hlast, ?_, hloop⟩
      · rw [hts, List.append_assoc _ os]
        exact congrArg (us ++ ws ++ ·) (congrArg Cursor.rest hos)
      · rw [List.map_append, List.map_append, show os.map Token.text = _ from htexts]
        exact .mk hpath hes hn
    · rintro ⟨us, vs, last', rfl, hlast', hopen, hloop⟩
      obtain rfl := Option.some.inj (hlast.symm.trans hlast')
      obtain ⟨ps, ws, o, m, b, _, _, rfl, hpath, hes, ho, hn, hb⟩ := hopen.exists_tokens
      have hend : Plan.entry.step (Cursor.back ⟨vs, last⟩ [o, m, b]) = .error .endless :=
        Cursor.entry_eq_endless_iff.2 ⟨ho, hn, hb, hloop⟩
      refine ⟨ps, _, Cursor.back ⟨vs, last⟩ (ws ++ [o, m, b]), ?_, hpath, ?_⟩
      · simp [Cursor.back]
      · exact Cursor.entries_eq_endless_iff.2 ⟨ws, _, _, Cursor.back_append .., hes, hend⟩

theorem loopsInObject_iff : LoopsInObject ts ↔ RunsOn ts := by
  constructor
  · rintro ⟨us, vs, last, rfl, hlast, hopen, hloop⟩
    obtain ⟨hword, ws, c', fs, hws, hc', hfs⟩ := Cursor.loops_field_iff.1 hloop
    obtain ⟨n, rfl⟩ := hws.eq_past hc'
    refine ⟨last, hlast, hword, n, texts us, _, fs, ?_, hopen, hfs⟩
    simp [texts]
  · rintro ⟨last, hlast, hword, n, hs, ws, fs, heq, hopen, hfs⟩
    -- the brace is no copy of the last word, so it is a token of the list
    have hprefix : ∃ vs, ts.map Token.text = hs ++ vs ∧ ws = vs ++ List.replicate n last.text := by
      rcases List.append_eq_append_iff.1 heq with ⟨as, rfl, hcopies⟩ | ⟨vs, hts, hws⟩
      · cases as with
        | nil => exact ⟨[], by simp, hcopies.symm⟩
        | cons a as =>
          have hclose := hopen.getLast?
          rw [List.getLast?_append_of_ne_nil _ (List.cons_ne_nil a as)] at hclose
          have hmem : "\x7b" ∈ List.replicate n last.text :=
            hcopies ▸ List.mem_append_left _ (List.mem_of_getLast? hclose)
          exact absurd (List.eq_of_mem_replicate hmem ▸ hword.1 : Name "\x7b") (by decide)
      · exact ⟨vs, hts, hws⟩
    obtain ⟨_, hts, rfl⟩ := hprefix
    obtain ⟨us, vs, rfl, rfl, rfl⟩ := exists_of_texts_eq_append hts
    have hcopies : Many FieldOf (texts (vs ++ List.replicate n last)) fs := by simpa [texts] using hfs
    exact ⟨us, vs, last, rfl, hlast, hopen, Cursor.loops_field_iff.2
      ⟨hword, _, _, fs, Cursor.leads_past vs last n, rfl, hcopies⟩⟩

/-- The reader stops at a token of the list. -/
theorem not_ofTokens_ok (hts : "" ∉ texts ts) (s : Schema) : Schema.ofTokens ts ≠ .ok s := by
  intro hok
  cases hlast : ts.getLast? with
  | none =>
    rw [Schema.ofTokens, hlast] at hok
    cases hok
  | some last =>
    rw [ofTokens_of_getLast? hlast] at hok
    cases hschema : Cursor.schema ⟨ts, last⟩ with
    | error f =>
      rw [hschema] at hok
      cases hok
    | ok x =>
      obtain ⟨us, hus, -, hend⟩ := Cursor.reads_schema.leads trivial hschema
      have hmem : x.2.current ∈ ts := by
        rw [hus.eq_drop, Cursor.current]
        cases hdrop : ts.drop us.length with
        | nil => exact List.mem_of_getLast? hlast
        | cons t rest => exact List.mem_of_mem_drop (hdrop ▸ List.mem_cons_self)
      exact hts (String.isEmpty_iff.1 hend ▸ List.mem_map_of_mem hmem)

end Lists

/-- **Which token lists are read to an end.** Every list gives a schema or a complaint, except the lists
that run on, where the loop over the fields of an object never ends. A list with the token for the end
never runs on, and a list without it never gives a schema. -/
theorem ofTokens_returns_iff (ts : List Token) :
    (((∃ s, Schema.ofTokens ts = .ok s) ∨
        ∃ cause position, Schema.ofTokens ts = .error (.complaint cause position)) ↔ ¬ RunsOn ts) ∧
    (RunsOn ts ↔ LoopsInObject ts) ∧
    ("" ∈ ts.map Token.text → ¬ RunsOn ts) ∧
    ("" ∉ ts.map Token.text → ∀ s, Schema.ofTokens ts ≠ .ok s) := by
  have hendless : Schema.ofTokens ts = .error .endless ↔ RunsOn ts :=
    ofTokens_eq_endless_iff.trans loopsInObject_iff
  refine ⟨?_, loopsInObject_iff.symm, fun hmem hruns => ?_, not_ofTokens_ok⟩
  · rw [← hendless]
    cases Schema.ofTokens ts with
    | ok s => simp
    | error f => cases f <;> simp
  · have hfails := hendless.2 hruns
    obtain ⟨last, hlast, -⟩ := hruns
    have herr := (ofTokens_eq_error_iff hlast).1 hfails
    obtain ⟨us, c', cause, -, hcause, -⟩ := Cursor.reads_schema.stuck (c := ⟨ts, last⟩) hmem trivial herr
    cases hcause

/-- A list that breaks off after a word in an object. The word is read as a type and a name for ever. -/
theorem ofTokens_returns_iff_broken :
    let ts : List Token := [⟨"object", ⟨1, 1⟩⟩, ⟨"A", ⟨1, 3⟩⟩, ⟨"\x7b", ⟨1, 5⟩⟩, ⟨"x", ⟨2, 7⟩⟩]
    RunsOn ts ∧ LoopsInObject ts ∧ ¬ ((∃ s, Schema.ofTokens ts = .ok s) ∨
      ∃ cause position, Schema.ofTokens ts = .error (.complaint cause position)) := by
  intro ts
  have hx : FieldWord "x" := by decide
  obtain ⟨f, hf⟩ := hx.fieldOf
  have hopen : OpensObject ["object", "A", "\x7b"] := .mk .none .nil (by decide)
  have hruns : RunsOn ts :=
    ⟨⟨"x", ⟨2, 7⟩⟩, rfl, hx, 1, ["object", "A", "\x7b"], ["x", "x"], [f], rfl, hopen, .cons hf .nil⟩
  obtain ⟨hreturns, hloops, -⟩ := ofTokens_returns_iff ts
  exact ⟨hruns, hloops.1 hruns, fun h => hreturns.1 h hruns⟩

end Idl
