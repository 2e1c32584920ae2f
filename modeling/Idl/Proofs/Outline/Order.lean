import Mathlib
import Idl.Proofs.Outline.Blocks
import Idl.Proofs.Target.Names

/-!
# The order of entries

What a file takes from a schema as a whole does not depend on the order of its entries: which names
stand for enums, what is imported, and whether all names are different. So another order of entries
gives the same blocks in that order.

* `Schema.Valid.perm`, `Schema.Valid.agrees`: the rules, and the types that names stand for.
* `Target.check_perm`: what has no form.
* `Target.opening_perm`, `Target.block_perm`: the parts of a file.
* **`render_perm`**: source text for entries in another order.
-/

namespace Idl

open Outline Grammar

section Perm

variable {s s' : Schema} (h : s.Valid) (hpackage : s'.package = s.package)
  (hentries : s'.entries.Perm s.entries)

/-! ## Schemas -/

namespace Schema

include hentries

theorem enums_perm : s'.enums.Perm s.enums := hentries.filterMap _

theorem objects_perm : s'.objects.Perm s.objects := hentries.filterMap _

theorem hasEnums_perm : s'.hasEnums = s.hasEnums :=
  congrArg (! ·) (enums_perm hentries).isEmpty_eq

theorem hasObjects_perm : s'.hasObjects = s.hasObjects :=
  congrArg (! ·) (objects_perm hentries).isEmpty_eq

theorem usesMaps_perm : s'.usesMaps = s.usesMaps := (objects_perm hentries).any_eq

include h

theorem Valid.perm : s'.Valid where
  names := (hentries.flatMap_right Entry.names).nodup_iff.2 h.names
  entry e he := h.entry e (hentries.mem_iff.1 he)

/-- A name stands for one type, wherever the enum is declared. -/
theorem Valid.agrees : s.Agrees s' := by
  intro n
  ext p
  rw [(h.perm hentries).enumType?_eq_some_iff, h.enumType?_eq_some_iff]
  exact exists_congr fun e => and_congr_left' (enums_perm hentries).mem_iff

end Schema

/-! ## Checks -/

include h hentries in
theorem Target.decls_perm (t : Target) :
    (t.dialect.decls s').Perm (t.dialect.decls s) := by
  rw [Dialect.decls, Dialect.decls,
    List.map_congr_left fun e _ => t.declare_congr (h.agrees hentries) e]
  exact hentries.map _

theorem forM_perm {α ε : Type} {f : α → Except ε Unit} {l l' : List α} (hl : l'.Perm l) :
    l'.forM f = .ok () ↔ l.forM f = .ok () := by
  rw [forM_eq_ok_iff, forM_eq_ok_iff]
  exact forall_congr' fun a => imp_congr_left hl.mem_iff

include hentries in
theorem Go.usesBytes_perm : usesBytes s' = usesBytes s := (Schema.objects_perm hentries).any_eq

include h hentries in
theorem Target.check_perm (t : Target) : t.check s' = .ok () ↔ t.check s = .ok () := by
  have hdecls := Target.decls_perm h hentries
  cases t with
  | rust => exact forM_perm (hdecls .rust)
  | go =>
    have hnames : (Go.topNames s').Perm (Go.topNames s) := by
      rw [Go.topNames, Go.topNames, Go.usesBytes_perm hentries]
      exact ((hdecls .go).flatMap_right _).append_left _
    show Go.check s' = .ok () ↔ Go.check s = .ok ()
    rw [Go.check, Go.check, bind_unit_eq_ok_iff, bind_unit_eq_ok_iff, distinct_eq_ok_iff,
      distinct_eq_ok_iff, (hnames.map Prod.snd).nodup_iff]
    exact and_congr_right' (forM_perm (hdecls .go))
  | csharp =>
    show CSharp.check s' = .ok () ↔ CSharp.check s = .ok ()
    rw [CSharp.check_eq_ok_iff, CSharp.check_eq_ok_iff, hentries.any_eq, hentries.any_eq]
    exact and_congr_right' (forall_congr' fun x => imp_congr_left (hdecls .csharp).mem_iff)
  | dart => exact forM_perm (hdecls .dart)
  | typescript => exact forM_perm (hdecls .typescript)

/-! ## Parts of files -/

include hpackage hentries in
theorem Target.opening_perm (t : Target) : t.opening s' = t.opening s := by
  cases t <;>
    simp only [opening, Rust.imports, Go.imports, Go.packageName, hpackage,
      Schema.hasEnums_perm hentries, Schema.hasObjects_perm hentries, Schema.usesMaps_perm hentries,
      Go.usesBytes_perm hentries]

include hpackage in
theorem Target.closing_perm (t : Target) : t.closing s' = t.closing s := by
  cases t <;> simp only [closing, hpackage]

include h hpackage hentries in
theorem Target.block_perm (t : Target) : t.block s' = t.block s := by
  have hinset : t.inset s' = t.inset s := by cases t <;> simp only [inset, hpackage]
  funext e
  rw [block, block, hinset, t.declare_congr (h.agrees hentries), t.declLines_congr (h.agrees hentries)]

end Perm

/-- **The order of entries only orders the output.** Entries of a compiled schema in another order are
valid and have source text in the same targets. But for blank lines it has the same lines around the
blocks, and for every entry the same block, in the new order. -/
theorem render_perm (text : String) (s : Schema) (hs : Schema.compile text = .ok s) (s' : Schema)
    (hpackage : s'.package = s.package) (hentries : s'.entries.Perm s.entries) :
    s'.validate = .ok () ∧ ∀ t : Target,
      ((∃ source, t.render s' = .ok source) ↔ ∃ source, t.render s = .ok source) ∧
      ∀ source source', t.render s = .ok source → t.render s' = .ok source' →
        rowsOf source =
          rows (t.opening s) ++ s.entries.flatMap (t.block s) ++ rows (t.closing s) ∧
        rowsOf source' =
          rows (t.opening s) ++ s'.entries.flatMap (t.block s) ++ rows (t.closing s) := by
  have hvalid : s.Valid := Schema.validate_eq_ok_iff.1 (Schema.validate_of_compile hs)
  have hspelled : s.Spelled := Schema.spelled_of_compile hs
  have hspelled' : s'.Spelled :=
    ⟨hpackage ▸ hspelled.package, fun e he => hspelled.entry e (hentries.mem_iff.1 he)⟩
  refine ⟨Schema.validate_eq_ok_iff.2 (hvalid.perm hentries), fun t => ⟨?_, ?_⟩⟩
  · simp only [Target.render_eq_ok_iff, exists_and_left, exists_eq', and_true]
    exact t.check_perm hvalid hentries
  · intro source source' hsource hsource'
    obtain ⟨-, rfl⟩ := Target.render_eq_ok_iff.1 hsource
    obtain ⟨-, rfl⟩ := Target.render_eq_ok_iff.1 hsource'
    rw [t.rowsOf_sourceText hspelled, t.rowsOf_sourceText hspelled',
      t.opening_perm hpackage hentries, t.closing_perm hpackage, t.block_perm hvalid hpackage hentries]
    exact ⟨rfl, rfl⟩

/-- A field is written alike before and after the enum that it names. -/
theorem render_perm_pen :
    ∃ s pen ink source, Schema.compile
        "package a.b object Pen \x7b list of Ink inks \x7d enum Ink for bool \x7b red = true \x7d" = .ok s ∧
      s.entries = [pen, ink] ∧ { s with entries := [ink, pen] }.validate = .ok () ∧
      Target.dart.render { s with entries := [ink, pen] } = .ok source ∧
      rowsOf source = rows (Target.dart.opening s)
        ++ (Target.dart.block s ink ++ Target.dart.block s pen) := by
  have hinks : FieldOf ["list", "of", "Ink", "inks"] ⟨.list (.named "Ink"), "inks", .start⟩ :=
    .mk (.list (.named (by decide) (by intro p; cases p <;> decide) (by decide) (by decide)))
      (by decide) _
  have hred : MemberOf ["red", "=", "true"] ⟨"red", .bool true, .start⟩ := .mk (by decide) .true _
  have hpath : PackageOf _ ["a", "b"] := .path (by decide) (by decide)
  have hderives : Derives _ _ := .mk hpath
    (.cons (.object (.mk (n := "Pen") (by decide) (.mk (.cons hinks .nil)) .start))
      (.cons (.enum (.mk (n := "Ink") (by decide) .bool (.mk (.cons hred .nil)) .start)) .nil))
  obtain ⟨s, source, hs, hsource, hplaced⟩ := Target.render_of_derives .dart
    "package a.b object Pen \x7b list of Ink inks \x7d enum Ink for bool \x7b red = true \x7d"
    (by cbv) hderives (by decide +kernel) (by decide +kernel)
  -- the compiled schema has the same two entries, placed
  obtain ⟨pen, rest, hentries, -, hrest⟩ := List.map_eq_cons_iff.1 (congrArg Schema.entries hplaced)
  obtain ⟨ink, rfl, -⟩ := List.map_eq_singleton_iff.1 hrest
  obtain ⟨hvalid, hrender⟩ := render_perm _ s hs { s with entries := [ink, pen] } rfl
    (hentries ▸ .swap pen ink [])
  obtain ⟨⟨-, hexists⟩, hrows⟩ := hrender .dart
  obtain ⟨source', hsource'⟩ := hexists ⟨source, hsource⟩
  refine ⟨s, pen, ink, source', hs, hentries, hvalid, hsource', ?_⟩
  obtain ⟨-, hrows'⟩ := hrows source source' hsource hsource'
  simpa [Target.closing, rows] using hrows'

end Idl
