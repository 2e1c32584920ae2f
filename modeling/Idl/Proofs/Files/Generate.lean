import Mathlib
import Idl.Proofs.Files.Growth
import Idl.Proofs.Target.Names
import Idl.Run

/-!
# Writing source text to a file

A run that writes source text reads, compiles, makes directories, renders and writes, in this order,
and each step may fail.

* `FileAccess.Faithful`: file operations that do to a tree what they should, or fail.
* `FileTree.faithful_access`: the operations of file trees are faithful.
* `Generates`, `exists_generates`, `Generates.run_eq`: the ends that a run can have.
* `FileAccess.Faithful.kept_of_error`, `FileAccess.Faithful.kept_of_ok`: what each end leaves.
* **`generate_all_or_nothing`**: a run changes the output file and nothing else, or no file at all.
-/

namespace Idl

open FileTree

/-- File operations on a tree. Each may also fail where the tree does not stand in its way. -/
structure FileAccess.Faithful (fs : FileAccess (StateM FileTree)) : Prop where
  /-- Reading changes nothing. -/
  read : ∀ path t, (fs.read path t).2 = t
  read_ok : ∀ path t text, (fs.read path t).1 = .ok text → t.read path = .ok text
  /-- Making directories adds directories on the way of the path, also if it fails. -/
  createAll : ∀ path t p,
    Kept t (fs.createAll path t).2 ((fs.createAll path t).2.Passes path) p
  /-- Writing replaces the file or changes nothing. -/
  write_error : ∀ path text t e, (fs.write path text t).1 = .error e → (fs.write path text t).2 = t
  write_ok : ∀ path text t, (fs.write path text t).1 = .ok () →
    t.write path text = .ok (fs.write path text t).2

theorem FileTree.faithful_access : FileTree.access.Faithful where
  read _ _ := rfl
  read_ok _ _ _ h := h
  createAll path t p := t.kept_createAll path p
  write_error path text t e h := by
    simp only [access] at h ⊢
    split at h
    · cases h
    · simp [*]
  write_ok path text t h := by
    simp only [access] at h ⊢
    split at h
    · simp [*]
    · cases h

/-- The directories of an output, if they need to be named. -/
def FileAccess.makeAround (fs : FileAccess (StateM FileTree)) (output : Path) :
    StateM FileTree (Except FileError Unit) :=
  match output.parent? with
  | none => pure (.ok ())
  | some directory => fs.createAll directory

/-- The ends of a run in a tree: the result, and the tree that it leaves. -/
inductive Generates (fs : FileAccess (StateM FileTree)) (input output : Path) (target : Target)
    (t : FileTree) : Except Fault Unit → FileTree → Prop
  | unread {e : FileError} {t₁ : FileTree} :
    fs.read input t = (.error e, t₁) → Generates fs input output target t (.error (.file e)) t₁
  | invalid {text : String} {t₁ : FileTree} {f : Fault} :
    fs.read input t = (.ok text, t₁) → Schema.compile text = .error f →
      Generates fs input output target t (.error f) t₁
  | unmade {text : String} {t₁ t₂ : FileTree} {s : Schema} {e : FileError} :
    fs.read input t = (.ok text, t₁) → Schema.compile text = .ok s →
      fs.makeAround output t₁ = (.error e, t₂) →
      Generates fs input output target t (.error (.file e)) t₂
  | refused {text : String} {t₁ t₂ : FileTree} {s : Schema} {f : Fault} :
    fs.read input t = (.ok text, t₁) → Schema.compile text = .ok s →
      fs.makeAround output t₁ = (.ok (), t₂) → target.render s = .error f →
      Generates fs input output target t (.error f) t₂
  | unwritten {text source : String} {t₁ t₂ t₃ : FileTree} {s : Schema} {e : FileError} :
    fs.read input t = (.ok text, t₁) → Schema.compile text = .ok s →
      fs.makeAround output t₁ = (.ok (), t₂) → target.render s = .ok source →
      fs.write output source t₂ = (.error e, t₃) →
      Generates fs input output target t (.error (.file e)) t₃
  | written {text source : String} {t₁ t₂ t₃ : FileTree} {s : Schema} :
    fs.read input t = (.ok text, t₁) → Schema.compile text = .ok s →
      fs.makeAround output t₁ = (.ok (), t₂) → target.render s = .ok source →
      fs.write output source t₂ = (.ok (), t₃) → Generates fs input output target t (.ok ()) t₃

/-! ## Runs -/

section Runs

variable {α β : Type} {op : StateM FileTree (Except FileError α)}
  {rest : α → ExceptT Fault (StateM FileTree) β} {t t₁ : FileTree}

theorem run_of_error {e : FileError} (h : op t = (.error e, t₁)) :
    (orFault op).run t = (.error (.file e), t₁) := by
  show ((op t).1.mapError Fault.file, (op t).2) = _
  rw [h]
  rfl

theorem run_of_ok {a : α} (h : op t = (.ok a, t₁)) : (orFault op).run t = (.ok a, t₁) := by
  show ((op t).1.mapError Fault.file, (op t).2) = _
  rw [h]
  rfl

theorem run_bind_of_error {x : ExceptT Fault (StateM FileTree) α} {f : Fault}
    (h : x.run t = (.error f, t₁)) : (x >>= rest).run t = (.error f, t₁) := by
  show ExceptT.bindCont (m := StateM FileTree) rest (x.run t).1 (x.run t).2 = _
  rw [h]
  rfl

theorem run_bind_of_ok {x : ExceptT Fault (StateM FileTree) α} {a : α}
    (h : x.run t = (.ok a, t₁)) : (x >>= rest).run t = (rest a).run t₁ := by
  show ExceptT.bindCont (m := StateM FileTree) rest (x.run t).1 (x.run t).2 = _
  rw [h]
  rfl

end Runs

theorem writeSource_eq (fs : FileAccess (StateM FileTree)) (input output : Path) (target : Target) :
    writeSource fs input output target =
      orFault (fs.read input) >>= fun text => ExceptT.mk (pure (Schema.compile text)) >>= fun s =>
        orFault (fs.makeAround output) >>= fun _ => ExceptT.mk (pure (target.render s)) >>= fun source =>
          orFault (fs.write output source) := by
  unfold writeSource FileAccess.makeAround
  cases output.parent? <;> rfl

namespace Generates

variable {fs : FileAccess (StateM FileTree)} {input output : Path} {target : Target}
  {t t' t'' : FileTree} {u u' : Except Fault Unit}

theorem run_eq (h : Generates fs input output target t u t') :
    (writeSource fs input output target).run t = (u, t') := by
  have hcompiled : ∀ {text s t₁}, fs.read input t = (.ok text, t₁) → Schema.compile text = .ok s →
      (writeSource fs input output target).run t =
        (orFault (fs.makeAround output) >>= fun _ => ExceptT.mk (pure (target.render s)) >>=
          fun source => orFault (fs.write output source)).run t₁ := by
    intro text s t₁ hread hcompile
    rw [writeSource_eq, run_bind_of_ok (run_of_ok hread), hcompile]
    rfl
  cases h with
  | unread hread =>
    rw [writeSource_eq]
    exact run_bind_of_error (run_of_error hread)
  | invalid hread hcompile =>
    rw [writeSource_eq, run_bind_of_ok (run_of_ok hread), hcompile]
    rfl
  | unmade hread hcompile hmake =>
    rw [hcompiled hread hcompile]
    exact run_bind_of_error (run_of_error hmake)
  | refused hread hcompile hmake hrender =>
    rw [hcompiled hread hcompile, run_bind_of_ok (run_of_ok hmake), hrender]
    rfl
  | unwritten hread hcompile hmake hrender hwrite =>
    rw [hcompiled hread hcompile, run_bind_of_ok (run_of_ok hmake), hrender]
    exact run_of_error hwrite
  | written hread hcompile hmake hrender hwrite =>
    rw [hcompiled hread hcompile, run_bind_of_ok (run_of_ok hmake), hrender]
    exact run_of_ok hwrite

theorem unique (h : Generates fs input output target t u t')
    (h' : Generates fs input output target t u' t'') : u = u' ∧ t' = t'' :=
  Prod.ext_iff.1 (h.run_eq.symm.trans h'.run_eq)

end Generates

/-- A run comes to an end in every tree. -/
theorem exists_generates (fs : FileAccess (StateM FileTree)) (input output : Path) (target : Target)
    (t : FileTree) : ∃ u t', Generates fs input output target t u t' := by
  rcases hread : fs.read input t with ⟨⟨e⟩ | ⟨text⟩, t₁⟩
  · exact ⟨_, _, .unread hread⟩
  rcases hcompile : Schema.compile text with ⟨f⟩ | ⟨s⟩
  · exact ⟨_, _, .invalid hread hcompile⟩
  rcases hmake : fs.makeAround output t₁ with ⟨⟨e⟩ | ⟨⟩, t₂⟩
  · exact ⟨_, _, .unmade hread hcompile hmake⟩
  rcases hrender : target.render s with ⟨f⟩ | ⟨source⟩
  · exact ⟨_, _, .refused hread hcompile hmake hrender⟩
  rcases hwrite : fs.write output source t₂ with ⟨⟨e⟩ | ⟨⟩, t₃⟩
  · exact ⟨_, _, .unwritten hread hcompile hmake hrender hwrite⟩
  · exact ⟨_, _, .written hread hcompile hmake hrender hwrite⟩

theorem generates_of_run {fs : FileAccess (StateM FileTree)} {input output : String}
    {target : Target} {t t' : FileTree} {r : Except Fault String}
    (h : ((Command.generate input output target).run fs).run t = (r, t')) :
    ∃ u, Generates fs (.ofText input) (.ofText output) target t u t' ∧ r = u.map fun _ => "" := by
  obtain ⟨u, t₁, hu⟩ := exists_generates fs (.ofText input) (.ofText output) target t
  cases u with
  | error f =>
    cases (run_bind_of_error hu.run_eq).symm.trans h
    exact ⟨_, hu, rfl⟩
  | ok u =>
    cases (run_bind_of_ok hu.run_eq).symm.trans h
    exact ⟨_, hu, rfl⟩

/-! ## What is left -/

namespace FileAccess.Faithful

variable {fs : FileAccess (StateM FileTree)} {input output : Path} {target : Target}
  {t t' : FileTree}

theorem tree_of_read (hfs : fs.Faithful) {x : Except FileError String}
    (h : fs.read input t = (x, t')) : t' = t := by
  rw [← hfs.read input t, h]

/-- Before the output is written there are at most new directories on its way. -/
theorem kept_makeAround (hfs : fs.Faithful) {x : Except FileError Unit}
    (h : fs.makeAround output t = (x, t')) (p : Place) : Kept t t' (t'.Above output) p := by
  cases hparent : output.parent? with
  | none =>
    simp only [makeAround, hparent] at h
    cases h
    exact .inl rfl
  | some directory =>
    simp only [makeAround, hparent] at h
    have hkept := hfs.createAll directory t p
    rw [h] at hkept
    exact hkept.imp fun hp => hp.above hparent

/-- A run that fails leaves every file as it was. -/
theorem kept_of_error (hfs : fs.Faithful) {f : Fault}
    (h : Generates fs input output target t (.error f) t') (p : Place) :
    Kept t t' (t'.Above output) p := by
  cases h with
  | unread hread | invalid hread =>
    rw [hfs.tree_of_read hread]
    exact .inl rfl
  | unmade hread _ hmake | refused hread _ hmake =>
    rw [hfs.tree_of_read hread] at hmake
    exact hfs.kept_makeAround hmake p
  | unwritten hread _ hmake _ hwrite =>
    rw [hfs.tree_of_read hread] at hmake
    have hsame := hfs.write_error output _ _ _ (congrArg Prod.fst hwrite)
    rw [hwrite] at hsame
    cases hsame
    exact hfs.kept_makeAround hmake p

/-- A run that succeeds leaves the source text in the output, and all else as it was. -/
theorem kept_of_ok (hfs : fs.Faithful) {u : Unit}
    (h : Generates fs input output target t (.ok u) t') :
    ∃ text source, t.read input = .ok text ∧ target.compile text = .ok source ∧
      t'.read output = .ok source ∧
      ∀ p, t'.locate output ≠ .ok p → Kept t t' (t'.Above output) p := by
  cases h with
  | @written text source _ t₂ _ s hread hcompile hmake hrender hwrite =>
    rw [hfs.tree_of_read hread] at hmake
    have hwritten := hfs.write_ok output source t₂ (congrArg Prod.fst hwrite)
    rw [hwrite] at hwritten
    refine ⟨text, source, hfs.read_ok input t text (congrArg Prod.fst hread), ?_,
      read_of_write hwritten, fun p hp => ?_⟩
    · rw [Target.compile, hcompile]
      exact hrender
    · have hlast : Kept t₂ t' (t'.Above output) p := .inl (get?_of_write hwritten hp)
      exact (hfs.kept_makeAround hmake p).trans hlast fun hnew =>
        hnew.of_directories (directory_of_write hwritten)

end FileAccess.Faithful

/-- **All or nothing.** A run that writes source text changes nothing unless the schema compiles. If
it fails, every file is as it was, and there are at most new directories on the way to the output. If
it succeeds, the output is the source text for what the input was before, and nothing else has
changed apart from such directories. It succeeds if each of its steps does. -/
theorem generate_all_or_nothing (fs : FileAccess (StateM FileTree)) (hfs : fs.Faithful)
    (input output : String) (target : Target) (t t' : FileTree) (r : Except Fault String)
    (hrun : ((Command.generate input output target).run fs).run t = (r, t')) :
    (∀ e, (fs.read (.ofText input) t).1 = .error e → r = .error (.file e) ∧ t' = t) ∧
    (∀ text f, (fs.read (.ofText input) t).1 = .ok text → Schema.compile text = .error f →
      r = .error f ∧ t' = t) ∧
    (∀ f, r = .error f → ∀ p, Kept t t' (t'.Above (.ofText output)) p) ∧
    (∀ out, r = .ok out → ∃ text source, t.read (.ofText input) = .ok text ∧
      target.compile text = .ok source ∧ t'.read (.ofText output) = .ok source ∧
      ∀ p, t'.locate (.ofText output) ≠ .ok p → Kept t t' (t'.Above (.ofText output)) p) ∧
    ∀ text source t₁, (fs.read (.ofText input) t).1 = .ok text →
      target.compile text = .ok source → fs.makeAround (.ofText output) t = (.ok (), t₁) →
      (fs.write (.ofText output) source t₁).1 = .ok () → r = .ok "" := by
  obtain ⟨u, hu, rfl⟩ := generates_of_run hrun
  have hsplit : ∀ {x}, (fs.read (.ofText input) t).1 = x → fs.read (.ofText input) t = (x, t) :=
    fun hx => Prod.ext hx (hfs.read _ t)
  refine ⟨fun e hread => ?_, fun text f hread hcompile => ?_, fun f hf => ?_, fun out hout => ?_,
    fun text source t₁ hread hsource hmake hwrite => ?_⟩
  · obtain ⟨rfl, rfl⟩ := hu.unique (.unread (hsplit hread))
    exact ⟨rfl, rfl⟩
  · obtain ⟨rfl, rfl⟩ := hu.unique (.invalid (hsplit hread) hcompile)
    exact ⟨rfl, rfl⟩
  · cases u with
    | error g => exact hfs.kept_of_error hu
    | ok => cases hf
  · cases u with
    | error => cases hout
    | ok => exact hfs.kept_of_ok hu
  · obtain ⟨s, hcompile, hrender⟩ := bind_eq_ok_iff.1 hsource
    obtain ⟨rfl, -⟩ := hu.unique (.written (hsplit hread) hcompile hmake hrender (Prod.ext hwrite rfl))
    rfl

/-- A way through a new directory and back leads to the input itself. -/
theorem generate_all_or_nothing_detour :
    ∃ t source, ((Command.generate "o.idl" "gen/../o.idl" .go).run FileTree.access).run
        (FileTree.ofFiles [("o.idl", "object O \x7b \x7d")]) = (.ok "", t) ∧
      Target.go.compile "object O \x7b \x7d" = .ok source ∧
      t.read (.ofText "gen/../o.idl") = .ok source ∧
      ∀ p, t.locate (.ofText "gen/../o.idl") ≠ .ok p →
        Kept (FileTree.ofFiles [("o.idl", "object O \x7b \x7d")]) t
          (t.Above (.ofText "gen/../o.idl")) p := by
  have hderives : Grammar.Derives _ _ := .mk .none (.cons (.object (.mk (n := "O") (by decide)
    (.mk .nil) .start)) .nil)
  obtain ⟨s, source, hs, hsource, -⟩ := Target.render_of_derives .go "object O \x7b \x7d" (by cbv)
    hderives (by decide +kernel) (by decide +kernel)
  have hcompile : Target.go.compile "object O \x7b \x7d" = .ok source := by
    rw [Target.compile, hs]
    exact hsource
  have hinput : (FileTree.ofFiles [("o.idl", "object O \x7b \x7d")]).read (.ofText "o.idl") =
      .ok "object O \x7b \x7d" := by cbv
  have hmake : (FileTree.access.makeAround (.ofText "gen/../o.idl"))
      (FileTree.ofFiles [("o.idl", "object O \x7b \x7d")]) = (.ok (), ⟨[(["gen", ""], .directory),
        (["o.idl", ""], .file "object O \x7b \x7d"), ([], .directory), ([""], .directory)]⟩) := by
    cbv
  rcases hrun : ((Command.generate "o.idl" "gen/../o.idl" .go).run FileTree.access).run
    (FileTree.ofFiles [("o.idl", "object O \x7b \x7d")]) with ⟨r, t⟩
  obtain ⟨-, -, -, hok, hdone⟩ :=
    generate_all_or_nothing FileTree.access faithful_access _ _ _ _ _ _ hrun
  obtain rfl := hdone _ source _ hinput hcompile hmake rfl
  obtain ⟨text, source', htext, hsource', hread, hkept⟩ := hok _ rfl
  cases hinput.symm.trans htext
  exact ⟨t, source', rfl, hsource', hread, hkept⟩

end Idl
