import Mathlib
import Idl.FileTree
import Idl.Proofs.Outcome

/-!
# Growing file trees

Making a directory with those around it adds directories on the way of its path, whether it succeeds
or not.

* `FileTree.Passes`, `FileTree.Above`: the places on the way of a path.
* `FileTree.Passes.above`: the way of the directory around a path is part of its way.
* `FileTree.Kept`: a place is as it was, or a directory has been made there.
* `FileTree.kept_createAll`: what making directories does.
* `FileTree.read_of_write`, `FileTree.get?_of_write`: what writing does.
-/

namespace Idl

/-- Only in front of a path that is not absolute a part may stay where it is. -/
theorem Path.steps_eq_filter {absolute slash : Bool} {parts : List String}
    (h : parts.head? = some "." → absolute = true) :
    steps ⟨absolute, parts, slash⟩ = parts.filter (· != ".") := by
  cases parts with
  | nil => rfl
  | cons first others =>
    by_cases hfirst : first = "."
    · subst hfirst
      simp [steps, h rfl]
    · simp [steps, hfirst]

namespace FileTree

variable {t t' t'' : FileTree} {path : Path} {p : Place}

theorem lookup_filter_ne {p q : Place} (hq : q ≠ p) (es : List (Place × Node)) :
    (es.filter fun e => e.1 ≠ p).lookup q = es.lookup q := by
  induction es with
  | nil => rfl
  | cons e es ih =>
    obtain ⟨k, n⟩ := e
    by_cases hk : k = p
    · subst hk
      have hqk : (q == k) = false := beq_eq_false_iff_ne.2 hq
      rw [List.filter_cons_of_neg (by simp), ih, List.lookup_cons, hqk]
    · rw [List.filter_cons_of_pos (by simpa using hk), List.lookup_cons, List.lookup_cons, ih]

theorem get?_set (t : FileTree) (p q : Place) (n : Node) :
    (t.set p n).get? q = if q = p then some n else t.get? q := by
  by_cases hq : q = p
  · simp [set, get?, hq]
  · have hqp : (q == p) = false := beq_eq_false_iff_ne.2 hq
    rw [if_neg hq, get?, set, List.lookup_cons, hqp]
    exact lookup_filter_ne hq t.nodes

/-- Directories stay where nothing is put in their place. -/
theorem directory_set {n : Node} (hp : t.get? p ≠ some .directory) (q : Place)
    (hq : t.get? q = some .directory) : (t.set p n).get? q = some .directory := by
  rw [get?_set, if_neg (ne_of_apply_ne t.get? (hq ▸ hp.symm)), hq]

/-! ## Ways -/

/-- A place on the way of a path: that of a path which it begins with. -/
def Passes (t : FileTree) (path : Path) (p : Place) : Prop :=
  ∃ parts, parts <+: path.parts ∧ t.locate ⟨path.absolute, parts, false⟩ = .ok p

/-- A place on the way of a path, before its end. -/
def Above (t : FileTree) (path : Path) (p : Place) : Prop :=
  ∃ parts, parts <+: path.parts ∧ parts ≠ path.parts ∧
    t.locate ⟨path.absolute, parts, false⟩ = .ok p

theorem follow_of_directories (h : ∀ q, t.get? q = some .directory → t'.get? q = some .directory)
    {part : String} {q : Place} (hq : t.follow p part = .ok q) : t'.follow p part = .ok q := by
  unfold follow at hq ⊢
  split at hq
  · cases hq
  · cases hq
  · rename_i hdir
    rw [h p hdir]
    exact hq

/-- A path leads to the same place as long as directories stay. -/
theorem locate_of_directories (h : ∀ q, t.get? q = some .directory → t'.get? q = some .directory)
    (hp : t.locate path = .ok p) : t'.locate path = .ok p := by
  unfold locate at hp ⊢
  generalize (if path.absolute then ([] : Place) else working) = start at hp ⊢
  generalize path.parts = parts at hp ⊢
  induction parts generalizing start with
  | nil => exact hp
  | cons part parts ih =>
    rw [List.foldlM_cons] at hp ⊢
    obtain ⟨q, hq, hrest⟩ := bind_eq_ok_iff.1 hp
    rw [follow_of_directories h hq]
    exact ih q hrest

theorem Passes.of_directories (h : ∀ q, t.get? q = some .directory → t'.get? q = some .directory)
    (hp : t.Passes path p) : t'.Passes path p := by
  obtain ⟨parts, hparts, hlocate⟩ := hp
  exact ⟨parts, hparts, locate_of_directories h hlocate⟩

theorem Above.of_directories (h : ∀ q, t.get? q = some .directory → t'.get? q = some .directory)
    (hp : t.Above path p) : t'.Above path p := by
  obtain ⟨parts, hparts, hne, hlocate⟩ := hp
  exact ⟨parts, hparts, hne, locate_of_directories h hlocate⟩

theorem passes_of_locate (h : t.locate path = .ok p) : t.Passes path p :=
  ⟨path.parts, List.prefix_rfl, h⟩

/-- A directory can be kept, and what is no directory cannot be left. -/
theorem follow_dot (t : FileTree) (p : Place) :
    t.follow p "." = .ok p ∨ ∃ e, ∀ part, t.follow p part = .error e := by
  unfold follow
  cases h : t.get? p with
  | none => exact .inr ⟨.notFound, fun _ => rfl⟩
  | some n =>
    cases n with
    | file text => exact .inr ⟨.notDirectory, fun _ => rfl⟩
    | directory => exact .inl rfl

/-- Parts that stay where they are can be put back into a way. -/
theorem exists_foldlM_follow (t : FileTree) {parts steps : List String}
    (h : steps <+: parts.filter (· != ".")) :
    ∃ parts', parts' <+: parts ∧ parts'.filter (· != ".") = steps ∧
      ∀ start, parts'.foldlM t.follow start = steps.foldlM t.follow start := by
  induction parts generalizing steps with
  | nil =>
    obtain rfl := List.prefix_nil.1 h
    exact ⟨[], List.prefix_rfl, rfl, fun _ => rfl⟩
  | cons part parts ih =>
    cases steps with
    | nil => exact ⟨[], List.nil_prefix, rfl, fun _ => rfl⟩
    | cons step steps =>
      by_cases hpart : part = "."
      · subst hpart
        rw [List.filter_cons_of_neg (by simp)] at h
        obtain ⟨parts', hprefix, hfilter, hfold⟩ := ih h
        refine ⟨"." :: parts', (List.prefix_cons_inj _).2 hprefix, ?_, fun start => ?_⟩
        · rw [List.filter_cons_of_neg (by simp), hfilter]
        · rw [List.foldlM_cons]
          rcases t.follow_dot start with hdot | ⟨e, he⟩
          · rw [hdot]
            exact hfold start
          · rw [List.foldlM_cons, he, he]
            rfl
      · rw [List.filter_cons_of_pos (by simpa using hpart)] at h
        obtain ⟨rfl, hsteps⟩ := List.cons_prefix_cons.1 h
        obtain ⟨parts', hprefix, hfilter, hfold⟩ := ih hsteps
        refine ⟨step :: parts', (List.prefix_cons_inj _).2 hprefix, ?_, fun start => ?_⟩
        · rw [List.filter_cons_of_pos (by simpa using hpart), hfilter]
        · rw [List.foldlM_cons, List.foldlM_cons]
          exact congrArg _ (funext hfold)

/-- A beginning of the steps of a path is that of a path which it begins with. -/
theorem exists_beginning (t : FileTree) (path : Path) {steps : List String}
    (h : steps <+: path.steps) :
    ∃ parts, parts <+: path.parts ∧ Path.steps ⟨path.absolute, parts, false⟩ = steps ∧
      t.locate ⟨path.absolute, parts, false⟩ = t.locate ⟨path.absolute, steps, false⟩ := by
  obtain ⟨absolute, parts, slash⟩ := path
  by_cases hdot : parts.head? = some "." → absolute = true
  · rw [Path.steps_eq_filter hdot] at h
    obtain ⟨parts', hprefix, hfilter, hfold⟩ := t.exists_foldlM_follow h
    refine ⟨parts', hprefix, ?_, hfold _⟩
    rw [Path.steps_eq_filter, hfilter]
    intro hhead
    obtain ⟨rest, rfl⟩ := hprefix
    exact hdot (by rw [List.head?_append, hhead]; rfl)
  · obtain ⟨hhead, habsolute⟩ := Classical.not_imp.1 hdot
    obtain ⟨others, rfl⟩ := List.head?_eq_some_iff.1 hhead
    rw [Bool.not_eq_true] at habsolute
    subst habsolute
    cases steps with
    | nil => exact ⟨[], List.nil_prefix, rfl, rfl⟩
    | cons step steps =>
      -- the part in front is kept
      obtain ⟨rfl, hsteps⟩ := List.cons_prefix_cons.1 h
      obtain ⟨parts', hprefix, rfl, hfold⟩ := t.exists_foldlM_follow hsteps
      refine ⟨"." :: parts', (List.prefix_cons_inj _).2 hprefix, rfl, ?_⟩
      show (("." :: parts').foldlM t.follow _ : Except FileError Place) = List.foldlM t.follow _ _
      rw [List.foldlM_cons, List.foldlM_cons]
      exact congrArg _ (funext hfold)

/-- What is on the way of the directory around a path is on the way of the path, before its end. -/
theorem Passes.above {around : Path} (h : t.Passes around p) (hparent : path.parent? = some around) :
    t.Above path p := by
  simp only [Path.parent?] at hparent
  split at hparent
  · cases hparent
  · rename_i hne
    cases hparent
    obtain ⟨steps, hsteps, hlocate⟩ := h
    obtain ⟨parts, hparts, rfl, hsame⟩ :=
      t.exists_beginning path (hsteps.trans (List.dropLast_prefix _))
    refine ⟨parts, hparts, ?_, hsame.trans hlocate⟩
    rintro rfl
    -- the steps of the whole path are not among those before the last
    have hle : path.steps.length ≤ path.steps.dropLast.length := hsteps.length_le
    have hpos : 0 < path.steps.dropLast.length := List.length_pos_iff.2 (by simpa using hne)
    rw [List.length_dropLast] at hle hpos
    omega

theorem Above.passes (h : t.Above path p) : t.Passes path p := by
  obtain ⟨parts, hparts, -, hlocate⟩ := h
  exact ⟨parts, hparts, hlocate⟩

/-! ## Growth -/

/-- A place is as it was, or it was free and is now that of a new directory. -/
def Kept (t t' : FileTree) (new : Place → Prop) (p : Place) : Prop :=
  t'.get? p = t.get? p ∨ t.get? p = none ∧ t'.get? p = some .directory ∧ new p

theorem Kept.get? {new : Place → Prop} {n : Node} (h : Kept t t' new p) (hp : t.get? p = some n) :
    t'.get? p = some n := by
  rcases h with heq | ⟨hnone, -⟩
  · rw [heq, hp]
  · rw [hnone] at hp
    cases hp

theorem Kept.imp {new new' : Place → Prop} (h : Kept t t' new p) (hnew : new p → new' p) :
    Kept t t' new' p := by
  rcases h with heq | ⟨hnone, hdir, hp⟩
  · exact .inl heq
  · exact .inr ⟨hnone, hdir, hnew hp⟩

theorem Kept.trans {new new' : Place → Prop} (h : Kept t t' new p) (h' : Kept t' t'' new' p)
    (hnew : new p → new' p) : Kept t t'' new' p := by
  rcases h' with heq' | ⟨hnone', hdir', hp'⟩
  · rcases h with heq | ⟨hnone, hdir, hp⟩
    · exact .inl (heq'.trans heq)
    · exact .inr ⟨hnone, heq'.trans hdir, hnew hp⟩
  · rcases h with heq | ⟨hnone, hdir, hp⟩
    · exact .inr ⟨heq.symm.trans hnone', hdir', hp'⟩
    · exact .inr ⟨hnone, hdir', hp'⟩

theorem kept_ensure (t : FileTree) (path : Path) (p : Place) :
    Kept t (t.ensure path).1 ((t.ensure path).1.Passes path) p := by
  unfold ensure
  cases hcreate : t.create path with
  | error e =>
    simp only
    split_ifs <;> exact .inl rfl
  | ok t' =>
    obtain ⟨q, hq, hset⟩ := bind_eq_ok_iff.1 hcreate
    cases hnode : t.get? q with
    | some n =>
      rw [hnode] at hset
      cases hset
    | none =>
      rw [hnode] at hset
      cases hset
      by_cases hp : p = q
      · subst hp
        refine .inr ⟨hnode, by simp [get?_set], passes_of_locate (locate_of_directories ?_ hq)⟩
        exact directory_set (by simp [hnode])
      · left
        simp [get?_set, hp]

/-- **Making directories adds directories on the way,** also if it fails. -/
theorem kept_createAll (t : FileTree) (path : Path) (p : Place) :
    Kept t (t.createAll path).1 ((t.createAll path).1.Passes path) p := by
  fun_induction createAll t path with
  | case1 => exact .inl rfl
  | case2 path _ around hparent t' e hcreate ih =>
    rw [hcreate] at ih
    exact ih.imp fun h => (h.above hparent).passes
  | case3 path _ around hparent t' hcreate ih =>
    rw [hcreate] at ih
    refine ih.trans (t'.kept_ensure path p) fun h => (h.above hparent).passes.of_directories ?_
    exact fun q hq => (t'.kept_ensure path q).get? hq
  | case4 path => exact t.kept_ensure path p

/-! ## Writing -/

theorem exists_of_write {text : String} (h : t.write path text = .ok t') :
    ∃ p, t.locate path = .ok p ∧ path.slash = false ∧ t.get? p ≠ some .directory ∧
      t' = t.set p (.file text) := by
  obtain ⟨p, hp, hset⟩ := bind_eq_ok_iff.1 h
  split_ifs at hset with hblocked
  rw [not_or, Bool.not_eq_true] at hblocked
  cases hset
  exact ⟨p, hp, hblocked.1, hblocked.2, rfl⟩

theorem directory_of_write {text : String} (h : t.write path text = .ok t') (q : Place)
    (hq : t.get? q = some .directory) : t'.get? q = some .directory := by
  obtain ⟨p, -, -, hp, rfl⟩ := exists_of_write h
  exact directory_set hp q hq

theorem read_of_write {text : String} (h : t.write path text = .ok t') :
    t'.read path = .ok text := by
  obtain ⟨p, hlocate, hslash, hp, rfl⟩ := exists_of_write h
  refine bind_eq_ok_iff.2 ⟨p, locate_of_directories (directory_set hp) hlocate, ?_⟩
  simp [get?_set, hslash]

/-- Nothing changes apart from the file that is written. -/
theorem get?_of_write {text : String} (h : t.write path text = .ok t') {q : Place}
    (hq : t'.locate path ≠ .ok q) : t'.get? q = t.get? q := by
  obtain ⟨p, hlocate, -, hp, rfl⟩ := exists_of_write h
  have hne : q ≠ p := by
    rintro rfl
    exact hq (locate_of_directories (directory_set hp) hlocate)
  rw [get?_set, if_neg hne]

end FileTree

end Idl
