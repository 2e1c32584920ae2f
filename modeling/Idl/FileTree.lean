/-!
# File trees

A tree of directories and text files, with a working directory somewhere in it.

* `Path`: the parts of a path text.
* `FileTree.read`, `FileTree.write`, `FileTree.createAll`: the operations, which either do their
  work or fail with a `FileError`.
* `FileTree.ofFiles`, `FileTree.files`: the files under the working directory.
-/

namespace Idl

/-- Why a file operation fails. -/
inductive FileError where
  | notFound
  | denied
  | alreadyExists
  | notDirectory
  | isDirectory
  /-- Any other failure, by its number and text. -/
  | other (code : Nat) (text : String)
  deriving DecidableEq

namespace FileError

/-- The number of a failure. -/
def code : FileError → Nat
  | notFound => 2
  | denied => 13
  | alreadyExists => 17
  | notDirectory => 20
  | isDirectory => 21
  | other n _ => n

/-- The name of a failure. -/
def kind : FileError → String
  | notFound => "NotFound"
  | denied => "PermissionDenied"
  | alreadyExists => "AlreadyExists"
  | notDirectory => "NotADirectory"
  | isDirectory => "IsADirectory"
  | other _ _ => "Uncategorized"

/-- The words for a failure. -/
def message : FileError → String
  | notFound => "No such file or directory"
  | denied => "Permission denied"
  | alreadyExists => "File exists"
  | notDirectory => "Not a directory"
  | isDirectory => "Is a directory"
  | other _ text => text

end FileError

/-! ## Paths -/

/-- A path text taken apart at its slashes. -/
structure Path where
  /-- It begins at the top of the tree. -/
  absolute : Bool
  /-- What stands between the slashes, without empty parts. -/
  parts : List String
  /-- It ends in a slash. -/
  slash : Bool
  deriving DecidableEq

namespace Path

/-- Takes a path text apart. -/
def ofText (text : String) : Path where
  absolute := text.toList.head? == some '/'
  parts := ((text.toList.splitOn '/').filter (!·.isEmpty)).map String.ofList
  slash := text.toList.getLast? == some '/'

/-- The parts without those that stay where they are, except in front. -/
def steps (p : Path) : List String :=
  match p.parts with
  | [] => []
  | first :: others =>
    (if first = "." ∧ p.absolute then [] else [first]) ++ others.filter (· != ".")

/-- The path of the directory that holds a path, if it has one that needs to be named. -/
def parent? (p : Path) : Option Path :=
  let parts := p.steps.dropLast
  if parts.isEmpty then none else some ⟨p.absolute, parts, false⟩

theorem length_steps_le (p : Path) : p.steps.length ≤ p.parts.length := by
  cases hp : p.parts with
  | nil => simp [steps, hp]
  | cons first others =>
    have h := List.length_filter_le (· != ".") others
    simp only [steps, hp]
    split <;> simp <;> omega

/-- The path of the directory around a path has fewer steps. -/
theorem length_steps_lt_of_parent? {p q : Path} (h : p.parent? = some q) :
    q.steps.length < p.steps.length := by
  simp only [parent?] at h
  split at h
  · simp at h
  · rename_i hne
    simp only [Option.some.injEq] at h
    subst h
    have h₁ := length_steps_le ⟨p.absolute, p.steps.dropLast, false⟩
    have h₂ : 0 < p.steps.dropLast.length := List.length_pos_iff.2 (by simpa using hne)
    simp only [List.length_dropLast] at h₁ h₂
    omega

end Path

/-! ## Trees -/

/-- A place in a tree: the names of the directories around it, innermost first. -/
abbrev Place := List String

/-- What stands at a place. -/
inductive Node where
  | file (text : String)
  | directory
  deriving DecidableEq

/-- Files and directories by place. -/
structure FileTree where
  nodes : List (Place × Node)

namespace FileTree

/-- The working directory. Its name cannot be written in a path. -/
def working : Place := [""]

/-- An empty working directory. -/
def empty : FileTree := ⟨[([], .directory), (working, .directory)]⟩

/-- What stands at a place. -/
def get? (t : FileTree) (p : Place) : Option Node :=
  t.nodes.lookup p

/-- Puts a node at a place. -/
def set (t : FileTree) (p : Place) (n : Node) : FileTree :=
  ⟨(p, n) :: t.nodes.filter fun e => e.1 ≠ p⟩

/-- Goes from a place to what one part of a path names there. Only a directory can be left. -/
def follow (t : FileTree) (p : Place) (part : String) : Except FileError Place :=
  match t.get? p with
  | none => .error .notFound
  | some (.file _) => .error .notDirectory
  | some .directory =>
    if part = "." then .ok p
    else if part = ".." then .ok p.tail
    else .ok (part :: p)

/-- The place of a path. Nothing need stand there, but the place lies in a directory. -/
def locate (t : FileTree) (path : Path) : Except FileError Place :=
  path.parts.foldlM t.follow (if path.absolute then [] else working)

/-- The text of a file. -/
def read (t : FileTree) (path : Path) : Except FileError String := do
  let p ← t.locate path
  match t.get? p with
  | none => .error .notFound
  | some .directory => .error .isDirectory
  | some (.file text) => if path.slash then .error .notDirectory else .ok text

/-- Writes a file, in place of one that is there. -/
def write (t : FileTree) (path : Path) (text : String) : Except FileError FileTree := do
  let p ← t.locate path
  if path.slash ∨ t.get? p = some .directory then .error .isDirectory
  else .ok (t.set p (.file text))

/-- Makes a directory in a directory that is there. -/
def create (t : FileTree) (path : Path) : Except FileError FileTree := do
  let p ← t.locate path
  match t.get? p with
  | some _ => .error .alreadyExists
  | none => .ok (t.set p .directory)

/-- The path leads to a directory. -/
def isDirectory (t : FileTree) (path : Path) : Bool :=
  match t.locate path with
  | .ok p => t.get? p = some .directory
  | .error _ => false

/-- Makes a directory unless it is there. -/
def ensure (t : FileTree) (path : Path) : FileTree × Except FileError Unit :=
  match t.create path with
  | .ok t' => (t', .ok ())
  | .error e => if t.isDirectory path then (t, .ok ()) else (t, .error e)

/-- Makes a directory and those around it as far as they are missing, from the outermost in. What
was made stays when a later step fails. -/
def createAll (t : FileTree) (path : Path) : FileTree × Except FileError Unit :=
  match t.create path with
  | .error .notFound =>
    match _h : path.parent? with
    | none => (t, .error .notFound)
    | some above =>
      match t.createAll above with
      | (t', .error e) => (t', .error e)
      | (t', .ok ()) => t'.ensure path
  | _ => t.ensure path
termination_by path.steps.length
decreasing_by exact Path.length_steps_lt_of_parent? _h

/-! ## Files under the working directory -/

/-- The directories around a place and under the working directory, outermost first. -/
def around : Place → List Place
  | [] => []
  | _ :: p => around p ++ [p]

/-- Adds a file by a path of plain names under the working directory, with the directories around
it. -/
def add (t : FileTree) (file : String × String) : FileTree :=
  let p := (Path.ofText file.1).parts.reverse ++ working
  let t := (around p).foldl (fun t q => if (t.get? q).isSome then t else t.set q .directory) t
  t.set p (.file file.2)

/-- A working directory with the given files. -/
def ofFiles (files : List (String × String)) : FileTree :=
  files.foldl add empty

/-- The files under the working directory, by path. -/
def files (t : FileTree) : List (String × String) :=
  t.nodes.filterMap fun
    | (p, .file text) =>
      match p.reverse with
      | "" :: names => some ("/".intercalate names, text)
      | _ => none
    | _ => none

end FileTree

end Idl
