import Idl.Command
import Idl.Schema.Dump
import Idl.Target.Render

/-!
# Running a command

* `FileAccess`: the file operations that a command needs.
* `writeSource`, `printSchema`: the two commands, over any file operations.
* `Outcome.ofArgs`: a whole run: exit code and output.
* `runIn`: a run in a file tree.
-/

namespace Idl

/-- File operations in a monad. -/
structure FileAccess (m : Type → Type) where
  read : Path → m (Except FileError String)
  createAll : Path → m (Except FileError Unit)
  write : Path → String → m (Except FileError Unit)

section Commands

variable {m : Type → Type} [Monad m] (fs : FileAccess m)

/-- A file operation whose failure is a fault. -/
def orFault {α : Type} (op : m (Except FileError α)) : ExceptT Fault m α :=
  ExceptT.mk do return (← op).mapError Fault.file

/-- Writes source text for the schema in a file. The directories of the output are made once the
schema is valid, and nothing is written unless it has a form in the target. -/
def writeSource (input output : Path) (target : Target) : ExceptT Fault m Unit := do
  let text ← orFault (fs.read input)
  let schema ← ExceptT.mk (pure (Schema.compile text))
  if let some directory := output.parent? then orFault (fs.createAll directory)
  let source ← ExceptT.mk (pure (target.render schema))
  orFault (fs.write output source)

/-- The schema in a file as JSON. -/
def printSchema (input : Path) : ExceptT Fault m String := do
  let text ← orFault (fs.read input)
  let schema ← ExceptT.mk (pure (Schema.compile text))
  return schema.toJson.pretty ++ "\n"

/-- Runs a command. The result is what it prints. -/
def Command.run : Command → ExceptT Fault m String
  | .generate input output target => do
    writeSource fs (.ofText input) (.ofText output) target
    return ""
  | .ast input => printSchema fs (.ofText input)

end Commands

/-- What a run leaves behind apart from files. -/
structure Outcome where
  exit : Nat
  stdout : String
  /-- The report of a fault. -/
  report : Option String
  deriving DecidableEq

namespace Outcome

/-- The outcome of a command. -/
def ofResult : Except Fault String → Outcome
  | .ok text => ⟨0, text, none⟩
  | .error f => ⟨1, "", some f.report⟩

/-- The outcome of a command line without command. -/
def ofNoCommand : NoCommand → Outcome
  | .help topic => ⟨0, Command.helpText topic, none⟩
  | .misuse => ⟨2, "", none⟩

/-- A whole run. -/
def ofArgs {m : Type → Type} [Monad m] (fs : FileAccess m) (args : List String) : m Outcome :=
  match Command.ofArgs args with
  | .ok c => do return ofResult (← (c.run fs).run)
  | .error e => pure (ofNoCommand e)

end Outcome

/-! ## Runs in a file tree -/

/-- The operations of file trees. -/
def FileTree.access : FileAccess (StateM FileTree) where
  read path := fun t => (t.read path, t)
  createAll path := fun t =>
    let (t', r) := t.createAll path
    (r, t')
  write path text := fun t =>
    match t.write path text with
    | .ok t' => (.ok (), t')
    | .error e => (.error e, t)

/-- A whole run in a file tree. -/
def runIn (t : FileTree) (args : List String) : Outcome × FileTree :=
  (Outcome.ofArgs FileTree.access args).run t

end Idl
