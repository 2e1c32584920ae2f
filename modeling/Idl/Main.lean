import Idl.Run

/-!
# The command line program
-/

namespace Idl

/-- The text of a path. -/
def Path.text (p : Path) : String :=
  (if p.absolute then "/" else "") ++ "/".intercalate p.parts ++ (if p.slash then "/" else "")

/-- The failure of a file operation of the system. -/
def FileError.ofSystem : IO.Error → FileError
  | .noFileOrDirectory .. => .notFound
  | .permissionDenied .. => .denied
  | .alreadyExists .. => .alreadyExists
  | .inappropriateType _ code _ => if code = 21 then .isDirectory else .notDirectory
  | e => .other 0 e.toString

/-- Catches the failure of a file operation. -/
def caught {α : Type} (op : IO α) : IO (Except FileError α) := do
  try return .ok (← op) catch e => return .error (.ofSystem e)

/-- The file operations of the system. -/
def systemAccess : FileAccess IO where
  read path := caught (IO.FS.readFile path.text)
  createAll path := caught (IO.FS.createDirAll path.text)
  write path text := caught (IO.FS.writeFile path.text text)

end Idl

/-- Runs the command of the command line. -/
def main (args : List String) : IO UInt32 := do
  let outcome ← Idl.Outcome.ofArgs Idl.systemAccess args
  IO.print outcome.stdout
  if let some report := outcome.report then IO.eprintln report
  return UInt32.ofNat outcome.exit
