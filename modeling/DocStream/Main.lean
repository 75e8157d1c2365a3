import DocStream.Command.Run

/-!
# The program

Reads files and the standard input, and hands everything else to `Command.respond`.
-/

namespace DocStream

/-- A file, or the standard input if no path is given. -/
def readInput (path : Option String) : IO (Outcome String) := do
  try
    match path with
    | some path => return .ok (← IO.FS.readFile path)
    | none => return .ok (← (← IO.getStdin).readToEnd)
  catch e =>
    match e, path with
    | .noFileOrDirectory .., some path => return .error (.fileNotFound path)
    | e, _ => return .error (.io (toString e))

end DocStream

open DocStream in
/-- The program: what its arguments ask for, with the exit code that tells how it went. -/
def main (args : List String) : IO UInt32 := do
  let response ← Command.respond readInput args
  IO.print response.output
  IO.eprint response.complaint
  return response.exitCode
