import MessageFormat.Program

/-!
# The command line program

Looks up the two paths that a run can ask about, runs it, and writes its outcome.
-/

namespace MessageFormat

/-- What a path leads to in the file system. -/
def lookupPath (path : String) : IO Lookup := do
  try
    let place ← IO.FS.realPath path
    if ← place.isDir then
      let entries ← place.readDir
      let listing ← entries.toList.mapM fun entry => do
        if ← entry.path.isDir then return (entry.fileName, none)
        else return (entry.fileName, some (← IO.FS.readBinFile entry.path))
      return .directory listing
    else return .file (← IO.FS.readBinFile path)
  catch
    | .inappropriateType .. => return .blocked
    | _ => return .missing

/-- The paths that the run of a command looks up. -/
def pathsOf (arguments : List String) : List String :=
  match CommandLine.parse arguments with
  | .ok (.validate request, path) => [path, request.source]
  | .ok (_, path) => [path]
  | .error _ => []

end MessageFormat

open MessageFormat in
/-- Runs the program on its arguments. -/
def main (arguments : List String) : IO UInt32 := do
  let found ← (pathsOf arguments).mapM fun path => return (path, ← lookupPath path)
  let outcome := Program.run (fun path => (found.lookup path).getD .missing) arguments
  IO.print outcome.output
  IO.eprint outcome.errors
  return outcome.code.toUInt32
