import Pipeworks.CommandLine.Basic
/-!
The program: it gathers the environment and the files that its arguments name, runs the command, prints what
comes of it, and ends with its code. It opens no connections, so no broker counts as reached and there is no
address to listen at.
-/
namespace Pipeworks.Program

/-- The variables that the commands look at. -/
def variableNames : List String :=
  WorkerSpec.variableName ::
    [CommandLine.OptionName.config, .bind, .store, .endpoint].filterMap CommandLine.OptionName.inherited?

def fileError : IO.Error → FileError
  | .noFileOrDirectory .. => .notFound
  | .inappropriateType _ code _ => if code = 21 then .isDirectory else .notDirectory
  | .alreadyExists .. => .alreadyThere
  | _ => .denied

def content (path : String) : IO (Except FileError ByteArray) := do
  try
    return .ok (← IO.FS.readBinFile path)
  catch e => return .error (fileError e)

partial def stay : IO Unit := do
  IO.sleep 1000
  stay

end Pipeworks.Program

open Pipeworks Program in
def main (args : List String) : IO UInt32 := do
  let values ← variableNames.mapM fun k => return (k, ← IO.getEnv k)
  let getVar := fun k => (values.find? (·.1 == k)).bind (·.2)
  let files ← (CommandLine.filesRead getVar args).mapM fun path => return (path, ← content path)
  let outcome := CommandLine.run
    { fileAt := fun path => ((files.find? (·.1 == path)).map (·.2)).getD (.error .notFound)
      getVar
      accepts := fun _ => false
      listen := fun _ _ => .error "Operation not permitted (os error 1)" } args
  for line in outcome.log do
    IO.eprintln line
  IO.print outcome.out
  IO.eprint outcome.err
  if outcome.stays then Program.stay
  return outcome.code.toUInt32
