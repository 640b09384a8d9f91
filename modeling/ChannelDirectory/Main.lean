import ChannelDirectory.CommandLine.Run

/-!
# The program

`main` reads the files of an invocation, carries it out, writes the data file and prints the
report.
-/

namespace ChannelDirectory.CommandLine

/-- Why a call to the system failed. The number of an error comes with either sign; 21 is
that of a directory where a file is needed, and 36 that of a name that is too long. -/
def FileFault.ofError : IO.Error → FileFault
  | .noFileOrDirectory .. => .missing
  | .inappropriateType _ code _ => if code = 21 || -code = 21 then .isDirectory else .notDirectory
  | e@(.invalidArgument _ code _) =>
    if code = 36 || -code = 36 then .nameTooLong else .other (toString e)
  | e => .other (toString e)

/-- The text of a file. -/
def readContent (path : String) : BaseIO FileContent := do
  match ← (IO.FS.readFile path).toBaseIO with
  | .ok text => return .ok text
  | .error e => return .error (FileFault.ofError e)

/-- Writes a file, and says why if that fails. -/
def writeContent (path text : String) : BaseIO (Option FileFault) := do
  match ← (IO.FS.writeFile path text).toBaseIO with
  | .ok _ => return none
  | .error e => return some (FileFault.ofError e)

/-- Carries out the invocation that arguments stand for. -/
def runOnFiles (args : List String) : BaseIO Report := do
  match Invocation.parse args with
  | .error refusal => return refusal.report
  | .ok invocation =>
    let config ← invocation.config.mapM readContent
    let data ← readContent invocation.data
    let effect := invocation.carryOut config data
    let unwritten ← match effect.save with
      | some text => writeContent invocation.data text
      | none => pure none
    return effect.report invocation.data unwritten

end ChannelDirectory.CommandLine

/-- Runs the program. -/
def main (args : List String) : IO UInt32 := do
  let report ← ChannelDirectory.CommandLine.runOnFiles args
  IO.print report.output
  IO.eprint report.errors
  return report.exitCode.toUInt32
