import Sol25.CommandLine

/-!
The program itself: arguments, the environment and standard input go in, the outcome of the run goes
out.
-/

set_option autoImplicit false
set_option relaxedAutoImplicit false

namespace Sol25

/-- The environment variable that chooses the form of a report. -/
def formatVariable : String := "SOL25_ERROR_FORMAT"

/-- Reads standard input to its end. -/
partial def readInput (input : IO.FS.Stream) (done : ByteArray) : IO ByteArray := do
  let chunk ← input.read 65536
  if chunk.isEmpty then return done else readInput input (done ++ chunk)

end Sol25

def main (arguments : List String) : IO UInt32 := do
  let format := Sol25.Report.Format.ofSetting (← IO.getEnv Sol25.formatVariable)
  let outcome ← match Sol25.CommandLine.beforeInput arguments format with
    | some outcome => pure outcome
    | none => do
      let input ← Sol25.readInput (← IO.getStdin) ByteArray.empty
      pure (Sol25.CommandLine.runOn format input)
  (← IO.getStdout).putStr outcome.output
  (← IO.getStderr).putStr outcome.errors
  return outcome.code.toUInt32
