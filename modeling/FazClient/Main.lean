import FazClient.Program

/-!
# FazClient.Main

The command-line program: it reads its arguments and the environment, and shows
what `Program.run` reports.  No sockets are linked in, so the service is always
out of reach, and a command that needs it ends with that failure.
-/

namespace FazClient.Main

/-- The variables that the command line looks at, with the values they have. -/
def readEnvironment : IO CommandLine.Environment := do
  let names := CommandLine.Scope.program.options.filterMap CommandLine.Opt.environmentName?
  names.filterMapM fun name => do
    return (← IO.getEnv name).map fun value => (name, value)

/-- A network without a way to any host. -/
def noNetwork : Network Unit := .mute .unreachable []

end FazClient.Main

open FazClient in
/-- Runs the command line, and exits as its report says. -/
def main (args : List String) : IO UInt32 := do
  let report := ((Program.run Main.noNetwork (← Main.readEnvironment) args).run ()).result
  (← IO.getStdout).write ⟨report.stdout.toArray⟩
  if report.exit = 2 then
    IO.eprintln "error: the command line is not understood; try --help"
  if let some failure := report.failure then
    IO.eprintln s!"Error: {failure.message}"
  return report.exit.toUInt32
