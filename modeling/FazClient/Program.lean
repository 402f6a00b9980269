import FazClient.CommandLine
import FazClient.Outside

/-!
# FazClient.Program

A whole run: the command line is read and checked, one connection is made, one
action carried out over it, and the connection closed, whatever came of the
action.

* `Program.carryOut` — carries a command line out in any world outside;
* `Program.run` — a run of the program over a network.
-/

namespace FazClient

open CommandLine Session

namespace Program

/-! ## Carrying a command line out -/

/-- Closes the connection; a failure to do so is logged and nothing else. -/
def hangUp (w : Outside σ) : Session σ Unit := do
  match ← w.close with
  | .ok () => return ()
  | .error f => log .warn "Failed to close the Faz session" [("error", f.message)]

/-- Carries an action out over a connection that is made for it, and closed again
whatever comes of the action.  The result is that of the action. -/
def conduct [Writer ω] (w : Outside σ) (config : Config) (action : Action) (format : Format)
    (out : ω) : Session σ (Except Failure Unit × ω) := do
  match ← w.connect config.fazUrl config.connectTimeout with
  | .error f => return (.error f, out)
  | .ok () =>
    log .debug "Session opened" [("url", config.fazUrl)]
    let ended ← action.execute ⟨w.service, config.callDeadline⟩ format out
    hangUp w
    return ended

/-- Carries a command line out.  The settings are checked first, then the command,
and only then a connection is made. -/
def carryOut [Writer ω] (w : Outside σ) (parsed : Parsed) (out : ω) :
    Session σ (Except Failure Unit × ω) :=
  match parsed.config with
  | .error f => return (.error f, out)
  | .ok config =>
    match Action.plan parsed.user parsed.command with
    | .error f => return (.error f, out)
    | .ok action => conduct w config action parsed.format out

/-! ## Runs -/

/-- The name and the version of the program. -/
def versionText : String := "caw 0.1.0\n"

/-- What the program is for and how it is called. -/
def usageText : String :=
  String.intercalate "\n"
    ["Caw command-line tool, talking to the platform through Faz", "",
      "Usage: caw [OPTIONS] <COMMAND>", "",
      "Commands:",
      "  hook-all             Hook all Caw functions to the Faz layer",
      "  unhook-all           Unhook all Caw functions from the Faz layer",
      "  register USERNAME    Register the given username",
      "  follow USERNAME      Start following the given username",
      "  profile              Show the logged-in user's following and followers",
      "  caw TEXT [-r ID]     Post a new caw",
      "  read ID              Read the caw thread starting at the given id",
      "  help                 Print this message", "",
      "Options:",
      "  --faz URL                   Faz service URL to connect to",
      "  -u, --user NAME             Log in as the given username",
      "  -f, --format FORMAT         Output format: table, json",
      "  --deadline-secs N           Deadline for each call to Faz, in seconds",
      "  --connect-timeout-secs N    Connection timeout, in seconds",
      "  -h, --help                  Print help",
      "  -V, --version               Print version", ""]

/-- What a run shows: its exit code, its output, and why it failed, if it did. -/
structure Report where
  exit : UInt8
  stdout : List UInt8 := []
  failure : Option Failure := none
  deriving DecidableEq

/-- What a refused command line shows.  A call for help or for the version is no
mistake. -/
def refused : Refusal → Report
  | .help => { exit := 0, stdout := Utf8.encode usageText }
  | .version => { exit := 0, stdout := Utf8.encode versionText }
  | _ => { exit := 2 }

/-- What is shown when a command line was carried out. -/
def ended (result : Except Failure Unit) (stdout : List UInt8) : Report :=
  match result with
  | .ok () => { exit := 0, stdout }
  | .error f => { exit := 1, stdout, failure := some f }

/-- A run of the program with this world outside.  What it shows on its output is
what the writer accepts. -/
def runIn [Writer ω] (w : Outside σ) (env : Environment) (args : List String) (out : ω) :
    Session σ Report := fun s =>
  match parse env args with
  | .error refusal => ⟨refused refusal, s, []⟩
  | .ok parsed =>
    let ran := (carryOut w parsed out).run s
    ⟨ended ran.result.1 (Act.output ran.acts), ran.state, ran.acts⟩

/-- A run of the program over a network. -/
def run (net : Network π) (env : Environment) (args : List String) : Session π Report := fun p =>
  let ran := (runIn net.outside env args Sink.unlimited).run ({}, p)
  ⟨ran.result, ran.state.2, ran.acts⟩

end Program

end FazClient
