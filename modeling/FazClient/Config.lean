import FazClient.Error

/-!
# FazClient.Config

The settings of a session: the address of the service and two times, in
milliseconds.
-/

namespace FazClient

/-- The settings of a session. -/
structure Config where
  fazUrl : String
  connectTimeout : Nat := 10000
  callDeadline : Nat := 10000
  deriving DecidableEq

namespace Config

/-- The address that is taken when none is given. -/
def defaultUrl : String := "ws://localhost:50000"

/-- The settings that are taken when none are given. -/
def default : Config := ⟨defaultUrl, 10000, 10000⟩

/-- Whether an address names a way to connect that is known here. -/
def knownScheme (url : String) : Bool :=
  "ws://".toList.isPrefixOf url.toList || "wss://".toList.isPrefixOf url.toList

/-- The failure of an address without such a name. -/
def badScheme (url : String) : Failure :=
  .config s!"invalid faz URL: {url}, must start with ws:// or wss://"

/-- Checks the settings, the address first. -/
def validate (c : Config) : Except Failure Config :=
  if !knownScheme c.fazUrl then .error (badScheme c.fazUrl)
  else if c.connectTimeout = 0 then .error (.config "connect timeout must be positive")
  else if c.callDeadline = 0 then .error (.config "call deadline must be positive")
  else .ok c

end Config

end FazClient
