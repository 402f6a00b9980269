/-!
# FazClient.Error

What can go wrong: `CodecError` when bytes and messages are turned into one
another, `Failure` when the program talks to the service.
-/

namespace FazClient

/-- A message that could not be encoded, decoded or understood. -/
inductive CodecError where
  | encoding (text : String)
  | decoding (text : String)
  /-- A payload is tagged as something else than what was asked for. -/
  | typeMismatch (expected actual : String)
  | unknownEventType (value : Int32)
  /-- A frame is of a version that is not understood yet. -/
  | unsupportedVersion (found supported : UInt32)
  deriving DecidableEq

/-- The text of the error. -/
def CodecError.message : CodecError → String
  | .encoding text => s!"encoding error: {text}"
  | .decoding text => s!"decoding error: {text}"
  | .typeMismatch expected actual => s!"payload type mismatch: expected {expected}, got {actual}"
  | .unknownEventType value => s!"unknown event type: {value}"
  | .unsupportedVersion found supported =>
    s!"unsupported wire version: {found} (max supported: {supported})"

/-- An action that did not succeed. -/
inductive Failure where
  /-- The connection could not be made or is lost. -/
  | connection (text : String)
  | config (text : String)
  | timeout (text : String)
  /-- The service sent what is no reply. -/
  | protocol (text : String)
  /-- The service refused the call. -/
  | remote (code : Int32) (text : String)
  | encode (error : CodecError)
  | decode (error : CodecError)
  | notLoggedIn (action : String)
  | invalidArgument (text : String)
  /-- A command had no success. -/
  | command (text : String)
  | format (text : String)
  | io (text : String)
  deriving DecidableEq

/-- The text of the failure. -/
def Failure.message : Failure → String
  | .connection text => s!"connection error: {text}"
  | .config text => s!"configuration error: {text}"
  | .timeout text => s!"timeout: {text}"
  | .protocol text => s!"protocol error: {text}"
  | .remote code text => s!"faz error (code {code}): {text}"
  | .encode error => s!"failed to encode request: {error.message}"
  | .decode error => s!"failed to decode reply: {error.message}"
  | .notLoggedIn action => s!"you need to login to {action}"
  | .invalidArgument text => s!"invalid argument: {text}"
  | .command text => s!"command error: {text}"
  | .format text => s!"format error: {text}"
  | .io text => s!"IO error: {text}"

end FazClient
