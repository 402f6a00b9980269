import FazClient.Event
import FazClient.Payload
import FazClient.Service
import FazClient.View

/-!
# FazClient.Client

The operations of a client.  Two of them bind and unbind the handlers of all
types of event; the others send one event each.

A failed operation says so in its result, and the reason is in the log.
-/

namespace FazClient

open Session

/-- A client of a service, with the time in milliseconds it waits for an
answer. -/
structure Client (σ : Type) where
  service : Service σ
  deadline : Nat := 10000

/-! ## Binding handlers -/

/-- Whether the handlers are to be bound or unbound. -/
inductive HookAction where
  | hook
  | unhook
  deriving DecidableEq

namespace HookAction

/-- The word for the action. -/
def verb : HookAction → String
  | hook => "hook"
  | unhook => "unhook"

/-- The method that is called for every handler. -/
def method : HookAction → Method
  | hook => .hook
  | unhook => .unhook

/-- The request about a handler. -/
def request : (a : HookAction) → EventType → (handler : String) → a.method.Request
  | hook, e, handler => HookRequest.of e handler
  | unhook, e, _ => UnhookRequest.of e

/-- The log text of a success. -/
def doneText : HookAction → String
  | hook => "Hooked handler"
  | unhook => "Unhooked handler"

/-- The log text of a failure. -/
def failedText : HookAction → String
  | hook => "Failed to hook handler"
  | unhook => "Failed to unhook handler"

end HookAction

namespace Client

/-- Binds or unbinds the handler of one type of event. -/
def driveOne (c : Client σ) (a : HookAction) (e : EventType) (handler : String) :
    Session σ HookOutcome := do
  match ← c.service.callWithin c.deadline a.verb a.method (a.request e handler) with
  | .ok _ =>
    log .info a.doneText [("event", e.name), ("handler", handler)]
    return ⟨e, handler, none⟩
  | .error f =>
    log .warn a.failedText [("event", e.name), ("handler", handler), ("error", f.message)]
    return ⟨e, handler, some f.message⟩

/-- Binds or unbinds the handlers of these types, one after the other.  A failure
does not keep the others from being tried. -/
def driveAll (c : Client σ) (a : HookAction) :
    List (EventType × String) → Session σ (List HookOutcome)
  | [] => return []
  | (e, handler) :: rest => do
    let outcome ← c.driveOne a e handler
    let outcomes ← c.driveAll a rest
    return outcome :: outcomes

/-- Binds or unbinds the handlers of all types, with one outcome for each. -/
def driveReport (c : Client σ) (a : HookAction) : Session σ (List HookOutcome) :=
  c.driveAll a registry

/-- Binds or unbinds the handlers of all types; whether that succeeded for all. -/
def drive (c : Client σ) (a : HookAction) : Session σ Bool := do
  return (← c.driveReport a).all HookOutcome.isOk

/-! ## Events -/

/-- Sends a request as an event of its type.  A reply without a payload is no
failure here. -/
def invoke (c : Client σ) (e : EventType) (request : e.Request) :
    Session σ (Except Failure (Option e.Reply)) := do
  match Payload.pack e.request request with
  | .error f => return .error (.encode f)
  | .ok payload =>
    log .trace "Sending event" [("event", e.name)]
    match ← c.service.callWithin c.deadline e.name .event ⟨e.value, some payload⟩ with
    | .error f => return .error f
    | .ok ⟨none⟩ =>
      log .debug "Reply carried no payload" [("event", e.name)]
      return .ok none
    | .ok ⟨some payload⟩ =>
      match Payload.unpack e.reply payload with
      | .error f => return .error (.decode f)
      | .ok reply => return .ok (some reply)

/-- Logs why an event failed. -/
def reportFailure (e : EventType) (f : Failure) : Session σ Unit :=
  log .warn "Event failed" [("event", e.name), ("error", f.message)]

/-- Sends an event whose reply need not say anything; whether it succeeded. -/
def acknowledge (c : Client σ) (e : EventType) (request : e.Request) : Session σ Bool := do
  match ← c.invoke e request with
  | .ok _ => return true
  | .error f =>
    reportFailure e f
    return false

/-- Sends an event whose reply must carry a payload. -/
def fetch (c : Client σ) (e : EventType) (request : e.Request) : Session σ (Option e.Reply) := do
  match ← c.invoke e request with
  | .ok (some reply) => return some reply
  | .ok none =>
    log .warn "Reply carried no payload" [("event", e.name)]
    return none
  | .error f =>
    reportFailure e f
    return none

/-! ## Operations -/

/-- Creates an account. -/
def registerUser (c : Client σ) (username : String) : Session σ Bool := do
  let ok ← c.acknowledge .registerUser (RegisterUserRequest.mk username)
  if ok then
    log .info "Registered user" [("username", username)]
  return ok

/-- Makes one user follow another. -/
def follow (c : Client σ) (username toFollow : String) : Session σ Bool := do
  let ok ← c.acknowledge .follow (FollowRequest.mk username toFollow)
  if ok then
    log .info "Followed user" [("username", username), ("to_follow", toFollow)]
  return ok

/-- Asks whom a user follows and who follows that user. -/
def profile (c : Client σ) (username : String) : Session σ (Option ProfileReply) :=
  c.fetch .profile (ProfileRequest.mk username)

/-- Posts a caw, in reply to another unless the parent is empty.  The result is
the caw as the service keeps it. -/
def post (c : Client σ) (username text parent : String) : Session σ (Option Caw) := do
  match ← c.fetch .post (CawRequest.of username text parent) with
  | none => return none
  | some reply =>
    if reply.caw.isNone then
      log .warn "Reply carried no caw" [("event", EventType.post.name)]
    return reply.caw

/-- Reads the thread of a caw. -/
def read (c : Client σ) (cawId : String) : Session σ (Option (List Caw)) := do
  return (← c.fetch .read (ReadRequest.mk (Utf8.encode cawId))).map ReadReply.caws

end Client

end FazClient
