import FazClient.Client
import FazClient.Output

/-!
# FazClient.Command

Commands of the user.  `Action.plan` checks what can be checked before there is
a connection; `Action.execute` carries the action out and shows its result.
-/

namespace FazClient

open Session

/-- What the user asks for. -/
inductive Command where
  | hookAll
  | unhookAll
  | register (username : String)
  | follow (username : String)
  | profile
  | caw (text : String) (reply : Option String)
  | read (id : String)
  deriving DecidableEq

/-- A command with all that it needs. -/
inductive Action where
  | hooks (a : HookAction)
  | register (username : String)
  | follow (user toFollow : String)
  | profile (user : String)
  | post (user text : String) (replyTo : Option String)
  | read (cawId : String)
  deriving DecidableEq

/-! ## Planning -/

/-- The user who is logged in; an empty name is none. -/
def loggedIn (user : Option String) (action : String) : Except Failure String :=
  match user.filter (· ≠ "") with
  | some user => .ok user
  | none => .error (.notLoggedIn action)

/-- Plans a command for a user. -/
def Action.plan (user : Option String) : Command → Except Failure Action
  | .hookAll => .ok (.hooks .hook)
  | .unhookAll => .ok (.hooks .unhook)
  | .register username =>
    if username = "" then .error (.invalidArgument "username cannot be empty")
    else .ok (.register username)
  | .follow username =>
    match loggedIn user "follow a user" with
    | .error f => .error f
    | .ok user => .ok (.follow user username)
  | .profile =>
    match loggedIn user "get the user's profile" with
    | .error f => .error f
    | .ok user => .ok (.profile user)
  | .caw text reply =>
    match loggedIn user "post a caw" with
    | .error f => .error f
    | .ok user =>
      if text = "" then
        let what := if reply.isSome then "a reply" else "a caw"
        .error (.invalidArgument s!"you need to give the content to post {what}")
      else
        .ok (.post user text reply)
  | .read id =>
    if id = "" then .error (.invalidArgument "caw id cannot be empty") else .ok (.read id)

/-! ## Execution -/

section

variable [Writer ω]

/-- Shows a view. -/
def present (f : Format) (v : View) (out : ω) : Session σ (Except Failure Unit × ω) :=
  fun state =>
    let written := f.print v out
    ⟨(written.result, written.state), state, [.wrote written.accepted]⟩

/-- Shows the report on the handlers, and then fails if a handler did. -/
def driveHandlers (c : Client σ) (a : HookAction) (f : Format) (out : ω) :
    Session σ (Except Failure Unit × ω) := do
  log .info "Driving all Caw handlers on the Faz layer" [("action", a.verb)]
  let report := HookReport.of a.verb (← c.driveReport a)
  let (result, out) ← present f (.hooks report) out
  match result with
  | .error e => return (.error e, out)
  | .ok () =>
    if report.failures = 0 then
      return (.ok (), out)
    else
      return (.error (.command
        s!"failed to {a.verb} {report.failures} of {report.entries.length} handlers"), out)

/-- Carries an action out and shows its result. -/
def Action.execute (c : Client σ) (f : Format) (out : ω) :
    Action → Session σ (Except Failure Unit × ω)
  | .hooks a => driveHandlers c a f out
  | .register username => do
    if ← c.registerUser username then
      present f (.notice ⟨s!"Registered user {username}", true⟩) out
    else
      return (.error (.command s!"failed to register user {username}"), out)
  | .follow user toFollow => do
    if ← c.follow user toFollow then
      present f (.notice ⟨s!"{user} now follows {toFollow}", true⟩) out
    else
      return (.error (.command s!"failed to follow {toFollow}"), out)
  | .profile user => do
    match ← c.profile user with
    | some reply => present f (.profile (.of user reply)) out
    | none => return (.error (.command s!"failed to fetch the profile of {user}"), out)
  | .post user text replyTo => do
    match ← c.post user text (replyTo.getD "") with
    | some caw => present f (.caw (.of caw)) out
    | none => return (.error (.command "failed to post the caw"), out)
  | .read cawId => do
    match ← c.read cawId with
    | some caws => present f (.thread (.of cawId caws)) out
    | none => return (.error (.command s!"failed to read caw {cawId}"), out)

end

end FazClient
