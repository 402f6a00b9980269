import FazClient.Calendar
import FazClient.Event
import FazClient.Json

/-!
# FazClient.View

What is shown to the user.  Each kind of view has a table, line by line, and a
JSON value with its fields in a fixed order, of which some are left out.
-/

namespace FazClient

/-! ## Times -/

/-- The first and the last second that has a date here. -/
def Timestamp.firstSecond : Int := -8334601228800

@[inherit_doc Timestamp.firstSecond]
def Timestamp.lastSecond : Int := 8210266876799

/-- The moment a timestamp stands for: its microseconds, or its seconds where the
microseconds are not set. -/
def Timestamp.instant (t : Timestamp) : Instant :=
  if t.useconds = 0 then .ofSeconds t.seconds.toInt else .ofMicros t.useconds.toInt

/-- The text of a timestamp, unless it is out of range. -/
def Timestamp.text? (t : Timestamp) : Option String :=
  let i := t.instant
  if firstSecond ≤ i.seconds ∧ i.seconds ≤ lastSecond then some i.text else none

/-! ## Views -/

/-- The outcome of binding or unbinding one handler; the error is absent if it
succeeded. -/
structure HookOutcome where
  event : EventType
  handler : String
  error : Option String
  deriving DecidableEq

/-- Whether the call succeeded. -/
def HookOutcome.isOk (o : HookOutcome) : Bool := o.error.isNone

/-- A row of a report on handlers. -/
structure HookEntry where
  eventType : Int32
  event : String
  handler : String
  ok : Bool
  error : Option String

/-- The row of an outcome. -/
def HookEntry.of (o : HookOutcome) : HookEntry :=
  ⟨o.event.value, o.event.name, o.handler, o.isOk, o.error⟩

/-- Where a row is asked for, an outcome stands for its own. -/
instance : Coe HookOutcome HookEntry := ⟨HookEntry.of⟩

/-- The rows on binding or unbinding, which `action` names, a handler for every type of
event. -/
structure HookReport where
  action : String
  entries : List HookEntry

/-- The report on outcomes, row by row. -/
def HookReport.of (action : String) (outcomes : List HookOutcome) : HookReport :=
  ⟨action, outcomes.map .of⟩

/-- How many entries failed. -/
def HookReport.failures (r : HookReport) : Nat := r.entries.countP fun e => !e.ok

/-- Whom a user follows and who follows that user. -/
structure ProfileView where
  username : String
  following : List String
  followers : List String

/-- The view of a profile reply. -/
def ProfileView.of (username : String) (reply : ProfileReply) : ProfileView :=
  ⟨username, reply.following, reply.followers⟩

/-- A caw with its ids and its time as text. -/
structure CawView where
  id : String
  username : String
  text : String
  parentId : Option String
  postedAt : Option String

/-- The view of a caw. -/
def CawView.of (c : Caw) : CawView where
  id := Utf8.decodeLossy c.id
  username := c.username
  text := c.text
  parentId := c.parentId.map Utf8.decodeLossy
  postedAt := c.timestamp.bind Timestamp.text?

/-- The caws of a thread, and the id it was read from. -/
structure ThreadView where
  root : String
  caws : List CawView

/-- The view of the caws of a thread. -/
def ThreadView.of (root : String) (caws : List Caw) : ThreadView := ⟨root, caws.map CawView.of⟩

/-- A line for the user. -/
structure Notice where
  message : String
  success : Bool

/-- All kinds of view. -/
inductive View where
  | hooks (v : HookReport)
  | profile (v : ProfileView)
  | caw (v : CawView)
  | thread (v : ThreadView)
  | notice (v : Notice)

/-! ## Tables -/

/-- Text with blanks after it, up to a width. -/
def padRight (width : Nat) (s : String) : String := s.pushn ' ' (width - s.length)

/-- A line of the hook table. -/
def hookRow (eventType event handler status : String) : List String :=
  [padRight 6 eventType, " ", padRight 15 event, " ", padRight 14 handler, " ", status, "\n"]

namespace HookReport

/-- What the hook table says of an entry. -/
def status (action : String) (entry : HookEntry) : String :=
  match entry.error with
  | none => action ++ "ed"
  | some e => "failed: " ++ e

def table (r : HookReport) : List String :=
  hookRow "TYPE" "EVENT" "HANDLER" "STATUS"
    ++ r.entries.flatMap fun entry =>
      hookRow (toString entry.eventType) entry.event entry.handler (status r.action entry)

end HookReport

namespace ProfileView

/-- A line with a list of names. -/
def nameRow (label : String) (names : List String) : List String :=
  ["  ", label, " (size=", toString names.length, "): ", ", ".intercalate names, "\n"]

def table (p : ProfileView) : List String :=
  ["Profile of ", p.username, "\n"] ++ nameRow "following" p.following
    ++ nameRow "followers" p.followers

end ProfileView

namespace CawView

def table (c : CawView) : List String :=
  ["Caw ", c.id, " by ", c.username, "\n"]
    ++ c.postedAt.toList.flatMap (fun t => ["  posted:   ", t, "\n"])
    ++ c.parentId.toList.flatMap (fun p => ["  reply to: ", p, "\n"])
    ++ ["  ", c.text, "\n"]

end CawView

namespace ThreadView

def table (t : ThreadView) : List String :=
  ["Thread ", t.root, " (", toString t.caws.length, " caws)\n", "".pushn '═' 34, "\n"]
    ++ t.caws.flatMap CawView.table

end ThreadView

namespace Notice

def table (m : Notice) : List String :=
  if m.success then ["✓ ", m.message, "\n"] else [m.message, "\n"]

end Notice

/-- The pieces of a view as a table. -/
def View.table : View → List String
  | .hooks v => v.table
  | .profile v => v.table
  | .caw v => v.table
  | .thread v => v.table
  | .notice v => v.table

/-! ## JSON -/

/-- A member that is left out when there is no value. -/
def optionalMember (key : String) (value : Option String) : List (String × Json) :=
  value.toList.map fun v => (key, .string v)

namespace HookReport

/-- An entry as JSON. -/
def entryJson (entry : HookEntry) : Json :=
  .object <|
    [("event_type", .int entry.eventType.toInt), ("event", .string entry.event),
      ("handler", .string entry.handler), ("ok", .bool entry.ok)]
      ++ optionalMember "error" entry.error

def json (r : HookReport) : Json :=
  .object [("action", .string r.action), ("entries", .list (r.entries.map entryJson))]

end HookReport

namespace ProfileView

def json (p : ProfileView) : Json :=
  .object
    [("username", .string p.username), ("following", .list (p.following.map .string)),
      ("followers", .list (p.followers.map .string))]

end ProfileView

namespace CawView

def json (c : CawView) : Json :=
  .object <|
    [("id", .string c.id), ("username", .string c.username), ("text", .string c.text)]
      ++ optionalMember "parent_id" c.parentId ++ optionalMember "posted_at" c.postedAt

end CawView

namespace ThreadView

def json (t : ThreadView) : Json :=
  .object [("root", .string t.root), ("caws", .list (t.caws.map CawView.json))]

end ThreadView

namespace Notice

def json (m : Notice) : Json :=
  .object <| ("message", .string m.message) :: if m.success then [("success", .bool true)] else []

end Notice

/-- A view as JSON. -/
def View.json : View → Json
  | .hooks v => v.json
  | .profile v => v.json
  | .caw v => v.json
  | .thread v => v.json
  | .notice v => v.json

end FazClient
