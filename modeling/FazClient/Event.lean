import FazClient.Error
import FazClient.Message

/-!
# FazClient.Event

The types of event that the service runs handlers for.  Each has a number on the
wire, a name, a schema for its requests and one for its replies, and the name of
the handler that this client binds to it.
-/

namespace FazClient

open Wire

/-- What an event is about. -/
inductive EventType where
  | registerUser
  | follow
  | profile
  | post
  | read
  deriving DecidableEq

namespace EventType

/-- All types of event, in the order of their numbers. -/
def all : List EventType := [registerUser, follow, profile, post, read]

theorem mem_all (e : EventType) : e ∈ all := by
  cases e <;> decide

/-- The number of the type on the wire. -/
def value : EventType → Int32
  | registerUser => 0
  | follow => 1
  | profile => 2
  | post => 3
  | read => 4

/-- The type with this number. -/
def ofValue (v : Int32) : Except CodecError EventType :=
  match all.find? (·.value = v) with
  | some e => .ok e
  | none => .error (.unknownEventType v)

@[simp] theorem ofValue_value (e : EventType) : ofValue e.value = .ok e := by
  cases e <;> rfl

theorem value_injective {d e : EventType} (h : d.value = e.value) : d = e := by
  have := ofValue_value d
  rw [h, ofValue_value] at this
  exact (Except.ok.inj this).symm

/-- The name of the type in reports. -/
def name : EventType → String
  | registerUser => "register_user"
  | follow => "follow"
  | profile => "profile"
  | post => "post"
  | read => "read"

/-- The schema of a request. -/
def request : EventType → PayloadSchema
  | registerUser => .registerUserRequest
  | follow => .followRequest
  | profile => .profileRequest
  | post => .cawRequest
  | read => .readRequest

/-- The schema of a reply. -/
def reply : EventType → PayloadSchema
  | registerUser => .registerUserReply
  | follow => .followReply
  | profile => .profileReply
  | post => .cawReply
  | read => .readReply

/-- The requests of this type. -/
@[reducible] def Request (e : EventType) : Type := e.request.Message

/-- The replies of this type. -/
@[reducible] def Reply (e : EventType) : Type := e.reply.Message

/-- The name of the handler that is bound to the type. -/
def handler : EventType → String
  | registerUser => "RegisterUser"
  | follow => "Follow"
  | profile => "Profile"
  | post => "Caw"
  | read => "Read"

end EventType

/-- The bindings that are made and removed together: every type of event once,
with its handler. -/
def registry : List (EventType × String) := EventType.all.map fun e => (e, e.handler)

namespace HookRequest

/-- Asks to bind a handler to a type of event. -/
def of (e : EventType) (handler : String) : HookRequest := ⟨e.value, handler⟩

end HookRequest

namespace UnhookRequest

/-- Asks to remove the handler of a type of event. -/
def of (e : EventType) : UnhookRequest := ⟨e.value⟩

end UnhookRequest

namespace CawRequest

/-- Asks to post a caw.  An empty parent is no parent. -/
def of (username text parent : String) : CawRequest where
  username := username
  text := text
  parentId := if parent = "" then none else some (Utf8.encode parent)

end CawRequest

end FazClient
