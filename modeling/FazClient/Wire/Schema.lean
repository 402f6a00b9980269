/-!
# FazClient.Wire.Schema

The messages of the protocol, as data: every schema has a name and a list of
fields, and the place of a field in that list is its number, from 1.

Twelve schemas describe what users exchange; these may travel as a payload and
then carry their full name with them.  The others are the records of the event
service and the frame around them.
-/

namespace FazClient.Wire

/-! ## Wire types -/

/-- How the bytes after a field key are laid out. -/
inductive WireType where
  | varint
  | fixed64
  | delimited
  | startGroup
  | endGroup
  | fixed32
  deriving DecidableEq

namespace WireType

/-- The three bits that stand for the wire type in a field key. -/
def code : WireType → Nat
  | varint => 0
  | fixed64 => 1
  | delimited => 2
  | startGroup => 3
  | endGroup => 4
  | fixed32 => 5

/-- The wire type with this code; 6 and 7 are none. -/
def ofCode? : Nat → Option WireType
  | 0 => some varint
  | 1 => some fixed64
  | 2 => some delimited
  | 3 => some startGroup
  | 4 => some endGroup
  | 5 => some fixed32
  | _ => none

@[simp] theorem ofCode?_code (w : WireType) : ofCode? w.code = some w := by
  cases w <;> rfl

theorem ofCode?_eq_some_iff {n : Nat} {w : WireType} : ofCode? n = some w ↔ w.code = n := by
  constructor
  · intro h
    unfold ofCode? at h
    split at h <;> cases h <;> rfl
  · rintro rfl
    exact ofCode?_code w

theorem code_lt (w : WireType) : w.code < 8 := by
  cases w <;> decide

/-- The name of the wire type in an error text. -/
def name : WireType → String
  | varint => "Varint"
  | fixed64 => "SixtyFourBit"
  | delimited => "LengthDelimited"
  | startGroup => "StartGroup"
  | endGroup => "EndGroup"
  | fixed32 => "ThirtyTwoBit"

end WireType

/-! ## Schemas -/

/-- The schemas that a payload may hold. -/
inductive PayloadSchema where
  | timestamp
  | caw
  | registerUserRequest
  | registerUserReply
  | followRequest
  | followReply
  | profileRequest
  | profileReply
  | cawRequest
  | cawReply
  | readRequest
  | readReply
  deriving DecidableEq

namespace PayloadSchema

/-- All of them, in the order of their declaration. -/
def all : List PayloadSchema :=
  [timestamp, caw, registerUserRequest, registerUserReply, followRequest, followReply,
    profileRequest, profileReply, cawRequest, cawReply, readRequest, readReply]

theorem mem_all (s : PayloadSchema) : s ∈ all := by
  cases s <;> decide

/-- The name of the schema in its package. -/
def name : PayloadSchema → String
  | timestamp => "Timestamp"
  | caw => "Caw"
  | registerUserRequest => "RegisteruserRequest"
  | registerUserReply => "RegisteruserReply"
  | followRequest => "FollowRequest"
  | followReply => "FollowReply"
  | profileRequest => "ProfileRequest"
  | profileReply => "ProfileReply"
  | cawRequest => "CawRequest"
  | cawReply => "CawReply"
  | readRequest => "ReadRequest"
  | readReply => "ReadReply"

/-- The name of the schema with its package. -/
def fullName (s : PayloadSchema) : String := "caw." ++ s.name

end PayloadSchema

/-- All schemas: those a payload may hold, the payload itself, the requests and
replies of the service, and the frame that carries one of them. -/
inductive Schema where
  | payload (s : PayloadSchema)
  | any
  | hookRequest
  | hookReply
  | unhookRequest
  | unhookReply
  | eventRequest
  | eventReply
  | frame
  deriving DecidableEq

/-- What the value of a field looks like on the wire. -/
inductive Shape where
  | word
  | text
  | bytes
  | message (s : Schema)
  deriving DecidableEq

/-- A field of a schema. -/
structure Field where
  name : String
  shape : Shape
  deriving DecidableEq

namespace Schema

/-- The name of the schema in an error text. -/
def name : Schema → String
  | payload s => s.name
  | any => "Any"
  | hookRequest => "HookRequest"
  | hookReply => "HookReply"
  | unhookRequest => "UnhookRequest"
  | unhookReply => "UnhookReply"
  | eventRequest => "EventRequest"
  | eventReply => "EventReply"
  | frame => "FazFrame"

/-- The fields of a schema, in the order of their numbers. -/
def fields : Schema → List Field
  | payload .timestamp => [⟨"seconds", .word⟩, ⟨"useconds", .word⟩]
  | payload .caw =>
    [⟨"username", .text⟩, ⟨"text", .text⟩, ⟨"id", .bytes⟩, ⟨"parent_id", .bytes⟩,
      ⟨"timestamp", .message (.payload .timestamp)⟩]
  | payload .registerUserRequest => [⟨"username", .text⟩]
  | payload .registerUserReply => []
  | payload .followRequest => [⟨"username", .text⟩, ⟨"to_follow", .text⟩]
  | payload .followReply => []
  | payload .profileRequest => [⟨"username", .text⟩]
  | payload .profileReply => [⟨"following", .text⟩, ⟨"followers", .text⟩]
  | payload .cawRequest => [⟨"username", .text⟩, ⟨"text", .text⟩, ⟨"parent_id", .bytes⟩]
  | payload .cawReply => [⟨"caw", .message (.payload .caw)⟩]
  | payload .readRequest => [⟨"caw_id", .bytes⟩]
  | payload .readReply => [⟨"caws", .message (.payload .caw)⟩]
  | any => [⟨"type_url", .text⟩, ⟨"value", .bytes⟩]
  | hookRequest => [⟨"event_type", .word⟩, ⟨"event_function", .text⟩]
  | hookReply => []
  | unhookRequest => [⟨"event_type", .word⟩]
  | unhookReply => []
  | eventRequest => [⟨"event_type", .word⟩, ⟨"payload", .message .any⟩]
  | eventReply => [⟨"payload", .message .any⟩]
  | frame =>
    [⟨"method", .word⟩, ⟨"call_id", .word⟩, ⟨"body", .bytes⟩, ⟨"status", .word⟩,
      ⟨"message", .text⟩, ⟨"version", .word⟩]

/-- The field with this number. -/
def field? (s : Schema) : (number : Nat) → Option Field
  | 0 => none
  | n + 1 => s.fields[n]?

end Schema

end FazClient.Wire
