import FazClient.Message.App
import FazClient.Message.Service
import FazClient.Wire.Fields
import FazClient.Wire.Scan

/-!
# FazClient.Message

The bytes of every message.  `Schema.Message` gives each schema its type of
messages; `toRecords` and `ofRecords` say how a message is spread over field
records, and with them one `encode` and one `decode` serve all schemas:

* `encode s m` — the canonical bytes of a message, fields in order;
* `size s m` — their number, without writing them (`length_encode`);
* `decode s bytes` — the message that the records in the bytes add up to.
-/

namespace FazClient

open Wire

/-! ## Message types -/

/-- The messages of a schema that a payload may hold. -/
@[reducible] def Wire.PayloadSchema.Message : PayloadSchema → Type
  | .timestamp => Timestamp
  | .caw => Caw
  | .registerUserRequest => RegisterUserRequest
  | .registerUserReply => RegisterUserReply
  | .followRequest => FollowRequest
  | .followReply => FollowReply
  | .profileRequest => ProfileRequest
  | .profileReply => ProfileReply
  | .cawRequest => CawRequest
  | .cawReply => CawReply
  | .readRequest => ReadRequest
  | .readReply => ReadReply

/-- The messages of a schema. -/
@[reducible] def Wire.Schema.Message : Schema → Type
  | .payload s => s.Message
  | .any => Any
  | .hookRequest => HookRequest
  | .hookReply => HookReply
  | .unhookRequest => UnhookRequest
  | .unhookReply => UnhookReply
  | .eventRequest => EventRequest
  | .eventReply => EventReply
  | .frame => Frame

/-! ## Signed and short words

A negative number is written as the 64-bit word with the same sign; a field of
32 bits reads the low half of a word. -/

/-- The word of a signed 32-bit number. -/
def wordOfInt32 (v : Int32) : UInt64 := v.toInt64.toUInt64

/-- The signed 32-bit number in the low half of a word. -/
def int32OfWord (v : UInt64) : Int32 := v.toUInt32.toInt32

@[simp] theorem int32OfWord_wordOfInt32 (v : Int32) : int32OfWord (wordOfInt32 v) = v := by
  apply Int32.toBitVec_inj.1
  show (v.toBitVec.signExtend 64).setWidth 32 = v.toBitVec
  ext i hi
  simp [hi, BitVec.getLsbD_signExtend]
  omega

/-! ## The records of a message -/

namespace Timestamp

def toRecords (m : Timestamp) : List Record :=
  putWord 1 m.seconds.toUInt64 ++ putWord 2 m.useconds.toUInt64

def ofRecords (rs : List Record) : Timestamp where
  seconds := (getWord 1 rs).toInt64
  useconds := (getWord 2 rs).toInt64

end Timestamp

namespace Caw

def toRecords (m : Caw) : List Record :=
  putText 1 m.username ++ putText 2 m.text ++ putBytes 3 m.id ++ putBytes? 4 m.parentId
    ++ putMessage? 5 (m.timestamp.map Timestamp.toRecords)

def ofRecords (rs : List Record) : Caw where
  username := getText 1 rs
  text := getText 2 rs
  id := getBytes 3 rs
  parentId := getBytes? 4 rs
  timestamp := (getMessage? 5 rs).map Timestamp.ofRecords

end Caw

namespace ProfileReply

def toRecords (m : ProfileReply) : List Record :=
  putTexts 1 m.following ++ putTexts 2 m.followers

def ofRecords (rs : List Record) : ProfileReply where
  following := texts 1 rs
  followers := texts 2 rs

end ProfileReply

namespace CawRequest

def toRecords (m : CawRequest) : List Record :=
  putText 1 m.username ++ putText 2 m.text ++ putBytes? 3 m.parentId

def ofRecords (rs : List Record) : CawRequest where
  username := getText 1 rs
  text := getText 2 rs
  parentId := getBytes? 3 rs

end CawRequest

namespace Any

def toRecords (m : Any) : List Record := putText 1 m.typeUrl ++ putBytes 2 m.value

def ofRecords (rs : List Record) : Any where
  typeUrl := getText 1 rs
  value := getBytes 2 rs

end Any

namespace Frame

def toRecords (m : Frame) : List Record :=
  putWord 1 m.method.toUInt64 ++ putWord 2 m.callId ++ putBytes 3 m.body
    ++ putWord 4 (wordOfInt32 m.status) ++ putText 5 m.message ++ putWord 6 m.version.toUInt64

def ofRecords (rs : List Record) : Frame where
  method := (getWord 1 rs).toUInt32
  callId := getWord 2 rs
  body := getBytes 3 rs
  status := int32OfWord (getWord 4 rs)
  message := getText 5 rs
  version := (getWord 6 rs).toUInt32

end Frame

/-- The records of a message that a payload may hold. -/
def Wire.PayloadSchema.toRecords : (s : PayloadSchema) → s.Message → List Record
  | .timestamp, m => Timestamp.toRecords m
  | .caw, m => Caw.toRecords m
  | .registerUserRequest, m => putText 1 (RegisterUserRequest.username m)
  | .registerUserReply, _ => []
  | .followRequest, m =>
    putText 1 (FollowRequest.username m) ++ putText 2 (FollowRequest.toFollow m)
  | .followReply, _ => []
  | .profileRequest, m => putText 1 (ProfileRequest.username m)
  | .profileReply, m => ProfileReply.toRecords m
  | .cawRequest, m => CawRequest.toRecords m
  | .cawReply, m => putMessage? 1 ((CawReply.caw m).map Caw.toRecords)
  | .readRequest, m => putBytes 1 (ReadRequest.cawId m)
  | .readReply, m => putMessages 1 ((ReadReply.caws m).map Caw.toRecords)

/-- The message that a payload may hold, from its records. -/
def Wire.PayloadSchema.ofRecords : (s : PayloadSchema) → List Record → s.Message
  | .timestamp, rs => Timestamp.ofRecords rs
  | .caw, rs => Caw.ofRecords rs
  | .registerUserRequest, rs => RegisterUserRequest.mk (getText 1 rs)
  | .registerUserReply, _ => RegisterUserReply.mk
  | .followRequest, rs => FollowRequest.mk (getText 1 rs) (getText 2 rs)
  | .followReply, _ => FollowReply.mk
  | .profileRequest, rs => ProfileRequest.mk (getText 1 rs)
  | .profileReply, rs => ProfileReply.ofRecords rs
  | .cawRequest, rs => CawRequest.ofRecords rs
  | .cawReply, rs => CawReply.mk ((getMessage? 1 rs).map Caw.ofRecords)
  | .readRequest, rs => ReadRequest.mk (getBytes 1 rs)
  | .readReply, rs => ReadReply.mk ((messages 1 rs).map Caw.ofRecords)

/-- The records of a message, fields in order. -/
def Wire.Schema.toRecords : (s : Schema) → s.Message → List Record
  | .payload s, m => s.toRecords m
  | .any, m => Any.toRecords m
  | .hookRequest, m =>
    putWord 1 (wordOfInt32 (HookRequest.eventType m)) ++ putText 2 (HookRequest.eventFunction m)
  | .hookReply, _ => []
  | .unhookRequest, m => putWord 1 (wordOfInt32 (UnhookRequest.eventType m))
  | .unhookReply, _ => []
  | .eventRequest, m =>
    putWord 1 (wordOfInt32 (EventRequest.eventType m))
      ++ putMessage? 2 ((EventRequest.payload m).map Any.toRecords)
  | .eventReply, m => putMessage? 1 ((EventReply.payload m).map Any.toRecords)
  | .frame, m => Frame.toRecords m

/-- The message that records add up to: of a plain or optional field the last
value counts, the parts of an optional message are taken together, and a repeated
field has an element for each record. -/
def Wire.Schema.ofRecords : (s : Schema) → List Record → s.Message
  | .payload s, rs => s.ofRecords rs
  | .any, rs => Any.ofRecords rs
  | .hookRequest, rs => HookRequest.mk (int32OfWord (getWord 1 rs)) (getText 2 rs)
  | .hookReply, _ => HookReply.mk
  | .unhookRequest, rs => UnhookRequest.mk (int32OfWord (getWord 1 rs))
  | .unhookReply, _ => UnhookReply.mk
  | .eventRequest, rs =>
    EventRequest.mk (int32OfWord (getWord 1 rs)) ((getMessage? 2 rs).map Any.ofRecords)
  | .eventReply, rs => EventReply.mk ((getMessage? 1 rs).map Any.ofRecords)
  | .frame, rs => Frame.ofRecords rs

/-! ## Bytes -/

/-- The canonical bytes of a message. -/
def encode (s : Schema) (m : s.Message) : List UInt8 := encodeAll (s.toRecords m)

/-- The number of bytes that `encode` writes. -/
def size (s : Schema) (m : s.Message) : Nat := sizeAll (s.toRecords m)

theorem length_encode (s : Schema) (m : s.Message) : (encode s m).length = size s m :=
  length_encodeAll _

/-- The message in these bytes. -/
def decode (s : Schema) (bytes : List UInt8) : Except DecodeError s.Message :=
  (scan s bytes).map s.ofRecords

/-- A buffer that is too small for a message. -/
structure BufferTooSmall where
  required : Nat
  capacity : Nat
  deriving DecidableEq

/-- The text of the error. -/
def BufferTooSmall.message (e : BufferTooSmall) : String :=
  "failed to encode Protobuf message; insufficient buffer capacity "
    ++ s!"(required: {e.required}, remaining: {e.capacity})"

/-- The bytes of a message, for a buffer that holds `capacity` bytes. -/
def encodeWithin (capacity : Nat) (s : Schema) (m : s.Message) :
    Except BufferTooSmall (List UInt8) :=
  if capacity < size s m then .error ⟨size s m, capacity⟩ else .ok (encode s m)

end FazClient
