import FazClient.Error
import FazClient.Message

/-!
# FazClient.Payload

Messages behind a tag.  `pack` puts the full name of the schema in front of the
bytes and refuses what is larger than `Payload.limit`; `unpack` reads the bytes
only if the tag names the schema asked for.
-/

namespace FazClient

open Wire

namespace Payload

/-- The most bytes a packed message may have: 4 MiB. -/
def limit : Nat := 4 * 1024 * 1024

/-- The tag of a schema. -/
def typeUrl (s : PayloadSchema) : String := "type.googleapis.com/" ++ s.fullName

/-- The schema name in a tag: what follows the last slash. -/
def typeName? (url : String) : Option String :=
  if '/' ∈ url.toList then
    some (String.ofList (url.toList.reverse.takeWhile (· ≠ '/')).reverse)
  else
    none

/-- Packs a message. -/
def pack (s : PayloadSchema) (m : s.Message) : Except CodecError Any :=
  let n := size (.payload s) m
  if limit < n then
    .error (.encoding s!"{s.fullName} is {n} bytes, limit is {limit}")
  else
    .ok ⟨typeUrl s, encode (.payload s) m⟩

/-- Unpacks a message of this schema. -/
def unpack (s : PayloadSchema) (a : Any) : Except CodecError s.Message :=
  if typeName? a.typeUrl = some s.fullName then
    (decode (.payload s) a.value).mapError fun e => .decoding e.message
  else
    .error (.typeMismatch s.fullName a.typeUrl)

end Payload

end FazClient
