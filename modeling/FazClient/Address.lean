import FazClient.Config
import FazClient.Text.Utf8

/-!
# FazClient.Address

Whether the address of a service can be one at all, before any connection: the
characters in it, and the shape of the part that names the host.
-/

namespace FazClient.Address

/-- What is wrong with an address. -/
inductive Fault where
  | empty
  | tooLong
  | invalidCharacter
  | invalidAuthority
  | invalidFormat
  deriving DecidableEq

/-- The description of a fault. -/
def Fault.message : Fault → String
  | .empty => "empty string"
  | .tooLong => "uri too long"
  | .invalidCharacter => "invalid uri character"
  | .invalidAuthority => "invalid authority"
  | .invalidFormat => "invalid format"

/-! ## The host -/

/-- Whether a byte ends the host. -/
def endsAuthority (b : UInt8) : Bool := b = 0x2F || b = 0x3F || b = 0x23

/-- Whether a byte is a letter or a digit. -/
def isAlphanumeric (b : UInt8) : Bool :=
  (0x30 ≤ b && b ≤ 0x39) || (0x41 ≤ b && b ≤ 0x5A) || (0x61 ≤ b && b ≤ 0x7A)

/-- Whether a byte may stand in an address at all, escapes apart. -/
def isUriByte (b : UInt8) : Bool :=
  isAlphanumeric b || (Utf8.encode "!#$&'()*+,-./:;=?@[]_~").contains b

/-- What was seen of a host so far. -/
structure Host where
  colons : Nat := 0
  opened : Bool := false
  closed : Bool := false
  percent : Bool := false
  /-- The last byte was an at sign. -/
  afterAt : Bool := false

/-- Goes on by one byte.  What stands before an at sign, or in brackets, does not
count as colons or escapes of the host itself. -/
def Host.step (h : Host) (b : UInt8) : Except Fault Host :=
  let h := { h with afterAt := false }
  if b = 0x3A then
    if 8 ≤ h.colons then .error .invalidAuthority else .ok { h with colons := h.colons + 1 }
  else if b = 0x5B then
    if h.percent || h.opened then .error .invalidAuthority else .ok { h with opened := true }
  else if b = 0x5D then
    if !h.opened || h.closed then .error .invalidAuthority
    else .ok { h with closed := true, colons := 0, percent := false }
  else if b = 0x40 then .ok { h with afterAt := true, colons := 0, percent := false }
  else if b = 0x25 then .ok { h with percent := true }
  else if isUriByte b then .ok h
  else .error .invalidCharacter

/-- Checks the whole host. -/
def Host.check (bytes : List UInt8) : Except Fault Unit := do
  let h ← bytes.foldlM Host.step {}
  if h.opened != h.closed || 1 < h.colons || h.afterAt || h.percent then
    throw .invalidAuthority

/-! ## Path and query -/

/-- Whether a byte may stand in a path: part of any character beyond ASCII, and of
the visible ones in ASCII every one but the number sign, the angle brackets, the
question mark and the grave accent. -/
def isPathByte (b : UInt8) : Bool :=
  b = 0x21 || b = 0x22 || (0x24 ≤ b && b ≤ 0x3B) || b = 0x3D || (0x40 ≤ b && b ≤ 0x5F)
    || (0x61 ≤ b && b != 0x7F)

/-- Whether a byte may stand in a query: part of any character beyond ASCII, and of
the visible ones in ASCII every one but the double quote, the number sign and the
angle brackets. -/
def isQueryByte (b : UInt8) : Bool :=
  b = 0x21 || (0x24 ≤ b && b ≤ 0x3B) || b = 0x3D || (0x3F ≤ b && b != 0x7F)

/-- Checks path and query; a fragment is not looked at. -/
def checkPath (bytes : List UInt8) : Except Fault Unit :=
  let bytes := bytes.takeWhile (· ≠ 0x23)
  let path := bytes.takeWhile (· ≠ 0x3F)
  let query := (bytes.dropWhile (· ≠ 0x3F)).drop 1
  if path.all isPathByte && query.all isQueryByte then .ok () else .error .invalidCharacter

/-! ## The whole address -/

/-- The most bytes an address may have. -/
def maxLength : Nat := 65534

/-- Checks an address that begins with a known scheme. -/
def check (url : String) : Except Fault Unit := do
  let bytes := Utf8.encode url
  if maxLength < bytes.length then
    throw .tooLong
  let rest := (bytes.dropWhile (· ≠ 0x2F)).drop 2
  if rest = [] then
    throw .empty
  let authority := rest.takeWhile fun b => !endsAuthority b
  Host.check authority
  if authority = [] then
    throw .invalidFormat
  checkPath (rest.drop authority.length)

end FazClient.Address
