import FazClient.Text.Utf8

/-!
# FazClient.Upgrade.Response

The head of a response to an upgrade request: a status line and headers, up to an
empty line.  Lines may end in a line feed alone, and empty lines may come first.

`Response.read` goes over the bytes once and stops at the first fault; a head of
which the end is missing is a fault of its own, `Fault.incomplete`.
-/

namespace FazClient.Upgrade

/-- Why bytes are not the head of a response. -/
inductive Fault where
  /-- Nothing is wrong so far, but there is no end. -/
  | incomplete
  | version
  | status
  | newLine
  | headerName
  | headerValue
  | tooManyHeaders
  /-- There is no end within the bytes that a head may have. -/
  | tooLong
  deriving DecidableEq

/-- A header: its name, and its value without blanks around it. -/
structure Header where
  name : List UInt8
  value : List UInt8
  deriving DecidableEq

/-- The head of a response. -/
structure Response where
  /-- The number after `HTTP/1.` -/
  minor : Nat
  status : Nat
  headers : List Header
  deriving DecidableEq

/-! ## Bytes -/

/-- Whether a byte is a space or a tab. -/
def isBlank (b : UInt8) : Bool := b = 0x20 || b = 0x09

/-- Whether a byte may stand in a phrase or in the value of a header. -/
def isText (b : UInt8) : Bool := b = 0x09 || (0x20 ≤ b && b != 0x7F)

/-- Whether a byte is a decimal digit. -/
def isDigit (b : UInt8) : Bool := 0x30 ≤ b && b ≤ 0x39

/-- Whether a byte may stand in the name of a header. -/
def isNameByte (b : UInt8) : Bool :=
  isDigit b || (0x41 ≤ b && b ≤ 0x5A) || (0x61 ≤ b && b ≤ 0x7A)
    || (Utf8.encode "!#$%&'*+-.^_`|~").contains b

/-- What follows the end of a line, if a line ends here; `fault` is for a carriage
return that no line feed follows. -/
def lineEnd? (fault : Fault) : List UInt8 → Option (Except Fault (List UInt8))
  | 0x0A :: rest => some (.ok rest)
  | 0x0D :: 0x0A :: rest => some (.ok rest)
  | [0x0D] => some (.error .incomplete)
  | 0x0D :: _ => some (.error fault)
  | _ => none

/-- What follows the end of the line that has to end here. -/
def readLineEnd (fault : Fault) (bytes : List UInt8) : Except Fault (List UInt8) :=
  match lineEnd? fault bytes with
  | some end? => end?
  | none => .error (if bytes = [] then .incomplete else fault)

/-! ## The status line -/

/-- What follows the empty lines in front. -/
def skipEmptyLines : List UInt8 → Except Fault (List UInt8)
  | 0x0A :: rest => skipEmptyLines rest
  | 0x0D :: 0x0A :: rest => skipEmptyLines rest
  | [0x0D] => .error .incomplete
  | 0x0D :: _ => .error .newLine
  | bytes => .ok bytes

/-- Reads `HTTP/1.0` or `HTTP/1.1` and the blank behind it. -/
def readVersion (bytes : List UInt8) : Except Fault (Nat × List UInt8) :=
  let common := Utf8.encode "HTTP/1."
  if bytes.length ≤ common.length then
    .error (if bytes.isPrefixOf common then .incomplete else .version)
  else
    let minor? : Option Nat :=
      if !common.isPrefixOf bytes then none
      else if bytes[common.length]? = some 0x30 then some 0
      else if bytes[common.length]? = some 0x31 then some 1
      else none
    match minor?, bytes.drop (common.length + 1) with
    | none, _ => .error .version
    | some _, [] => .error .incomplete
    | some minor, b :: rest => if b = 0x20 then .ok (minor, rest) else .error .version

/-- Reads so many digits, in front of which a number was read. -/
def readDigits : (count : Nat) → (front : Nat) → List UInt8 → Except Fault (Nat × List UInt8)
  | 0, n, bytes => .ok (n, bytes)
  | _ + 1, _, [] => .error .incomplete
  | count + 1, n, b :: rest =>
    if isDigit b then readDigits count (10 * n + (b.toNat - 0x30)) rest else .error .status

/-- Reads what stands behind the status: nothing, or a blank and a phrase. -/
def readPhrase : List UInt8 → Except Fault (List UInt8)
  | 0x20 :: rest => readLineEnd .status (rest.dropWhile isText)
  | bytes => readLineEnd .status bytes

/-! ## Headers -/

/-- The value without the blanks at its end. -/
def trimEnd (value : List UInt8) : List UInt8 := (value.reverse.dropWhile isBlank).reverse

/-- Reads one header. -/
def readHeader (bytes : List UInt8) : Except Fault (Header × List UInt8) :=
  let name := bytes.takeWhile isNameByte
  match bytes.dropWhile isNameByte with
  | [] => .error .incomplete
  | b :: rest =>
    if name = [] || b != 0x3A then .error .headerName
    else
      let rest := rest.dropWhile isBlank
      let value := trimEnd (rest.takeWhile isText)
      (readLineEnd .headerValue (rest.dropWhile isText)).map fun rest => (⟨name, value⟩, rest)

/-- Reads headers up to an empty line; there may be at most `room`. -/
def readHeaders (room : Nat) (bytes : List UInt8) : Except Fault (List Header) :=
  match lineEnd? .newLine bytes with
  | some (.error f) => .error f
  | some (.ok _) => .ok []
  | none =>
    match readHeader bytes with
    | .error f => .error f
    | .ok (h, rest) =>
      match room with
      | 0 => .error .tooManyHeaders
      | room + 1 => (readHeaders room rest).map (h :: ·)

/-! ## The whole head -/

namespace Response

/-- The most headers that a response may have. -/
def maxHeaders : Nat := 124

/-- The most bytes that the head may have. -/
def maxSize : Nat := 65536

/-- Reads a head of any size; what follows it is not looked at. -/
def readHead (bytes : List UInt8) : Except Fault Response := do
  let (minor, bytes) ← readVersion (← skipEmptyLines bytes)
  let (status, bytes) ← readDigits 3 0 bytes
  let headers ← readHeaders maxHeaders (← readPhrase bytes)
  return ⟨minor, status, headers⟩

/-- Reads the head of a response, which has to end within `maxSize` bytes. -/
def read (bytes : List UInt8) : Except Fault Response :=
  match readHead (bytes.take maxSize) with
  | .error .incomplete => .error (if maxSize < bytes.length then .tooLong else .incomplete)
  | result => result

/-- A byte with a capital letter made small. -/
def lower (b : UInt8) : UInt8 := if 0x41 ≤ b && b ≤ 0x5A then b + 0x20 else b

/-- Whether the first header of this name has this value, capital letters or not. -/
def hasHeader (r : Response) (name value : String) : Bool :=
  let named := r.headers.find? fun h => h.name.map lower = Utf8.encode name
  (named.map fun h => h.value.map lower) = some (Utf8.encode value)

end Response

end FazClient.Upgrade
