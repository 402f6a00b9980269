/-!
# FazClient.Json

JSON values and their indented text.  The members of an object keep their
order; strings escape what has to be escaped and nothing else.

The text comes in pieces, which only matters to a writer that fails on the way:
`Json.chunks` are the pieces, `Json.text` is the whole.
-/

namespace FazClient

/-- A JSON value, its numbers being integers. -/
inductive Json where
  | bool (b : Bool)
  | int (n : Int)
  | string (s : String)
  | list (items : List Json)
  | object (members : List (String × Json))

namespace Json

/-! ## Strings -/

/-- The digit of a number below 16. -/
def hexDigit (n : Nat) : Char := Char.ofNat (if n < 10 then n + 48 else n + 87)

/-- A character within quotes.  Controls without an escape of their own are below
U+0020, so two of the four digits are always zero. -/
def escapeChar (c : Char) : String :=
  if c = '"' then "\\\""
  else if c = '\\' then "\\\\"
  else if c = '\x08' then "\\b"
  else if c = '\x0c' then "\\f"
  else if c = '\n' then "\\n"
  else if c = '\r' then "\\r"
  else if c = '\t' then "\\t"
  else if c.toNat < 0x20 then
    (("\\u00".push (hexDigit (c.toNat / 16))).push (hexDigit (c.toNat % 16)))
  else c.toString

/-- A string within quotes. -/
def escape (s : String) : String := s.toList.foldl (fun text c => text ++ escapeChar c) ""

/-- The pieces of a string. -/
def quoted (s : String) : List String := ["\"", escape s, "\""]

/-! ## Values -/

/-- A new line, two blanks in for each level. -/
def newline (level : Nat) : String := "\n" ++ "".pushn ' ' (2 * level)

mutual

/-- The pieces of a value that stands at this level. -/
def chunks (level : Nat) : Json → List String
  | .bool b => [if b then "true" else "false"]
  | .int n => [toString n]
  | .string s => quoted s
  | .list [] => ["[]"]
  | .list (v :: vs) =>
    "[" :: newline (level + 1) :: v.chunks (level + 1) ++ itemChunks (level + 1) vs
      ++ [newline level, "]"]
  | .object [] => ["\x7b\x7d"]
  | .object (m :: ms) =>
    "\x7b" :: newline (level + 1) :: memberChunks (level + 1) m ++ memberListChunks (level + 1) ms
      ++ [newline level, "\x7d"]
termination_by structural v => v

/-- The pieces of the items after the first one. -/
def itemChunks (level : Nat) : List Json → List String
  | [] => []
  | v :: vs => "," :: newline level :: v.chunks level ++ itemChunks level vs
termination_by structural vs => vs

/-- The pieces of a member. -/
def memberChunks (level : Nat) : String × Json → List String
  | (k, v) => quoted k ++ ": " :: v.chunks level
termination_by structural m => m

/-- The pieces of the members after the first one. -/
def memberListChunks (level : Nat) : List (String × Json) → List String
  | [] => []
  | m :: ms => "," :: newline level :: memberChunks level m ++ memberListChunks level ms
termination_by structural ms => ms

end

/-- The text of a value. -/
def text (v : Json) : String := String.join (v.chunks 0)

end Json

end FazClient
