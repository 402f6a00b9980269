import FazClient.Upgrade.Response

/-!
# FazClient.Upgrade

Why a response to an upgrade request makes no connection.  A connection needs the
digest of a key that is drawn for each request, so a response that was fixed
beforehand never makes one.
-/

namespace FazClient.Upgrade

/-- The common phrases for statuses. -/
def phrases : List (Nat × String) :=
  [(100, "Continue"), (101, "Switching Protocols"), (102, "Processing"), (200, "OK"),
    (201, "Created"), (202, "Accepted"), (203, "Non Authoritative Information"),
    (204, "No Content"), (205, "Reset Content"), (206, "Partial Content"),
    (207, "Multi-Status"), (208, "Already Reported"), (226, "IM Used"),
    (300, "Multiple Choices"), (301, "Moved Permanently"), (302, "Found"), (303, "See Other"),
    (304, "Not Modified"), (305, "Use Proxy"), (307, "Temporary Redirect"),
    (308, "Permanent Redirect"), (400, "Bad Request"), (401, "Unauthorized"),
    (402, "Payment Required"), (403, "Forbidden"), (404, "Not Found"),
    (405, "Method Not Allowed"), (406, "Not Acceptable"), (407, "Proxy Authentication Required"),
    (408, "Request Timeout"), (409, "Conflict"), (410, "Gone"), (411, "Length Required"),
    (412, "Precondition Failed"), (413, "Payload Too Large"), (414, "URI Too Long"),
    (415, "Unsupported Media Type"), (416, "Range Not Satisfiable"), (417, "Expectation Failed"),
    (418, "I'm a teapot"), (421, "Misdirected Request"), (422, "Unprocessable Entity"),
    (423, "Locked"), (424, "Failed Dependency"), (425, "Too Early"), (426, "Upgrade Required"),
    (428, "Precondition Required"), (429, "Too Many Requests"),
    (431, "Request Header Fields Too Large"), (451, "Unavailable For Legal Reasons"),
    (500, "Internal Server Error"), (501, "Not Implemented"), (502, "Bad Gateway"),
    (503, "Service Unavailable"), (504, "Gateway Timeout"), (505, "HTTP Version Not Supported"),
    (506, "Variant Also Negotiates"), (507, "Insufficient Storage"), (508, "Loop Detected"),
    (510, "Not Extended"), (511, "Network Authentication Required")]

/-- The common phrase for a status. -/
def phrase (status : Nat) : String := (phrases.lookup status).getD "<unknown status code>"

/-- The description of a fault in the head of a response. -/
def Fault.message : Fault → String
  | .incomplete => "WebSocket protocol error: Handshake not finished"
  | .version => "WebSocket protocol error: httparse error: invalid HTTP version"
  | .status => "WebSocket protocol error: httparse error: invalid response status"
  | .newLine => "WebSocket protocol error: httparse error: invalid new line"
  | .headerName => "WebSocket protocol error: httparse error: invalid header name"
  | .headerValue => "WebSocket protocol error: httparse error: invalid header value"
  | .tooManyHeaders => "Space limit exceeded: Too many headers"
  | .tooLong => "Attack attempt detected"

/-- Why a response that could be read does not make a connection. -/
def Response.refusal (r : Response) : String :=
  if r.minor = 0 then "WebSocket protocol error: HTTP version must be 1.1 or higher"
  else if r.status < 100 then "HTTP format error: invalid status code"
  else if r.status ≠ 101 then s!"HTTP error: {r.status} {phrase r.status}"
  else if !r.hasHeader "upgrade" "websocket" then
    "WebSocket protocol error: No \"Upgrade: websocket\" header"
  else if !r.hasHeader "connection" "upgrade" then
    "WebSocket protocol error: No \"Connection: upgrade\" header"
  else
    "WebSocket protocol error: Key mismatch in \"Sec-WebSocket-Accept\" header"

/-- Why these bytes do not make a connection. -/
def refusal (bytes : List UInt8) : String :=
  match Response.read bytes with
  | .error f => f.message
  | .ok r => r.refusal

end FazClient.Upgrade
