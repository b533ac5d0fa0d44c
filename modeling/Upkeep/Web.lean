/-!
# The web

Artifacts can be at an address. A request for one is answered with a status and a body, which may
break off, or not at all.

A server that is at fault, or that is asked too often, may answer differently next time; every
other status but success is its last word.

## Main definitions

* `Web.Reply`.
* `Web.isSuccess`, `Web.mayPass`, `Web.statusText`.
-/

namespace Upkeep.Web

/-- What comes of a request. -/
inductive Reply where
  /-- No answer. -/
  | unanswered (reason : String)
  /-- An answer; its body may break off for a reason. -/
  | answered (status : Nat) (body : ByteArray) (breakOff : Option String)

/-- Whether a location is an address. -/
def isAddress (location : String) : Bool :=
  location.startsWith "http://" || location.startsWith "https://"

/-- Whether a status means success. -/
def isSuccess (status : Nat) : Bool := 200 ≤ status && status < 300

/-- Whether another request may be answered differently. -/
def mayPass (status : Nat) : Bool := (500 ≤ status && status < 600) || status == 429

/-- The standard reason phrases. -/
def phrases : List (Nat × String) :=
  [(100, "Continue"), (101, "Switching Protocols"), (102, "Processing"),
    (200, "OK"), (201, "Created"), (202, "Accepted"), (203, "Non Authoritative Information"),
    (204, "No Content"), (205, "Reset Content"), (206, "Partial Content"), (207, "Multi-Status"),
    (208, "Already Reported"), (226, "IM Used"),
    (300, "Multiple Choices"), (301, "Moved Permanently"), (302, "Found"), (303, "See Other"),
    (304, "Not Modified"), (305, "Use Proxy"), (307, "Temporary Redirect"),
    (308, "Permanent Redirect"),
    (400, "Bad Request"), (401, "Unauthorized"), (402, "Payment Required"), (403, "Forbidden"),
    (404, "Not Found"), (405, "Method Not Allowed"), (406, "Not Acceptable"),
    (407, "Proxy Authentication Required"), (408, "Request Timeout"), (409, "Conflict"),
    (410, "Gone"), (411, "Length Required"), (412, "Precondition Failed"),
    (413, "Payload Too Large"), (414, "URI Too Long"), (415, "Unsupported Media Type"),
    (416, "Range Not Satisfiable"), (417, "Expectation Failed"), (418, "I'm a teapot"),
    (421, "Misdirected Request"), (422, "Unprocessable Entity"), (423, "Locked"),
    (424, "Failed Dependency"), (426, "Upgrade Required"), (428, "Precondition Required"),
    (429, "Too Many Requests"), (431, "Request Header Fields Too Large"),
    (451, "Unavailable For Legal Reasons"),
    (500, "Internal Server Error"), (501, "Not Implemented"), (502, "Bad Gateway"),
    (503, "Service Unavailable"), (504, "Gateway Timeout"), (505, "HTTP Version Not Supported"),
    (506, "Variant Also Negotiates"), (507, "Insufficient Storage"), (508, "Loop Detected"),
    (510, "Not Extended"), (511, "Network Authentication Required")]

/-- A status for messages: its number and its standard phrase. -/
def statusText (status : Nat) : String :=
  toString status ++ " " ++ (phrases.lookup status).getD "<unknown status code>"

/-- Why a request for an address is not answered when no connection to the server comes about. -/
def noConnection (address cause : String) : String :=
  "error sending request for url (" ++ address ++ "): error trying to connect: " ++
    "tcp connect error: " ++ cause

/-- What the system says when there is no way to the server. -/
def networkUnreachable : String := "Network is unreachable (os error 101)"

end Upkeep.Web
