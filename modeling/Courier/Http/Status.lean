import Courier.Numeric.Decimal

/-!
# Status codes

A status is a number of three digits. Its text is the number and the reason phrase that is
registered for it.
-/

namespace Courier.Http

/-- The status of a response. -/
structure Status where
  /-- The number, from 100 to 999. -/
  code : Nat
  deriving DecidableEq, Inhabited

namespace Status

/-- The registered reason phrases. -/
def reasons : List (Nat × String) :=
  [(100, "Continue"), (101, "Switching Protocols"), (102, "Processing"), (103, "Early Hints"),
   (200, "OK"), (201, "Created"), (202, "Accepted"), (203, "Non Authoritative Information"),
   (204, "No Content"), (205, "Reset Content"), (206, "Partial Content"), (207, "Multi-Status"),
   (208, "Already Reported"), (226, "IM Used"),
   (300, "Multiple Choices"), (301, "Moved Permanently"), (302, "Found"), (303, "See Other"),
   (304, "Not Modified"), (305, "Use Proxy"), (307, "Temporary Redirect"),
   (308, "Permanent Redirect"),
   (400, "Bad Request"), (401, "Unauthorized"), (402, "Payment Required"), (403, "Forbidden"),
   (404, "Not Found"), (405, "Method Not Allowed"), (406, "Not Acceptable"),
   (407, "Proxy Authentication Required"), (408, "Request Timeout"), (409, "Conflict"),
   (410, "Gone"), (411, "Length Required"), (412, "Precondition Failed"),
   (413, "Payload Too Large"), (414, "URI Too Long"), (415, "Unsupported Media Type"),
   (416, "Range Not Satisfiable"), (417, "Expectation Failed"), (418, "I'm a teapot"),
   (421, "Misdirected Request"), (422, "Unprocessable Entity"), (423, "Locked"),
   (424, "Failed Dependency"), (425, "Too Early"), (426, "Upgrade Required"),
   (428, "Precondition Required"), (429, "Too Many Requests"),
   (431, "Request Header Fields Too Large"), (451, "Unavailable For Legal Reasons"),
   (500, "Internal Server Error"), (501, "Not Implemented"), (502, "Bad Gateway"),
   (503, "Service Unavailable"), (504, "Gateway Timeout"), (505, "HTTP Version Not Supported"),
   (506, "Variant Also Negotiates"), (507, "Insufficient Storage"), (508, "Loop Detected"),
   (510, "Not Extended"), (511, "Network Authentication Required")]

/-- The number and the reason phrase. -/
def text (s : Status) : String :=
  Numeric.decimal s.code ++ " " ++ (reasons.lookup s.code).getD "<unknown status code>"

/-- A status of success. -/
def isSuccess (s : Status) : Bool :=
  200 ≤ s.code && s.code < 300

/-- A status that blames the client. -/
def isClientError (s : Status) : Bool :=
  400 ≤ s.code && s.code < 500

/-- A status that blames the server. -/
def isServerError (s : Status) : Bool :=
  500 ≤ s.code && s.code < 600

/-- A status of success does not blame the client. -/
theorem isClientError_eq_false {s : Status} (h : s.isSuccess = true) : s.isClientError = false := by
  simp only [isSuccess, isClientError, Bool.and_eq_true, decide_eq_true_eq, Bool.and_eq_false_iff,
    decide_eq_false_iff_not] at h ⊢
  omega

end Status

end Courier.Http
