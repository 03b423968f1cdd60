/-!
# Why an exchange has no answer

An exchange can fail before anything is sent, on the way, or when the answer is read.
-/

namespace Courier.Http

/-- Why an exchange has no answer. -/
inductive Failure where
  /-- The request cannot be put together. -/
  | unbuildable
  /-- The request for a URL cannot be put together, because URLs of its kind take no requests. -/
  | unsupported (url : String)
  /-- The request to a URL was not answered. -/
  | unanswered (url : String)
  /-- The body of the answer cannot be read. -/
  | unreadable
  deriving DecidableEq, Inhabited

/-- The wording of a failure. -/
def Failure.message : Failure → String
  | .unbuildable => "builder error"
  | .unsupported url => "builder error for url (" ++ url ++ ")"
  | .unanswered url => "error sending request for url (" ++ url ++ ")"
  | .unreadable => "error decoding response body"

end Courier.Http
