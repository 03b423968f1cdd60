import Courier.Auth.Credential
import Courier.Client.UserAgent
import Courier.Error
import Courier.Http.Exchange

/-!
# Clients

A `Client` sends requests to the backend of one profile. The headers that do not change from request
to request are put together when it is made, so a header that cannot be sent shows at once. Headers
of the profile go before computed ones of the same name, whatever the case of their letters; of
those that differ in case only, the last in the order of the profile stays.

The order in which faults show is: what the program calls itself, the user agent, then the headers
of the profile one by one, the name before the value.
-/

namespace Courier

open Courier.Auth Courier.Http

/-- Sends requests to one backend. -/
structure Client where
  /-- The backend. -/
  profile : Profile
  /-- The headers of every request, by names in lower case. -/
  headers : Dict String
  /-- How often a request is tried again. -/
  maxRetries : Nat
  deriving DecidableEq

namespace Client

/-- How often a request is tried again unless the caller says otherwise. -/
def defaultRetries : Nat := 4

/-! ## Headers of every request -/

/-- The name of the header for what the program calls itself. -/
def originatorHeader : String := "originator"

/-- The name of the header for the user agent. -/
def userAgentHeader : String := "user-agent"

/-- A value of a header that can be sent; the name is for the error. -/
def checkedValue (name value : String) : Except Error String :=
  if Header.isValue value then .ok value
  else .error (.invalidHeader name "failed to parse header value")

/-- The headers that are computed from a profile. -/
def computedHeaders (platform : String) (p : Profile) : Except Error (Dict String) := do
  let originator ← checkedValue originatorHeader p.originator
  let agent ← checkedValue userAgentHeader
    (p.userAgent.getD (userAgent platform (some p.originator)))
  let streaming := if p.requiresStreaming then [("accept", "text/event-stream")] else []
  return .ofList ([(originatorHeader, originator), (userAgentHeader, agent)] ++ streaming)

/-- Puts a header of a profile in place of one of the same name. -/
def overrideHeader (headers : Dict String) (h : String × String) : Except Error (Dict String) :=
  match Header.name? h.1 with
  | none => .error (.invalidHeader h.1 "invalid HTTP header name")
  | some name => do return headers.insert name (← checkedValue h.1 h.2)

/-- The headers of every request to a backend. -/
def staticHeaders (platform : String) (p : Profile) : Except Error (Dict String) := do
  p.headers.entries.foldlM overrideHeader (← computedHeaders platform p)

/-- The client of a profile on a platform. -/
def make (platform : String) (p : Profile) (maxRetries : Nat) : Except Error Client := do
  return ⟨p, ← staticHeaders platform p, maxRetries⟩

/-! ## Drafts -/

/-- The headers that say on whose behalf a request is made. -/
def bearerHeaders (b : Bearer) : List (String × String) :=
  [("authorization", "Bearer " ++ b.token), ("content-type", "application/json")]
    ++ (b.accountId.map fun id => ("chatgpt-account-id", id)).toList

/-- What is to be sent: a body, on behalf of somebody, within a session if there is one. -/
def draft (c : Client) (body : String) (session : Option String) (b : Bearer) : Draft :=
  { url := c.profile.endpointUrl
    headers := c.headers.entries ++ bearerHeaders b
      ++ (session.map fun id => ("session_id", id)).toList
    body }

end Client

end Courier
