import Courier.Http.Failure
import Courier.Http.Header
import Courier.Http.Status
import Courier.Http.Url

/-!
# Requests and what comes back

A `Draft` says what is to be sent and where to; only when it is put together does it show whether
there is such a URL and such headers. A `Request` is what the peer gets to see, a `Reply` what comes
of it. The peer is a function from the one to the other, so that whatever is sent can be followed
without a network.
-/

namespace Courier.Http

open Courier.Text

/-! ## Requests -/

/-- What is to be sent. Names of headers are in lower case and can stand in a request. -/
structure Draft where
  /-- Where to. -/
  url : String
  /-- The headers; a name may occur more than once. -/
  headers : List (String × String)
  /-- The body. -/
  body : String
  deriving DecidableEq, Inhabited

/-- A request that is put together; the method is always `POST`. -/
structure Request where
  /-- Where to. -/
  url : Url
  /-- The headers in the order of their names; equal names stay in order. -/
  headers : List (String × String)
  /-- The body. -/
  body : String
  deriving DecidableEq, Inhabited

/-- The headers of a draft and, unless it says what it accepts, that it accepts anything. -/
def Draft.allHeaders (d : Draft) : List (String × String) :=
  if d.headers.any (·.1 == "accept") then d.headers else d.headers ++ [("accept", "*/*")]

/-- Puts a request together. A user named in the URL is left out, and adds no header. -/
def Draft.build (d : Draft) : Except Failure Request :=
  match Url.ofText? d.url with
  | none => .error .unbuildable
  | some url =>
    if url.host = none then .error (.unsupported url.text)
    else if d.headers.any (fun h => !Header.isValue h.2) then .error .unbuildable
    else if !url.isWeb then .error (.unsupported url.text)
    else .ok ⟨url, d.allHeaders.mergeSort fun a b => a.1 ≤ b.1, d.body⟩

/-! ## Replies -/

/-- An answer of a peer. -/
structure Response where
  /-- The status. -/
  status : Status
  /-- The headers with their names in lower case. -/
  headers : List (String × List UInt8)
  /-- The octets of the body, unless it broke off. -/
  body : Option (List UInt8)
  deriving DecidableEq, Inhabited

/-- What comes of a request. -/
inductive Reply where
  /-- An answer. -/
  | answered (r : Response)
  /-- No answer within the time that was given. -/
  | timedOut (url : String)
  /-- No answer at all. -/
  | failed (f : Failure)
  deriving DecidableEq, Inhabited

/-- Somebody who replies to requests. -/
abbrev Peer := Request → Reply

/-- A peer that nothing gets through to. -/
def Peer.unreachable : Peer := fun r =>
  .failed (.unanswered r.url.text)

/-- What comes of a draft: nothing is sent if no request can be put together. -/
def Draft.send (d : Draft) (peer : Peer) : Reply :=
  match d.build with
  | .ok r => peer r
  | .error f => .failed f

namespace Response

/-- The value of the first header of a name. -/
def header? (r : Response) (name : String) : Option (List UInt8) :=
  r.headers.lookup name

/-- The body as a text, without a byte order mark; U+FFFD stands for what is not UTF-8. No header is
asked for another encoding. -/
def text? (r : Response) : Option String :=
  r.body.map fun octets =>
    match (ofOctetsLossy octets).toList with
    | '\ufeff' :: rest => String.ofList rest
    | all => String.ofList all

end Response

end Courier.Http
