import Courier.Error
import Courier.Http.Exchange
import Courier.Json.Decode
import Courier.Text.Blank

/-!
# What a backend's reply means

A reply is a payload, an error, or a refused bearer, which is no error yet. An error is worth
another try if the backend was busy or broken, or if there was no answer at all. A backend that
wants to be left alone for a while says so in a header, in whole seconds.
-/

namespace Courier.Client

open Courier.Http Courier.Json Courier.Numeric Courier.Text

/-- What a backend answers to a request that it accepts. -/
structure Payload where
  /-- The status. -/
  status : Status
  /-- The text. -/
  body : String
  deriving DecidableEq, Inhabited

/-- The JSON value that is the text of a payload. -/
def Payload.json (p : Payload) : Except Error Value :=
  (parse p.body).mapError .json

/-! ## Being asked to wait -/

/-- The bound of the numbers of seconds that are understood. -/
def secondsBound : Nat := UInt64.size

/-- The number of seconds that some digits stand for; a plus sign may go before them. -/
def seconds? (cs : List Char) : Option Nat :=
  let digits :=
    match cs with
    | '+' :: rest => rest
    | all => all
  if !digits.isEmpty && digits.all Char.isDigit && ofDigits digits < secondsBound then
    some (ofDigits digits)
  else none

/-- For how many seconds a backend wants to be left alone. -/
def retryAfter? (r : Response) : Option Nat := do
  let value ← r.header? "retry-after"
  let text ← Header.text? value
  seconds? (trim text).toList

/-! ## Outcomes -/

/-- What an answer means that does not refuse the bearer. -/
def classify (status : Status) (body : String) (retryAfter : Option Nat) :
    Except Error Payload :=
  if status.isSuccess then .ok ⟨status, body⟩
  else if status.code = 400 ∨ status.code = 422 then .error (.rejected status body)
  else if status.code = 408 ∨ status.code = 429 ∨ status.isServerError then
    .error (.transient ⟨some status, retryAfter, body⟩)
  else .error (.unexpectedStatus status body)

/-- What a reply means. -/
inductive Outcome where
  /-- The request is done with. -/
  | final (r : Except Error Payload)
  /-- The backend does not take the bearer. -/
  | bearerRefused

/-- The status of an answer that refuses the bearer. -/
def bearerRefusedCode : Nat := 401

/-- What a reply means. -/
def Outcome.ofReply : Reply → Outcome
  | .timedOut url => .final (.error (.ofExchange (.unanswered url)))
  | .failed f => .final (.error (.ofExchange f))
  | .answered r =>
    if r.status.code = bearerRefusedCode then .bearerRefused
    else
      match r.text? with
      | some body => .final (classify r.status body (retryAfter? r))
      | none => .final (.error (.ofExchange .unreadable))

end Courier.Client
