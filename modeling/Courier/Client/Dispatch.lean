import Courier.Client.Backoff
import Courier.Client.Basic
import Courier.Client.Outcome
import Courier.Wire.Request

/-!
# Sending a request

Sending is a conversation with three others: a manager of credentials, a backend and a clock. A
`Dispatch` is the whole of it, with everything that the others might answer, so that what is sent
can be told without them.

* `Client.send` asks for a bearer and sends the request. If the backend does not take the bearer it
  asks for another one and sends the same request once more, and never a third time.
* `Client.sendWithRetry` starts over after a failure that may go away, up to a number of times, and
  waits in between.
-/

namespace Courier.Client

open Courier.Auth Courier.Http

/-! ## Waiting -/

/-- Why to wait before another try. -/
inductive Wait where
  /-- The backend wants to be left alone for some seconds. -/
  | requested (seconds : Nat)
  /-- Some tries have failed. -/
  | backoff (attempt : Nat)
  deriving DecidableEq

/-- The wait after an error of try number `attempt`. -/
def Wait.after (e : Error) (attempt : Nat) : Wait :=
  match e.retryAfter? with
  | some seconds => .requested seconds
  | none => .backoff attempt

/-- How long a wait is, in milliseconds. -/
def Wait.millis (jitter : Rat) : Wait → Nat
  | .requested seconds => min (1000 * seconds) longestWait
  | .backoff attempt => Client.backoff attempt jitter

/-! ## Dispatches -/

/-- What there is to do until there is a result, depending on what the others answer. -/
inductive Dispatch where
  /-- There is a result. -/
  | done (r : Except Error Payload)
  /-- A bearer is asked for. -/
  | bearer (next : Except Auth.Failure Bearer → Dispatch)
  /-- A bearer is asked for in place of one that was refused. -/
  | otherBearer (stale : Bearer) (next : Except Auth.Failure Bearer → Dispatch)
  /-- Something is sent to the backend. -/
  | post (d : Draft) (next : Reply → Dispatch)
  /-- Some time passes. -/
  | wait (w : Wait) (next : Dispatch)

/-- Goes on with the result of a dispatch. -/
def Dispatch.andThen (k : Except Error Payload → Dispatch) : Dispatch → Dispatch
  | .done r => k r
  | .bearer next => .bearer fun r => (next r).andThen k
  | .otherBearer stale next => .otherBearer stale fun r => (next r).andThen k
  | .post d next => .post d fun r => (next r).andThen k
  | .wait w next => .wait w (next.andThen k)

/-- Goes on with a bearer, or ends with the reason why there is none. -/
def withBearer (k : Bearer → Dispatch) : Except Auth.Failure Bearer → Dispatch
  | .ok b => k b
  | .error f => .done (.error (.auth f))

/-- Ends with what a reply means, or goes on if it refuses the bearer. -/
def unlessRefused (k : Dispatch) (r : Reply) : Dispatch :=
  match Outcome.ofReply r with
  | .final result => .done result
  | .bearerRefused => k

/-- Sends a body, with a second bearer if the first one is refused. -/
def sendBody (c : Client) (body : String) (session : Option String) : Dispatch :=
  .bearer <| withBearer fun b =>
    .post (c.draft body session b) <| unlessRefused <|
      .otherBearer b <| withBearer fun fresh =>
        .post (c.draft body session fresh) <| unlessRefused <|
          .done (.error (.auth .unauthorized))

/-- Sends a request, within a session if there is one. -/
def send (c : Client) (request : Wire.Request) (session : Option String) : Dispatch :=
  c.sendBody request.encode.render session

/-- Starts a dispatch over while it fails in a way that may go away, up to a number of times.
`attempt` is the number of the try that comes next. -/
def retrying (once : Dispatch) : Nat → Nat → Dispatch
  | 0, _ => once
  | retries + 1, attempt =>
    once.andThen fun
      | .ok payload => .done (.ok payload)
      | .error e =>
        if e.isRetryable then .wait (.after e attempt) (retrying once retries (attempt + 1))
        else .done (.error e)

/-- Sends a request, and sends it again after failures that may go away. -/
def sendWithRetry (c : Client) (request : Wire.Request) (session : Option String) : Dispatch :=
  retrying (c.send request session) c.maxRetries 1

/-- Sends the request that a conversation so far makes, within the session of the conversation. -/
def sendConversation (c : Client) (s : Dialogue.Snapshot) (o : Wire.CallOptions) : Dispatch :=
  match Wire.Request.make s c.profile o with
  | .ok request => c.send request (some s.conversationId)
  | .error e => .done (.error (.assembly e))

end Courier.Client
