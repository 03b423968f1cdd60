import Courier.Auth.Lifecycle
import Courier.Client.Dispatch

/-!
# Carrying out a dispatch

A `Session` is what stands around a dispatch: the clock, the manager of credentials and a record of
the waits. Backend and issuer are one peer, which replies at once, so time only passes while
waiting.
-/

namespace Courier.Client

open Courier.Auth Courier.Http Courier.Time

/-- What stands around a dispatch. -/
structure Session where
  /-- The time. -/
  now : Instant
  /-- Where bearers come from. -/
  manager : Manager
  /-- The waits so far in milliseconds. -/
  waits : List Nat := []
  deriving DecidableEq

/-- A session some milliseconds later. -/
def Session.later (s : Session) (ms : Nat) : Session :=
  { s with now := s.now.later ms }

/-- The manager of a session answers a demand. -/
def Session.ask (s : Session) (peer : Peer) (d : Demand) : Session × Except Auth.Failure Bearer :=
  let (manager, r) := s.manager.ask peer s.now d
  ({ s with manager }, r)

/-- Carries out a dispatch with a peer; every wait is spread by the same jitter. -/
def Dispatch.run (peer : Peer) (jitter : Rat) : Dispatch → Session → Session × Except Error Payload
  | .done r, s => (s, r)
  | .bearer next, s =>
    let (s, r) := s.ask peer (.valid s.now)
    (next r).run peer jitter s
  | .otherBearer stale next, s =>
    let (s, r) := s.ask peer (.other stale)
    (next r).run peer jitter s
  | .post d next, s => (next (d.send peer)).run peer jitter s
  | .wait w next, s =>
    let ms := w.millis jitter
    next.run peer jitter { s.later ms with waits := s.waits ++ [ms] }

end Courier.Client
