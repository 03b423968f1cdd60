import Courier.Auth.Manager

/-!
# The life of a credential

What happens to a manager is an `Event`: somebody asks for a bearer, a code is exchanged, the user
logs out, a caller goes away, the issuer replies, the file is changed from outside. `Manager.step`
says what becomes of the manager and what comes out of it. Events carry the time where it matters,
so that a manager has no clock.

* Callers that need a refresh while one is under way join it.
* Logging out, exchanging a code and starting a refresh begin a new generation; a reply of an
  earlier one changes nothing.
* A refresh that succeeds replaces the credential, one that fails gives it up. A code that is
  refused leaves things as they were, but for a refresh that was under way.
* A reply that cannot be dealt with leaves things as they are for ever.
-/

namespace Courier.Auth

open Courier.Http Courier.Store Courier.Time

/-! ## What happens and what comes of it -/

/-- What a caller wants. -/
inductive Demand where
  /-- A bearer that does not expire soon. -/
  | valid (now : Instant)
  /-- A bearer other than the one that was refused. -/
  | other (stale : Bearer)
  deriving DecidableEq

/-- What happens to a manager. -/
inductive Event where
  /-- Somebody asks for a bearer. -/
  | demand (caller : Caller) (d : Demand)
  /-- Somebody brings back a code. -/
  | authorize (caller : Caller) (verifier code : String)
  /-- The credential is to be forgotten. -/
  | logout
  /-- Somebody no longer waits. -/
  | leave (caller : Caller)
  /-- There is a reply to the request with a number. -/
  | reply (number : Nat) (r : Reply) (now : Instant)
  /-- Somebody else puts something in the place of the file, if there is one. -/
  | overwrite (n : Node)
  deriving DecidableEq

/-- What comes out of a manager. -/
inductive Output where
  /-- A request to the issuer. It counts as sent from here on. -/
  | request (number : Nat) (d : Draft)
  /-- What a caller gets that asked for a bearer. -/
  | bearer (caller : Caller) (r : Except Failure Bearer)
  /-- What a caller gets that brought back a code. -/
  | credential (caller : Caller) (r : Except Failure Credential)
  /-- A caller that brought back a code gets nothing, because the reply could not be dealt with. -/
  | brokenOff (caller : Caller)
  /-- There was a stored credential to forget, or there was none. -/
  | forgotten (r : Except Fault Bool)

/-! ## Asking for a bearer -/

/-- The failure of a credential that has been given up. -/
def expiredFailure : Failure :=
  .refreshFailed "credential expired; authorization is required"

/-- The failure of a refresh whose reply could not be dealt with. -/
def brokenOffFailure : Failure :=
  .refreshFailed "refresh task failed"

/-- A credential meets a demand. -/
def Demand.metBy (config : Config) (c : Credential) : Demand → Bool
  | .valid now => !c.expiresWithin config.refreshMargin now
  | .other stale => c.accessToken != stale.token

/-- What a demand for a bearer gets from an API key. -/
def Demand.fromApiKey (key : String) : Demand → Except Failure Bearer
  | .valid _ => .ok (.ofApiKey key)
  | .other _ => .error .unauthorized

/-- What a demand gets at once; nothing if it takes a refresh. -/
def Demand.answer? (config : Config) (d : Demand) : Slot → Option (Except Failure Bearer)
  | .apiKey key => some (d.fromApiKey key)
  | .authenticated c => if d.metBy config c then some (.ok c.bearer) else none
  | .refreshing _ => none
  | .unauthenticated => some (.error .notAuthenticated)
  | .authorizing => some (.error .notAuthenticated)
  | .expired => some (.error expiredFailure)

namespace Manager

/-- Gives up what is under way. -/
def supersede (m : Manager) : Manager :=
  { m with flight := none, generation := m.generation + 1 }

/-- Starts to refresh a credential. The request is posted by a task of its own and counts as sent
when that is started, so a logout right afterwards does not hold it back. -/
def startRefresh (m : Manager) (caller : Caller) (c : Credential) : Manager × List Output :=
  let m := m.supersede
  ({ m with
      slot := .refreshing c
      flight := some (.running m.requests)
      requests := m.requests + 1
      refreshes := m.refreshes ++ [⟨m.requests, m.generation, c⟩]
      waiters := m.waiters ++ [⟨caller, m.requests⟩] },
    [.request m.requests (m.config.refreshDraft c)])

/-- Joins the refresh that is under way, or starts one. -/
def joinRefresh (m : Manager) (caller : Caller) : Manager × List Output :=
  match m.flight with
  | some (.running number) => ({ m with waiters := m.waiters ++ [⟨caller, number⟩] }, [])
  | some .brokenOff => (m, [.bearer caller (.error brokenOffFailure)])
  | none =>
    match m.slot.credential? with
    | some c => m.startRefresh caller c
    | none => (m, [.bearer caller (.error .notAuthenticated)])

/-- Somebody asks for a bearer. -/
def onDemand (m : Manager) (caller : Caller) (d : Demand) : Manager × List Output :=
  match d.answer? m.config m.slot with
  | some r => (m, [.bearer caller r])
  | none => m.joinRefresh caller

/-! ## Keeping a credential -/

/-- Stores a credential, if that is wanted and possible. -/
def persist (m : Manager) (c : Credential) (now : Instant) : Manager :=
  { m with file := m.file.map (keepCredential c now) }

/-- Takes a credential into use. -/
def adopt (m : Manager) (c : Credential) (now : Instant) : Manager :=
  { m with slot := .authenticated c }.persist c now

/-! ## The end of a refresh -/

/-- Takes a refresh off the list, with those who wait for it. -/
def endRefresh (m : Manager) (r : Refresh) : Manager :=
  { m with
    refreshes := m.refreshes.filter (·.number != r.number)
    waiters := m.waiters.filter (·.number != r.number) }

/-- What those get who wait for a refresh. -/
def tellWaiters (m : Manager) (r : Refresh) (answer : Except Failure Bearer) : List Output :=
  (m.waiters.filter (·.number == r.number)).map fun w => .bearer w.caller answer

/-- A refresh is the one whose outcome counts. -/
def awaits (m : Manager) (r : Refresh) : Bool :=
  m.generation == r.generation && m.slot.isRefreshing

/-- The issuer has replied to a refresh. -/
def onRefreshed (m : Manager) (r : Refresh) (ruling : Ruling) (now : Instant) :
    Manager × List Output :=
  let rest := m.endRefresh r
  match ruling with
  | .brokenOff =>
    let flight := if m.flight = some (.running r.number) then some .brokenOff else m.flight
    ({ rest with flight }, m.tellWaiters r (.error brokenOffFailure))
  | .granted c =>
    if m.awaits r then
      ({ rest with flight := none }.adopt c now, m.tellWaiters r (.ok c.bearer))
    else (rest, m.tellWaiters r (.error .notAuthenticated))
  | .refused f =>
    if m.awaits r then
      ({ rest with flight := none, slot := .expired }, m.tellWaiters r (.error f))
    else (rest, m.tellWaiters r (.error .notAuthenticated))

/-! ## Exchanging a code -/

/-- Somebody brings back a code. -/
def onAuthorize (m : Manager) (caller : Caller) (verifier code : String) :
    Manager × List Output :=
  let previous := m.slot
  let m := m.supersede
  ({ m with
      slot := .authorizing
      requests := m.requests + 1
      authorizations := m.authorizations ++ [⟨m.requests, caller, m.generation, previous⟩] },
    [.request m.requests (m.config.exchangeDraft verifier code)])

/-- Takes an authorization off the list. -/
def endAuthorization (m : Manager) (a : Authorization) : Manager :=
  { m with authorizations := m.authorizations.filter (·.number != a.number) }

/-- The issuer has replied to a code. -/
def onAuthorized (m : Manager) (a : Authorization) (ruling : Ruling) (now : Instant) :
    Manager × List Output :=
  let rest := m.endAuthorization a
  match ruling with
  | .brokenOff => (rest, [.brokenOff a.caller])
  | .granted c =>
    if m.generation = a.generation then (rest.adopt c now, [.credential a.caller (.ok c)])
    else (rest, [.credential a.caller (.error .notAuthenticated)])
  | .refused f =>
    let slot :=
      if m.generation = a.generation ∧ m.slot = .authorizing then a.previous.settled else m.slot
    ({ rest with slot }, [.credential a.caller (.error f)])

/-! ## Forgetting -/

/-- The credential is to be forgotten. -/
def onLogout (m : Manager) : Manager × List Output :=
  let m := { m with slot := .unauthenticated }.supersede
  match m.file with
  | none => (m, [.forgotten (.ok false)])
  | some node =>
    match node.remove with
    | .ok left => ({ m with file := some left }, [.forgotten (.ok true)])
    | .error .notFound => (m, [.forgotten (.ok false)])
    | .error fault => (m, [.forgotten (.error fault)])

/-- Somebody no longer waits. A refresh goes on without them, an authorization does not. -/
def onLeave (m : Manager) (caller : Caller) : Manager :=
  { m with
    authorizations := m.authorizations.filter (·.caller != caller)
    waiters := m.waiters.filter (·.caller != caller) }

/-! ## Steps -/

/-- There is a reply to a request. -/
def onReply (m : Manager) (number : Nat) (reply : Reply) (now : Instant) :
    Manager × List Output :=
  match m.refreshes.find? (·.number == number) with
  | some r => m.onRefreshed r (.ofRefresh m.config r.credential now reply) now
  | none =>
    match m.authorizations.find? (·.number == number) with
    | some a => m.onAuthorized a (.ofExchange m.config now reply) now
    | none => (m, [])

/-- What becomes of a manager, and what comes out of it. -/
def step (m : Manager) : Event → Manager × List Output
  | .demand caller d => m.onDemand caller d
  | .authorize caller verifier code => m.onAuthorize caller verifier code
  | .logout => m.onLogout
  | .leave caller => (m.onLeave caller, [])
  | .reply number r now => m.onReply number r now
  | .overwrite n => ({ m with file := m.file.map fun _ => n }, [])

/-- What becomes of a manager after some events, and what comes out of it on the way. -/
def run (m : Manager) : List Event → Manager × List Output
  | [] => (m, [])
  | e :: es =>
    let (next, out) := m.step e
    let (last, rest) := next.run es
    (last, out ++ rest)

/-! ## With an issuer that replies at once -/

/-- Hands the requests among some outputs to a peer and lets the manager deal with the replies; what
else there is among the outputs stays in order. A reply never makes the manager ask again. -/
def settle (peer : Peer) (now : Instant) (m : Manager) : List Output → Manager × List Output
  | [] => (m, [])
  | .request number draft :: rest =>
    let (next, out) := m.onReply number (draft.send peer) now
    let (last, more) := next.settle peer now rest
    (last, out ++ more)
  | out :: rest =>
    let (last, more) := m.settle peer now rest
    (last, out :: more)

/-- What becomes of a manager and what comes out of it if a peer replies at once. -/
def stepWith (peer : Peer) (now : Instant) (m : Manager) (e : Event) : Manager × List Output :=
  let (next, out) := m.step e
  next.settle peer now out

/-- What a caller gets that asks for a bearer, if a peer replies at once. A caller that would have to
wait for the reply to an earlier request gets nothing here, as if there were no credential. -/
def ask (peer : Peer) (now : Instant) (m : Manager) (d : Demand) :
    Manager × Except Failure Bearer :=
  let (next, out) := m.stepWith peer now (.demand 0 d)
  let answers := out.filterMap fun
    | .bearer _ r => some r
    | _ => none
  (next, answers.headD (.error .notAuthenticated))

end Manager

end Courier.Auth
