import Courier.Auth.File
import Courier.Auth.Issuer

/-!
# What a manager of credentials holds

A `Manager` hands out bearers and keeps the credential behind them fresh. What it holds is a `Slot`:
nothing, an API key, or a credential in one of its states. Beside it stand the refresh that callers
may join, the requests that the issuer has not answered, and a generation, which goes up whenever
what is under way is given up: a reply that belongs to an earlier generation comes too late.
-/

namespace Courier.Auth

open Courier.Http Courier.Store Courier.Text Courier.Time

/-! ## Slots -/

/-- What a manager has to sign requests with. -/
inductive Slot where
  /-- Nothing. -/
  | unauthenticated
  /-- Nothing yet: a code is being exchanged. -/
  | authorizing
  /-- A credential. -/
  | authenticated (c : Credential)
  /-- A credential that is being refreshed. -/
  | refreshing (c : Credential)
  /-- A credential that could not be refreshed, and is given up. -/
  | expired
  /-- An API key. -/
  | apiKey (key : String)
  deriving DecidableEq, Inhabited

namespace Slot

/-- The name of the state that a slot is in. -/
def stateName : Slot → String
  | .unauthenticated => "Unauthenticated"
  | .authorizing => "Authorizing"
  | .authenticated _ => "Authenticated"
  | .refreshing _ => "Refreshing"
  | .expired => "Expired"
  | .apiKey _ => "ApiKey"

/-- The credential in a slot. -/
def credential? : Slot → Option Credential
  | .authenticated c => some c
  | .refreshing c => some c
  | _ => none

/-- A slot in which a credential is being refreshed. -/
def isRefreshing : Slot → Bool
  | .refreshing _ => true
  | _ => false

/-- A slot as it is once a refresh has been given up. -/
def settled : Slot → Slot
  | .refreshing c => .authenticated c
  | s => s

end Slot

/-! ## What is under way -/

/-- Who asked for something and waits for it. -/
abbrev Caller := Nat

/-- Counts how often what was under way has been given up. It starts over after 2⁶⁴ times. -/
abbrev Generation := UInt64

/-- A request for a refresh that the issuer has not answered. -/
structure Refresh where
  /-- The number of the request. -/
  number : Nat
  /-- The generation that it belongs to. -/
  generation : Generation
  /-- The credential that is refreshed. -/
  credential : Credential
  deriving DecidableEq

/-- A request to exchange a code that the issuer has not answered. -/
structure Authorization where
  /-- The number of the request. -/
  number : Nat
  /-- Who waits for it. -/
  caller : Caller
  /-- The generation that it belongs to. -/
  generation : Generation
  /-- What was in the slot before. -/
  previous : Slot
  deriving DecidableEq

/-- The refresh that callers join. -/
inductive Flight where
  /-- The request with this number. -/
  | running (number : Nat)
  /-- A refresh whose reply could not be dealt with. -/
  | brokenOff
  deriving DecidableEq

/-- A caller that waits for a refresh. -/
structure Waiter where
  /-- Who waits. -/
  caller : Caller
  /-- The number of the request. -/
  number : Nat
  deriving DecidableEq

/-! ## Managers -/

/-- Hands out bearers and keeps the credential behind them fresh. -/
structure Manager where
  /-- The issuer. -/
  config : Config
  /-- What stands where the credential is stored, if it is stored at all. -/
  file : Option Node := none
  /-- What there is to sign requests with. -/
  slot : Slot
  /-- The refresh that callers join. -/
  flight : Option Flight := none
  /-- The current generation. -/
  generation : Generation := 0
  /-- How many requests have been made. -/
  requests : Nat := 0
  /-- The refreshes that the issuer has not answered. -/
  refreshes : List Refresh := []
  /-- The authorizations that the issuer has not answered. -/
  authorizations : List Authorization := []
  /-- Who waits for which refresh. -/
  waiters : List Waiter := []
  deriving DecidableEq

namespace Manager

/-- A manager without a credential. -/
def new (config : Config) : Manager :=
  { config, slot := .unauthenticated }

/-- A manager of an API key, which never asks the issuer. -/
def ofApiKey (key : String) : Manager :=
  { config := {}, slot := .apiKey key }

/-- A manager of a credential that is not stored. -/
def ofCredential (config : Config) (c : Credential) : Manager :=
  { config, slot := .authenticated c }

/-- A text that can be an API key: not all of it is blank. -/
def isApiKey (key : String) : Bool :=
  !(trim key).isEmpty

/-- The slot that a stored credential fills. An API key goes before a credential. -/
def slotOf (s : Stored) : Slot :=
  match s.apiKey.filter isApiKey, s.tokens with
  | some key, _ => .apiKey key
  | none, some c => .authenticated c
  | none, none => .unauthenticated

/-- The manager of what is stored at a place. -/
def load (config : Config) (file : Node) : Except Failure Manager :=
  match readStored file with
  | .ok stored => .ok { config, file := some file, slot := slotOf stored }
  | .error .notFound => .ok { config, file := some file, slot := .unauthenticated }
  | .error fault => .error (.storage fault.message)

/-- A manager of something that can be refreshed. -/
def canRefresh (m : Manager) : Bool :=
  match m.slot with
  | .apiKey _ => false
  | _ => true

/-- A manager as it is shown in diagnostics. -/
def diagnostic (m : Manager) : String :=
  "CredentialManager \x7b issuer: " ++ quoted m.config.issuer ++ ", state: " ++ m.slot.stateName
    ++ " \x7d"

end Manager

end Courier.Auth
