import Courier.Auth.Credential
import Courier.Auth.Failure
import Courier.Http.Exchange

/-!
# Asking the issuer

The issuer is asked for tokens in two ways: with the code that a user brought back, and with the
token of a credential that is to be refreshed. For each there is a draft of the request and a
reading of the reply, which is a `Ruling`: a credential, a refusal, or neither when an expiry cannot
be represented and the reading breaks off.

A code that the issuer refuses is told from an issuer that gives no decision. When a credential is
refreshed that makes no difference.
-/

namespace Courier.Auth

open Courier.Http Courier.Json Courier.Time

/-- What comes of asking for tokens. -/
inductive Ruling where
  /-- There is a new credential. -/
  | granted (c : Credential)
  /-- There is none. -/
  | refused (f : Failure)
  /-- The reply cannot be dealt with. -/
  | brokenOff
  deriving DecidableEq, Inhabited

/-- What is said of a grant without a token to refresh with. -/
def noRefreshTokenDetail : String :=
  "token response did not include a refresh_token"

/-- The ruling in a body that should hold a grant. `refusal` makes a failure of a reading that went
wrong, `incomplete` of a grant that makes no credential. -/
def Ruling.ofBody (refusal incomplete : String → Failure) (config : Config)
    (previous : Option Credential) (now : Instant) (body : Option (List UInt8)) : Ruling :=
  match body.bind fun octets => (decodeOctets Grant.decode octets).toOption with
  | none => .refused (refusal Http.Failure.unreadable.message)
  | some grant =>
    match Credential.ofGrant config previous now grant with
    | .ok c => .granted c
    | .error .noRefreshToken => .refused (incomplete noRefreshTokenDetail)
    | .error .expiryOutOfRange => .brokenOff

/-- A status with the body that came with it, or with nothing if the body cannot be read. -/
def statusAndBody (r : Response) : String :=
  r.status.text ++ ": " ++ r.text?.getD ""

/-! ## With a code -/

/-- Asks for tokens in exchange for a code. -/
def Config.exchangeDraft (config : Config) (verifier code : String) : Draft :=
  { url := config.tokenEndpoint
    headers := [("content-type", "application/x-www-form-urlencoded")]
    body := config.exchangeBody verifier code }

/-- The ruling on a code. -/
def Ruling.ofExchange (config : Config) (now : Instant) : Reply → Ruling
  | .timedOut _ => .refused (.transport "timed out waiting for token endpoint")
  | .failed f => .refused (.transport f.message)
  | .answered r =>
    if r.status.isClientError then .refused (.invalidGrant (statusAndBody r))
    else if r.status.isSuccess then
      Ruling.ofBody .transport .invalidGrant config none now r.body
    else .refused (.transport ("token endpoint returned status " ++ r.status.text))

/-! ## With a credential -/

/-- Asks for tokens in place of those of a credential. -/
def Config.refreshDraft (config : Config) (current : Credential) : Draft :=
  { url := config.tokenEndpoint
    headers := [("content-type", "application/json")]
    body := config.refreshBody current.refreshToken }

/-- The ruling on a credential that is to be refreshed. -/
def Ruling.ofRefresh (config : Config) (current : Credential) (now : Instant) : Reply → Ruling
  | .timedOut _ => .refused (.refreshFailed "timed out while refreshing token")
  | .failed f => .refused (.refreshFailed f.message)
  | .answered r =>
    if r.status.isSuccess then
      Ruling.ofBody .refreshFailed .refreshFailed config (some current) now r.body
    else .refused (.refreshFailed (statusAndBody r))

end Courier.Auth
