/-!
# Why there is no token

Each failure asks the caller to authorize anew or to mend the configuration; none of them goes away
by trying again.
-/

namespace Courier.Auth

/-- Why there is no token. -/
inductive Failure where
  /-- The issuer refused the authorization code. -/
  | invalidGrant (detail : String)
  /-- The credential could not be refreshed and has expired. -/
  | refreshFailed (detail : String)
  /-- The backend refused a fresh token, or there is nothing to refresh. -/
  | unauthorized
  /-- There is no credential. -/
  | notAuthenticated
  /-- The issuer gave no decision. -/
  | transport (detail : String)
  /-- The stored credential cannot be read. -/
  | storage (detail : String)
  deriving DecidableEq, Inhabited

/-- The wording of a failure. -/
def Failure.message : Failure → String
  | .invalidGrant detail => "authorization code was rejected by the issuer: " ++ detail
  | .refreshFailed detail => "token refresh failed: " ++ detail
  | .unauthorized => "request unauthorized; re-authorization is required"
  | .notAuthenticated => "not authenticated; run the authorization flow first"
  | .transport detail => "token endpoint request failed: " ++ detail
  | .storage detail => "unable to persist credentials: " ++ detail

end Courier.Auth
