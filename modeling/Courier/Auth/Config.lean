import Courier.Auth.Pkce
import Courier.Json.Printer
import Courier.Text.Blank
import Courier.Text.Percent

/-!
# The issuer and what it is asked

`Config` holds who issues the tokens and who asks for them. From it come the URL that a user is sent
to (`Config.authorizeUrl`) and the bodies of the two requests for tokens. Every value that stands in
a URL or in a form is percent encoded, so that none of them can be taken for anything else.
-/

namespace Courier.Auth

open Courier.Json Courier.Text

/-- How many nanoseconds a millisecond has. -/
def nanosPerMilli : Nat := 1000000

/-- An issuer and a client of it. -/
structure Config where
  /-- The URL of the issuer. -/
  issuer : String := "https://auth.openai.com"
  /-- The client. -/
  clientId : String := "app_EMoamEEZ73f0CkXaXp7hrann"
  /-- Where the issuer sends the user back to. -/
  redirectUri : String := "http://localhost:1455/auth/callback"
  /-- What the tokens are for. -/
  scope : String := "openid profile email offline_access"
  /-- A token that expires this soon is refreshed before it is used, in nanoseconds. -/
  refreshMargin : Nat := 60000 * nanosPerMilli
  /-- How long the issuer has to answer, in nanoseconds. -/
  requestTimeout : Nat := 60000 * nanosPerMilli
  deriving DecidableEq, Inhabited

namespace Config

/-- The URL of the issuer without slashes at its end. -/
def base (c : Config) : String :=
  trimEnd '/' c.issuer

/-- Where tokens are asked for. -/
def tokenEndpoint (c : Config) : String :=
  c.base ++ "/oauth/token"

/-- Names and values set for a URL or a form; the names need no encoding. -/
def formText (pairs : List (String × String)) : String :=
  "&".intercalate (pairs.map fun p => p.1 ++ "=" ++ Percent.encode p.2)

/-- What the issuer is told when a user is sent to it. -/
def authorizeQuery (c : Config) (challenge state : String) : List (String × String) :=
  [("response_type", "code"),
    ("client_id", c.clientId),
    ("redirect_uri", c.redirectUri),
    ("scope", c.scope),
    ("code_challenge", challenge),
    ("code_challenge_method", "S256"),
    ("id_token_add_organizations", "true"),
    ("state", state)]

/-- The URL that a user is sent to. -/
def authorizeUrl (c : Config) (challenge state : String) : String :=
  c.base ++ "/oauth/authorize?" ++ formText (c.authorizeQuery challenge state)

/-- What the issuer is told when a code is exchanged for tokens. -/
def exchangeForm (c : Config) (verifier code : String) : List (String × String) :=
  [("grant_type", "authorization_code"),
    ("code", code),
    ("redirect_uri", c.redirectUri),
    ("client_id", c.clientId),
    ("code_verifier", verifier)]

/-- The body of the request that exchanges a code for tokens. -/
def exchangeBody (c : Config) (verifier code : String) : String :=
  formText (c.exchangeForm verifier code)

/-- The body of the request that refreshes a credential. -/
def refreshBody (c : Config) (refreshToken : String) : String :=
  Value.render <| .object [
    ("client_id", .string c.clientId),
    ("grant_type", .string "refresh_token"),
    ("refresh_token", .string refreshToken),
    ("scope", .string "openid profile email")]

end Config

end Courier.Auth
