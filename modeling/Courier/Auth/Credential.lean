import Courier.Auth.Claims
import Courier.Auth.Config
import Courier.Text.Quoted
import Courier.Time.Rfc3339

/-!
# Credentials

A `Credential` is what an issuer gave out last: an access token, when it expires, and the token to
refresh it with. What a request is signed with is a `Bearer`, a copy of the part that is sent.

`Credential.ofGrant` makes the next credential from an answer of the issuer. On a refresh the issuer
may leave out the token to refresh with and the identity; they carry over then.
-/

namespace Courier.Auth

open Courier.Json Courier.Text Courier.Time

/-! ## Bearers -/

/-- What a request is signed with. -/
structure Bearer where
  /-- The access token. -/
  token : String
  /-- When it expires; never, for an API key. -/
  expiresAt : Option Instant
  /-- The account that the request is counted to. -/
  accountId : Option String
  deriving DecidableEq, Inhabited

/-- The bearer of an API key. -/
def Bearer.ofApiKey (key : String) : Bearer :=
  ⟨key, none, none⟩

/-- A bearer as it is shown in diagnostics, without its token. -/
def Bearer.diagnostic (b : Bearer) : String :=
  "TokenSnapshot \x7b access_token: \"<redacted>\", expires_at: "
    ++ shownOption (b.expiresAt.map Instant.text)
    ++ ", account_id: " ++ shownOption (b.accountId.map quoted) ++ " \x7d"

/-! ## Credentials -/

/-- Tokens for one client of one issuer. -/
structure Credential where
  /-- The token that requests are signed with. -/
  accessToken : String
  /-- The token that the issuer takes for a new one. -/
  refreshToken : String
  /-- When the access token expires. -/
  expiresAt : Instant
  /-- The client. -/
  clientId : String
  /-- The issuer. -/
  issuer : String
  /-- Who the tokens are about. -/
  identity : Identity
  deriving DecidableEq, Inhabited

/-- Reads an instant. -/
def decodeInstant : Decoder Instant := fun r => do
  match Instant.ofText? (← Decoder.string r) with
  | some t => return t
  | none => throw .unsuitable

namespace Credential

def accessTokenField : RecordField String := .required "access_token" .string
def refreshTokenField : RecordField String := .required "refresh_token" .string
def expiresAtField : RecordField Instant := .required "expires_at" decodeInstant
def clientIdField : RecordField String := .required "client_id" .string
def issuerField : RecordField String := .required "issuer" .string
def identityField : RecordField Identity := .defaulted "id_token" Identity.decode {}

/-- Reads a credential. -/
def decode : Decoder Credential := fun r => do
  let c ← cells .json [accessTokenField.probe, refreshTokenField.probe, expiresAtField.probe,
    clientIdField.probe, issuerField.probe, identityField.probe] r
  return {
    accessToken := ← c.get accessTokenField
    refreshToken := ← c.get refreshTokenField
    expiresAt := ← c.get expiresAtField
    clientId := ← c.get clientIdField
    issuer := ← c.get issuerField
    identity := ← c.get identityField }

/-- The JSON form of a credential, with every key. -/
def encode (c : Credential) : Value :=
  .object [
    ("access_token", .string c.accessToken),
    ("refresh_token", .string c.refreshToken),
    ("expires_at", .string c.expiresAt.text),
    ("client_id", .string c.clientId),
    ("issuer", .string c.issuer),
    ("id_token", c.identity.encode)]

/-- The part of a credential that a request is signed with. -/
def bearer (c : Credential) : Bearer :=
  ⟨c.accessToken, some c.expiresAt, c.identity.accountId⟩

/-- The longest margin that is told from longer ones, in nanoseconds. -/
def longestMargin : Nat := (Nat.pow 2 63 - 1) * nanosPerMilli

/-- A credential expires within a margin of nanoseconds from `now`, or has expired. -/
def expiresWithin (c : Credential) (margin : Nat) (now : Instant) : Bool :=
  c.expiresAt.since now ≤ min margin longestMargin

end Credential

/-! ## What the issuer gives -/

/-- An answer of the issuer that grants tokens. -/
structure Grant where
  /-- A token that tells who the others are about. -/
  idToken : Option String
  /-- The access token. -/
  accessToken : String
  /-- The token to refresh with. -/
  refreshToken : Option String
  /-- For how many seconds the access token holds. -/
  expiresIn : Option Int
  deriving DecidableEq

namespace Grant

def idTokenField : RecordField (Option String) := .omittable "id_token" .string
def accessTokenField : RecordField String := .required "access_token" .string
def refreshTokenField : RecordField (Option String) := .omittable "refresh_token" .string
def expiresInField : RecordField (Option Int) := .omittable "expires_in" .int64

/-- Reads a grant. -/
def decode : Decoder Grant := fun r => do
  let c ← cells .json [idTokenField.probe, accessTokenField.probe, refreshTokenField.probe,
    expiresInField.probe] r
  return {
    idToken := ← c.get idTokenField
    accessToken := ← c.get accessTokenField
    refreshToken := ← c.get refreshTokenField
    expiresIn := ← c.get expiresInField }

/-- For how many seconds an access token holds that does not say so. -/
def defaultLifetime : Int := 3600

/-- When the access token of a grant expires: as the issuer says, else as the token says, else after
`defaultLifetime`. None if that lies outside of the range of instants. -/
def expiresAt? (g : Grant) (now : Instant) : Option Instant :=
  match g.expiresIn with
  | some seconds => now.addSeconds? seconds
  | none => (expiry? g.accessToken).or (now.addSeconds? defaultLifetime)

/-- Who the tokens of a grant are about. A token that cannot be read tells nothing; one that was
left out leaves things as they were. -/
def identityAfter (g : Grant) (previous : Option Credential) : Identity :=
  match g.idToken with
  | some token => (identity token).toOption.getD {}
  | none => (previous.map (·.identity)).getD {}

end Grant

/-- Why a grant makes no credential. -/
inductive GrantError where
  /-- There is nothing to refresh the credential with. -/
  | noRefreshToken
  /-- The expiry lies outside of the range of instants. This is not foreseen, and whatever was
  handling the grant breaks off. -/
  | expiryOutOfRange
  deriving DecidableEq

/-- The credential that a grant makes, after `previous` if it refreshes one. -/
def Credential.ofGrant (config : Config) (previous : Option Credential) (now : Instant)
    (g : Grant) : Except GrantError Credential :=
  match g.refreshToken.or (previous.map (·.refreshToken)) with
  | none => .error .noRefreshToken
  | some refreshToken =>
    match g.expiresAt? now with
    | none => .error .expiryOutOfRange
    | some expiresAt =>
      .ok ⟨g.accessToken, refreshToken, expiresAt, config.clientId, config.issuer,
        g.identityAfter previous⟩

end Courier.Auth
