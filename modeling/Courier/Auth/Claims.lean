import Courier.Json.Decode
import Courier.Text.Base64Url
import Courier.Text.Split
import Courier.Time.Instant

/-!
# Claims of a token

A token of the form `header.payload.signature` carries claims: the payload is JSON in unpadded
base64 for URLs. The signature is not looked at. `identity` reads who a token is about, and
`expiry?` until when it holds, which is `none` for every token that does not say so.
-/

namespace Courier.Auth

open Courier.Json Courier.Text

/-! ## Who a token is about -/

/-- What is known of an account. -/
structure Identity where
  /-- Its mail address. -/
  email : Option String := none
  /-- What the subscription is called. -/
  plan : Option String := none
  /-- The account that requests are counted to. -/
  accountId : Option String := none
  deriving DecidableEq, Inhabited

namespace Identity

def emailField : RecordField (Option String) := .optional "email" .string
def planField : RecordField (Option String) := .optional "chatgpt_plan_type" .string
def accountIdField : RecordField (Option String) := .optional "chatgpt_account_id" .string

/-- Reads what is known of an account. -/
def decode : Decoder Identity := fun r => do
  let c ← cells .json [emailField.probe, planField.probe, accountIdField.probe] r
  return {
    email := ← c.get emailField
    plan := ← c.get planField
    accountId := ← c.get accountIdField }

/-- The JSON form of what is known of an account, with every key. -/
def encode (i : Identity) : Value :=
  .object [
    ("email", .orNull .string i.email),
    ("chatgpt_plan_type", .orNull .string i.plan),
    ("chatgpt_account_id", .orNull .string i.accountId)]

end Identity

/-! ## Payloads -/

/-- Why a token's claims cannot be read. -/
inductive ClaimsError where
  /-- The token does not have three parts. -/
  | format
  /-- The payload is not base64. -/
  | base64 (f : Base64Url.Fault)
  /-- The payload is not the JSON that is wanted. -/
  | json (f : Json.Fault)
  deriving DecidableEq

/-- The octets of a token's payload: of the part after the first dot, if the first three parts are
there. -/
def payload (token : String) : Except ClaimsError (List UInt8) :=
  match parts '.' token.toList with
  | (_ :: _) :: (p :: ps) :: (_ :: _) :: _ =>
    (Base64Url.decodeOctets (octets (String.ofList (p :: ps)))).mapError .base64
  | _ => .error .format

/-- What the claim of the authorization server says of the account. -/
structure AuthClaim where
  plan : Option String
  accountId : Option String

namespace AuthClaim

def planField : RecordField (Option String) := .omittable "chatgpt_plan_type" .string
def accountIdField : RecordField (Option String) := .omittable "chatgpt_account_id" .string

/-- Reads the claim. -/
def decode : Decoder AuthClaim := fun r => do
  let c ← cells .json [planField.probe, accountIdField.probe] r
  return ⟨← c.get planField, ← c.get accountIdField⟩

end AuthClaim

/-- The claim that holds a mail address. -/
def emailClaim : RecordField (Option String) := .omittable "email" .string

/-- The claim of the authorization server. -/
def authClaim : RecordField (Option AuthClaim) :=
  .omittable "https://api.openai.com/auth" AuthClaim.decode

/-- Reads the claims about an account. -/
def decodeIdentityClaims : Decoder Identity := fun r => do
  let c ← cells .json [emailClaim.probe, authClaim.probe] r
  let email ← c.get emailClaim
  let auth ← c.get authClaim
  return ⟨email, auth.bind (·.plan), auth.bind (·.accountId)⟩

/-- Who a token is about. -/
def identity (token : String) : Except ClaimsError Identity := do
  (decodeOctets decodeIdentityClaims (← payload token)).mapError .json

/-- The claim of when a token expires. -/
def expiryClaim : RecordField (Option Int) := .optional "exp" .int64

/-- Reads the claim of when a token expires. -/
def decodeExpiryClaim : Decoder (Option Int) := fun r => do
  let c ← cells .json [expiryClaim.probe] r
  c.get expiryClaim

/-- When a token expires, if it says so. -/
def expiry? (token : String) : Option Time.Instant := do
  let bytes ← (payload token).toOption
  let seconds ← (← (decodeOctets decodeExpiryClaim bytes).toOption)
  Time.Instant.of? seconds 0

end Courier.Auth
