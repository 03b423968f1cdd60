import Courier.Digest.Sha256
import Courier.Text.Base64Url
import Courier.Text.Utf8

/-!
# Proof keys for code exchange

A verifier is a secret that is shown to the issuer only when the code is exchanged; its challenge,
the digest of it, is shown before. Both are base64 for URLs, and so is the opaque `state` that comes
back with the code.
-/

namespace Courier.Auth

/-- A verifier and its challenge. -/
structure Pkce where
  /-- The secret. -/
  verifier : String
  /-- Its digest. -/
  challenge : String
  deriving DecidableEq

/-- The challenge of a verifier. -/
def challengeFor (verifier : String) : String :=
  Text.Base64Url.encode (Digest.Sha256.digest (Text.octets verifier))

/-- The verifier that some random octets make, with its challenge. -/
def Pkce.ofEntropy (entropy : List UInt8) : Pkce :=
  let verifier := Text.Base64Url.encode entropy
  ⟨verifier, challengeFor verifier⟩

/-- How many random octets a verifier is made of. -/
def verifierEntropy : Nat := 64

/-- How many random octets a `state` is made of. -/
def stateEntropy : Nat := 32

/-- The `state` that some random octets make. -/
def stateOfEntropy (entropy : List UInt8) : String :=
  Text.Base64Url.encode entropy

end Courier.Auth
