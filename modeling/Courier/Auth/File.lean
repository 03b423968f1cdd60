import Courier.Auth.Credential
import Courier.Store.Tree

/-!
# The stored credential

The file keeps an API key or a credential, and when it was last refreshed. It is written over
several lines and read back with any spacing and any further keys.
-/

namespace Courier.Auth

open Courier.Json Courier.Store Courier.Time

/-- What the file keeps. -/
structure Stored where
  /-- An API key. -/
  apiKey : Option String := none
  /-- A credential. -/
  tokens : Option Credential := none
  /-- When the credential was made. -/
  lastRefresh : Option Instant := none
  deriving DecidableEq, Inhabited

namespace Stored

def apiKeyField : RecordField (Option String) := .omittable "OPENAI_API_KEY" .string
def tokensField : RecordField (Option Credential) := .omittable "tokens" Credential.decode
def lastRefreshField : RecordField (Option Instant) := .omittable "last_refresh" decodeInstant

/-- Reads what the file keeps. -/
def decode : Decoder Stored := fun r => do
  let c ← cells .json [apiKeyField.probe, tokensField.probe, lastRefreshField.probe] r
  return {
    apiKey := ← c.get apiKeyField
    tokens := ← c.get tokensField
    lastRefresh := ← c.get lastRefreshField }

/-- The JSON form of what the file keeps. The API key is always written, the rest only if there is
something to write. -/
def encode (s : Stored) : Value :=
  .object <| member "OPENAI_API_KEY" (.orNull .string s.apiKey)
    ++ member? "tokens" Credential.encode s.tokens
    ++ member? "last_refresh" (fun t => .string t.text) s.lastRefresh

/-- The text of the file. -/
def text (s : Stored) : String :=
  s.encode.renderPretty

end Stored

/-- How a fault of the text shows when a file is read. -/
def faultOfText : Json.Fault → Store.Fault
  | .malformed => .invalidData
  | .unsuitable => .invalidData
  | .truncated => .unexpectedEof

/-- Reads the file. -/
def readStored (n : Node) : Except Store.Fault Stored := do
  (decodeText Stored.decode (← n.readText)).mapError faultOfText

/-- Writes the file. -/
def writeStored (s : Stored) (n : Node) : Except Store.Fault Node :=
  n.writeText s.text

/-- Reads the file at the end of some names. -/
def readStoredAt (names : List String) (t : Tree) : Except Store.Fault Stored := do
  readStored (← t.nodeAt names)

/-- Writes the file under a name, in directories that are made if they are missing. -/
def writeStoredAt (s : Stored) (directories : List String) (name : String) (t : Tree) :
    Except Store.Fault Tree := do
  let t ← t.makeDirectories directories
  let written ← writeStored s (← t.nodeAt (directories ++ [name]))
  return t.withNode (directories ++ [name]) written

/-- What stands in the place of the file once a credential has been kept there, if it can be. -/
def keepCredential (c : Credential) (now : Instant) (n : Node) : Node :=
  match writeStored { tokens := some c, lastRefresh := some now } n with
  | .ok written => written
  | .error _ => n

end Courier.Auth
