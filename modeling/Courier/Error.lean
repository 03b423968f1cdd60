import Courier.Auth.Failure
import Courier.Dialogue.Conversation
import Courier.Http.Failure
import Courier.Http.Status
import Courier.Store.Fault
import Courier.Wire.Request

/-!
# Errors

`Error` holds every way in which a call can fail, by its cause. `Error.message?` is the wording, for
the causes whose wording is fixed: what is said of files and of texts that cannot be read is left to
whoever shows the error. Only a transient failure is worth another try.
-/

namespace Courier

open Courier.Http

/-- A failure that may go away: the network, or a backend that is busy or broken. -/
structure Transient where
  /-- The status of the answer, if there was one. -/
  status : Option Status
  /-- How many seconds the backend wants to be left alone. -/
  retryAfter : Option Nat
  /-- What the backend or the network said. -/
  detail : String
  deriving DecidableEq, Inhabited

/-- The wording of a transient failure. -/
def Transient.message (t : Transient) : String :=
  match t.status with
  | some status => "transient failure (" ++ status.text ++ "): " ++ t.detail
  | none => "transient failure: " ++ t.detail

/-- Why a call failed. -/
inductive Error where
  /-- A turn breaks a rule of conversations. -/
  | conversation (v : Dialogue.Violation)
  /-- No request can be made. -/
  | assembly (e : Wire.AssemblyError)
  /-- There is no token. -/
  | auth (f : Auth.Failure)
  /-- The backend refuses the shape of the request. -/
  | rejected (status : Status) (detail : String)
  /-- The failure may go away. -/
  | transient (t : Transient)
  /-- The backend answers with a status that means nothing here. -/
  | unexpectedStatus (status : Status) (body : String)
  /-- There is no profile of this name. -/
  | unknownProfile (id : String)
  /-- A header cannot be sent. -/
  | invalidHeader (name reason : String)
  /-- A file cannot be used. -/
  | file (f : Store.Fault)
  /-- An exchange failed on this side. -/
  | exchange (f : Http.Failure)
  /-- A JSON text is not what is wanted. -/
  | json (f : Json.Fault)
  /-- A configuration is not what is wanted. -/
  | configuration
  deriving DecidableEq, Inhabited

namespace Error

/-- The wording of an error, where it is fixed. -/
def message? : Error → Option String
  | .conversation v => some v.message
  | .assembly e => some e.message
  | .auth f => some f.message
  | .rejected status detail =>
    some ("backend rejected request (" ++ status.text ++ "): " ++ detail)
  | .transient t => some t.message
  | .unexpectedStatus status body => some ("unexpected status " ++ status.text ++ ": " ++ body)
  | .unknownProfile id => some ("unknown variant profile `" ++ id ++ "`")
  | .invalidHeader name reason => some ("invalid header `" ++ name ++ "`: " ++ reason)
  | .file _ => none
  | .exchange f => some f.message
  | .json _ => none
  | .configuration => none

/-- An error is worth another try. -/
def isRetryable : Error → Bool
  | .transient _ => true
  | _ => false

/-- How many seconds the backend wants to be left alone. -/
def retryAfter? : Error → Option Nat
  | .transient t => t.retryAfter
  | _ => none

/-- The error of a failed exchange: one that was not answered may go away. -/
def ofExchange : Http.Failure → Error
  | .unanswered url => .transient ⟨none, none, (Failure.unanswered url).message⟩
  | f => .exchange f

end Error

end Courier
