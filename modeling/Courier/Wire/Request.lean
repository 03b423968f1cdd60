import Courier.Profile.Input
import Courier.Profile.Options
import Courier.Text.Blank
import Courier.Wire.Correlation

/-!
# Requests

`Request.make` is the one way from a conversation to a request: the items of the profile, checked
for what backends refuse, and the options that the profile permits.
-/

namespace Courier.Wire

open Courier.Dialogue Courier.Json

/-- Why no request can be made from a conversation. -/
inductive AssemblyError where
  /-- There is nothing to send. -/
  | emptyInput
  /-- The items do not fit together. -/
  | conflict (c : Conflict)
  deriving DecidableEq, Inhabited

/-- The wording of the reason. -/
def AssemblyError.message : AssemblyError → String
  | .emptyInput => "conversation produced no input items"
  | .conflict c => "correlation check failed: " ++ c.message

/-- What is sent to a backend. -/
structure Request where
  /-- The model that is asked for. -/
  model : String
  /-- The instructions. -/
  instructions : String
  /-- The input. -/
  input : List Item
  /-- The options. -/
  options : SentOptions
  deriving DecidableEq, Inhabited

namespace Request

/-- The JSON form of a request; the options stand beside the input. -/
def encode (r : Request) : Value :=
  .object <| member "model" (.string r.model)
    ++ member "instructions" (.string r.instructions)
    ++ member "input" (encodeItems r.input)
    ++ r.options.members

/-- The request that a conversation so far makes for a backend. -/
def make (s : Snapshot) (p : Profile) (o : CallOptions) : Except AssemblyError Request := do
  let items := p.items s.turns
  if items.isEmpty then throw .emptyInput
  (check p.requiresPairing items).mapError .conflict
  return ⟨p.model, Text.trim p.instructions, items, p.permit o⟩

end Request

end Courier.Wire
