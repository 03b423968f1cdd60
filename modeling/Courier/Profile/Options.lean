import Courier.Profile.Basic
import Courier.Wire.Options

/-!
# Which options a backend is sent

`Profile.permit` keeps of a caller's options those that the backend accepts, and adds what the
profile sends on every request. An option that is not accepted is left out altogether.
-/

namespace Courier.Profile

open Courier.Wire

/-- The entry that asks for reasoning in encrypted form. -/
def encryptedReasoningEntry : String := "reasoning.encrypted_content"

/-- What the backend is told about keeping the answer: what the profile says, else what the caller
says, else to keep nothing; and nothing at all if the backend does not take the option. -/
def resolvedStore (p : Profile) (o : CallOptions) : Option Bool :=
  match p.forcedStore with
  | some b => some b
  | none => if p.allowsStore then some (o.store.getD false) else none

/-- What else the answer is to include. Where nothing is kept, reasoning is asked for in encrypted
form if the caller wants it and has not asked already. -/
def resolvedExtras (p : Profile) (o : CallOptions) : List String :=
  if p.resolvedStore o ≠ some true ∧ o.encryptedReasoning
      ∧ !o.extras.contains encryptedReasoningEntry then
    o.extras ++ [encryptedReasoningEntry]
  else o.extras

/-- The options that a backend is sent. -/
def permit (p : Profile) (o : CallOptions) : SentOptions where
  maxOutputTokens := if p.allowsMaxOutputTokens then o.maxOutputTokens else none
  temperature := p.temperature
  toolChoice := p.toolChoice
  reasoning :=
    if p.allowsReasoning then o.effort.map fun effort => ⟨effort, o.summary⟩ else none
  extras :=
    if p.allowsReasoning ∧ p.resolvedExtras o ≠ [] then some (p.resolvedExtras o) else none
  store := p.resolvedStore o
  stream := if p.requiresStreaming then some true else none

end Courier.Profile
