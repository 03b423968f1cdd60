import Courier.Json.Decode

/-!
# Options

`CallOptions` is what a caller asks for, and `SentOptions` is what is left of it for one backend: an
option that is `none` there is not sent at all.
-/

namespace Courier.Wire

open Courier.Json Courier.Numeric

/-! ## What a caller asks for -/

/-- How much a model is to think. -/
inductive Effort where
  | minimal
  | low
  | medium
  | high
  deriving DecidableEq, Inhabited

/-- How its thoughts are to be summed up. -/
inductive SummaryMode where
  | auto
  | concise
  | detailed
  deriving DecidableEq, Inhabited

/-- The name of an effort. -/
def Effort.name : Effort → String
  | .minimal => "minimal"
  | .low => "low"
  | .medium => "medium"
  | .high => "high"

/-- The effort of a name. -/
def Effort.named? : String → Option Effort
  | "minimal" => some .minimal
  | "low" => some .low
  | "medium" => some .medium
  | "high" => some .high
  | _ => none

/-- The name of a way to sum up. -/
def SummaryMode.name : SummaryMode → String
  | .auto => "auto"
  | .concise => "concise"
  | .detailed => "detailed"

/-- The way to sum up of a name. -/
def SummaryMode.named? : String → Option SummaryMode
  | "auto" => some .auto
  | "concise" => some .concise
  | "detailed" => some .detailed
  | _ => none

/-- What a caller asks for. -/
structure CallOptions where
  /-- A bound on the length of the answer. -/
  maxOutputTokens : Option Nat := none
  /-- Whether the backend is to keep the answer. -/
  store : Option Bool := none
  /-- How much the model is to think. -/
  effort : Option Effort := none
  /-- How its thoughts are to be summed up; sent only beside an effort. -/
  summary : Option SummaryMode := none
  /-- Whether reasoning is to be sent back in encrypted form where nothing is kept. -/
  encryptedReasoning : Bool := false
  /-- What else the answer is to include. -/
  extras : List String := []
  deriving DecidableEq, Inhabited

namespace CallOptions

def maxOutputTokensField : RecordField (Option Nat) :=
  .omittable "max_output_tokens" .nat32

def storeField : RecordField (Option Bool) :=
  .omittable "store" .bool

def effortField (dialect : Dialect) : RecordField (Option Effort) :=
  .omittable "reasoning_effort" (alternative dialect Effort.named?)

def summaryField (dialect : Dialect) : RecordField (Option SummaryMode) :=
  .omittable "reasoning_summary" (alternative dialect SummaryMode.named?)

def encryptedReasoningField : RecordField Bool :=
  .defaulted "encrypted_reasoning" .bool false

def extrasField : RecordField (List String) :=
  .defaulted "include" (.list .string) []

/-- Reads the options of a caller. -/
def decode (dialect : Dialect) : Decoder CallOptions := fun r => do
  let c ← cells dialect [maxOutputTokensField.probe, storeField.probe, (effortField dialect).probe,
    (summaryField dialect).probe, encryptedReasoningField.probe, extrasField.probe] r
  return {
    maxOutputTokens := ← c.get maxOutputTokensField
    store := ← c.get storeField
    effort := ← c.get (effortField dialect)
    summary := ← c.get (summaryField dialect)
    encryptedReasoning := ← c.get encryptedReasoningField
    extras := ← c.get extrasField }

end CallOptions

/-! ## What is sent -/

/-- The wish for thinking. -/
structure Reasoning where
  /-- How much. -/
  effort : Effort
  /-- How to sum it up. -/
  summary : Option SummaryMode
  deriving DecidableEq, Inhabited

/-- The JSON form of the wish for thinking. -/
def Reasoning.encode (r : Reasoning) : Value :=
  .object <| member "effort" (.string r.effort.name)
    ++ member? "summary" (fun mode => .string mode.name) r.summary

/-- The options of one request. -/
structure SentOptions where
  /-- A bound on the length of the answer. -/
  maxOutputTokens : Option Nat
  /-- How freely the model is to choose its words. -/
  temperature : Option Binary64
  /-- Which tools the model may call. -/
  toolChoice : Option String
  /-- The wish for thinking. -/
  reasoning : Option Reasoning
  /-- What else the answer is to include. -/
  extras : Option (List String)
  /-- Whether the backend is to keep the answer. -/
  store : Option Bool
  /-- Whether the answer is to come in pieces. -/
  stream : Option Bool
  deriving DecidableEq, Inhabited

/-- The members that the options add to a request. -/
def SentOptions.members (o : SentOptions) : List (String × Value) :=
  member? "max_output_tokens" .nat o.maxOutputTokens
    ++ member? "temperature" (fun x => .number (.float x)) o.temperature
    ++ member? "tool_choice" .string o.toolChoice
    ++ member? "reasoning" Reasoning.encode o.reasoning
    ++ member? "include" (fun names => .array (names.map .string)) o.extras
    ++ member? "store" .bool o.store
    ++ member? "stream" .bool o.stream

/-- The JSON form of the options. -/
def SentOptions.encode (o : SentOptions) : Value :=
  .object o.members

end Courier.Wire
