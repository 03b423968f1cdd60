import Courier.Json.Decode

/-!
# Backend profiles

Backends that speak the same protocol differ in what they accept. A `Profile` is one backend's
contract as data; whatever is made for a backend looks at its profile and at nothing else.
-/

namespace Courier

open Courier.Json Courier.Numeric

/-- What the program calls itself unless a profile says otherwise. -/
def defaultOriginator : String := "responses_sdk_rs"

/-- The contract of one backend. -/
structure Profile where
  /-- The name of the backend. -/
  backendId : String
  /-- The URL that requests go to. -/
  endpointUrl : String
  /-- The instructions sent with every request, white space at the ends apart. -/
  instructions : String
  /-- The model that is asked for. -/
  model : String
  /-- Messages say that they are messages. -/
  wrapsMessages : Bool
  /-- System texts go in front of the first user text, not into messages of their own. -/
  movesSystem : Bool
  /-- The length of the answer may be bounded. -/
  allowsMaxOutputTokens : Bool
  /-- The backend may be told whether to keep the answer. -/
  allowsStore : Bool
  /-- What the backend is told about keeping, whatever the caller wants. -/
  forcedStore : Option Bool
  /-- The temperature of every request. -/
  temperature : Option Binary64
  /-- The tool choice of every request. -/
  toolChoice : Option String
  /-- The backend takes wishes for thinking and for what to include. -/
  allowsReasoning : Bool
  /-- The backend takes reasoning back. -/
  supportsReasoning : Bool
  /-- Every tool output needs its call in the same request. -/
  requiresPairing : Bool
  /-- Answers only come in pieces. -/
  requiresStreaming : Bool
  /-- What the program calls itself. -/
  originator : String
  /-- The user agent, in place of the computed one. -/
  userAgent : Option String
  /-- Headers of every request. -/
  headers : Dict String
  deriving DecidableEq, Inhabited

namespace Profile

/-! ## JSON form -/

/-- The JSON form of a profile, with every key. -/
def encode (p : Profile) : Value :=
  .object [
    ("backend_id", .string p.backendId),
    ("endpoint_url", .string p.endpointUrl),
    ("instructions_text", .string p.instructions),
    ("model_name", .string p.model),
    ("wraps_content_in_type_field", .bool p.wrapsMessages),
    ("moves_system_into_first_user_message", .bool p.movesSystem),
    ("allows_max_output_tokens", .bool p.allowsMaxOutputTokens),
    ("allows_store_flag", .bool p.allowsStore),
    ("forced_store", .orNull .bool p.forcedStore),
    ("temperature", .orNull (fun x => .number (.float x)) p.temperature),
    ("tool_choice", .orNull .string p.toolChoice),
    ("allows_reasoning_options", .bool p.allowsReasoning),
    ("supports_reasoning_items", .bool p.supportsReasoning),
    ("requires_same_batch_pairing", .bool p.requiresPairing),
    ("requires_streaming", .bool p.requiresStreaming),
    ("originator_header_value", .string p.originator),
    ("user_agent", .orNull .string p.userAgent),
    ("http_headers", .object (p.headers.entries.map fun e => (e.1, .string e.2)))]

/-! ## Fields -/

def backendIdField : RecordField String := .required "backend_id" .string
def endpointUrlField : RecordField String := .required "endpoint_url" .string
def instructionsField : RecordField String := .defaulted "instructions_text" .string ""
def modelField : RecordField String := .required "model_name" .string
def wrapsMessagesField : RecordField Bool := .defaulted "wraps_content_in_type_field" .bool false
def movesSystemField : RecordField Bool :=
  .defaulted "moves_system_into_first_user_message" .bool false
def allowsMaxOutputTokensField : RecordField Bool :=
  .defaulted "allows_max_output_tokens" .bool false
def allowsStoreField : RecordField Bool := .defaulted "allows_store_flag" .bool false
def forcedStoreField : RecordField (Option Bool) := .omittable "forced_store" .bool
def temperatureField : RecordField (Option Binary64) := .omittable "temperature" .float
def toolChoiceField : RecordField (Option String) := .omittable "tool_choice" .string
def allowsReasoningField : RecordField Bool := .defaulted "allows_reasoning_options" .bool false
def supportsReasoningField : RecordField Bool := .defaulted "supports_reasoning_items" .bool false
def requiresPairingField : RecordField Bool := .defaulted "requires_same_batch_pairing" .bool true
def requiresStreamingField : RecordField Bool := .defaulted "requires_streaming" .bool false
def originatorField : RecordField String :=
  .defaulted "originator_header_value" .string defaultOriginator
def userAgentField : RecordField (Option String) := .omittable "user_agent" .string
def headersField : RecordField (Dict String) := .defaulted "http_headers" (.dict .string) .empty

/-- The fields of a profile in their order. -/
def probes : List (String × (Reading → Option Fault)) :=
  [backendIdField.probe, endpointUrlField.probe, instructionsField.probe, modelField.probe,
    wrapsMessagesField.probe, movesSystemField.probe, allowsMaxOutputTokensField.probe,
    allowsStoreField.probe, forcedStoreField.probe, temperatureField.probe, toolChoiceField.probe,
    allowsReasoningField.probe, supportsReasoningField.probe, requiresPairingField.probe,
    requiresStreamingField.probe, originatorField.probe, userAgentField.probe, headersField.probe]

/-- The profile that some fields make up. -/
def ofCells (c : Cells) : Except Fault Profile := do
  return {
    backendId := ← c.get backendIdField
    endpointUrl := ← c.get endpointUrlField
    instructions := ← c.get instructionsField
    model := ← c.get modelField
    wrapsMessages := ← c.get wrapsMessagesField
    movesSystem := ← c.get movesSystemField
    allowsMaxOutputTokens := ← c.get allowsMaxOutputTokensField
    allowsStore := ← c.get allowsStoreField
    forcedStore := ← c.get forcedStoreField
    temperature := ← c.get temperatureField
    toolChoice := ← c.get toolChoiceField
    allowsReasoning := ← c.get allowsReasoningField
    supportsReasoning := ← c.get supportsReasoningField
    requiresPairing := ← c.get requiresPairingField
    requiresStreaming := ← c.get requiresStreamingField
    originator := ← c.get originatorField
    userAgent := ← c.get userAgentField
    headers := ← c.get headersField }

/-- Reads a profile. -/
def decode (dialect : Dialect) : Decoder Profile := fun r =>
  cells dialect probes r >>= ofCells

end Profile

end Courier
