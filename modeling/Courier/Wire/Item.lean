import Courier.Dialogue.Turn
import Courier.Json.Basic

/-!
# Input items

What a backend is given to read: messages, tool calls, tool outputs and reasoning. `Item.encode` is
the JSON form of an item. The output of a tool is sent as its text alone.
-/

namespace Courier.Wire

open Courier.Dialogue Courier.Json

/-- Whose words a message holds. -/
inductive Role where
  /-- Instructions. -/
  | system
  /-- The user. -/
  | user
  /-- The model. -/
  | assistant
  deriving DecidableEq, Inhabited

/-- A part of a message: a text for the model, or one by it. -/
inductive Content where
  /-- A text for the model. -/
  | input (text : String)
  /-- A text by the model. -/
  | output (text : String)
  deriving DecidableEq, Inhabited

/-- One entry of the input. -/
inductive Item where
  /-- A message, with its own type written out if it is `wrapped`. -/
  | message (wrapped : Bool) (role : Role) (content : List Content)
  /-- A tool call. -/
  | call (callId name arguments : String)
  /-- The output of a tool. -/
  | output (callId : String) (output : ToolOutput)
  /-- Reasoning, by its summary texts. -/
  | reasoning (id : String) (summary : List String) (encrypted : Option String)
  deriving DecidableEq, Inhabited

/-- The name of a role. -/
def Role.name : Role → String
  | .system => "system"
  | .user => "user"
  | .assistant => "assistant"

/-- A text with its type. -/
def typedText (type text : String) : Value :=
  .object [("type", .string type), ("text", .string text)]

/-- The JSON form of a part of a message. -/
def Content.encode : Content → Value
  | .input text => typedText "input_text" text
  | .output text => typedText "output_text" text

namespace Item

/-- The JSON form of an item. -/
def encode : Item → Value
  | .message wrapped role content =>
    .object <| (if wrapped then member "type" (.string "message") else [])
      ++ member "role" (.string role.name)
      ++ member "content" (.array (content.map Content.encode))
  | .call callId name arguments =>
    .object [("type", .string "function_call"), ("call_id", .string callId),
      ("name", .string name), ("arguments", .string arguments)]
  | .output callId o =>
    .object [("type", .string "function_call_output"), ("call_id", .string callId),
      ("output", .string o.content)]
  | .reasoning id summary encrypted =>
    .object <| member "type" (.string "reasoning")
      ++ member "id" (.string id)
      ++ member "summary" (.array (summary.map (typedText "summary_text")))
      ++ member? "encrypted_content" .string encrypted

/-- The call that an item makes or answers. -/
def callId? : Item → Option String
  | .call callId _ _ => some callId
  | .output callId _ => some callId
  | _ => none

/-- An item is reasoning. -/
def isReasoning : Item → Bool
  | .reasoning .. => true
  | _ => false

end Item

/-- The JSON form of several items. -/
def encodeItems (items : List Item) : Value :=
  .array (items.map Item.encode)

end Courier.Wire
