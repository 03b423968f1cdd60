/-!
# Turns

A dialogue with a model is a list of turns, in a form that no backend dictates. System turns give
instructions; user and assistant turns are what was said; a reasoning turn is kept so that it can be
shown to the model again; a tool call and its result belong together by the id of the call.
-/

namespace Courier.Dialogue

/-- What a tool gave back. A failed tool gives back a text that says so; `success` is known only on
this side and never sent. -/
structure ToolOutput where
  /-- The text for the model. -/
  content : String
  /-- Whether the tool succeeded, if that is known. -/
  success : Option Bool
  deriving DecidableEq, Inhabited

/-- One unit of a dialogue. -/
inductive Turn where
  /-- Instructions. -/
  | system (text : String)
  /-- What the user said. -/
  | user (text : String)
  /-- What the model said. -/
  | assistant (text : String)
  /-- What the model thought, with the state it wants back, if it gave any. -/
  | reasoning (id content : String) (encrypted : Option String)
  /-- The model asks for a tool; the arguments are the JSON text that it wrote. -/
  | toolCall (callId name arguments : String)
  /-- The tool's answer to a call. -/
  | toolResult (callId : String) (output : ToolOutput)
  deriving DecidableEq, Inhabited

namespace Turn

/-- A system turn. -/
def isSystem : Turn → Bool
  | .system _ => true
  | _ => false

/-- A user turn. -/
def isUser : Turn → Bool
  | .user _ => true
  | _ => false

/-- A reasoning turn. -/
def isReasoning : Turn → Bool
  | .reasoning .. => true
  | _ => false

/-- The id of the call that a turn makes. -/
def madeCall? : Turn → Option String
  | .toolCall callId _ _ => some callId
  | _ => none

end Turn

end Courier.Dialogue
