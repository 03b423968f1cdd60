import Courier.Dialogue.Turn

/-!
# Conversations

A `Conversation` is a history of turns that only grows. `append` refuses a turn that would break one
of three rules, and a refused turn leaves no trace:

* system turns come before all others;
* no two calls have the same id;
* a result names a call that was made before it.

A conversation remembers the ids of its calls beside the turns. A `Snapshot` is a first part of a
conversation; it is all that a request is made from.
-/

namespace Courier.Dialogue

/-- The rule that a turn would break. -/
inductive Violation where
  /-- A result names a call that was not made. -/
  | unknownCall (callId : String)
  /-- A call has the id of an earlier one. -/
  | repeatedCall (callId : String)
  /-- A system turn comes after another kind of turn. -/
  | lateSystem
  deriving DecidableEq, Inhabited

/-- The wording of a broken rule. -/
def Violation.message : Violation → String
  | .unknownCall callId => "tool result references unknown call_id `" ++ callId ++ "`"
  | .repeatedCall callId => "tool call id `" ++ callId ++ "` is already in use"
  | .lateSystem => "system messages must precede every other turn"

/-- A history of turns. -/
structure Conversation where
  /-- What the session is known by. -/
  id : String
  /-- The turns, the oldest first. -/
  turns : List Turn
  /-- The ids of the calls among the turns. -/
  callIds : List String
  deriving DecidableEq, Inhabited

/-- The first turns of a conversation. -/
structure Snapshot where
  /-- The id of the conversation. -/
  conversationId : String
  /-- The turns, the oldest first. -/
  turns : List Turn
  deriving DecidableEq, Inhabited

namespace Conversation

/-- The conversation without turns. -/
def new (id : String) : Conversation :=
  ⟨id, [], []⟩

/-- Takes an id for a call, and tells whether it was free. -/
def takeCallId (callId : String) : EStateM Violation Conversation Bool := do
  if (← get).callIds.contains callId then return false
  modify fun c => { c with callIds := callId :: c.callIds }
  return true

/-- Adds a turn in place, unless the turn would break a rule. -/
def add (t : Turn) : EStateM Violation Conversation Unit := do
  match t with
  | .system _ =>
    if !(← get).turns.all Turn.isSystem then throw .lateSystem
  | .toolCall callId _ _ =>
    if !(← takeCallId callId) then throw (.repeatedCall callId)
  | .toolResult callId _ =>
    if !(← get).callIds.contains callId then throw (.unknownCall callId)
  | .user _ => pure ()
  | .assistant _ => pure ()
  | .reasoning .. => pure ()
  modify fun c => { c with turns := c.turns ++ [t] }

/-- A conversation with one more turn, unless the turn would break a rule. -/
def append (c : Conversation) (t : Turn) : Except Violation Conversation :=
  match add t c with
  | .ok () grown => .ok grown
  | .error v _ => .error v

/-- The conversation of some turns in a row. -/
def ofTurns (id : String) (turns : List Turn) : Except Violation Conversation :=
  turns.foldlM append (new id)

/-- How many turns there are. -/
def length (c : Conversation) : Nat :=
  c.turns.length

/-- The first `upto` turns, or as many as there are; all of them for `none`. -/
def snapshot (c : Conversation) (upto : Option Nat) : Snapshot :=
  ⟨c.id, c.turns.take (upto.getD c.length)⟩

end Conversation

end Courier.Dialogue
