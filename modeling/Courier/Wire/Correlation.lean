import Courier.Dict
import Courier.Wire.Item

/-!
# Rules across items

A backend refuses input whose items do not fit together. `check` looks for the first item that
breaks a rule, from the front:

* an id is never used for calls of two tools;
* where it is asked for, an output follows its call;

and if there is none, the last item is not reasoning.
-/

namespace Courier.Wire

/-- The rule that some items break. -/
inductive Conflict where
  /-- An output has no call before it. -/
  | orphanOutput (callId : String)
  /-- The last item is reasoning. -/
  | trailingReasoning (id : String)
  /-- One id is used for calls of two tools. -/
  | renamedCall (callId first second : String)
  deriving DecidableEq, Inhabited

/-- The wording of a broken rule. -/
def Conflict.message : Conflict → String
  | .orphanOutput callId =>
    "tool output `" ++ callId ++ "` has no preceding tool call in the same request"
  | .trailingReasoning id => "reasoning item `" ++ id ++ "` would be the last input item"
  | .renamedCall callId first second =>
    "call_id `" ++ callId ++ "` is used by both `" ++ first ++ "` and `" ++ second ++ "`"

/-- Looks at the items from the front, given the tools that were called so far by call id. -/
def checkCalls (pairing : Bool) : Dict String → List Item → Except Conflict Unit
  | _, [] => .ok ()
  | calls, .call callId name _ :: rest =>
    match calls.get? callId with
    | some first =>
      if first = name then checkCalls pairing calls rest
      else .error (.renamedCall callId first name)
    | none => checkCalls pairing (calls.insert callId name) rest
  | calls, .output callId _ :: rest =>
    if pairing && !calls.contains callId then .error (.orphanOutput callId)
    else checkCalls pairing calls rest
  | calls, .message .. :: rest => checkCalls pairing calls rest
  | calls, .reasoning .. :: rest => checkCalls pairing calls rest

/-- Looks for a broken rule; `pairing` asks for each output's call before it. -/
def check (pairing : Bool) (items : List Item) : Except Conflict Unit := do
  checkCalls pairing .empty items
  match items.getLast? with
  | some (.reasoning id _ _) => throw (.trailingReasoning id)
  | _ => return ()

end Courier.Wire
