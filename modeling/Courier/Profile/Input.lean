import Courier.Dialogue.Conversation
import Courier.Profile.Basic
import Courier.Wire.Item

/-!
# The input that a backend is sent

`Profile.items` turns the turns of a dialogue into input items for a backend, in their order. System
turns at the front become messages of their own or, for a backend that wants it so, a text in front
of the first user text. That text is carried along until a user turn takes it; if there is none, it
becomes a user message at the very front.
-/

namespace Courier.Profile

open Courier.Dialogue Courier.Wire

/-- What stands between a system text and the text after it. -/
def paragraphBreak : String := "\n\n"

/-- A message with one part. -/
def message (p : Profile) (role : Role) (content : Content) : Item :=
  .message p.wrapsMessages role [content]

/-- The texts of the system turns. -/
def systemTexts (turns : List Turn) : List String :=
  turns.filterMap fun
    | .system text => some text
    | _ => none

/-- A user text with the text that was carried up to it in front. -/
def withCarried (carried : Option String) (text : String) : String :=
  match carried with
  | some front => front ++ paragraphBreak ++ text
  | none => text

/-- The items of the turns after the system turns; `carried` is the text that still has to go in
front of a user text. -/
def dialogueItems (p : Profile) : Option String → List Turn → List Item
  | _, [] => []
  | carried, .user text :: rest =>
    p.message .user (.input (withCarried carried text)) :: dialogueItems p none rest
  | carried, .assistant text :: rest =>
    p.message .assistant (.output text) :: dialogueItems p carried rest
  | carried, .system _ :: rest => dialogueItems p carried rest
  | carried, .reasoning id content encrypted :: rest =>
    if p.supportsReasoning then
      .reasoning id [content] encrypted :: dialogueItems p carried rest
    else dialogueItems p carried rest
  | carried, .toolCall callId name arguments :: rest =>
    .call callId name arguments :: dialogueItems p carried rest
  | carried, .toolResult callId output :: rest =>
    .output callId output :: dialogueItems p carried rest

/-- The text that system turns carry to the first user text. -/
def carriedText (system : List Turn) : Option String :=
  match systemTexts system with
  | [] => none
  | texts => some (paragraphBreak.intercalate texts)

/-- The items of a dialogue. -/
def items (p : Profile) (turns : List Turn) : List Item :=
  let system := turns.takeWhile Turn.isSystem
  let rest := turns.dropWhile Turn.isSystem
  if p.movesSystem then
    match carriedText system with
    | some text =>
      if rest.any Turn.isUser then dialogueItems p (some text) rest
      else p.message .user (.input text) :: dialogueItems p none rest
    | none => dialogueItems p none rest
  else
    (systemTexts system).map (fun text => p.message .system (.input text))
      ++ dialogueItems p none rest

end Courier.Profile
