import Courier.Profile.Basic
import Courier.Text.Blank

/-!
# The profiles that are always there

Two backends are known without any configuration: the public API, which is asked with an API key,
and the subscription backend, which takes flat messages, no system messages, no reasoning and only
requests for an answer in pieces.
-/

namespace Courier

namespace Profile

/-- The instructions of both profiles. -/
def baseInstructions : String :=
  Text.trim <| "You are a coding agent running in the user's workspace. You can read files, run "
    ++ "commands, and edit code through the tools you are given.\n"
    ++ "\n"
    ++ "- Keep changes focused on the task you were asked to do.\n"
    ++ "- Use the `apply_patch` tool to edit files; never print whole files back to the user.\n"
    ++ "- Explain what you changed and why, briefly, once the work is done.\n"

/-- The name of the public API. -/
def openaiId : String := "openai"

/-- The name of the subscription backend. -/
def codexId : String := "chatgpt-codex"

/-- The public API. -/
def openai : Profile where
  backendId := openaiId
  endpointUrl := "https://api.openai.com/v1/responses"
  instructions := baseInstructions
  model := "gpt-5-mini"
  wrapsMessages := true
  movesSystem := false
  allowsMaxOutputTokens := true
  allowsStore := true
  forcedStore := none
  temperature := some (Numeric.Binary64.ofInt 1)
  toolChoice := some "auto"
  allowsReasoning := true
  supportsReasoning := true
  requiresPairing := true
  requiresStreaming := false
  originator := defaultOriginator
  userAgent := none
  headers := .empty

/-- The subscription backend. -/
def codex : Profile where
  backendId := codexId
  endpointUrl := "https://chatgpt.com/backend-api/codex/responses"
  instructions := baseInstructions
  model := "gpt-5-codex"
  wrapsMessages := false
  movesSystem := true
  allowsMaxOutputTokens := false
  allowsStore := true
  forcedStore := some false
  temperature := none
  toolChoice := none
  allowsReasoning := false
  supportsReasoning := false
  requiresPairing := true
  requiresStreaming := true
  originator := "codex_cli_rs"
  userAgent := none
  headers := Dict.empty.insert "OpenAI-Beta" "responses=experimental"

/-- The built-in profiles by name. -/
def builtins : Dict Profile :=
  (Dict.empty.insert openaiId openai).insert codexId codex

end Profile

end Courier
