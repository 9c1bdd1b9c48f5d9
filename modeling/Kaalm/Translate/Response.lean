import Kaalm.Foundation.JsonValue
import Kaalm.Translate.ToAnthropic
import Kaalm.Translate.ToOpenAI

/-!
# Whole answers

The translators of an answer that was not streamed. A result is modelled by what the written body
says, so a value that is written from an `any` is the one that its text says
(`JsonValue.marshalled`). `none` is an answer that does not decode.
-/

namespace Kaalm.Translate

open GoJson

def contentText : JsonValue → String
  | .string text => text
  | .array parts => "\n".intercalate (parts.filterMap fun part ↦ (part.member "text").string?)
  | _ => ""

/-! ## OpenAI to Anthropic -/

structure AnswerCall where
  id : String := ""
  name : String := ""
  arguments : String := ""
  deriving DecidableEq

structure AnswerChoice where
  content : JsonValue := .null
  toolCalls : List AnswerCall := []
  finishReason : String := ""

structure OpenAIResponse where
  id : String := ""
  model : String := ""
  choices : List AnswerChoice := []
  usage : TokenUsage := {}

def AnswerCall.functionDecoder : Decoder AnswerCall := .struct
  [("name", .field AnswerCall.name (fun c s ↦ { c with name := s }) .string),
   ("arguments", .field AnswerCall.arguments (fun c s ↦ { c with arguments := s }) .string)]

def AnswerCall.decoder : Decoder AnswerCall := .struct
  [("id", .field AnswerCall.id (fun c s ↦ { c with id := s }) .string),
   ("function", AnswerCall.functionDecoder)]

def AnswerChoice.messageDecoder : Decoder AnswerChoice := .struct
  [("content", .field AnswerChoice.content (fun c v ↦ { c with content := v }) .value),
   ("tool_calls", .field AnswerChoice.toolCalls (fun c ts ↦ { c with toolCalls := ts })
     (.slice {} AnswerCall.decoder))]

def AnswerChoice.decoder : Decoder AnswerChoice := .struct
  [("message", AnswerChoice.messageDecoder),
   ("finish_reason",
     .field AnswerChoice.finishReason (fun c s ↦ { c with finishReason := s }) .string)]

def OpenAIResponse.decoder : Decoder OpenAIResponse := .struct
  [("id", .field OpenAIResponse.id (fun r s ↦ { r with id := s }) .string),
   ("model", .field OpenAIResponse.model (fun r s ↦ { r with model := s }) .string),
   ("choices", .field OpenAIResponse.choices (fun r cs ↦ { r with choices := cs })
     (.slice {} AnswerChoice.decoder)),
   ("usage", .field OpenAIResponse.usage (fun r u ↦ { r with usage := u }) TokenUsage.decoder)]

inductive MessageBlock
  | text (text : String)
  | toolUse (id name : String) (input : JsonValue)

structure AnthropicMessage where
  id : String
  model : String
  content : List MessageBlock
  stopReason : String
  inputTokens : ℤ
  outputTokens : ℤ

/-- The `input` of a tool call, as an `any`. Arguments that do not decode are passed on as a
text. -/
def callInput (arguments : String) : JsonValue :=
  if arguments = "" then .object []
  else
    match (JsonText.parse (Ascii.bytes arguments)).bind fun d ↦ (ofValue d.value).toAny with
    | some input => input
    | none => .object [("_arguments", .string arguments)]

def AnswerChoice.blocks (choice : AnswerChoice) : List MessageBlock :=
  (if contentText choice.content ≠ "" then [.text (contentText choice.content)] else [])
    ++ choice.toolCalls.map fun call ↦
      .toolUse call.id call.name (callInput call.arguments).marshalled

def AnswerChoice.stopReason (choice : AnswerChoice) : String :=
  if choice.toolCalls ≠ [] then "tool_use" else (finishToStop choice.finishReason).getD "end_turn"

def openAIToAnthropicResponse (body : List UInt8) : Option AnthropicMessage :=
  match unmarshal {} OpenAIResponse.decoder body with
  | some (r, false) => some
    { id := r.id
      model := r.model
      content := (r.choices.head?.map AnswerChoice.blocks).getD []
      stopReason := (r.choices.head?.map AnswerChoice.stopReason).getD "end_turn"
      inputTokens := r.usage.promptTokens
      outputTokens := r.usage.completionTokens }
  | _ => none

/-! ## Anthropic to OpenAI -/

structure AnthropicUsage where
  inputTokens : ℤ := 0
  outputTokens : ℤ := 0
  cacheReadInputTokens : ℤ := 0
  cacheCreationInputTokens : ℤ := 0
  deriving DecidableEq

structure AnthropicResponse where
  id : String := ""
  model : String := ""
  content : List JsonValue := []
  stopReason : String := ""
  usage : AnthropicUsage := {}

def AnthropicUsage.decoder : Decoder AnthropicUsage := .struct
  [("input_tokens", .field AnthropicUsage.inputTokens
     (fun u n ↦ { u with inputTokens := n }) .int64),
   ("output_tokens", .field AnthropicUsage.outputTokens
     (fun u n ↦ { u with outputTokens := n }) .int64),
   ("cache_read_input_tokens", .field AnthropicUsage.cacheReadInputTokens
     (fun u n ↦ { u with cacheReadInputTokens := n }) .int64),
   ("cache_creation_input_tokens", .field AnthropicUsage.cacheCreationInputTokens
     (fun u n ↦ { u with cacheCreationInputTokens := n }) .int64)]

def AnthropicResponse.decoder : Decoder AnthropicResponse := .struct
  [("id", .field AnthropicResponse.id (fun r s ↦ { r with id := s }) .string),
   ("model", .field AnthropicResponse.model (fun r s ↦ { r with model := s }) .string),
   ("content", .field AnthropicResponse.content (fun r bs ↦ { r with content := bs })
     (.slice .null .map)),
   ("stop_reason", .field AnthropicResponse.stopReason
     (fun r s ↦ { r with stopReason := s }) .string),
   ("usage",
     .field AnthropicResponse.usage (fun r u ↦ { r with usage := u }) AnthropicUsage.decoder)]

/-- A tool call. `arguments` is what the text of that field says. -/
structure MessageCall where
  id : JsonValue
  name : JsonValue
  arguments : JsonValue

structure OpenAIMessage where
  id : String
  model : String
  content : Option String
  toolCalls : List MessageCall
  finishReason : String
  promptTokens : ℤ
  completionTokens : ℤ
  totalTokens : ℤ

/-- The text and the tool calls of the blocks so far. -/
def addBlock (r : String × List MessageCall) (block : JsonValue) : String × List MessageCall :=
  if (block.member "type").string? = some "text" then
    match (block.member "text").string? with
    | some text => ((if r.1 ≠ "" then r.1 ++ "\n" else r.1) ++ text, r.2)
    | none => r
  else if (block.member "type").string? = some "tool_use" then
    (r.1, r.2 ++ [{ id := (block.member "id").marshalled
                    name := (block.member "name").marshalled
                    arguments := (block.member "input").marshalled }])
  else r

def anthropicToOpenAIResponse (body : List UInt8) : Option OpenAIMessage :=
  match unmarshal {} AnthropicResponse.decoder body with
  | some (r, false) =>
    let message := r.content.foldl addBlock ("", [])
    let prompt :=
      r.usage.inputTokens + r.usage.cacheReadInputTokens + r.usage.cacheCreationInputTokens
    some
      { id := r.id
        model := r.model
        content := if message.1 ≠ "" then some message.1 else none
        toolCalls := message.2
        finishReason := (stopToFinish r.stopReason).getD "stop"
        promptTokens := prompt
        completionTokens := r.usage.outputTokens
        totalTokens := prompt + r.usage.outputTokens }
  | _ => none

end Kaalm.Translate
