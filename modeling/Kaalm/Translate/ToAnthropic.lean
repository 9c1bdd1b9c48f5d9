import Kaalm.Foundation.GoJson

/-!
# OpenAI chunks to Anthropic events

The translator of an OpenAI stream for a caller that speaks Anthropic. It is fed the lines of the
stream one by one and writes events. `sent` is what it has written so far, over all calls; an event
is modelled by its name and the fields of its payload, not by the text of its lines.

OpenAI addresses tool calls by an index, and text has none. Anthropic has numbered blocks, one after
another. The translator keeps one block open, and a map from the indexes of the tool calls to the
numbers of their blocks.
-/

namespace Kaalm.Translate

open Ascii GoJson

/-! ## Chunks -/

structure FunctionCall where
  name : String := ""
  arguments : String := ""
  deriving DecidableEq

structure ToolCall where
  index : ℤ := 0
  id : String := ""
  function : Option FunctionCall := none
  deriving DecidableEq

structure Choice where
  content : Option String := none
  toolCalls : List ToolCall := []
  finishReason : Option String := none
  deriving DecidableEq

structure TokenUsage where
  promptTokens : ℤ := 0
  completionTokens : ℤ := 0
  deriving DecidableEq

structure OpenAIChunk where
  model : String := ""
  choices : List Choice := []
  usage : Option TokenUsage := none
  deriving DecidableEq

def FunctionCall.decoder : Decoder FunctionCall := .struct
  [("name", .field FunctionCall.name (fun f s ↦ { f with name := s }) .string),
   ("arguments", .field FunctionCall.arguments (fun f s ↦ { f with arguments := s }) .string)]

def ToolCall.decoder : Decoder ToolCall := .struct
  [("index", .field ToolCall.index (fun c n ↦ { c with index := n }) .int64),
   ("id", .field ToolCall.id (fun c s ↦ { c with id := s }) .string),
   ("function", .field ToolCall.function (fun c f ↦ { c with function := f })
     (.pointer {} FunctionCall.decoder))]

/-- The `delta` of a choice. -/
def Choice.deltaDecoder : Decoder Choice := .struct
  [("content", .field Choice.content (fun c s ↦ { c with content := s }) (.pointer "" .string)),
   ("tool_calls", .field Choice.toolCalls (fun c ts ↦ { c with toolCalls := ts })
     (.slice {} ToolCall.decoder))]

def Choice.decoder : Decoder Choice := .struct
  [("delta", Choice.deltaDecoder),
   ("finish_reason", .field Choice.finishReason (fun c s ↦ { c with finishReason := s })
     (.pointer "" .string))]

def TokenUsage.decoder : Decoder TokenUsage := .struct
  [("prompt_tokens",
   .field TokenUsage.promptTokens (fun u n ↦ { u with promptTokens := n }) .int64),
     ("completion_tokens",
       .field TokenUsage.completionTokens (fun u n ↦ { u with completionTokens := n }) .int64)]

def OpenAIChunk.decoder : Decoder OpenAIChunk := .struct
  [("model", .field OpenAIChunk.model (fun c s ↦ { c with model := s }) .string),
   ("choices", .field OpenAIChunk.choices (fun c cs ↦ { c with choices := cs })
     (.slice {} Choice.decoder)),
   ("usage", .field OpenAIChunk.usage (fun c u ↦ { c with usage := u })
     (.pointer {} TokenUsage.decoder))]

/-- What a line of an OpenAI stream is for the translator. -/
inductive OpenAILine
  | done
  | chunk (c : OpenAIChunk)
  /-- Anything else: a blank line, a comment, or data that does not decode. -/
  | dropped
  deriving DecidableEq

def openAILine (line : List UInt8) : OpenAILine :=
  match Utf8.cutPrefix line (bytes "data:") with
  | none => .dropped
  | some rest =>
    let data := Utf8.trimSpace rest
    if data = bytes "[DONE]" then .done
    else match unmarshal {} OpenAIChunk.decoder data with
      | some (c, false) => .chunk c
      | _ => .dropped

/-! ## Events -/

inductive ContentBlock
  | text
  | toolUse (id name : String)
  deriving DecidableEq

inductive BlockDelta
  | text (text : String)
  | inputJson (partialJson : String)
  deriving DecidableEq

inductive AnthropicOut
  | messageStart (id model : String)
  | blockStart (index : ℕ) (block : ContentBlock)
  | blockDelta (index : ℕ) (delta : BlockDelta)
  | blockStop (index : ℕ)
  | messageDelta (stopReason : String) (inputTokens outputTokens : ℤ)
  | messageStop
  deriving DecidableEq

def finishToStop (finish : String) : Option String :=
  if finish = "stop" then some "end_turn"
  else if finish = "length" then some "max_tokens"
  else if finish = "tool_calls" then some "tool_use"
  else if finish = "content_filter" then some "refusal"
  else none

/-! ## The translator -/

structure ToAnthropic where
  model : String
  id : String
  started : Bool := false
  blockOpen : Bool := false
  blockIndex : ℕ := 0
  blockIsTool : Bool := false
  /-- From the index of a tool call to the number of its block. An entry follows as soon as the map
  is made, so the map is nil as long as it is empty. -/
  toolIndexes : List (ℤ × ℕ) := []
  finishReason : String := ""
  deltaSent : Bool := false
  stopped : Bool := false
  outputTokens : ℤ := 0
  inputTokens : ℤ := 0
  sent : List AnthropicOut := []
  deriving DecidableEq

namespace ToAnthropic

def event (s : ToAnthropic) (e : AnthropicOut) : ToAnthropic := { s with sent := s.sent ++ [e] }

def openBlock (s : ToAnthropic) (block : ContentBlock) (isTool : Bool) : ToAnthropic :=
  let s := if s.blockOpen then
      { s.event (.blockStop s.blockIndex) with blockIndex := s.blockIndex + 1 }
    else s
  { s with blockOpen := true, blockIsTool := isTool }.event (.blockStart s.blockIndex block)

def stopReason (s : ToAnthropic) : String :=
  if s.finishReason = "tool_calls" ∨ (s.toolIndexes ≠ [] ∧ s.finishReason = "stop") then "tool_use"
  else (finishToStop s.finishReason).getD "end_turn"

def messageDelta (s : ToAnthropic) : ToAnthropic :=
  let s := if s.blockOpen then
      { s.event (.blockStop s.blockIndex) with blockOpen := false }
    else s
  { s with deltaSent := true }.event (.messageDelta s.stopReason s.inputTokens s.outputTokens)

def stop (s : ToAnthropic) : ToAnthropic := { s with stopped := true }

/-- `Finish`. -/
def finish (s : ToAnthropic) : ToAnthropic :=
  if s.stopped then s
  else if !s.started then s.stop
  else (if !s.deltaSent then s.stop.messageDelta else s.stop).event .messageStop

/-- The first chunk. -/
def start (s : ToAnthropic) (chunk : OpenAIChunk) : ToAnthropic :=
  if s.started then s
  else
    let s := { s with started := true, model := if chunk.model ≠ "" then chunk.model else s.model }
    s.event (.messageStart s.id s.model)

def readUsage (s : ToAnthropic) (chunk : OpenAIChunk) : ToAnthropic :=
  match chunk.usage with
  | some u => { s with inputTokens := u.promptTokens, outputTokens := u.completionTokens }
  | none => s

def textDelta (s : ToAnthropic) (text : String) : ToAnthropic :=
  let s := if !s.blockOpen || s.blockIsTool then s.openBlock .text false else s
  s.event (.blockDelta s.blockIndex (.text text))

/-- The block of a tool call that is not known yet. -/
def openCall (s : ToAnthropic) (call : ToolCall) : ToAnthropic :=
  if (s.toolIndexes.lookup call.index).isSome then s
  else
    let s := s.openBlock (.toolUse call.id ((call.function.map FunctionCall.name).getD "")) true
    { s with toolIndexes := (call.index, s.blockIndex) :: s.toolIndexes }

def toolDelta (s : ToAnthropic) (call : ToolCall) : ToAnthropic :=
  let s := s.openCall call
  match call.function with
  | some f =>
    if f.arguments ≠ "" then
      s.event (.blockDelta ((s.toolIndexes.lookup call.index).getD 0) (.inputJson f.arguments))
    else s
  | none => s

def readContent (s : ToAnthropic) (choice : Choice) : ToAnthropic :=
  match choice.content with
  | some text => if text ≠ "" then s.textDelta text else s
  | none => s

def readFinish (s : ToAnthropic) (choice : Choice) : ToAnthropic :=
  match choice.finishReason with
  | some reason => if reason ≠ "" then { s with finishReason := reason } else s
  | none => s

def onChoice (s : ToAnthropic) (choice : Choice) : ToAnthropic :=
  (choice.toolCalls.foldl toolDelta (s.readContent choice)).readFinish choice

def onChunk (s : ToAnthropic) (chunk : OpenAIChunk) : ToAnthropic :=
  let s := chunk.choices.foldl onChoice ((s.start chunk).readUsage chunk)
  if s.finishReason ≠ "" ∧ chunk.usage.isSome ∧ s.deltaSent = false then s.messageDelta else s

/-- `Feed`. -/
def feed (s : ToAnthropic) (line : List UInt8) : ToAnthropic :=
  match openAILine line with
  | .done => s.finish
  | .chunk c => s.onChunk c
  | .dropped => s

/-- Everything that is written for a stream, with the final `Finish`. -/
def translate (s : ToAnthropic) (lines : List (List UInt8)) : List AnthropicOut :=
  (lines.foldl feed s).finish.sent

end ToAnthropic

end Kaalm.Translate
