import Kaalm.Foundation.GoJson

/-!
# Anthropic events to OpenAI chunks

The translator of an Anthropic stream for a caller that speaks OpenAI. An event is named by the
`type` in its data, or by the `event` line before it. `sent` is what the translator has written so
far, over all calls; a chunk is modelled by its fields, not by the text of its line.
-/

namespace Kaalm.Translate

open Ascii GoJson

/-! ## Events -/

/-- One event. The values that are passed on keep whatever JSON type the upstream sent. -/
structure AnthropicEvent where
  type : String := ""
  index : ℤ := 0
  deltaType : String := ""
  text : Tree := .null
  partialJson : Tree := .null
  stopReason : String := ""
  message : Tree := .null
  contentBlock : Tree := .null
  usage : Tree := .null
  error : Tree := .null

namespace AnthropicEvent

/-- The `delta` of an event. -/
def deltaDecoder : Decoder AnthropicEvent := .struct
  [("type", .field deltaType (fun e s ↦ { e with deltaType := s }) .string),
   ("text", .field text (fun e t ↦ { e with text := t }) .any),
   ("partial_json", .field partialJson (fun e t ↦ { e with partialJson := t }) .any),
   ("stop_reason", .field stopReason (fun e s ↦ { e with stopReason := s }) .string)]

def decoder : Decoder AnthropicEvent := .struct
  [("type", .field type (fun e s ↦ { e with type := s }) .string),
   ("index", .field index (fun e n ↦ { e with index := n }) .float64),
   ("delta", deltaDecoder),
   ("message", .field message (fun e t ↦ { e with message := t }) .any),
   ("content_block", .field contentBlock (fun e t ↦ { e with contentBlock := t }) .any),
   ("usage", .field usage (fun e t ↦ { e with usage := t }) .any),
   ("error", .field error (fun e t ↦ { e with error := t }) .any)]

/-- A field of the wrong type reads as absent; data that is not an object, or not JSON, is dropped.
-/
def ofData (data : List UInt8) : Option AnthropicEvent :=
  match unmarshal {} decoder data with
  | some (e, false) => some e
  | some (e, true) => if data.head? = some lbrace then some e else none
  | none => none

end AnthropicEvent

/-- What a line of an Anthropic stream is for the translator. -/
inductive AnthropicLine
  /-- The name of the next event. -/
  | name (event : String)
  | event (type : String) (e : AnthropicEvent)
  | dropped

/-- `event` is the name in the last `event` line. -/
def anthropicLine (event : String) (line : List UInt8) : AnthropicLine :=
  match Utf8.cutPrefix line (bytes "event:") with
  | some name => .name (String.ofList (Utf8.decode (Utf8.trimSpace name)))
  | none =>
    match Utf8.cutPrefix line (bytes "data:") with
    | none => .dropped
    | some data =>
      match AnthropicEvent.ofData (Utf8.trimSpace data) with
      | some e => .event (if e.type = "" then event else e.type) e
      | none => .dropped

/-! ## Chunks -/

/-- What every chunk of a stream carries. -/
structure ChunkHead where
  id : String
  created : ℤ
  model : String
  deriving DecidableEq

inductive ChunkDelta
  | role
  | content (content : Tree)
  | toolStart (index : ℕ) (id name : Tree)
  | toolArguments (index : ℕ) (arguments : Tree)
  | empty

inductive OpenAIOut
  | chunk (head : ChunkHead) (delta : ChunkDelta) (finishReason : Option String)
  | usage (head : ChunkHead) (promptTokens completionTokens totalTokens : ℤ)
  | error (error : Tree)
  | done

def stopToFinish (stop : String) : Option String :=
  if stop = "end_turn" then some "stop"
  else if stop = "max_tokens" then some "length"
  else if stop = "tool_use" then some "tool_calls"
  else if stop = "stop_sequence" then some "stop"
  else if stop = "refusal" then some "content_filter"
  else if stop = "pause_turn" then some "stop"
  else none

/-! ## The translator -/

structure ToOpenAI where
  model : String
  id : String
  created : ℤ
  event : String := ""
  toolIndex : ℕ := 0
  /-- From the number of a block to the index of its tool call. -/
  blocks : List (ℤ × ℕ) := []
  inputTokens : ℤ := 0
  outputTokens : ℤ := 0
  finished : Bool := false
  done : Bool := false
  sent : List OpenAIOut := []

namespace ToOpenAI

def head (s : ToOpenAI) : ChunkHead := { id := s.id, created := s.created, model := s.model }

def write (s : ToOpenAI) (out : List OpenAIOut) : ToOpenAI := { s with sent := s.sent ++ out }

def chunk (s : ToOpenAI) (delta : ChunkDelta) (finish : Option String) : ToOpenAI :=
  s.write [.chunk s.head delta finish]

/-- The usage chunk and the terminator. -/
def writeEnd (s : ToOpenAI) : ToOpenAI :=
  s.write [.usage s.head s.inputTokens s.outputTokens (s.inputTokens + s.outputTokens), .done]

/-- `Finish`. -/
def finish (s : ToOpenAI) : ToOpenAI :=
  if s.done then s
  else if !s.finished then ({ s with done := true }.chunk .empty (some "stop")).writeEnd
  else { s with done := true }.writeEnd

def messageStart (s : ToOpenAI) (e : AnthropicEvent) : ToOpenAI :=
  let s := match (e.message.member "model").string? with
    | some m => if m ≠ "" then { s with model := m } else s
    | none => s
  let usage := e.message.member "usage"
  let s := if usage.isObject then
      { s with inputTokens := ((usage.member "input_tokens").int?).getD 0 }
    else s
  s.chunk .role none

def blockStart (s : ToOpenAI) (e : AnthropicEvent) : ToOpenAI :=
  if (e.contentBlock.member "type").string? ≠ some "tool_use" then s
  else
    let s := { s with blocks := (e.index, s.toolIndex) :: s.blocks }
    { s.chunk (.toolStart s.toolIndex (e.contentBlock.member "id") (e.contentBlock.member "name"))
    none
      with toolIndex := s.toolIndex + 1 }

def blockDelta (s : ToOpenAI) (e : AnthropicEvent) : ToOpenAI :=
  if e.deltaType = "text_delta" then s.chunk (.content e.text) none
  else if e.deltaType = "input_json_delta" then
    s.chunk (.toolArguments ((s.blocks.lookup e.index).getD 0) e.partialJson) none
  else s

def readUsage (s : ToOpenAI) (e : AnthropicEvent) : ToOpenAI :=
  if e.usage.isObject then
    { s with
      outputTokens := ((e.usage.member "output_tokens").int?).getD s.outputTokens
      inputTokens := (((e.usage.member "input_tokens").int?).filter fun n ↦ 0 < n).getD
        s.inputTokens }
  else s

def messageDelta (s : ToOpenAI) (e : AnthropicEvent) : ToOpenAI :=
  { s.readUsage e with finished := true }.chunk .empty
    (some ((stopToFinish e.stopReason).getD "stop"))

def onError (s : ToOpenAI) (e : AnthropicEvent) : ToOpenAI :=
  { s with done := true }.write [.error e.error, .done]

def onEvent (s : ToOpenAI) (type : String) (e : AnthropicEvent) : ToOpenAI :=
  if type = "message_start" then s.messageStart e
  else if type = "content_block_start" then s.blockStart e
  else if type = "content_block_delta" then s.blockDelta e
  else if type = "message_delta" then s.messageDelta e
  else if type = "message_stop" then s.finish
  else if type = "error" then s.onError e
  else s

/-- `Feed`. -/
def feed (s : ToOpenAI) (line : List UInt8) : ToOpenAI :=
  match anthropicLine s.event line with
  | .name event => { s with event := event }
  | .event type e => s.onEvent type e
  | .dropped => s

/-- Everything that is written for a stream, with the final `Finish`. -/
def translate (s : ToOpenAI) (lines : List (List UInt8)) : List OpenAIOut :=
  (lines.foldl feed s).finish.sent

end ToOpenAI

/-! ## The events of a stream -/

/-- The events of a stream with their types. `event` is the name in the last `event` line. -/
def anthropicEvents (event : String) : List (List UInt8) → List (String × AnthropicEvent)
  | [] => []
  | line :: lines =>
    match anthropicLine event line with
    | .name event => anthropicEvents event lines
    | .event type e => (type, e) :: anthropicEvents event lines
    | .dropped => anthropicEvents event lines

namespace ToOpenAI

def onEvents (s : ToOpenAI) (events : List (String × AnthropicEvent)) : ToOpenAI :=
  events.foldl (fun s x ↦ s.onEvent x.1 x.2) s

variable {s : ToOpenAI}

theorem finish_event (event : String) :
    ({ s with event := event } : ToOpenAI).finish = { s.finish with event := event } := by
  rw [finish, finish]
  split_ifs
  · rfl
  · rfl
  · rfl

private theorem messageStart_event (event : String) (e : AnthropicEvent) :
    ({ s with event := event } : ToOpenAI).messageStart e
      = { s.messageStart e with event := event } := by
  rw [messageStart, messageStart]
  cases (e.message.member "model").string? with
  | none =>
    simp only
    split_ifs
    · rfl
    · rfl
  | some m =>
    simp only
    split_ifs
    · rfl
    · rfl
    · rfl
    · rfl

private theorem messageDelta_event (event : String) (e : AnthropicEvent) :
    ({ s with event := event } : ToOpenAI).messageDelta e
      = { s.messageDelta e with event := event } := by
  rw [messageDelta, messageDelta, readUsage, readUsage]
  split_ifs
  · rfl
  · rfl

/-- The name in the last `event` line only matters for the type of the next event. -/
theorem onEvent_event (event type : String) (e : AnthropicEvent) :
    ({ s with event := event } : ToOpenAI).onEvent type e
      = { s.onEvent type e with event := event } := by
  rw [onEvent, onEvent]
  split_ifs
  · exact messageStart_event event e
  · rw [blockStart, blockStart]
    split_ifs
    · rfl
    · rfl
  · rw [blockDelta, blockDelta]
    split_ifs
    · rfl
    · rfl
    · rfl
  · exact messageDelta_event event e
  · exact finish_event event
  · rfl
  · rfl

theorem event_onEvent (type : String) (e : AnthropicEvent) :
    (s.onEvent type e).event = s.event := by
  have hsame : s.onEvent type e = { s.onEvent type e with event := s.event } :=
    onEvent_event (s := s) s.event type e
  rw [hsame]

theorem onEvents_event (event : String) (events : List (String × AnthropicEvent)) :
    ({ s with event := event } : ToOpenAI).onEvents events
      = { s.onEvents events with event := event } := by
  induction events generalizing s with
  | nil => rfl
  | cons x events ih =>
    rw [onEvents, List.foldl_cons, onEvent_event]
    exact ih

theorem foldl_feed_eq (lines : List (List UInt8)) :
    ∃ event, lines.foldl feed s
      = { s.onEvents (anthropicEvents s.event lines) with event := event } := by
  induction lines generalizing s with
  | nil => exact ⟨s.event, rfl⟩
  | cons line lines ih =>
    rw [List.foldl_cons, feed, anthropicEvents]
    cases anthropicLine s.event line with
    | name event =>
      obtain ⟨event', hih⟩ := ih (s := { s with event := event })
      refine ⟨event', hih.trans ?_⟩
      rw [onEvents_event]
    | event type e =>
      obtain ⟨event', hih⟩ := ih (s := s.onEvent type e)
      refine ⟨event', hih.trans ?_⟩
      rw [event_onEvent]
      rfl
    | dropped => exact ih

/-- A stream is translated event by event. -/
theorem translate_eq (lines : List (List UInt8)) :
    s.translate lines = (s.onEvents (anthropicEvents s.event lines)).finish.sent := by
  obtain ⟨event, hfeed⟩ := foldl_feed_eq (s := s) lines
  rw [translate, hfeed, finish_event]

end ToOpenAI

end Kaalm.Translate
