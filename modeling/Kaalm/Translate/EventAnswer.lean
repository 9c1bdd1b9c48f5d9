import Kaalm.Translate.Response
import Kaalm.Translate.StreamAnswer

/-!
# One answer in two translations: Anthropic to OpenAI

The other direction. An Anthropic answer is a list of blocks of text and tool calls, with the tokens
that it took. As a body it is translated at once, as a stream event by event, and a caller puts the
chunks together (`assembleChunks`).

The two do not treat everything alike. Several texts are joined by a newline in the body and without
one in the stream; the tokens that were read from or written to the cache count in the body only; a
tool call without input has the arguments `{}` in the body and none in the stream; and the body
decodes input, while the stream passes it on. Where none of this happens they agree.
-/

namespace Kaalm.Translate

open Ascii GoJson

/-! ## Answers -/

inductive AnswerBlock
  | text (text : String)
  | toolUse (id name : String) (input : JsonValue)

/-- What an Anthropic answer says. -/
structure AnthropicAnswer where
  content : List AnswerBlock
  stopReason : String
  usage : AnthropicUsage

/-- The block in a decoded body. -/
def AnswerBlock.IsDecoded : AnswerBlock → JsonValue → Prop
  | .text t, v => v.member "type" = .string "text" ∧ v.member "text" = .string t
  | .toolUse id name input, v => v.member "type" = .string "tool_use" ∧ v.member "id" = .string id
      ∧ v.member "name" = .string name ∧ v.member "input" = input.mapNumbers Float64.nearest

/-- The events of a block with this number: its start, deltas with the parts of its text or of its
input, and its stop. A tool call without input may come without any part of it. -/
inductive AnswerBlock.IsEvents : AnswerBlock → List String → ℕ → List (String × AnthropicEvent) →
  Prop
  | text {i : ℕ} {start stop : AnthropicEvent} {deltas : List AnthropicEvent} {parts : List String}
    (htype : (start.contentBlock.member "type").string? = some "text")
    (hdeltas : ∀ e ∈ deltas, e.deltaType = "text_delta")
    (hparts : deltas.map AnthropicEvent.text = parts.map Tree.string) :
    IsEvents (.text (String.join parts)) parts i (("content_block_start", start)
      :: ((deltas.map fun e ↦ ("content_block_delta", e)) ++ [("content_block_stop", stop)]))
  | toolUse {i : ℕ} {start stop : AnthropicEvent} {deltas : List AnthropicEvent}
    {parts : List String}
    {id name : String} {input : JsonValue}
    (htype : (start.contentBlock.member "type").string? = some "tool_use")
    (hid : start.contentBlock.member "id" = .string id)
    (hname : start.contentBlock.member "name" = .string name) (hindex : start.index = i)
    (hdeltas : ∀ e ∈ deltas, e.deltaType = "input_json_delta" ∧ e.index = i)
    (hparts : deltas.map AnthropicEvent.partialJson = parts.map Tree.string)
    (hinput : textValue (bytes (String.join parts)) = some input
      ∨ String.join parts = "" ∧ input = .object []) :
    IsEvents (.toolUse id name input) parts i (("content_block_start", start)
      :: ((deltas.map fun e ↦ ("content_block_delta", e)) ++ [("content_block_stop", stop)]))

/-- The events of blocks in parts, the first of which has this number. -/
inductive BlocksEvents : ℕ → List (AnswerBlock × List String) → List (String × AnthropicEvent) →
  Prop
  | nil {i : ℕ} : BlocksEvents i [] []
  | cons {i : ℕ} {b : AnswerBlock} {parts : List String} {bs : List (AnswerBlock × List String)}
    {events rest : List (String × AnthropicEvent)} (hblock : b.IsEvents parts i events)
    (hrest : BlocksEvents (i + 1) bs rest) : BlocksEvents i ((b, parts) :: bs) (events ++ rest)

/-- The number of tokens, as JSON. -/
def IsCount (t : Tree) (n : ℤ) : Prop :=
  ∃ text, t = .number text ∧ Decimal.parseFloat (String.ofList (Utf8.decode text)) = some (n : ℚ)

namespace AnthropicAnswer

variable (a : AnthropicAnswer)

/-- The body decodes to the answer. -/
def IsBody (body : List UInt8) : Prop :=
  ∃ r, unmarshal {} AnthropicResponse.decoder body = some (r, false)
    ∧ List.Forall₂ AnswerBlock.IsDecoded a.content r.content
    ∧ r.stopReason = a.stopReason ∧ r.usage = a.usage

/-- The events carry the answer in parts. The first one has the tokens of the request, and the one
after the blocks those of the answer. -/
inductive IsEvents (split : List (AnswerBlock × List String)) :
  List (String × AnthropicEvent) → Prop
  | mk {start delta stop : AnthropicEvent} {blocks : List (String × AnthropicEvent)}
    (hsplit : split.map Prod.fst = a.content) (hblocks : BlocksEvents 0 split blocks)
    (hstop : delta.stopReason = a.stopReason)
    (hinput : IsCount ((start.message.member "usage").member "input_tokens") a.usage.inputTokens)
    (hagain : delta.usage.member "input_tokens" = .null
      ∨ IsCount (delta.usage.member "input_tokens") a.usage.inputTokens)
    (houtput : IsCount (delta.usage.member "output_tokens") a.usage.outputTokens) :
    IsEvents split (("message_start", start)
      :: (blocks ++ [("message_delta", delta), ("message_stop", stop)]))

/-- The lines carry the answer in parts. -/
def IsStream (split : List (AnswerBlock × List String)) (lines : List (List UInt8)) : Prop :=
  a.IsEvents split ((anthropicEvents "" lines).filter fun x ↦ x.1 ≠ "ping")

end AnthropicAnswer

theorem AnthropicAnswer.IsStream.blocks {a : AnthropicAnswer}
    {split : List (AnswerBlock × List String)}
    {lines : List (List UInt8)} (h : a.IsStream split lines) :
    split.map Prod.fst = a.content ∧ ∃ events, BlocksEvents 0 split events := by
  rw [AnthropicAnswer.IsStream] at h
  generalize (anthropicEvents "" lines).filter (fun x ↦ x.1 ≠ "ping") = events at h
  cases h with
  | mk hsplit hblocks => exact ⟨hsplit, _, hblocks⟩

/-! ## What the caller makes of the chunks -/

structure PartialCall where
  id : Tree
  name : Tree
  arguments : String := ""

structure PartialMessage where
  text : String := ""
  calls : List PartialCall := []
  finishReason : Option String := none
  /-- The prompt tokens, the completion tokens and their total. -/
  usage : Option (ℤ × ℤ × ℤ) := none

namespace PartialMessage

def addText (m : PartialMessage) (text : String) : PartialMessage :=
    { m with text := m.text ++ text }

/-- The next tool call. -/
def addCall (m : PartialMessage) (call : PartialCall) : PartialMessage :=
  { m with calls := m.calls ++ [call] }

def addArguments (m : PartialMessage) (index : ℕ) (part : String) : PartialMessage :=
  { m with calls := m.calls.modify index fun c ↦ { c with arguments := c.arguments ++ part } }

def addDelta (m : PartialMessage) : ChunkDelta → PartialMessage
  | .role | .empty => m
  | .content content => m.addText (content.string?.getD "")
  | .toolStart index id name => if index = m.calls.length then m.addCall { id, name } else m
  | .toolArguments index arguments => m.addArguments index (arguments.string?.getD "")

def add (m : PartialMessage) : OpenAIOut → PartialMessage
  | .chunk _ delta finishReason =>
    { m.addDelta delta with finishReason := finishReason.or m.finishReason }
  | .usage _ prompt completion total => { m with usage := some (prompt, completion, total) }
  | .error _ | .done => m

end PartialMessage

/-- A message of a caller that speaks OpenAI. -/
structure AssembledChunks where
  text : String
  calls : List MessageCall
  finishReason : String
  promptTokens : ℤ
  completionTokens : ℤ
  totalTokens : ℤ

/-- The arguments are what their parts say together. -/
def PartialCall.assemble (c : PartialCall) : Option MessageCall :=
  (textValue (bytes c.arguments)).map fun arguments ↦
    { id := c.id.value, name := c.name.value, arguments }

def PartialMessage.assemble (m : PartialMessage) : Option AssembledChunks :=
  m.finishReason.bind fun finishReason ↦ m.usage.bind fun usage ↦
    (m.calls.mapM PartialCall.assemble).map fun calls ↦
      ⟨m.text, calls, finishReason, usage.1, usage.2.1, usage.2.2⟩

def assembleChunks (out : List OpenAIOut) : Option AssembledChunks :=
  (out.foldl PartialMessage.add {}).assemble

/-- What the message of a whole answer says of the same. No content is no text. -/
def OpenAIMessage.assembled (m : OpenAIMessage) : AssembledChunks :=
  ⟨m.content.getD "", m.toolCalls, m.finishReason, m.promptTokens, m.completionTokens,
    m.totalTokens⟩

/-! ## The stream -/

/-- The call with all of its arguments, and the text. -/
def PartialMessage.addSplit (m : PartialMessage) : AnswerBlock × List String → PartialMessage
  | (.text text, _) => m.addText text
  | (.toolUse id name _, parts) =>
    m.addCall { id := .string id, name := .string name, arguments := String.join parts }

theorem IsCount.int?_eq {t : Tree} {n : ℤ} (h : IsCount t n) :
    t.int? = (Float64.round n).map Float64.trunc := by
  obtain ⟨text, rfl, htext⟩ := h
  rw [Tree.int?, htext]
  rfl

/-- Something with a number in it is an object. -/
theorem IsCount.isObject {t : Tree} {name : String} {n : ℤ} (h : IsCount (t.member name) n) :
    t.isObject = true := by
  obtain ⟨text, htext, -⟩ := h
  cases t with
  | object ms => rfl
  | null => exact absurd htext (by simp [Tree.member])
  | bool b => exact absurd htext (by simp [Tree.member])
  | number n => exact absurd htext (by simp [Tree.member])
  | string s => exact absurd htext (by simp [Tree.member])
  | array ts => exact absurd htext (by simp [Tree.member])

namespace ToOpenAI

variable {s : ToOpenAI} {m : PartialMessage} {input : ℤ}

theorem onEvents_append (xs ys : List (String × AnthropicEvent)) :
    s.onEvents (xs ++ ys) = (s.onEvents xs).onEvents ys := List.foldl_append

/-- A ping does nothing. -/
theorem onEvents_filter (events : List (String × AnthropicEvent)) :
    s.onEvents (events.filter fun x ↦ x.1 ≠ "ping") = s.onEvents events := by
  induction events generalizing s with
  | nil => rfl
  | cons x events ih =>
    by_cases hping : x.1 = "ping"
    · have hsame : s.onEvent x.1 x.2 = s := by
        rw [hping]
        rfl
      rw [List.filter_cons_of_neg (by simpa using hping), ih]
      change _ = (s.onEvent x.1 x.2).onEvents events
      rw [hsame]
    · rw [List.filter_cons_of_pos (by simpa using hping)]
      exact ih

/-- What was written so far says `m`, and the stream is not at its end. -/
structure Carries (m : PartialMessage) (input : ℤ) (s : ToOpenAI) : Prop where
  sent : s.sent.foldl PartialMessage.add {} = m
  index : s.toolIndex = m.calls.length
  tokens : s.inputTokens = input
  done : s.done = false
  finished : s.finished = false

theorem foldl_add_chunk (s : ToOpenAI) (delta : ChunkDelta) :
    (s.chunk delta none).sent.foldl PartialMessage.add {}
      = (s.sent.foldl PartialMessage.add {}).addDelta delta := by
  change (s.sent ++ [OpenAIOut.chunk s.head delta none]).foldl PartialMessage.add {} = _
  rw [List.foldl_append]
  generalize s.sent.foldl PartialMessage.add {} = m
  cases delta with
  | role => rfl
  | content content => rfl
  | toolStart index id name =>
    change { PartialMessage.addDelta m (.toolStart index id name) with
      finishReason := m.finishReason } = _
    rw [PartialMessage.addDelta]
    split_ifs
    · rfl
    · rfl
  | toolArguments index arguments => rfl
  | empty => rfl

/-- Deltas with the parts of a text. -/
theorem Carries.texts {deltas : List AnthropicEvent} {parts : List String} (h : Carries m input s)
    (hdeltas : ∀ e ∈ deltas, e.deltaType = "text_delta")
    (hparts : deltas.map AnthropicEvent.text = parts.map Tree.string) :
    Carries (m.addText (String.join parts)) input
      (s.onEvents (deltas.map fun e ↦ ("content_block_delta", e))) := by
  induction deltas generalizing s m parts with
  | nil =>
    obtain rfl : parts = [] := List.map_eq_nil_iff.mp hparts.symm
    have hsame : m.addText (String.join []) = m := by
      rw [PartialMessage.addText, String.join_nil, String.append_empty]
    rw [hsame]
    exact h
  | cons e deltas ih =>
    obtain ⟨part, parts, rfl, htext, hparts⟩ := List.map_eq_cons_iff.mp hparts.symm
    have hevent : s.onEvent "content_block_delta" e = s.chunk (.content e.text) none := by
      change s.blockDelta e = _
      rw [blockDelta, if_pos (hdeltas e List.mem_cons_self)]
    have hchunk : Carries (m.addText part) input (s.onEvent "content_block_delta" e) := by
      rw [hevent, ← htext]
      refine ⟨?_, h.index, h.tokens, h.done, h.finished⟩
      rw [foldl_add_chunk, h.sent]
      rfl
    have hrest := ih hchunk (fun e' he' ↦ hdeltas e' (List.mem_cons_of_mem _ he')) hparts.symm
    rw [String.join_cons]
    rw [PartialMessage.addText, PartialMessage.addText, String.append_assoc] at hrest
    exact hrest

/-- Deltas with the parts of the input of the last tool call. -/
theorem Carries.arguments {deltas : List AnthropicEvent} {parts : List String} {i : ℤ}
    {call : PartialCall} (h : Carries (m.addCall call) input s)
    (hblock : s.blocks.lookup i = some m.calls.length)
    (hdeltas : ∀ e ∈ deltas, e.deltaType = "input_json_delta" ∧ e.index = i)
    (hparts : deltas.map AnthropicEvent.partialJson = parts.map Tree.string) :
    Carries (m.addCall { call with arguments := call.arguments ++ String.join parts }) input
      (s.onEvents (deltas.map fun e ↦ ("content_block_delta", e))) := by
  induction deltas generalizing s call parts with
  | nil =>
    obtain rfl : parts = [] := List.map_eq_nil_iff.mp hparts.symm
    rw [String.join_nil, String.append_empty]
    exact h
  | cons e deltas ih =>
    obtain ⟨part, parts, rfl, hpart, hparts⟩ := List.map_eq_cons_iff.mp hparts.symm
    obtain ⟨htype, hindex⟩ := hdeltas e List.mem_cons_self
    have hevent : s.onEvent "content_block_delta" e
        = s.chunk (.toolArguments m.calls.length e.partialJson) none := by
      change s.blockDelta e = _
      rw [blockDelta, if_neg (by rw [htype]; decide), if_pos htype, hindex, hblock,
        Option.getD_some]
    have hadd : (m.addCall call).addArguments m.calls.length part
        = m.addCall { call with arguments := call.arguments ++ part } := by
      rw [PartialMessage.addArguments, PartialMessage.addCall]
      simp [PartialMessage.addCall, List.modify_eq_take_cons_drop]
    have hchunk : Carries (m.addCall { call with arguments := call.arguments ++ part }) input
        (s.onEvent "content_block_delta" e) := by
      rw [hevent, ← hpart]
      refine ⟨?_, h.index.trans ?_, h.tokens, h.done, h.finished⟩
      · rw [foldl_add_chunk, h.sent]
        exact hadd
      · simp [PartialMessage.addCall]
    have hrest := ih hchunk (by rw [hevent]; exact hblock)
      (fun e' he' ↦ hdeltas e' (List.mem_cons_of_mem _ he')) hparts.symm
    rw [String.join_cons, ← String.append_assoc]
    exact hrest

/-- The events of a block. -/
theorem Carries.block {b : AnswerBlock} {parts : List String} {i : ℕ}
    {events : List (String × AnthropicEvent)} (h : Carries m input s)
    (hevents : b.IsEvents parts i events) :
    Carries (m.addSplit (b, parts)) input (s.onEvents events) := by
  have hstop (s : ToOpenAI) (stop : AnthropicEvent) :
      s.onEvents [("content_block_stop", stop)] = s := rfl
  cases hevents with
  | @text _ start stop deltas _ htype hdeltas hparts =>
    have hstart : s.onEvent "content_block_start" start = s := by
      change s.blockStart start = s
      rw [blockStart, if_pos (by rw [htype]; decide)]
    change Carries _ _ ((s.onEvent "content_block_start" start).onEvents _)
    rw [hstart, onEvents_append, hstop]
    exact h.texts hdeltas hparts
  | @toolUse _ start stop deltas _ id name _ htype hid hname hindex hdeltas hparts _ =>
    have hstart : s.onEvent "content_block_start" start
        = { { s with blocks := ((i : ℤ), s.toolIndex) :: s.blocks }.chunk
              (.toolStart s.toolIndex (.string id) (.string name)) none
            with toolIndex := s.toolIndex + 1 } := by
      change s.blockStart start = _
      rw [blockStart, if_neg (by rw [htype]; decide), hid, hname, hindex]
    have hcall : Carries (m.addCall { id := .string id, name := .string name }) input
        (s.onEvent "content_block_start" start) := by
      rw [hstart]
      refine ⟨?_, ?_, h.tokens, h.done, h.finished⟩
      · change (({ s with blocks := ((i : ℤ), s.toolIndex) :: s.blocks } : ToOpenAI).chunk
          (.toolStart s.toolIndex (.string id) (.string name)) none).sent.foldl
            PartialMessage.add {} = _
        rw [foldl_add_chunk, h.sent, PartialMessage.addDelta, if_pos h.index]
      · simp [PartialMessage.addCall, h.index]
    change Carries _ _ ((s.onEvent "content_block_start" start).onEvents _)
    rw [onEvents_append, hstop]
    have hlookup : (s.onEvent "content_block_start" start).blocks.lookup (i : ℤ)
        = some m.calls.length := by
      rw [hstart, ← h.index]
      exact List.lookup_cons_self
    have hall := hcall.arguments hlookup hdeltas hparts
    rw [String.empty_append] at hall
    exact hall

/-- The events of all blocks. -/
theorem Carries.blocks {split : List (AnswerBlock × List String)} {i : ℕ}
    {events : List (String × AnthropicEvent)} (h : Carries m input s)
    (hevents : BlocksEvents i split events) :
    Carries (split.foldl PartialMessage.addSplit m) input (s.onEvents events) := by
  induction hevents generalizing s m with
  | nil => exact h
  | cons hblock _ ih =>
    rw [onEvents_append, List.foldl_cons]
    exact ih (h.block hblock)

/-- The first event. -/
theorem carries_messageStart {start : AnthropicEvent} {n : ℤ} (model id : String) (created : ℤ)
    (hcount : IsCount ((start.message.member "usage").member "input_tokens") n)
    (hin : (Float64.round n).map Float64.trunc = some input) :
    Carries {} input (({ model, id, created } : ToOpenAI).onEvent "message_start" start) := by
  change Carries {} input (({ model, id, created } : ToOpenAI).messageStart start)
  rw [messageStart]
  simp only [hcount.isObject, hcount.int?_eq, hin, Option.getD_some, if_true]
  -- The model in the event only matters for the heads of the chunks.
  cases (start.message.member "model").string? with
  | none => exact ⟨rfl, rfl, rfl, rfl, rfl⟩
  | some model' =>
    simp only
    split_ifs
    · exact ⟨rfl, rfl, rfl, rfl, rfl⟩
    · exact ⟨rfl, rfl, rfl, rfl, rfl⟩

/-- The tokens after the event that ends the answer. -/
theorem Carries.readUsage {delta : AnthropicEvent} {n n' output : ℤ} (h : Carries m input s)
    (hagain : delta.usage.member "input_tokens" = .null
      ∨ IsCount (delta.usage.member "input_tokens") n)
    (houtput : IsCount (delta.usage.member "output_tokens") n')
    (hin : (Float64.round n).map Float64.trunc = some input)
    (hout : (Float64.round n').map Float64.trunc = some output) :
    s.readUsage delta = { s with outputTokens := output, inputTokens := input } := by
  have hinput : (((delta.usage.member "input_tokens").int?).filter fun n ↦ 0 < n).getD s.inputTokens
      = input := by
    rcases hagain with hnull | hcount
    · rw [hnull]
      exact h.tokens
    · rw [hcount.int?_eq, hin, Option.filter_some]
      split_ifs
      · rfl
      · exact h.tokens
  rw [ToOpenAI.readUsage, if_pos houtput.isObject, hinput, houtput.int?_eq, hout, Option.getD_some]

/-- The last two events: a finish reason and the tokens. -/
theorem Carries.last {delta stop : AnthropicEvent} {n n' output : ℤ} (h : Carries m input s)
    (hagain : delta.usage.member "input_tokens" = .null
      ∨ IsCount (delta.usage.member "input_tokens") n)
    (houtput : IsCount (delta.usage.member "output_tokens") n')
    (hin : (Float64.round n).map Float64.trunc = some input)
    (hout : (Float64.round n').map Float64.trunc = some output) :
    (s.onEvents [("message_delta", delta), ("message_stop", stop)]).finish.sent.foldl
        PartialMessage.add {}
      = { m with
          finishReason := some ((stopToFinish delta.stopReason).getD "stop")
          usage := some (input, output, input + output) } := by
  change (((s.messageDelta delta).finish).finish).sent.foldl PartialMessage.add {} = _
  have hdone : (s.messageDelta delta).done = false := by
    rw [messageDelta, h.readUsage hagain houtput hin hout]
    exact h.done
  have hfinish : (s.messageDelta delta).finish
      = ({ s.messageDelta delta with done := true } : ToOpenAI).writeEnd := by
    rw [finish, hdone]
    rfl
  have hdone' : (({ s.messageDelta delta with done := true } : ToOpenAI).writeEnd).finish
      = ({ s.messageDelta delta with done := true } : ToOpenAI).writeEnd := rfl
  rw [hfinish, hdone', messageDelta, h.readUsage hagain houtput hin hout]
  change (s.sent ++ [_] ++ [_, OpenAIOut.done]).foldl PartialMessage.add {} = _
  rw [List.foldl_append, List.foldl_append, h.sent]
  rfl

/-- What a caller reads from the stream of an answer. -/
theorem foldl_add_translate {a : AnthropicAnswer} {split : List (AnswerBlock × List String)}
    {lines : List (List UInt8)} {output : ℤ} (model id : String) (created : ℤ)
    (h : a.IsStream split lines)
    (hin : (Float64.round a.usage.inputTokens).map Float64.trunc = some input)
    (hout : (Float64.round a.usage.outputTokens).map Float64.trunc = some output) :
    (({ model, id, created } : ToOpenAI).translate lines).foldl PartialMessage.add {}
      = { split.foldl PartialMessage.addSplit {} with
          finishReason := some ((stopToFinish a.stopReason).getD "stop")
          usage := some (input, output, input + output) } := by
  rw [translate_eq, ← onEvents_filter]
  generalize hevents : (anthropicEvents "" lines).filter (fun x ↦ x.1 ≠ "ping") = events
  rw [AnthropicAnswer.IsStream, hevents] at h
  cases h with
  | @mk start delta stop blocks hsplit hblocks hstop hinput hagain houtput =>
    have hstart := carries_messageStart model id created hinput hin
    have hall := hstart.blocks hblocks
    change ((ToOpenAI.onEvents _ (blocks ++ _)).finish).sent.foldl PartialMessage.add {} = _
    rw [onEvents_append, hall.last hagain houtput hin hout, hstop]

end ToOpenAI

/-! ## The body -/

def AnswerBlock.text? : AnswerBlock → Option String
  | .text t => some t
  | .toolUse _ _ _ => none

/-- The input comes in the deltas, and its numbers survive a `float64`. -/
def AnswerBlock.Kept : AnswerBlock × List String → Prop
  | (.text _, _) => True
  | (.toolUse _ _ input, parts) => input.AllNumbers Float64.Exact ∧ String.join parts ≠ ""

/-- The blocks of the body so far give what the caller has of the stream. -/
structure Matches (m : PartialMessage) (r : String × List MessageCall) : Prop where
  text : m.text = r.1
  calls : m.calls.mapM PartialCall.assemble = some r.2

theorem Matches.addText {m : PartialMessage} {r : String × List MessageCall} (h : Matches m r)
    {t : String} {v : JsonValue} (hv : (AnswerBlock.text t).IsDecoded v) (hempty : m.text = "") :
    Matches (m.addText t) (addBlock r v) := by
  have hblock : addBlock r v = (r.1 ++ t, r.2) := by
    rw [addBlock, hv.1, hv.2]
    simp only [JsonValue.string?, if_true]
    rw [if_neg (not_not_intro (h.text.symm.trans hempty))]
  rw [hblock]
  exact ⟨congrArg (· ++ t) h.text, h.calls⟩

theorem Matches.addCall {m : PartialMessage} {r : String × List MessageCall} (h : Matches m r)
    {id name : String} {input v : JsonValue} {parts : List String}
    (hv : (AnswerBlock.toolUse id name input).IsDecoded v)
    (hinput : textValue (bytes (String.join parts)) = some input)
    (hexact : input.AllNumbers Float64.Exact) :
    Matches (m.addSplit (.toolUse id name input, parts)) (addBlock r v) := by
  obtain ⟨htype, hid, hname, hvalue⟩ := hv
  have hmarshalled : (input.mapNumbers Float64.nearest).marshalled = input := by
    rw [JsonValue.marshalled, mapNumbers_mapNumbers]
    exact mapNumbers_of_all input hexact
  have hblock : addBlock r v
      = (r.1, r.2 ++ [{ id := .string id, name := .string name, arguments := input }]) := by
    rw [addBlock, htype, hid, hname, hvalue, hmarshalled]
    rfl
  rw [hblock]
  refine ⟨h.text, ?_⟩
  change (m.calls ++ [_]).mapM PartialCall.assemble = _
  rw [List.mapM_append, h.calls, List.mapM_cons, PartialCall.assemble, hinput]
  rfl

/-- All blocks, where a text that another one follows is empty. -/
theorem Matches.blocks {split : List (AnswerBlock × List String)} {i : ℕ}
    {events : List (String × AnthropicEvent)} (hevents : BlocksEvents i split events)
    {m : PartialMessage} {r : String × List MessageCall} (h : Matches m r) {vs : List JsonValue}
    (hvs : List.Forall₂ AnswerBlock.IsDecoded (split.map Prod.fst) vs)
    (htexts : (m.text :: (split.map Prod.fst).filterMap AnswerBlock.text?).Pairwise
      fun t _ ↦ t = "")
    (hkept : ∀ b ∈ split, AnswerBlock.Kept b) :
    Matches (split.foldl PartialMessage.addSplit m) (vs.foldl addBlock r) := by
  induction hevents generalizing m r vs with
  | nil =>
    cases hvs
    exact h
  | @cons i b parts bs events rest hblock _ ih =>
    rw [List.map_cons] at hvs htexts
    obtain ⟨v, vs', hv, hvs', rfl⟩ := List.forall₂_cons_left_iff.mp hvs
    have hkept' : ∀ b ∈ bs, AnswerBlock.Kept b := fun b hb ↦ hkept b (List.mem_cons_of_mem _ hb)
    rw [List.foldl_cons, List.foldl_cons]
    cases hblock with
    | text htype hdeltas hparts =>
      rw [List.filterMap_cons_some (show AnswerBlock.text? (.text _) = some _ from rfl),
        List.pairwise_cons] at htexts
      have hempty : m.text = "" := htexts.1 _ List.mem_cons_self
      refine ih (h.addText hv hempty) hvs' ?_ hkept'
      change ((m.text ++ String.join parts) :: _).Pairwise _
      rw [hempty, String.empty_append]
      exact htexts.2
    | toolUse htype hid hname hindex hdeltas hparts hinput =>
      rw [List.filterMap_cons_none (show AnswerBlock.text? (.toolUse _ _ _) = none
        from rfl)] at htexts
      obtain ⟨hexact, hsome⟩ := hkept _ List.mem_cons_self
      have hvalue := hinput.resolve_right fun hnone ↦ hsome hnone.1
      exact ih (h.addCall hv hvalue hexact) hvs' htexts hkept'

/-! ## A tool call -/

/-- A text and a tool call, with this many tokens that were read from the cache. -/
def callAnswer (cached : ℤ) : AnthropicAnswer where
  content := [.text "Hi", .toolUse "toolu_1" "f" (.object [("a", .number 1)])]
  stopReason := "tool_use"
  usage := { inputTokens := 10, outputTokens := 5, cacheReadInputTokens := cached }

/-- `cached` is the member that says how many tokens were read from the cache. -/
def callBody (cached : String) : List UInt8 :=
  bytes ("\x7b\"content\":[\x7b\"type\":\"text\",\"text\":\"Hi\"\x7d,"
    ++ "\x7b\"type\":\"tool_use\",\"id\":\"toolu_1\",\"name\":\"f\",\"input\":\x7b\"a\":1\x7d\x7d],"
    ++ "\"stop_reason\":\"tool_use\",\"usage\":\x7b\"input_tokens\":10,"
    ++ cached ++ "\"output_tokens\":5\x7d\x7d")

def callLines : List (List UInt8) :=
  ["data: \x7b\"type\":\"message_start\","
      ++ "\"message\":\x7b\"usage\":\x7b\"input_tokens\":10\x7d\x7d\x7d",
    "data: \x7b\"type\":\"content_block_start\",\"index\":0,"
      ++ "\"content_block\":\x7b\"type\":\"text\"\x7d\x7d",
    "data: \x7b\"type\":\"ping\"\x7d",
    "data: \x7b\"type\":\"content_block_delta\",\"index\":0,"
      ++ "\"delta\":\x7b\"type\":\"text_delta\",\"text\":\"Hi\"\x7d\x7d",
    "data: \x7b\"type\":\"content_block_stop\",\"index\":0\x7d",
    "data: \x7b\"type\":\"content_block_start\",\"index\":1,\"content_block\":"
      ++ "\x7b\"type\":\"tool_use\",\"id\":\"toolu_1\",\"name\":\"f\"\x7d\x7d",
    "data: \x7b\"type\":\"content_block_delta\",\"index\":1,"
      ++ "\"delta\":\x7b\"type\":\"input_json_delta\",\"partial_json\":\"\x7b\\\"a\\\"\"\x7d\x7d",
    "data: \x7b\"type\":\"content_block_delta\",\"index\":1,"
      ++ "\"delta\":\x7b\"type\":\"input_json_delta\",\"partial_json\":\":1\x7d\"\x7d\x7d",
    "data: \x7b\"type\":\"content_block_stop\",\"index\":1\x7d",
    "data: \x7b\"type\":\"message_delta\",\"delta\":\x7b\"stop_reason\":\"tool_use\"\x7d,"
      ++ "\"usage\":\x7b\"output_tokens\":5\x7d\x7d",
    "data: \x7b\"type\":\"message_stop\"\x7d"].map bytes

def callSplit : List (AnswerBlock × List String) :=
  [(.text "Hi", ["Hi"]),
    (.toolUse "toolu_1" "f" (.object [("a", .number 1)]), ["\x7b\"a\"", ":1\x7d"])]

private theorem tree_eq_string {t : Tree} {x : String} (h : t.string? = some x) :
    t = .string x := by
  cases t with
  | string y => exact congrArg Tree.string (Option.some.inj h)
  | null | bool | number | array | object => cases h

private theorem value_eq_string {v : JsonValue} {x : String} (h : v.string? = some x) :
    v = .string x := by
  cases v with
  | string y => exact congrArg JsonValue.string (Option.some.inj h)
  | null | bool | number | array | object => cases h

/-- Whether it is an object with the member `a`, which is one. -/
private def isOne : JsonValue → Bool
  | .object [(name, .number x)] => decide (name = "a" ∧ x = 1)
  | _ => false

private theorem eq_of_isOne {v : JsonValue} (h : isOne v = true) :
    v = .object [("a", .number 1)] := by
  rw [isOne.eq_def] at h
  split at h
  · obtain ⟨rfl, rfl⟩ := of_decide_eq_true h
    rfl
  · cases h

private def countIs (n : ℤ) : Tree → Bool
  | .number text => decide (Decimal.parseFloat (String.ofList (Utf8.decode text)) = some (n : ℚ))
  | _ => false

private theorem isCount_of_countIs {t : Tree} {n : ℤ} (h : countIs n t = true) : IsCount t n := by
  cases t with
  | number text => exact ⟨text, rfl, of_decide_eq_true h⟩
  | null | bool | string | array | object => cases h

private theorem callAnswer_isBody {cached : ℤ} {body : List UInt8}
    (h : (match unmarshal {} AnthropicResponse.decoder body with
      | some (r, false) => match r.content with
        | [v, w] => decide ((v.member "type").string? = some "text"
            ∧ (v.member "text").string? = some "Hi" ∧ (w.member "type").string? = some "tool_use"
            ∧ (w.member "id").string? = some "toolu_1" ∧ (w.member "name").string? = some "f"
            ∧ isOne (w.member "input") = true ∧ r.stopReason = "tool_use"
            ∧ r.usage = (callAnswer cached).usage)
        | _ => false
      | _ => false) = true) : (callAnswer cached).IsBody body := by
  split at h
  · next r hr =>
    split at h
    · next v w hcontent =>
      obtain ⟨htype, htext, htool, hid, hname, hinput, hstop, husage⟩ := of_decide_eq_true h
      have hone : (JsonValue.object [("a", .number 1)]).mapNumbers Float64.nearest
          = .object [("a", .number 1)] := by
        refine mapNumbers_of_all _ ⟨?_, trivial⟩
        show Float64.nearest 1 = 1
        decide +kernel
      refine ⟨r, hr, ?_, hstop, husage⟩
      rw [hcontent]
      refine .cons ⟨value_eq_string htype, value_eq_string htext⟩ (.cons ⟨value_eq_string htool,
        value_eq_string hid, value_eq_string hname, ?_⟩ .nil)
      rw [hone]
      exact eq_of_isOne hinput
    · cases h
  · cases h

/-- The events of the lines. -/
private def isCall : List (String × AnthropicEvent) → Bool
  | [(n₀, start), (n₁, text), (n₂, hi), (n₃, _), (n₄, tool), (n₅, a), (n₆, b), (n₇, _), (n₈, delta),
      (n₉, _)] =>
    decide ([n₀, n₁, n₂, n₃, n₄, n₅, n₆, n₇, n₈, n₉] = ["message_start", "content_block_start",
      "content_block_delta", "content_block_stop", "content_block_start", "content_block_delta",
      "content_block_delta", "content_block_stop", "message_delta", "message_stop"])
    && countIs 10 ((start.message.member "usage").member "input_tokens")
    && decide ((text.contentBlock.member "type").string? = some "text")
    && decide (hi.deltaType = "text_delta") && decide (hi.text.string? = some "Hi")
    && decide ((tool.contentBlock.member "type").string? = some "tool_use")
    && decide ((tool.contentBlock.member "id").string? = some "toolu_1")
    && decide ((tool.contentBlock.member "name").string? = some "f")
    && decide (tool.index = 1 ∧ a.index = 1 ∧ b.index = 1)
    && decide (a.deltaType = "input_json_delta" ∧ b.deltaType = "input_json_delta")
    && decide (a.partialJson.string? = some "\x7b\"a\"" ∧ b.partialJson.string? = some ":1\x7d")
    && decide (delta.stopReason = "tool_use")
    && (match delta.usage.member "input_tokens" with
      | .null => true
      | _ => false)
    && countIs 5 (delta.usage.member "output_tokens")
  | _ => false

private theorem callAnswer_isEvents {cached : ℤ} {events : List (String × AnthropicEvent)}
    (h : isCall events = true) : (callAnswer cached).IsEvents callSplit events := by
  rw [isCall.eq_def] at h
  split at h
  · next n₀ start n₁ text n₂ hi n₃ stop n₄ tool n₅ a n₆ b n₇ stop' n₈ delta n₉ _ =>
    simp only [Bool.and_eq_true, decide_eq_true_eq, List.cons.injEq] at h
    obtain ⟨⟨⟨⟨⟨⟨⟨⟨⟨⟨⟨⟨⟨hnames, hinput⟩, htext⟩, hhi⟩, hhi'⟩, htool⟩, hid⟩, hname⟩, hindex⟩,
      htypes⟩,
      hparts⟩, hstop⟩, hagain⟩, houtput⟩ := h
    obtain ⟨rfl, rfl, rfl, rfl, rfl, rfl, rfl, rfl, rfl, rfl, -⟩ := hnames
    have hvalue : textValue (bytes (String.join ["\x7b\"a\"", ":1\x7d"]))
        = some (.object [("a", .number 1)]) := by
      have hsome : (textValue (bytes (String.join ["\x7b\"a\"", ":1\x7d"]))).any isOne = true := by
        decide +kernel
      generalize textValue (bytes (String.join ["\x7b\"a\"", ":1\x7d"])) = value at hsome
      cases value with
      | none => cases hsome
      | some v => exact congrArg some (eq_of_isOne hsome)
    have hfirst := @AnswerBlock.IsEvents.text 0 text stop [hi] ["Hi"] htext
      (fun e he ↦ List.mem_singleton.mp he ▸ hhi) (congrArg (fun t ↦ [t]) (tree_eq_string hhi'))
    have hsecond := @AnswerBlock.IsEvents.toolUse 1 tool stop' [a, b] ["\x7b\"a\"", ":1\x7d"] _ _ _
      htool (tree_eq_string hid) (tree_eq_string hname) hindex.1
      (List.forall_mem_cons.mpr ⟨⟨htypes.1, hindex.2.1⟩,
        List.forall_mem_singleton.mpr ⟨htypes.2, hindex.2.2⟩⟩)
      (congrArg₂ (fun t t' ↦ [t, t']) (tree_eq_string hparts.1) (tree_eq_string hparts.2))
      (Or.inl hvalue)
    have hnull : delta.usage.member "input_tokens" = .null := by
      split at hagain
      · next hnull => exact hnull
      · cases hagain
    have hblocks : BlocksEvents 0 callSplit _ := .cons hfirst (.cons hsecond .nil)
    exact .mk rfl hblocks hstop (isCount_of_countIs hinput) (Or.inl hnull)
      (isCount_of_countIs houtput)
  · cases h

private theorem callLines_isStream (cached : ℤ) :
    (callAnswer cached).IsStream callSplit callLines :=
  callAnswer_isEvents (by decide +kernel)

/-! ## Agreement -/

/-- A streamed answer says what the whole one says, where no text but the last has something in it,
every tool call has its input in its deltas, no number is too long for a `float64`, and the tokens
of the prompt become, in a `float64`, the ones with those of the cache. -/
theorem chunks_agree {a : AnthropicAnswer} {body : List UInt8}
    {split : List (AnswerBlock × List String)} {lines : List (List UInt8)} (model id : String)
    (created : ℤ) (hbody : a.IsBody body) (hstream : a.IsStream split lines)
    (htexts : (a.content.filterMap AnswerBlock.text?).Pairwise fun t _ ↦ t = "")
    (hkept : ∀ b ∈ split, AnswerBlock.Kept b)
    (hin : (Float64.round a.usage.inputTokens).map Float64.trunc = some (a.usage.inputTokens
      + a.usage.cacheReadInputTokens + a.usage.cacheCreationInputTokens))
    (hout : (Float64.round a.usage.outputTokens).map Float64.trunc = some a.usage.outputTokens) :
    ∃ m, anthropicToOpenAIResponse body = some m
      ∧ assembleChunks (({ model, id, created } : ToOpenAI).translate lines)
          = some m.assembled := by
  obtain ⟨r, hr, hcontent, hstop, husage⟩ := hbody
  have hchunks := ToOpenAI.foldl_add_translate model id created hstream hin hout
  obtain ⟨hsplit, events, hevents⟩ := hstream.blocks
  rw [← hsplit] at hcontent htexts
  have hnil : Matches {} ("", []) := ⟨rfl, rfl⟩
  have hmatches := hnil.blocks hevents hcontent
    (List.pairwise_cons.mpr ⟨fun _ _ ↦ rfl, htexts⟩) hkept
  have hcontent : (if (r.content.foldl addBlock ("", [])).1 ≠ ""
      then some (r.content.foldl addBlock ("", [])).1 else none).getD ""
      = (split.foldl PartialMessage.addSplit {}).text := by
    rw [hmatches.text]
    split_ifs with hempty
    · rfl
    · exact (not_not.mp hempty).symm
  rw [anthropicToOpenAIResponse, hr]
  refine ⟨_, rfl, ?_⟩
  rw [assembleChunks, hchunks, PartialMessage.assemble, OpenAIMessage.assembled, hcontent]
  simp only [Option.bind_some, hmatches.calls, Option.map_some, hstop, husage]

theorem chunks_agree_call : ∃ m, (callAnswer 0).IsBody (callBody "")
    ∧ (callAnswer 0).IsStream callSplit callLines
    ∧ anthropicToOpenAIResponse (callBody "") = some m
    ∧ assembleChunks (ToOpenAI.translate { model := "m", id := "chatcmpl-1", created := 0 }
      callLines)
      = some m.assembled := by
  have hbody : (callAnswer 0).IsBody (callBody "") := callAnswer_isBody (by decide +kernel)
  have hstream := callLines_isStream 0
  have hexact : Float64.Exact 1 := by
    show Float64.shortest (Float64.nearest 1) = 1
    decide +kernel
  obtain ⟨m, hm, hassemble⟩ := chunks_agree "m" "chatcmpl-1" 0 hbody hstream
    (List.pairwise_singleton _ _)
    (List.forall_mem_cons.mpr ⟨trivial, List.forall_mem_singleton.mpr
    ⟨⟨hexact, trivial⟩, by decide⟩⟩)
    (by decide +kernel) (by decide +kernel)
  exact ⟨m, hbody, hstream, hm, hassemble⟩

/-- Tokens that were read from the cache count in the prompt of the body, and not in that of the
stream. -/
theorem chunks_differ_cached :
    (callAnswer 100).IsBody (callBody "\"cache_read_input_tokens\":100,")
      ∧ (callAnswer 100).IsStream callSplit callLines
      ∧ (anthropicToOpenAIResponse (callBody "\"cache_read_input_tokens\":100,")).map
        OpenAIMessage.promptTokens = some 110
      ∧ (assembleChunks (ToOpenAI.translate { model := "m", id := "chatcmpl-1", created := 0 }
        callLines)).map AssembledChunks.promptTokens = some 10 := by
  refine ⟨callAnswer_isBody (by decide +kernel), callLines_isStream 100, ?_, ?_⟩
  · decide +kernel
  · decide +kernel

end Kaalm.Translate
