import Kaalm.Translate.Response
import Kaalm.Translate.StreamEnd

/-!
# One answer in two translations: OpenAI to Anthropic

An OpenAI answer reaches the gateway as one body or as a stream of chunks, and the two are
translated by different code. A caller puts the events of a stream together to a message
(`assemble`), and that should be the message of the body.

`IsBody` and `IsStream` say that a body or the lines of a stream carry an answer: the text may be
cut anywhere, and so may the arguments of the tool calls, which come one after another. The two
translations agree except for the stop reason of an answer with tool calls, where the body counts
the calls and the stream goes by the finish reason, and for arguments, which the body decodes and
encodes again.
-/

namespace Kaalm.Translate

open Ascii GoJson

/-! ## Answers -/

/-- What an OpenAI answer says. -/
structure OpenAIAnswer where
  text : String
  calls : List AnswerCall
  finishReason : String
  usage : Option TokenUsage

/-- The finish reasons in a chunk. -/
def OpenAIChunk.reasons (c : OpenAIChunk) : List String :=
  c.choices.filterMap fun choice ↦ choice.finishReason.filter fun reason ↦ reason ≠ ""

/-- The deltas are those of a tool call: the first one has its id and its name, and the arguments
are cut into parts. -/
structure AnswerCall.IsCut (call : AnswerCall) (index : ℤ) (deltas : List ToolCall) : Prop where
  index_eq : ∀ d ∈ deltas, d.index = index
  begins : ∃ first rest, deltas = first :: rest ∧ first.id = call.id ∧ first.name = call.name
  arguments_eq : String.join (deltas.map ToolCall.arguments) = call.arguments

namespace OpenAIAnswer

variable (a : OpenAIAnswer)

/-- The body decodes to the answer. -/
def IsBody (body : List UInt8) : Prop :=
  ∃ r choice, unmarshal {} OpenAIResponse.decoder body = some (r, false) ∧ r.choices = [choice]
    ∧ contentText choice.content = a.text ∧ choice.toolCalls = a.calls
    ∧ choice.finishReason = a.finishReason ∧ r.usage = a.usage.getD {}

/-- The deltas are the text, cut into parts, and after it one tool call after another. -/
def IsCut (deltas : List Delta) : Prop :=
  ∃ (texts : List String) (pieces : List (ℤ × List ToolCall)),
    deltas = texts.map .text ++ (pieces.flatMap Prod.snd).map .call ∧ String.join texts = a.text
      ∧ (pieces.map Prod.fst).Nodup
      ∧ List.Forall₂ (fun call piece ↦ call.IsCut piece.1 piece.2) a.calls pieces

/-- The chunks carry the answer. Its finish reason and its usage are in one chunk each, if it has
them, and there are no deltas after the finish reason. -/
structure IsChunks (chunks : List OpenAIChunk) : Prop where
  started : chunks ≠ []
  cut : a.IsCut (chunks.flatMap OpenAIChunk.deltas)
  reasons : chunks.flatMap OpenAIChunk.reasons = if a.finishReason
    = "" then [] else [a.finishReason]
  usage : chunks.filterMap OpenAIChunk.usage = a.usage.toList
  ordered : chunks.Pairwise fun c c' ↦ c.reasons ≠ [] → c'.deltas = []

/-- The lines carry the answer. -/
def IsStream (lines : List (List UInt8)) : Prop :=
  ∃ chunks, a.IsChunks chunks
    ∧ (lines.map openAILine).filter (fun l ↦ l ≠ .dropped) = chunks.map .chunk ++ [.done]

end OpenAIAnswer

/-! ## What the caller makes of a stream -/

/-- The content, the stop reason and the usage of a message. -/
structure Assembled where
  content : List MessageBlock
  stopReason : String
  inputTokens : ℤ
  outputTokens : ℤ

/-- The input of a tool call is what its parts say together, and an empty object if there are none.
-/
def Block.assemble (b : Block) : Option MessageBlock :=
  match b.block with
  | .text => some (.text (String.join b.parts))
  | .toolUse id name =>
    if String.join b.parts = "" then some (.toolUse id name (.object []))
    else (textValue (bytes (String.join b.parts))).map (.toolUse id name)

/-- The stop reason and the usage. -/
def AnthropicOut.report? : AnthropicOut → Option (String × ℤ × ℤ)
  | .messageDelta stop input output => some (stop, input, output)
  | _ => none

def assemble (out : List AnthropicOut) : Option Assembled :=
  (readStream out).bind fun blocks ↦ (blocks.mapM Block.assemble).bind fun content ↦
    (out.findSome? AnthropicOut.report?).map fun report ↦
    ⟨content, report.1, report.2.1, report.2.2⟩

/-- What the message of a whole answer says of the same. -/
def AnthropicMessage.assembled (m : AnthropicMessage) : Assembled :=
  ⟨m.content, m.stopReason, m.inputTokens, m.outputTokens⟩

/-! ## Texts in parts -/

theorem join_filter (parts : List String) :
    String.join (parts.filter fun part ↦ part ≠ "") = String.join parts := by
  induction parts with
  | nil => rfl
  | cons part parts ih =>
    by_cases hpart : part = ""
    · rw [List.filter_cons_of_neg (by simp [hpart]), String.join_cons, hpart, String.empty_append,
        ih]
    · rw [List.filter_cons_of_pos (by simp [hpart]), String.join_cons, String.join_cons, ih]

theorem eq_nil_of_join {parts : List String} (hparts : ∀ part ∈ parts, part ≠ "")
    (h : String.join parts = "") : parts = [] := by
  cases parts with
  | nil => rfl
  | cons part parts =>
    rw [String.join_cons, String.append_eq_empty_iff] at h
    exact absurd h.1 (hparts part List.mem_cons_self)

/-! ## The content of the deltas -/

namespace Content

open Upstream

variable {c : Content}

/-- More arguments for the tool call whose block was begun last. -/
theorem add_further {init : List Block} {b : Block} {call : ToolCall}
    (hblocks : c.blocks = init ++ [b]) (hlookup : c.calls.lookup call.index = some init.length) :
    c.current (.call call) = true ∧ c.add (.call call) = { c with
      blocks := init ++ [{ b with parts := b.parts ++ [call.arguments].filter fun part ↦ part
          ≠ "" }] } := by
  have hbegin : c.begin call = c := by
    rw [begin, if_pos (by rw [hlookup]; rfl)]
  constructor
  · refine decide_eq_true (Or.inr ?_)
    rw [hlookup, hblocks, List.length_append]
    exact decide_eq_true rfl
  · rw [add]
    by_cases hargs : call.arguments = ""
    · rw [if_pos hargs, hbegin, List.filter_cons_of_neg (by simp [hargs]), List.filter_nil,
        List.append_nil, ← hblocks]
    · rw [if_neg hargs, hbegin, addArguments, hlookup, List.filter_cons_of_pos (by simp [hargs]),
        List.filter_nil]
      simp only
      rw [hblocks]
      congr 1
      simp [List.modify_eq_take_cons_drop]

/-- The deltas after the first one of a tool call. -/
theorem foldl_further {init : List Block} {b : Block} {index : ℤ} (calls : List ToolCall)
    (hindex : ∀ call ∈ calls, call.index = index) (hblocks : c.blocks = init ++ [b])
    (hlookup : c.calls.lookup index = some init.length) :
    orderlyDeltas false c (calls.map .call) = true
      ∧ (calls.map Delta.call).foldl add c = { c with
        blocks := init ++ [{ b with
          parts := b.parts ++ (calls.map ToolCall.arguments).filter fun part ↦ part ≠ "" }] } := by
  induction calls generalizing c b with
  | nil =>
    refine ⟨rfl, ?_⟩
    rw [List.map_nil, List.foldl_nil, List.map_nil, List.filter_nil, List.append_nil, ← hblocks]
  | cons call calls ih =>
    rw [← hindex call List.mem_cons_self] at hlookup
    obtain ⟨hcurrent, hadd⟩ := add_further hblocks hlookup
    rw [hindex call List.mem_cons_self] at hlookup
    obtain ⟨horderly, hfold⟩ := ih (fun d hd ↦ hindex d (List.mem_cons_of_mem _ hd))
      (congrArg Content.blocks hadd) (by rw [hadd]; exact hlookup)
    refine ⟨Bool.and_eq_true_iff.mpr ⟨hcurrent, horderly⟩, ?_⟩
    rw [List.map_cons, List.foldl_cons, hfold, hadd, List.map_cons, List.append_assoc,
      ← List.filter_append, List.singleton_append]

/-- The block of a tool call. -/
def callBlock (deltas : List ToolCall) (call : AnswerCall) : Block where
  block := .toolUse call.id call.name
  parts := (deltas.map ToolCall.arguments).filter fun part ↦ part ≠ ""

/-- The deltas of a tool call that is new. -/
theorem foldl_call {call : AnswerCall} {index : ℤ} {deltas : List ToolCall}
    (hcut : call.IsCut index deltas) (hnew : c.calls.lookup index = none) :
    orderlyDeltas false c (deltas.map .call) = true
      ∧ (deltas.map Delta.call).foldl add c =
        { blocks := c.blocks ++ [callBlock deltas call]
          calls := (index, c.blocks.length) :: c.calls } := by
  obtain ⟨first, rest, rfl, hid, hname⟩ := hcut.begins
  have hfirst := hcut.index_eq first List.mem_cons_self
  have hbegin : c.begin first = { blocks := c.blocks ++ [{ block := .toolUse call.id call.name }]
                                  calls := (index, c.blocks.length) :: c.calls } := by
    rw [begin, hfirst, hnew, hid, hname, if_neg (by exact Bool.false_ne_true)]
  have hlookup : (c.begin first).calls.lookup first.index = some c.blocks.length := by
    rw [hbegin, hfirst, List.lookup_cons_self]
  -- Beginning again does nothing, so the first delta is one for the block that it began.
  have hagain : (c.begin first).begin first = c.begin first := by
    rw [begin, if_pos (by rw [hlookup]; rfl)]
  have hadd : c.add (.call first) = (c.begin first).add (.call first) := by
    rw [add, add, hagain]
  have hblocks : (c.begin first).blocks
      = c.blocks ++ [{ block := .toolUse call.id call.name }] := by rw [hbegin]
  obtain ⟨horderly, hfold⟩ := foldl_further (c := c.begin first) (first :: rest)
    hcut.index_eq hblocks (by rw [← hfirst]; exact hlookup)
  rw [List.map_cons, orderlyDeltas, Bool.and_eq_true_iff, ← hadd] at horderly
  rw [List.map_cons, List.foldl_cons, ← hadd] at hfold
  refine ⟨Bool.and_eq_true_iff.mpr ⟨decide_eq_true (Or.inr ?_), horderly.2⟩, ?_⟩
  · rw [hfirst, hnew]
    rfl
  · rw [List.map_cons, List.foldl_cons, hfold, hbegin]
    rfl

/-- One tool call after another. -/
theorem foldl_calls {calls : List AnswerCall} {pieces : List (ℤ × List ToolCall)}
    (hcut : List.Forall₂ (fun call piece ↦ call.IsCut piece.1 piece.2) calls pieces)
    (hnodup : (pieces.map Prod.fst).Nodup)
    (hnew : ∀ piece ∈ pieces, c.calls.lookup piece.1 = none) :
    orderlyDeltas false c ((pieces.flatMap Prod.snd).map .call) = true
      ∧ (((pieces.flatMap Prod.snd).map Delta.call).foldl add c).blocks
        = c.blocks ++ List.zipWith (fun piece call ↦ callBlock piece.2 call) pieces calls
      ∧ ((((pieces.flatMap Prod.snd).map Delta.call).foldl add c).calls = []
        ↔ c.calls = [] ∧ calls = []) := by
  induction hcut generalizing c with
  | nil => exact ⟨rfl, (List.append_nil _).symm, by simp⟩
  | @cons call piece calls pieces hfirst hrest ih =>
    obtain ⟨hnotin, hnodup⟩ := List.nodup_cons.mp hnodup
    obtain ⟨horderly, hfold⟩ := foldl_call hfirst (hnew piece List.mem_cons_self)
    obtain ⟨horderly', hblocks, hcalls⟩ := ih (c := (piece.2.map Delta.call).foldl add c) hnodup
      fun piece' hpiece' ↦ by
        have hne : (piece'.1 == piece.1) = false := beq_eq_false_iff_ne.mpr fun heq ↦
          hnotin (heq ▸ List.mem_map_of_mem hpiece')
        rw [hfold, List.lookup_cons, hne]
        exact hnew piece' (List.mem_cons_of_mem _ hpiece')
    rw [List.flatMap_cons, List.map_append, List.foldl_append, ToAnthropic.orderlyDeltas_append]
    refine ⟨⟨horderly, horderly'⟩, ?_, ?_⟩
    · rw [hblocks, hfold, List.append_assoc]
      rfl
    · rw [hcalls, hfold]
      simp

/-- Text after text. -/
theorem foldl_texts_of_text (texts parts : List String) :
    orderlyDeltas false { blocks := [{ block := .text, parts }] } (texts.map .text) = true
      ∧ (texts.map Delta.text).foldl add { blocks := [{ block := .text, parts }] }
        = { blocks := [{ block := .text, parts := parts ++ texts }] } := by
  induction texts generalizing parts with
  | nil =>
    rw [List.append_nil]
    exact ⟨rfl, rfl⟩
  | cons text texts ih =>
    obtain ⟨horderly, hfold⟩ := ih (parts ++ [text])
    rw [List.append_assoc, List.singleton_append] at hfold
    exact ⟨horderly, hfold⟩

/-- Text at the beginning. -/
theorem foldl_texts (texts : List String) :
    orderlyDeltas false {} (texts.map .text) = true ∧ (texts.map Delta.text).foldl add {}
      = { blocks := if texts = [] then [] else [{ block := .text, parts := texts }] } := by
  cases texts with
  | nil => exact ⟨rfl, rfl⟩
  | cons text texts => exact foldl_texts_of_text texts [text]

end Content

/-! ## The content of an answer -/

/-- The arguments are JSON, and their numbers are the same after they were decoded and encoded. -/
def AnswerCall.Exact (call : AnswerCall) : Prop :=
  call.arguments = "" ∨ ∃ d, JsonText.parse (bytes call.arguments) = some d
    ∧ (ofValue d.value).inRange = true ∧ (ofValue d.value).value.AllNumbers Float64.Exact

/-- The block of a tool call in the message of the body. -/
def AnswerCall.block (call : AnswerCall) : MessageBlock :=
  .toolUse call.id call.name (callInput call.arguments).marshalled

theorem assemble_callBlock {call : AnswerCall} {index : ℤ} {deltas : List ToolCall}
    (hcut : call.IsCut index deltas) (hexact : call.Exact) :
    (Content.callBlock deltas call).assemble = some call.block := by
  have hjoin : String.join (Content.callBlock deltas call).parts = call.arguments :=
    (join_filter _).trans hcut.arguments_eq
  rw [Block.assemble, hjoin, AnswerCall.block, callInput]
  simp only [Content.callBlock]
  rcases hexact with hempty | ⟨d, hparse, hrange, hnumbers⟩
  · rw [if_pos hempty, if_pos hempty]
    rfl
  · have hne : call.arguments ≠ "" := by
      intro hempty
      rw [hempty] at hparse
      exact nomatch hparse
    have hany : (ofValue d.value).toAny
        = some ((ofValue d.value).value.mapNumbers Float64.nearest) := by
      rw [Tree.toAny, if_pos hrange]
    rw [if_neg hne, if_neg hne, textValue, hparse, Option.bind_some, hany]
    simp only [Option.map_some]
    rw [marshalled_toAny hany hnumbers]

theorem mapM_assemble_calls {calls : List AnswerCall} {pieces : List (ℤ × List ToolCall)}
    (hcut : List.Forall₂ (fun call piece ↦ call.IsCut piece.1 piece.2) calls pieces)
    (hexact : ∀ call ∈ calls, call.Exact) :
    (List.zipWith (fun piece call ↦ Content.callBlock piece.2 call) pieces calls).mapM
    Block.assemble
      = some (calls.map AnswerCall.block) := by
  induction hcut with
  | nil => rfl
  | @cons call piece calls pieces hfirst hrest ih =>
    rw [List.zipWith_cons_cons, List.mapM_cons, ih fun c hc ↦ hexact c (List.mem_cons_of_mem _ hc),
      assemble_callBlock hfirst (hexact call List.mem_cons_self)]
    rfl

/-- What a caller assembles from the content of the deltas of an answer. -/
theorem OpenAIAnswer.IsCut.content {a : OpenAIAnswer} {deltas : List Delta} (h : a.IsCut deltas)
    (htexts : ∀ text, .text text ∈ deltas → text ≠ "") (hexact : ∀ call ∈ a.calls, call.Exact) :
    Upstream.orderlyDeltas false {} deltas = true
      ∧ (deltas.foldl Content.add {}).blocks.mapM Block.assemble
        = some ((if a.text ≠ "" then [.text a.text] else []) ++ a.calls.map AnswerCall.block)
      ∧ ((deltas.foldl Content.add {}).calls = [] ↔ a.calls = []) := by
  obtain ⟨texts, pieces, rfl, hjoin, hnodup, hcut⟩ := h
  obtain ⟨horderly, hfold⟩ := Content.foldl_texts texts
  obtain ⟨horderly', hblocks, hcalls⟩ := Content.foldl_calls
    (c := (texts.map Delta.text).foldl Content.add {}) hcut hnodup fun piece _ ↦ by rw [hfold]; rfl
  rw [ToAnthropic.orderlyDeltas_append, List.foldl_append, hblocks, hcalls]
  refine ⟨⟨horderly, horderly'⟩, ?_, by rw [hfold]; simp⟩
  rw [hfold]
  have htext : (if texts = [] then [] else [({ block := .text, parts := texts } : Block)]).mapM
      Block.assemble = some (if a.text ≠ "" then [.text a.text] else []) := by
    by_cases hnil : texts = []
    · have hempty : a.text = "" := by
        rw [← hjoin, hnil]
        rfl
      rw [if_pos hnil, if_neg (not_not_intro hempty)]
      rfl
    · have hne : a.text ≠ "" := fun hempty ↦ hnil (eq_nil_of_join
        (fun text hmem ↦ htexts text (List.mem_append_left _ (List.mem_map_of_mem hmem)))
        (hjoin.trans hempty))
      rw [if_neg hnil, if_pos hne, ← hjoin]
      rfl
  rw [List.mapM_append, htext, mapM_assemble_calls hcut hexact]
  rfl

/-! ## The end of the message -/

namespace ToAnthropic

variable {s : ToAnthropic} {u : Upstream} {chunk : OpenAIChunk} {chunks : List OpenAIChunk}

/-- The usage that was read last. -/
def tokens (s : ToAnthropic) : TokenUsage := ⟨s.inputTokens, s.outputTokens⟩

theorem tokens_openBlock (block : ContentBlock) (isTool : Bool) :
    (s.openBlock block isTool).tokens = s.tokens := by
  rw [openBlock]
  cases s.blockOpen
  · rfl
  · rfl

theorem tokens_openCall (call : ToolCall) : (s.openCall call).tokens = s.tokens := by
  rw [openCall]
  split_ifs
  · rfl
  · exact tokens_openBlock (.toolUse call.id ((call.function.map FunctionCall.name).getD "")) true

theorem tokens_onDelta (d : Delta) : (s.onDelta d).tokens = s.tokens := by
  cases d with
  | text text =>
    rw [onDelta, textDelta]
    cases !s.blockOpen || s.blockIsTool with
    | false => rfl
    | true => exact tokens_openBlock .text false
  | call call =>
    rw [onDelta, toolDelta_eq]
    split_ifs
    · exact tokens_openCall call
    · exact tokens_openCall call

theorem tokens_foldl_onDelta (ds : List Delta) : (ds.foldl onDelta s).tokens = s.tokens := by
  induction ds generalizing s with
  | nil => rfl
  | cons d ds ih => exact ih.trans (tokens_onDelta d)

/-- The finish reason is the last one that was given, and usage is not in the choices. -/
theorem foldl_onChoice_end (choices : List Choice) :
    (choices.foldl onChoice s).finishReason
        = (choices.filterMap fun choice ↦ choice.finishReason.filter fun reason ↦ reason ≠ "").foldl
          (fun _ reason ↦ reason) s.finishReason
      ∧ (choices.foldl onChoice s).tokens = s.tokens := by
  induction choices generalizing s with
  | nil => exact ⟨rfl, rfl⟩
  | cons choice choices ih =>
    obtain ⟨-, hsame⟩ := foldl_onDelta_kept (s := s) choice.deltas
    have htokens := tokens_foldl_onDelta (s := s) choice.deltas
    obtain ⟨hreason, hrest⟩ := ih (s := s.onChoice choice)
    rw [List.foldl_cons, hreason, hrest, onChoice_eq, readFinish, List.filterMap_cons]
    cases choice.finishReason with
    | none =>
      rw [Option.filter_none]
      simp only
      rw [hsame, htokens]
      exact ⟨rfl, rfl⟩
    | some reason =>
      by_cases hempty : reason = ""
      · rw [Option.filter_some_neg (by simp [hempty])]
        simp only [hempty, ne_eq, not_true, if_false]
        rw [hsame, htokens]
        exact ⟨rfl, rfl⟩
      · rw [Option.filter_some_pos (by simp [hempty])]
        simp only [hempty, ne_eq, not_false_iff, if_true]
        exact ⟨rfl, htokens⟩

theorem messageDelta_end : s.messageDelta.finishReason = s.finishReason
    ∧ s.messageDelta.tokens = s.tokens ∧ s.messageDelta.stopReason = s.stopReason
    ∧ s.messageDelta.deltaSent = true := by
  obtain ⟨blockOpen, sent, heq⟩ := messageDelta_eq (s := s)
  rw [heq]
  exact ⟨rfl, rfl, rfl, rfl⟩

theorem start_end : (s.start chunk).finishReason = s.finishReason
    ∧ (s.start chunk).tokens = s.tokens := by
  rw [start]
  by_cases hstarted : s.started = true
  · rw [if_pos hstarted]
    exact ⟨rfl, rfl⟩
  · rw [if_neg hstarted]
    exact ⟨rfl, rfl⟩

theorem readUsage_end : (s.readUsage chunk).finishReason = s.finishReason
    ∧ (s.readUsage chunk).tokens = chunk.usage.toList.foldl (fun _ usage ↦ usage) s.tokens := by
  rw [readUsage]
  cases chunk.usage with
  | none => exact ⟨rfl, rfl⟩
  | some usage => exact ⟨rfl, rfl⟩

theorem onChunk_end : (s.onChunk chunk).finishReason
      = chunk.reasons.foldl (fun _ reason ↦ reason) s.finishReason
    ∧ (s.onChunk chunk).tokens = chunk.usage.toList.foldl (fun _ usage ↦ usage) s.tokens := by
  obtain ⟨hreason, htokens⟩ := foldl_onChoice_end
    (s := (s.start chunk).readUsage chunk) chunk.choices
  rw [readUsage_end.1, start_end.1] at hreason
  rw [readUsage_end.2, start_end.2] at htokens
  rw [onChunk]
  split_ifs
  · rw [messageDelta_end.1, messageDelta_end.2.1, hreason, htokens]
    exact ⟨rfl, rfl⟩
  · exact ⟨hreason, htokens⟩

/-- The finish reason and the usage at the end of the stream. -/
theorem foldl_onChunk_end (chunks : List OpenAIChunk) :
    (chunks.foldl onChunk s).finishReason
        = (chunks.flatMap OpenAIChunk.reasons).foldl (fun _ reason ↦ reason) s.finishReason
      ∧ (chunks.foldl onChunk s).tokens
        = (chunks.filterMap OpenAIChunk.usage).foldl (fun _ usage ↦ usage) s.tokens := by
  induction chunks generalizing s with
  | nil => exact ⟨rfl, rfl⟩
  | cons chunk chunks ih =>
    obtain ⟨hreason, htokens⟩ := ih (s := s.onChunk chunk)
    have husage : (chunk :: chunks).filterMap OpenAIChunk.usage
        = chunk.usage.toList ++ chunks.filterMap OpenAIChunk.usage := by
      rw [List.filterMap_cons]
      cases chunk.usage with
      | none => rfl
      | some usage => rfl
    rw [List.foldl_cons, hreason, htokens, List.flatMap_cons, List.foldl_append, husage,
      List.foldl_append, onChunk_end.1, onChunk_end.2]
    exact ⟨rfl, rfl⟩

/-- What was written says what the translator knows of the end, if it has written that. -/
structure Reported (s : ToAnthropic) : Prop where
  sent : s.deltaSent = true →
    s.sent.findSome? AnthropicOut.report? = some (s.stopReason, s.inputTokens, s.outputTokens)
  unsent : s.deltaSent = false → s.sent.findSome? AnthropicOut.report? = none

theorem report?_of_countP {out : List AnthropicOut} (h : out.countP AnthropicOut.isDelta = 0) :
    out.findSome? AnthropicOut.report? = none := by
  rw [List.findSome?_eq_none_iff]
  intro e he
  have hdelta := List.countP_eq_zero.mp h e he
  cases e with
  | messageDelta stop input output => exact absurd rfl hdelta
  | messageStart id model => rfl
  | blockStart index block => rfl
  | blockDelta index delta => rfl
  | blockStop index => rfl
  | messageStop => rfl

theorem report_messageDelta (h : s.sent.findSome? AnthropicOut.report? = none) :
    s.messageDelta.sent.findSome? AnthropicOut.report?
      = some (s.stopReason, s.inputTokens, s.outputTokens) := by
  have hsent : ∃ out, s.messageDelta.sent
        = s.sent ++ (out ++ [.messageDelta s.stopReason s.inputTokens s.outputTokens])
      ∧ out.findSome? AnthropicOut.report? = none := by
    rw [messageDelta]
    cases s.blockOpen
    · exact ⟨[], rfl, rfl⟩
    · exact ⟨[_], List.append_assoc s.sent [_] [_], rfl⟩
  obtain ⟨out, hsent, hout⟩ := hsent
  rw [hsent, List.findSome?_append, List.findSome?_append, h, hout]
  rfl

/-- A chunk before the end is reported. -/
theorem Reported.onChunk (h : Reported s) (hopen : s.deltaSent = false) :
    Reported (s.onChunk chunk) := by
  obtain ⟨hkept, -⟩ := foldl_onChoice_kept (s := (s.start chunk).readUsage chunk) chunk.choices
  obtain ⟨out, hsent, -, hout⟩ :=
    plain_foldl_onChoice (s := (s.start chunk).readUsage chunk) chunk.choices
  have hstart : (s.start chunk).deltaSent = false
      ∧ (s.start chunk).sent.findSome? AnthropicOut.report? = none := by
    rw [start]
    by_cases hstarted : s.started = true
    · rw [if_pos hstarted]
      exact ⟨hopen, h.unsent hopen⟩
    · rw [if_neg hstarted]
      refine ⟨hopen, ?_⟩
      simp only [event, List.findSome?_append, h.unsent hopen]
      rfl
  obtain ⟨input, output, husage⟩ := readUsage_eq (s := s.start chunk) chunk
  have hnone : (chunk.choices.foldl onChoice ((s.start chunk).readUsage chunk)).sent.findSome?
      AnthropicOut.report? = none := by
    rw [hsent, List.findSome?_append, report?_of_countP hout, husage, Option.or_none]
    exact hstart.2
  have hdelta : (chunk.choices.foldl onChoice ((s.start chunk).readUsage chunk)).deltaSent
      = false := by
    rw [hkept.deltaSent, husage]
    exact hstart.1
  rw [ToAnthropic.onChunk]
  generalize chunk.choices.foldl onChoice ((s.start chunk).readUsage chunk) = t at hnone hdelta
  split_ifs with hends
  · obtain ⟨-, htokens, hstop, hsent⟩ := messageDelta_end (s := t)
    refine ⟨fun _ ↦ ?_, fun hfalse ↦ by cases hsent.symm.trans hfalse⟩
    rw [report_messageDelta hnone, hstop]
    obtain ⟨hinput, houtput⟩ := TokenUsage.mk.inj htokens
    rw [hinput, houtput]
  · exact ⟨(fun htrue ↦ by cases hdelta.symm.trans htrue), fun _ ↦ hnone⟩

/-- A chunk without content, finish reason and usage does nothing. -/
theorem onChunk_of_quiet (hstarted : s.started = true) (hdeltas : chunk.deltas = [])
    (hreasons : chunk.reasons = []) (husage : chunk.usage = none) : s.onChunk chunk = s := by
  have hchoices : ∀ choices : List Choice, choices.flatMap Choice.deltas = [] →
      choices.filterMap (fun choice ↦ choice.finishReason.filter fun reason ↦ reason ≠ "") = [] →
      choices.foldl onChoice s = s := by
    intro choices
    induction choices with
    | nil => exact fun _ _ ↦ rfl
    | cons choice choices ih =>
      intro hdeltas hreasons
      obtain ⟨hfirst, hdeltas⟩ := List.append_eq_nil_iff.mp hdeltas
      have hchoice : s.onChoice choice = s := by
        rw [onChoice_eq, hfirst, List.foldl_nil, readFinish]
        cases hreason : choice.finishReason with
        | none => rfl
        | some reason =>
          by_cases hempty : reason = ""
          · simp only [hempty, ne_eq, not_true, if_false]
          · rw [List.filterMap_cons, hreason, Option.filter_some_pos (by simp [hempty])] at hreasons
            cases hreasons
      have hrest : choices.filterMap (fun choice ↦ choice.finishReason.filter fun reason ↦
          reason ≠ "") = [] := by
        rw [List.filterMap_cons] at hreasons
        split at hreasons
        · exact hreasons
        · cases hreasons
      rw [List.foldl_cons, hchoice]
      exact ih hdeltas hrest
  have hstart : s.start chunk = s := if_pos hstarted
  have hread : s.readUsage chunk = s := by rw [readUsage, husage]
  rw [onChunk, hstart, hread, hchoices chunk.choices hdeltas hreasons, husage]
  exact if_neg fun h ↦ by cases h.2.1

/-- What is left of the chunks of an answer. -/
structure Remaining (u : Upstream) (chunks : List OpenAIChunk) : Prop where
  closed : u.closed = true → u.finished = true
  reasons : (chunks.flatMap OpenAIChunk.reasons).length ≤ 1
  usage : (chunks.filterMap OpenAIChunk.usage).length ≤ 1
  ordered : chunks.Pairwise fun c c' ↦ c.reasons ≠ [] → c'.deltas = []
  finished : u.finished = true →
    ∀ c ∈ chunks, c.reasons = [] ∧ c.deltas = []
  spent : u.closed = true → ∀ c ∈ chunks, c.usage = none

theorem finishes_iff : chunk.finishes = true ↔ chunk.reasons ≠ [] := by
  rw [OpenAIChunk.finishes, OpenAIChunk.reasons, List.any_eq_true, ne_eq, List.filterMap_eq_nil_iff]
  push Not
  refine exists_congr fun choice ↦ and_congr_right fun _ ↦ ?_
  cases choice.finishReason with
  | none => simp
  | some reason => simp [Option.filter]

theorem Remaining.next (h : Remaining u (chunk :: chunks)) : Remaining (u.next chunk) chunks := by
  obtain ⟨hfirst, hordered⟩ := List.pairwise_cons.mp h.ordered
  have hfinished : (u.next chunk).finished = true →
      ∀ c ∈ chunks, c.reasons = [] ∧ c.deltas = [] := by
    intro hnext c hc
    rcases Bool.or_eq_true_iff.mp hnext with hbefore | hnow
    · exact h.finished hbefore c (List.mem_cons_of_mem _ hc)
    · have hne := finishes_iff.mp hnow
      refine ⟨?_, hfirst c hc hne⟩
      have hlength := h.reasons
      rw [List.flatMap_cons, List.length_append] at hlength
      have hpos := List.length_pos_iff.mpr hne
      have hnil : chunks.flatMap OpenAIChunk.reasons = [] :=
        List.eq_nil_of_length_eq_zero (by omega)
      exact List.flatMap_eq_nil_iff.mp hnil c hc
  have hclosed : (u.next chunk).closed = true → (u.next chunk).finished = true := by
    intro hnext
    rcases Bool.or_eq_true_iff.mp hnext with hbefore | hnow
    · exact Bool.or_eq_true_iff.mpr (Or.inl (h.closed hbefore))
    · exact (Bool.and_eq_true_iff.mp hnow).1
  have hlength := h.usage
  rw [List.filterMap_cons] at hlength
  refine ⟨hclosed, ?_, ?_, hordered, hfinished, fun hnext c hc ↦ ?_⟩
  · have hreasons := h.reasons
    rw [List.flatMap_cons, List.length_append] at hreasons
    omega
  · split at hlength
    · exact hlength
    · exact Nat.le_of_succ_le hlength
  · rcases Bool.or_eq_true_iff.mp hnext with hbefore | hnow
    · exact h.spent hbefore c (List.mem_cons_of_mem _ hc)
    · obtain ⟨usage, husage⟩ := Option.isSome_iff_exists.mp (Bool.and_eq_true_iff.mp hnow).2
      rw [husage] at hlength
      have hnil : chunks.filterMap OpenAIChunk.usage = [] :=
        List.eq_nil_of_length_eq_zero (Nat.le_zero.mp (Nat.le_of_succ_le_succ hlength))
      exact List.filterMap_eq_nil_iff.mp hnil c hc

theorem content_foldl_next (chunks : List OpenAIChunk) :
    (chunks.foldl Upstream.next u).content
      = (chunks.flatMap OpenAIChunk.deltas).foldl Content.add u.content := by
  induction chunks generalizing u with
  | nil => rfl
  | cons chunk chunks ih =>
    rw [List.foldl_cons, ih, List.flatMap_cons, List.foldl_append]
    rfl

/-- The translator follows the chunks of an answer to their end. -/
theorem Follows.run (h : Follows u s) (hreported : Reported s) (hremaining : Remaining u chunks)
    (horderly : Upstream.orderlyDeltas false u.content (chunks.flatMap OpenAIChunk.deltas) = true) :
    Follows (chunks.foldl Upstream.next u) (chunks.foldl ToAnthropic.onChunk s)
      ∧ Reported (chunks.foldl ToAnthropic.onChunk s) := by
  induction chunks generalizing u s with
  | nil => exact ⟨h, hreported⟩
  | cons chunk chunks ih =>
    rw [List.flatMap_cons, orderlyDeltas_append] at horderly
    have hstart : s.start chunk = s := if_pos h.started
    have hdeltas : Upstream.orderlyDeltas u.closed u.content chunk.deltas = true := by
      rcases Bool.eq_false_or_eq_true u.closed with hclosed | hclosed
      · rw [(hremaining.finished (hremaining.closed hclosed) chunk List.mem_cons_self).2]
        rfl
      · rw [hclosed]
        exact horderly.1
    have hnext : Follows (u.next chunk) (s.onChunk chunk) :=
      Follows.onChunk (hstart.symm ▸ h) hdeltas
    refine ih hnext ?_ hremaining.next horderly.2
    rcases Bool.eq_false_or_eq_true u.closed with hclosed | hclosed
    · obtain ⟨hreasons, hnil⟩ :=
        hremaining.finished (hremaining.closed hclosed) chunk List.mem_cons_self
      rw [onChunk_of_quiet h.started hnil hreasons (hremaining.spent hclosed chunk
        List.mem_cons_self)]
      exact hreported
    · exact hreported.onChunk (h.deltaSent.trans hclosed)

theorem Reported.finish (h : Reported s) (hstarted : s.started = true)
    (hstopped : s.stopped = false) :
    s.finish.sent.findSome? AnthropicOut.report?
      = some (s.stopReason, s.inputTokens, s.outputTokens) := by
  have hfinish : s.finish
      = (if !s.deltaSent then s.stop.messageDelta else s.stop).event .messageStop := by
    rw [ToAnthropic.finish, hstopped, if_neg Bool.false_ne_true, hstarted]
    rfl
  have hreport : (if !s.deltaSent then s.stop.messageDelta else s.stop).sent.findSome?
      AnthropicOut.report? = some (s.stopReason, s.inputTokens, s.outputTokens) := by
    rcases Bool.eq_false_or_eq_true s.deltaSent with hsent | hsent
    · rw [if_neg (by rw [hsent]; exact Bool.false_ne_true)]
      exact h.sent hsent
    · rw [if_pos (by rw [hsent]; rfl)]
      exact report_messageDelta (s := s.stop) (h.unsent hsent)
  rw [hfinish, event, List.findSome?_append, hreport]
  rfl

/-! ## The lines of a stream -/

def onLine (s : ToAnthropic) : OpenAILine → ToAnthropic
  | .done => s.finish
  | .chunk c => s.onChunk c
  | .dropped => s

theorem foldl_feed_filter (lines : List (List UInt8)) :
    lines.foldl feed s
      = ((lines.map openAILine).filter fun l ↦ l ≠ .dropped).foldl onLine s := by
  induction lines generalizing s with
  | nil => rfl
  | cons line lines ih =>
    have hfeed : s.feed line = s.onLine (openAILine line) := rfl
    rw [List.foldl_cons, List.map_cons, hfeed]
    by_cases hdropped : openAILine line = .dropped
    · rw [List.filter_cons_of_neg (by simp [hdropped]), ih, hdropped]
      rfl
    · rw [List.filter_cons_of_pos (by simp [hdropped]), List.foldl_cons, ih]

theorem foldl_onLine_chunks (chunks : List OpenAIChunk) :
    (chunks.map OpenAILine.chunk ++ [OpenAILine.done]).foldl onLine s
    = (chunks.foldl onChunk s).finish := by
  rw [List.foldl_append, List.foldl_map]
  rfl

/-- The first chunk starts the message. -/
theorem onChunk_start : (s.start chunk).onChunk chunk = s.onChunk chunk := by
  have hstarted : (s.start chunk).started = true := by
    rw [start]
    by_cases hstarted : s.started = true
    · rw [if_pos hstarted]
      exact hstarted
    · rw [if_neg hstarted]
      rfl
  have hagain : (s.start chunk).start chunk = s.start chunk := if_pos hstarted
  rw [onChunk, onChunk, hagain]

theorem reported_start (model id : String) (chunk : OpenAIChunk) :
    Reported (start { model, id } chunk) :=
  ⟨nofun, fun _ ↦ rfl⟩

theorem remaining_start {a : OpenAIAnswer} (h : a.IsChunks chunks) : Remaining {} chunks := by
  refine ⟨nofun, ?_, ?_, h.ordered, nofun, nofun⟩
  · rw [h.reasons]
    split_ifs
    · exact Nat.zero_le 1
    · exact Nat.le_refl 1
  · rw [h.usage]
    cases a.usage with
    | none => exact Nat.zero_le 1
    | some usage => exact Nat.le_refl 1

theorem ne_empty_of_text {text : String} (h : .text text ∈ chunks.flatMap OpenAIChunk.deltas) :
    text ≠ "" := by
  obtain ⟨chunk, -, h⟩ := List.mem_flatMap.mp h
  obtain ⟨choice, -, h⟩ := List.mem_flatMap.mp h
  rw [Choice.deltas] at h
  rcases List.mem_append.mp h with h | h
  · obtain ⟨text', hmem, heq⟩ := List.mem_map.mp h
    obtain rfl := Delta.text.inj heq
    exact of_decide_eq_true (Option.mem_filter_iff.mp (Option.mem_toList.mp hmem)).2
  · obtain ⟨call, -, heq⟩ := List.mem_map.mp h
    cases heq

/-- The message that a caller assembles from the stream of an answer. -/
theorem assemble_translate {a : OpenAIAnswer} (hexact : ∀ call ∈ a.calls, call.Exact)
    (model id : String)
    {lines : List (List UInt8)} (hstream : a.IsStream lines) :
    ∃ s : ToAnthropic, s.finishReason = a.finishReason ∧ s.tokens = a.usage.getD {}
      ∧ (s.toolIndexes = [] ↔ a.calls = [])
      ∧ assemble (translate { model, id } lines) = some
        ⟨(if a.text ≠ "" then [.text a.text] else []) ++ a.calls.map AnswerCall.block, s.stopReason,
          s.inputTokens, s.outputTokens⟩ := by
  obtain ⟨chunks, hchunks, hlines⟩ := hstream
  obtain ⟨chunk, rest, rfl⟩ := List.exists_cons_of_ne_nil hchunks.started
  obtain ⟨horderly, hcontent, hcalls⟩ :=
    hchunks.cut.content (fun text ↦ ne_empty_of_text) hexact
  obtain ⟨hfollows, hreported⟩ := (follows_start model id chunk).run (reported_start model id chunk)
    (remaining_start hchunks) horderly
  obtain ⟨hreason, htokens⟩ :=
    foldl_onChunk_end (s := start { model, id } chunk) (chunk :: rest)
  rw [hchunks.reasons] at hreason
  rw [hchunks.usage] at htokens
  have hrun : (chunk :: rest).foldl onChunk (start { model, id } chunk)
      = (chunk :: rest).foldl onChunk { model, id } := by
    rw [List.foldl_cons, List.foldl_cons, onChunk_start]
  generalize (chunk :: rest).foldl onChunk (start { model, id } chunk) = s at *
  obtain ⟨hread, hstopped⟩ := hfollows.finish
  have hout : translate { model, id } lines = s.finish.sent := by
    have hfinish : s.finish.finish = s.finish := if_pos hstopped
    rw [translate, foldl_feed_filter, hlines, foldl_onLine_chunks, ← hrun, hfinish]
  refine ⟨s, ?_, ?_, ?_, ?_⟩
  · rw [hreason]
    split_ifs with hempty
    · exact hempty.symm
    · rfl
  · rw [htokens]
    cases a.usage with
    | none => rfl
    | some usage => rfl
  · rw [hfollows.calls, content_foldl_next, hcalls]
  · rw [assemble, hout, hread, content_foldl_next, Option.bind_some, hcontent, Option.bind_some,
      hreported.finish hfollows.started hfollows.stopped]
    rfl

end ToAnthropic

/-- The body and the stream of an answer are translated to the same message, if an answer with tool
calls says so in its finish reason, and the arguments survive a decoder. -/
theorem translations_agree (a : OpenAIAnswer)
    (hfinish : a.calls = [] ∨ a.finishReason = "stop" ∨ a.finishReason = "tool_calls")
    (hexact : ∀ call ∈ a.calls, call.Exact) {body : List UInt8} {lines : List (List UInt8)}
    (hbody : a.IsBody body) (hstream : a.IsStream lines) (model id : String) :
    ∃ m, openAIToAnthropicResponse body = some m
      ∧ assemble (ToAnthropic.translate { model, id } lines) = some m.assembled := by
  obtain ⟨r, choice, hdecodes, hchoices, htext, hcalls, hreason, husage⟩ := hbody
  obtain ⟨s, hs, htokens, hindexes, hassemble⟩ :=
    ToAnthropic.assemble_translate hexact model id hstream
  refine ⟨_, by rw [openAIToAnthropicResponse, hdecodes], hassemble.trans (congrArg some ?_)⟩
  have hstop : s.stopReason = choice.stopReason := by
    rw [ToAnthropic.stopReason, AnswerChoice.stopReason, hs, hcalls, hreason]
    by_cases hnil : a.calls = []
    · rw [if_neg (not_not_intro hnil)]
      by_cases htool : a.finishReason = "tool_calls"
      · rw [if_pos (Or.inl htool), htool]
        rfl
      · rw [if_neg]
        rintro (h | ⟨h, -⟩)
        · exact htool h
        · exact h (hindexes.mpr hnil)
    · rw [if_pos hnil, if_pos]
      rcases hfinish.resolve_left hnil with hstop | htool
      · exact Or.inr ⟨fun h ↦ hnil (hindexes.mp h), hstop⟩
      · exact Or.inl htool
  have hblocks : choice.blocks
      = (if a.text ≠ "" then [.text a.text] else []) ++ a.calls.map AnswerCall.block := by
    rw [AnswerChoice.blocks, htext, hcalls]
    rfl
  obtain ⟨hinput, houtput⟩ := TokenUsage.mk.inj (htokens.trans husage.symm)
  simp only [AnthropicMessage.assembled, hchoices, List.head?_cons, Option.map_some,
    Option.getD_some,
    hblocks, hstop, hinput, houtput]

/-! ## An answer with a tool call -/

/-- Text, and a tool call whose arguments are an object with a number. -/
def weatherAnswer (finishReason : String) : OpenAIAnswer where
  text := "Hi"
  calls := [{ id := "call_1", name := "f", arguments := "\x7b\"a\":1\x7d" }]
  finishReason := finishReason
  usage := some ⟨3, 5⟩

def weatherBody (finishReason : String) : List UInt8 :=
  bytes ("\x7b\"choices\":[\x7b\"message\":\x7b\"content\":\"Hi\","
    ++ "\"tool_calls\":[\x7b\"id\":\"call_1\","
    ++ "\"function\":\x7b\"name\":\"f\",\"arguments\":\"\x7b\\\"a\\\":1\x7d\"\x7d\x7d]\x7d,"
    ++ "\"finish_reason\":\"" ++ finishReason ++ "\"\x7d],"
    ++ "\"usage\":\x7b\"prompt_tokens\":3,\"completion_tokens\":5\x7d\x7d")

def weatherChunks (finishReason : String) : List OpenAIChunk :=
  [{ choices := [{ content := some "H" }] }, { choices := [{ content := some "i" }] },
   { choices := [{ toolCalls := [{ id := "call_1", function := some { name := "f" } }] }] },
   ToAnthropic.argumentsChunk 0 "\x7b\"a\"", ToAnthropic.argumentsChunk 0 ":1\x7d",
   { choices := [{ finishReason := some finishReason }] }, { usage := some ⟨3, 5⟩ }]

def weatherLines (finishReason : String) : List (List UInt8) :=
  [ToAnthropic.deltaLine "\"content\":\"H\"", [], ToAnthropic.deltaLine "\"content\":\"i\"", [],
   ToAnthropic.deltaLine ("\"tool_calls\":[\x7b\"index\":0,\"id\":\"call_1\","
     ++ "\"function\":\x7b\"name\":\"f\"\x7d\x7d]"),
   ToAnthropic.argumentsLine "0" "\x7b\\\"a\\\"", ToAnthropic.argumentsLine "0" ":1\x7d",
   bytes ("data: \x7b\"choices\":[\x7b\"finish_reason\":\"" ++ finishReason ++ "\"\x7d]\x7d"),
   bytes "data: \x7b\"usage\":\x7b\"prompt_tokens\":3,\"completion_tokens\":5\x7d\x7d",
   bytes "data: [DONE]"]

theorem weatherAnswer_isChunks {finishReason : String} (hfinish : finishReason ≠ "") :
    (weatherAnswer finishReason).IsChunks (weatherChunks finishReason) where
  started := List.cons_ne_nil _ _
  cut := by
    refine ⟨["H", "i"], [(0, [{ id := "call_1", function := some { name := "f" } },
      { function := some { arguments := "\x7b\"a\"" } },
      { function := some { arguments := ":1\x7d" } }])],
      rfl, rfl, by decide, .cons ⟨by decide, ⟨_, _, rfl, rfl, rfl⟩, by decide⟩ .nil⟩
  reasons := by
    simp [weatherChunks, OpenAIChunk.reasons, ToAnthropic.argumentsChunk, hfinish, weatherAnswer,
      Option.filter]
  usage := rfl
  ordered := by
    simp [weatherChunks, OpenAIChunk.reasons, OpenAIChunk.deltas, Choice.deltas,
      ToAnthropic.argumentsChunk]

private theorem isBody_of_check {a : OpenAIAnswer} {body : List UInt8}
    (h : (match unmarshal {} OpenAIResponse.decoder body with
      | some (r, false) => match r.choices with
        | [choice] => decide (contentText choice.content = a.text ∧ choice.toolCalls = a.calls
          ∧ choice.finishReason = a.finishReason ∧ r.usage = a.usage.getD {})
        | _ => false
      | _ => false) = true) : a.IsBody body := by
  split at h
  · next r hr =>
    split at h
    · next choice hchoice => exact ⟨r, choice, hr, hchoice, of_decide_eq_true h⟩
    · cases h
  · cases h

theorem exact_weatherCall : AnswerCall.Exact
    { id := "call_1", name := "f", arguments := "\x7b\"a\":1\x7d" } := by
  refine Or.inr ⟨⟨⟨[], rfl⟩, .object (.one ⟨[], rfl⟩ ⟨bytes "a", by decide⟩ ⟨[], rfl⟩ ⟨[], rfl⟩
    (.scalar ⟨bytes "1", by decide⟩) ⟨[], rfl⟩), ⟨[], rfl⟩⟩, ?_, ?_, ?_, trivial⟩
  · exact JsonText.parse_eq_some_iff.mpr (by decide)
  · decide +kernel
  · show Float64.shortest (Float64.nearest (numberValue (bytes "1"))) = numberValue (bytes "1")
    decide +kernel

theorem translations_agree_tool : ∃ m,
    (weatherAnswer "tool_calls").IsBody (weatherBody "tool_calls")
      ∧ (weatherAnswer "tool_calls").IsStream (weatherLines "tool_calls")
      ∧ openAIToAnthropicResponse (weatherBody "tool_calls") = some m
      ∧ assemble (ToAnthropic.translate { model := "m", id := "msg_1" } (weatherLines "tool_calls"))
        = some m.assembled := by
  have hbody : (weatherAnswer "tool_calls").IsBody (weatherBody "tool_calls") :=
    isBody_of_check (by decide +kernel)
  have hstream : (weatherAnswer "tool_calls").IsStream (weatherLines "tool_calls") :=
    ⟨_, weatherAnswer_isChunks (by decide), by decide +kernel⟩
  obtain ⟨m, hm, hassemble⟩ := translations_agree (weatherAnswer "tool_calls") (Or.inr (Or.inr rfl))
    (fun call hcall ↦ by
      rw [List.mem_singleton.mp hcall]
      exact exact_weatherCall) hbody hstream "m" "msg_1"
  exact ⟨m, hbody, hstream, hm, hassemble⟩

/-- The answer was cut off in its tool call. In the body the call decides the stop reason, in the
stream the finish reason. -/
theorem translations_differ_truncated :
    (weatherAnswer "length").IsBody (weatherBody "length")
      ∧ (weatherAnswer "length").IsStream (weatherLines "length")
      ∧ (openAIToAnthropicResponse (weatherBody "length")).map AnthropicMessage.stopReason
        = some "tool_use"
      ∧ (assemble (ToAnthropic.translate { model := "m", id := "msg_1" }
        (weatherLines "length"))).map
        Assembled.stopReason = some "max_tokens" := by
  refine ⟨isBody_of_check (by decide +kernel),
    ⟨_, weatherAnswer_isChunks (by decide), by decide +kernel⟩, ?_, ?_⟩
  · decide +kernel
  · decide +kernel

end Kaalm.Translate
