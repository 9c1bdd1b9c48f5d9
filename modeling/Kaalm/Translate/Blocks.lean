import Kaalm.Translate.ToAnthropic
import Mathlib.Data.List.Basic

/-!
# The blocks of a translated stream

`readStream` is what a caller that knows the Anthropic format makes of a stream: one
`message_start`, blocks numbered from zero, each with a start, deltas of its own number and kind,
and a stop, then one `message_delta` and one `message_stop`. It gives the blocks with the texts of
their deltas.

`Content` is what the OpenAI stream itself says: text goes to the block that was begun last if that
is one of text, and to a new block otherwise, and the arguments of a tool call go to the block that
its first delta began. The two agree as long as the upstream stays with the block it began last
(`orderlyFrom`); the translator does not reopen a block.
-/

namespace Kaalm.Translate

/-- A block with the texts of its deltas. -/
structure Block where
  block : ContentBlock
  parts : List String := []
  deriving DecidableEq

/-! ## What the caller reads -/

/-- The delta of a block of its kind. -/
def ContentBlock.delta : ContentBlock → String → BlockDelta
  | .text, part => .text part
  | .toolUse _ _, part => .inputJson part

/-- The text of a delta, if it is one for the block. -/
def ContentBlock.part : ContentBlock → BlockDelta → Option String
  | .text, .text part => some part
  | .toolUse _ _, .inputJson part => some part
  | _, _ => none

/-- The blocks from number `n` on; the first one may be open already. -/
def readBlocks (n : ℕ) : Option Block → List AnthropicOut → Option (List Block)
  | none, [.messageDelta _ _ _, .messageStop] => some []
  | none, .blockStart i block :: es =>
    if i = n then readBlocks n (some { block := block }) es else none
  | some b, .blockDelta i d :: es =>
    match b.block.part d with
    | some part =>
      if i = n then readBlocks n (some { b with parts := b.parts ++ [part] }) es else none
    | none => none
  | some b, .blockStop i :: es =>
    if i = n then (readBlocks (n + 1) none es).map (b :: ·) else none
  | _, _ => none

def readStream : List AnthropicOut → Option (List Block)
  | .messageStart _ _ :: es => readBlocks 0 none es
  | _ => none

/-! ## What the upstream says -/

inductive Delta
  | text (text : String)
  | call (call : ToolCall)
  deriving DecidableEq

def Choice.deltas (c : Choice) : List Delta :=
  (c.content.filter fun text ↦ text ≠ "").toList.map .text ++ c.toolCalls.map .call

def OpenAIChunk.deltas (c : OpenAIChunk) : List Delta := c.choices.flatMap Choice.deltas

def OpenAIChunk.finishes (c : OpenAIChunk) : Bool :=
  c.choices.any fun choice ↦ choice.finishReason.any fun reason ↦ reason ≠ ""

def ToolCall.arguments (c : ToolCall) : String := (c.function.map FunctionCall.arguments).getD ""

def ToolCall.name (c : ToolCall) : String := (c.function.map FunctionCall.name).getD ""

structure Content where
  blocks : List Block := []
  /-- The number of the block of a tool call. -/
  calls : List (ℤ × ℕ) := []
  deriving DecidableEq

namespace Content

def addText (c : Content) (text : String) : Content :=
  match c.blocks.getLast? with
  | some { block := .text, parts := parts } =>
    { c with blocks := c.blocks.dropLast ++ [{ block := .text, parts := parts ++ [text] }] }
  | _ => { c with blocks := c.blocks ++ [{ block := .text, parts := [text] }] }

/-- The first delta of a tool call begins its block. -/
def begin (c : Content) (call : ToolCall) : Content :=
  if (c.calls.lookup call.index).isSome then c
  else { blocks := c.blocks ++ [{ block := .toolUse call.id call.name }]
         calls := (call.index, c.blocks.length) :: c.calls }

def addArguments (c : Content) (call : ToolCall) : Content :=
  match c.calls.lookup call.index with
  | some n => { c with
      blocks := c.blocks.modify n fun b ↦ { b with parts := b.parts ++ [call.arguments] } }
  | none => c

def add (c : Content) : Delta → Content
  | .text text => c.addText text
  | .call call => if call.arguments = "" then c.begin call else (c.begin call).addArguments call

/-- Arguments are for the block that was begun last, or begin one. -/
def current (c : Content) : Delta → Bool
  | .text _ => true
  | .call call => call.arguments = ""
    ∨ (c.calls.lookup call.index).all fun n ↦ n + 1 = c.blocks.length

/-- The delta adds nothing. -/
def silent (c : Content) : Delta → Bool
  | .text _ => false
  | .call call => (c.calls.lookup call.index).isSome ∧ call.arguments = ""

end Content

/-- How far the upstream is. -/
structure Upstream where
  content : Content := {}
  /-- A finish reason was given. -/
  finished : Bool := false
  /-- A finish reason was given, and usage after that or with it. -/
  closed : Bool := false
  deriving DecidableEq

namespace Upstream

def next (u : Upstream) (chunk : OpenAIChunk) : Upstream where
  content := chunk.deltas.foldl Content.add u.content
  finished := u.finished || chunk.finishes
  closed := u.closed || (u.finished || chunk.finishes) && chunk.usage.isSome

/-- Every delta is for the block that was begun last, and adds nothing once the upstream is
closed. -/
def orderlyDeltas (closed : Bool) : Content → List Delta → Bool
  | _, [] => true
  | c, d :: ds => (if closed then c.silent d else c.current d) && orderlyDeltas closed (c.add d) ds

def orderlyFrom : Upstream → List OpenAIChunk → Bool
  | _, [] => true
  | u, chunk :: chunks =>
    orderlyDeltas u.closed u.content chunk.deltas && orderlyFrom (u.next chunk) chunks

end Upstream

/-- The blocks of a whole stream. -/
def upstreamBlocks (chunks : List OpenAIChunk) : List Block :=
  (chunks.foldl Upstream.next {}).content.blocks

/-! ## Streams that a caller reads -/

def renderOpen (n : ℕ) (b : Block) : List AnthropicOut :=
  .blockStart n b.block :: b.parts.map fun part ↦ .blockDelta n (b.block.delta part)

def renderBlocks : ℕ → List Block → List AnthropicOut
  | _, [] => []
  | n, b :: bs => renderOpen n b ++ .blockStop n :: renderBlocks (n + 1) bs

theorem part_delta (block : ContentBlock) (part : String) :
    block.part (block.delta part) = some part := by
  cases block <;> rfl

theorem readBlocks_deltas (n : ℕ) (b : Block) (parts : List String) (es : List AnthropicOut) :
    readBlocks n (some b) (parts.map (fun part ↦ .blockDelta n (b.block.delta part)) ++ es)
      = readBlocks n (some { b with parts := b.parts ++ parts }) es := by
  induction parts generalizing b with
  | nil => rw [List.append_nil]; rfl
  | cons part parts ih =>
    rw [List.map_cons, List.cons_append, readBlocks, part_delta]
    simp only [if_true]
    refine (ih { b with parts := b.parts ++ [part] }).trans ?_
    rw [List.append_assoc]
    rfl

theorem readBlocks_render (n : ℕ) (bs : List Block) {es : List AnthropicOut} :
    readBlocks n none (renderBlocks n bs ++ es)
      = (readBlocks (n + bs.length) none es).map (bs ++ ·) := by
  induction bs generalizing n with
  | nil => simp [renderBlocks]
  | cons b bs ih =>
    rw [renderBlocks, renderOpen, List.cons_append, List.cons_append, readBlocks, if_pos rfl,
      List.append_assoc, readBlocks_deltas n { block := b.block } b.parts, List.nil_append,
      List.cons_append, readBlocks, if_pos rfl, ih, Option.map_map, List.length_cons, Nat.add_assoc,
      Nat.add_comm 1]
    rfl

theorem readStream_render (id model stop : String) (input output : ℤ) (bs : List Block) :
    readStream (.messageStart id model :: (renderBlocks 0 bs
      ++ [.messageDelta stop input output, .messageStop])) = some bs := by
  rw [readStream, readBlocks_render]
  simp [readBlocks]

theorem renderBlocks_concat (n : ℕ) (bs : List Block) (b : Block) :
    renderBlocks n (bs ++ [b])
      = renderBlocks n bs ++ (renderOpen (n + bs.length) b ++ [.blockStop (n + bs.length)]) := by
  induction bs generalizing n with
  | nil => simp [renderBlocks]
  | cons a bs ih =>
    rw [List.cons_append, renderBlocks, renderBlocks, ih, List.length_cons, Nat.add_assoc,
      Nat.add_comm 1, List.append_assoc, List.cons_append]

/-! ## The translator writes the content -/

def ContentBlock.isTool : ContentBlock → Bool
  | .text => false
  | .toolUse _ _ => true

/-- The blocks are written, and the last one is still open. -/
def Shows (bs : List Block) (s : ToAnthropic) : Prop :=
  (bs = [] ∧ s.blockOpen = false ∧ s.blockIndex = 0 ∧ ∃ id model, s.sent = [.messageStart id model])
  ∨ ∃ init last, bs = init ++ [last] ∧ s.blockOpen = true ∧ s.blockIndex = init.length
    ∧ s.blockIsTool = last.block.isTool
    ∧ ∃ id model, s.sent
      = .messageStart id model :: (renderBlocks 0 init ++ renderOpen init.length last)

namespace ToAnthropic

variable {s : ToAnthropic} {bs : List Block} {c : Content}

theorem shows_openBlock (h : Shows bs s) (block : ContentBlock) :
    Shows (bs ++ [{ block := block }]) (s.openBlock block block.isTool) := by
  rcases h with ⟨rfl, hopen, hindex, id, model, hsent⟩ | ⟨init, last, rfl, hopen, hindex, -, id,
    model, hsent⟩
  · refine Or.inr ⟨[], _, rfl, rfl, ?_, rfl, id, model, ?_⟩
    · simp [openBlock, event, hopen, hindex]
    · simp [openBlock, event, hopen, hindex, hsent, renderBlocks, renderOpen]
  · refine Or.inr ⟨init ++ [last], _, rfl, rfl, ?_, rfl, id, model, ?_⟩
    · simp [openBlock, event, hopen, hindex]
    · simp [openBlock, event, hopen, hindex, hsent, renderBlocks_concat, renderOpen]

theorem shows_part {init : List Block} {last : Block} (h : Shows (init ++ [last]) s)
    (part : String) :
    s.blockOpen = true ∧ s.blockIndex = init.length ∧ s.blockIsTool = last.block.isTool
      ∧ Shows (init ++ [{ last with parts := last.parts ++ [part] }])
        (s.event (.blockDelta init.length (last.block.delta part))) := by
  rcases h with ⟨hnil, -⟩ | ⟨init', last', heq, hopen, hindex, htool, id, model, hsent⟩
  · exact absurd hnil (List.append_ne_nil_of_right_ne_nil _ (List.cons_ne_nil _ _))
  · obtain ⟨rfl, hlast⟩ := List.append_inj' heq rfl
    obtain rfl := List.singleton_inj.mp hlast
    refine ⟨hopen, hindex, htool, Or.inr ⟨init, _, rfl, hopen, hindex, htool, id, model, ?_⟩⟩
    simp [event, hsent, renderOpen]

/-- What was written so far is the content, and the next arguments can be told apart. -/
structure Writes (c : Content) (s : ToAnthropic) : Prop where
  shows : Shows c.blocks s
  calls : s.toolIndexes = c.calls
  tools : ∀ i n, c.calls.lookup i = some n → ∃ b, c.blocks[n]? = some b ∧ b.block.isTool = true

theorem toolIndexes_openBlock (block : ContentBlock) (isTool : Bool) :
    (s.openBlock block isTool).toolIndexes = s.toolIndexes := by
  rw [openBlock]
  cases s.blockOpen <;> rfl

/-- The blocks of tool calls stay where they are when the content grows. -/
theorem Writes.tools_append (h : Writes c s) (b : Block) {i : ℤ} {n : ℕ}
    (hlookup : c.calls.lookup i = some n) :
    ∃ b', (c.blocks ++ [b])[n]? = some b' ∧ b'.block.isTool = true := by
  obtain ⟨b', hb', htool⟩ := h.tools i n hlookup
  refine ⟨b', ?_, htool⟩
  rw [List.getElem?_append_left (List.getElem?_eq_some_iff.mp hb').1]
  exact hb'

/-- Text for a new block. -/
private theorem Writes.newText (h : Writes c s) (text : String)
    (hopen : (!s.blockOpen || s.blockIsTool) = true) :
    Writes { c with blocks := c.blocks ++ [{ block := .text, parts := [text] }] }
      (s.textDelta text) := by
  obtain ⟨-, hindex, -, hpart⟩ := shows_part (shows_openBlock h.shows .text) text
  have htext : s.textDelta text
      = (s.openBlock .text false).event (.blockDelta c.blocks.length (.text text)) := by
    rw [ToAnthropic.textDelta, hopen]
    simp only [if_true]
    exact congrArg (fun n ↦ (s.openBlock .text false).event (.blockDelta n (.text text))) hindex
  rw [htext]
  exact ⟨hpart, (toolIndexes_openBlock .text false).trans h.calls, fun i n ↦ h.tools_append _⟩

theorem Writes.textDelta (h : Writes c s) (text : String) :
    Writes (c.addText text) (s.textDelta text) := by
  rcases List.eq_nil_or_concat' c.blocks with hnil | ⟨init, last, hblocks⟩
  · have hopen : s.blockOpen = false := by
      rcases h.shows with ⟨-, hopen, -⟩ | ⟨init, last, hblocks, -⟩
      · exact hopen
      · rw [hnil] at hblocks
        simp at hblocks
    have hadd : c.addText text
        = { c with blocks := c.blocks ++ [{ block := .text, parts := [text] }] } := by
      rw [Content.addText, hnil]
      rfl
    rw [hadd]
    exact h.newText text (by rw [hopen]; rfl)
  · have hshows := h.shows
    rw [hblocks] at hshows
    obtain ⟨hopen, hindex, htool, hpart⟩ := shows_part hshows text
    obtain ⟨block, parts⟩ := last
    have hlast : c.blocks.getLast? = some { block := block, parts := parts } := by
      rw [hblocks, List.getLast?_concat]
    cases block with
    | text =>
      have hadd : c.addText text
          = { c with blocks := init ++ [{ block := .text, parts := parts ++ [text] }] } := by
        rw [Content.addText, hlast]
        simp only
        rw [hblocks, List.dropLast_concat]
      have htext : s.textDelta text = s.event (.blockDelta init.length (.text text)) := by
        rw [ToAnthropic.textDelta, hopen, htool]
        exact congrArg (fun n ↦ s.event (.blockDelta n (.text text))) hindex
      rw [hadd, htext]
      refine ⟨hpart, h.calls, fun i n hlookup ↦ ?_⟩
      obtain ⟨b, hb, hbtool⟩ := h.tools i n hlookup
      refine ⟨b, ?_, hbtool⟩
      -- The block of a call is not the last one, which is of text.
      have hlt : n < init.length := by
        have hn := (List.getElem?_eq_some_iff.mp hb).1
        rw [hblocks, List.length_append, List.length_singleton] at hn
        refine Nat.lt_of_le_of_ne (Nat.le_of_lt_succ hn) ?_
        rintro rfl
        rw [hblocks, List.getElem?_concat_length] at hb
        obtain rfl := Option.some.inj hb
        exact nomatch hbtool
      rw [hblocks, List.getElem?_append_left hlt] at hb
      rw [List.getElem?_append_left hlt]
      exact hb
    | toolUse id name =>
      have hadd : c.addText text
          = { c with blocks := c.blocks ++ [{ block := .text, parts := [text] }] } := by
        rw [Content.addText, hlast]
      rw [hadd]
      exact h.newText text (by rw [htool]; exact Bool.or_true _)

theorem Writes.openCall (h : Writes c s) (call : ToolCall) :
    Writes (c.begin call) (s.openCall call) := by
  rw [Content.begin, ToAnthropic.openCall, h.calls]
  by_cases hknown : (c.calls.lookup call.index).isSome = true
  · rw [if_pos hknown, if_pos hknown]
    exact h
  · rw [if_neg hknown, if_neg hknown]
    have hshows := shows_openBlock h.shows (.toolUse call.id call.name)
    have hindex : (s.openBlock (.toolUse call.id call.name) true).blockIndex = c.blocks.length :=
      (shows_part hshows "").2.1
    refine ⟨hshows, ?_, fun i n hlookup ↦ ?_⟩
    · exact congrArg₂ (fun n calls ↦ (call.index, n) :: calls) hindex
        ((toolIndexes_openBlock _ _).trans h.calls)
    · rw [List.lookup_cons] at hlookup
      by_cases hi : (i == call.index) = true
      · rw [hi] at hlookup
        obtain rfl := Option.some.inj hlookup
        exact ⟨_, List.getElem?_concat_length, rfl⟩
      · rw [eq_false_of_ne_true hi] at hlookup
        exact h.tools_append _ hlookup

theorem Writes.arguments (h : Writes c s) (call : ToolCall) {n : ℕ}
    (hlookup : c.calls.lookup call.index = some n) (hlast : n + 1 = c.blocks.length) :
    Writes (c.addArguments call)
      (s.event (.blockDelta ((s.toolIndexes.lookup call.index).getD 0)
        (.inputJson call.arguments))) := by
  obtain ⟨b, hb, htool⟩ := h.tools _ _ hlookup
  rcases List.eq_nil_or_concat' c.blocks with hnil | ⟨init, last, hblocks⟩
  · rw [hnil] at hlast
    exact absurd hlast (Nat.succ_ne_zero n)
  · have hn : n = init.length := by
      rw [hblocks, List.length_append, List.length_singleton] at hlast
      exact Nat.succ.inj hlast
    rw [hn, hblocks, List.getElem?_concat_length] at hb
    obtain rfl := Option.some.inj hb
    have hshows := h.shows
    rw [hblocks] at hshows
    obtain ⟨-, -, -, hpart⟩ := shows_part hshows call.arguments
    have hadd : c.addArguments call = { c with
        blocks := init ++ [{ last with parts := last.parts ++ [call.arguments] }] } := by
      rw [Content.addArguments, hlookup]
      simp only
      rw [hblocks, hn]
      congr 1
      simp [List.modify_eq_take_cons_drop]
    have hdelta : last.block.delta call.arguments = .inputJson call.arguments := by
      cases hkind : last.block with
      | text => rw [hkind] at htool; exact nomatch htool
      | toolUse id name => rfl
    rw [hadd, h.calls, hlookup, Option.getD_some, hn, ← hdelta]
    refine ⟨hpart, h.calls, fun i m hm ↦ ?_⟩
    obtain ⟨b, hb, hbtool⟩ := h.tools i m hm
    rw [hblocks] at hb
    by_cases hlt : m < init.length
    · rw [List.getElem?_append_left hlt] at hb
      exact ⟨b, by rw [List.getElem?_append_left hlt]; exact hb, hbtool⟩
    · have hlen := (List.getElem?_eq_some_iff.mp hb).1
      rw [List.length_append, List.length_singleton] at hlen
      obtain rfl : m = init.length := by omega
      exact ⟨_, List.getElem?_concat_length, htool⟩

def onDelta (s : ToAnthropic) : Delta → ToAnthropic
  | .text text => s.textDelta text
  | .call call => s.toolDelta call

theorem toolDelta_eq (call : ToolCall) :
    s.toolDelta call = if call.arguments = "" then s.openCall call
      else (s.openCall call).event (.blockDelta
        (((s.openCall call).toolIndexes.lookup call.index).getD 0)
          (.inputJson call.arguments)) := by
  rw [toolDelta, ToolCall.arguments]
  cases call.function with
  | none => rfl
  | some f => by_cases hf : f.arguments = "" <;> simp [hf]

theorem lookup_begin {call : ToolCall} (h : c.current (.call call) = true)
    (hargs : call.arguments ≠ "") :
    ∃ n, (c.begin call).calls.lookup call.index = some n
      ∧ n + 1 = (c.begin call).blocks.length := by
  rw [Content.begin]
  cases hlookup : c.calls.lookup call.index with
  | none =>
    rw [if_neg (by exact Bool.false_ne_true)]
    exact ⟨c.blocks.length, by rw [List.lookup_cons_self], by rw [List.length_append]; rfl⟩
  | some n =>
    rw [if_pos (by rfl)]
    have hcur := (of_decide_eq_true h).resolve_left hargs
    rw [hlookup] at hcur
    exact ⟨n, hlookup, of_decide_eq_true hcur⟩

theorem Writes.onDelta (h : Writes c s) {d : Delta} (hd : c.current d = true) :
    Writes (c.add d) (s.onDelta d) := by
  cases d with
  | text text => exact h.textDelta text
  | call call =>
    rw [ToAnthropic.onDelta, Content.add, toolDelta_eq]
    by_cases hargs : call.arguments = ""
    · rw [if_pos hargs, if_pos hargs]
      exact h.openCall call
    · rw [if_neg hargs, if_neg hargs]
      obtain ⟨n, hlookup, hlast⟩ := lookup_begin hd hargs
      exact (h.openCall call).arguments call hlookup hlast

theorem add_of_silent {d : Delta} (hd : c.silent d = true) : c.add d = c := by
  cases d with
  | text text => exact nomatch hd
  | call call =>
    obtain ⟨hknown, hargs⟩ := of_decide_eq_true hd
    rw [Content.add, if_pos hargs, Content.begin, if_pos hknown]

theorem onDelta_of_silent (hcalls : s.toolIndexes = c.calls) {d : Delta} (hd : c.silent d = true) :
    s.onDelta d = s := by
  cases d with
  | text text => exact nomatch hd
  | call call =>
    obtain ⟨hknown, hargs⟩ := of_decide_eq_true hd
    rw [onDelta, toolDelta_eq, if_pos hargs, openCall, hcalls, if_pos hknown]

/-- How the stream began and ended is not for the deltas of a chunk to change. -/
structure Kept (s s' : ToAnthropic) : Prop where
  started : s'.started = s.started
  stopped : s'.stopped = s.stopped
  deltaSent : s'.deltaSent = s.deltaSent

theorem Kept.refl (s : ToAnthropic) : Kept s s := ⟨rfl, rfl, rfl⟩

theorem Kept.trans {s' s'' : ToAnthropic} (h : Kept s s') (h' : Kept s' s'') : Kept s s'' :=
  ⟨h'.started.trans h.started, h'.stopped.trans h.stopped, h'.deltaSent.trans h.deltaSent⟩

theorem openBlock_kept (block : ContentBlock) (isTool : Bool) :
    Kept s (s.openBlock block isTool)
      ∧ (s.openBlock block isTool).finishReason = s.finishReason := by
  rw [openBlock]
  cases s.blockOpen
  · exact ⟨⟨rfl, rfl, rfl⟩, rfl⟩
  · exact ⟨⟨rfl, rfl, rfl⟩, rfl⟩

theorem openCall_kept (call : ToolCall) :
    Kept s (s.openCall call) ∧ (s.openCall call).finishReason = s.finishReason := by
  rw [openCall]
  split_ifs
  · exact ⟨.refl s, rfl⟩
  · obtain ⟨hkept, hreason⟩ := openBlock_kept (s := s)
      (.toolUse call.id ((call.function.map FunctionCall.name).getD "")) true
    exact ⟨⟨hkept.started, hkept.stopped, hkept.deltaSent⟩, hreason⟩

theorem onDelta_kept (d : Delta) :
    Kept s (s.onDelta d) ∧ (s.onDelta d).finishReason = s.finishReason := by
  cases d with
  | text text =>
    rw [onDelta, textDelta]
    cases !s.blockOpen || s.blockIsTool with
    | false => exact ⟨⟨rfl, rfl, rfl⟩, rfl⟩
    | true =>
      obtain ⟨hkept, hreason⟩ := openBlock_kept (s := s) .text false
      exact ⟨⟨hkept.started, hkept.stopped, hkept.deltaSent⟩, hreason⟩
  | call call =>
    obtain ⟨hkept, hreason⟩ := openCall_kept (s := s) call
    rw [onDelta, toolDelta_eq]
    split_ifs
    · exact ⟨hkept, hreason⟩
    · exact ⟨⟨hkept.started, hkept.stopped, hkept.deltaSent⟩, hreason⟩

theorem foldl_onDelta_kept (ds : List Delta) :
    Kept s (ds.foldl onDelta s) ∧ (ds.foldl onDelta s).finishReason = s.finishReason := by
  induction ds generalizing s with
  | nil => exact ⟨.refl s, rfl⟩
  | cons d ds ih =>
    obtain ⟨hkept, hreason⟩ := onDelta_kept (s := s) d
    exact ⟨hkept.trans ih.1, ih.2.trans hreason⟩

theorem onChoice_eq (choice : Choice) :
    s.onChoice choice = (choice.deltas.foldl onDelta s).readFinish choice := by
  have hcalls : ∀ s, (choice.toolCalls.map Delta.call).foldl onDelta s
      = choice.toolCalls.foldl toolDelta s := fun s ↦ List.foldl_map
  rw [onChoice, Choice.deltas, List.foldl_append, hcalls, readContent]
  cases hcontent : choice.content with
  | none => rfl
  | some text =>
    by_cases htext : text = ""
    · rw [Option.filter_some_neg (by simp [htext])]
      simp only [htext, ne_eq, not_true, if_false]
      rfl
    · rw [Option.filter_some_pos (by simp [htext])]
      simp only [htext, ne_eq, not_false_iff, if_true]
      rfl

theorem readFinish_eq (choice : Choice) :
    ∃ reason, s.readFinish choice = { s with finishReason := reason }
      ∧ (reason ≠ "" ↔ s.finishReason ≠ "" ∨ choice.finishReason.any (fun r ↦ r ≠ "") = true) := by
  rw [readFinish]
  cases choice.finishReason with
  | none => exact ⟨s.finishReason, rfl, by simp⟩
  | some reason =>
    by_cases hreason : reason = ""
    · refine ⟨s.finishReason, ?_, by simp [hreason]⟩
      simp only [hreason, ne_eq, not_true, if_false]
    · refine ⟨reason, ?_, by simp [hreason]⟩
      simp only [hreason, ne_eq, not_false_iff, if_true]

/-! ## Choices and chunks -/

theorem orderlyDeltas_append {closed : Bool} {ds es : List Delta} :
    Upstream.orderlyDeltas closed c (ds ++ es) = true
      ↔ Upstream.orderlyDeltas closed c ds = true
        ∧ Upstream.orderlyDeltas closed (ds.foldl Content.add c) es = true := by
  induction ds generalizing c with
  | nil => simp [Upstream.orderlyDeltas]
  | cons d ds ih =>
    rw [List.cons_append, Upstream.orderlyDeltas, Upstream.orderlyDeltas, Bool.and_eq_true,
      Bool.and_eq_true, ih, List.foldl_cons, and_assoc]

theorem Writes.foldl_onDelta {ds : List Delta} (h : Writes c s)
    (hds : Upstream.orderlyDeltas false c ds = true) :
    Writes (ds.foldl Content.add c) (ds.foldl ToAnthropic.onDelta s) := by
  induction ds generalizing c s with
  | nil => exact h
  | cons d ds ih =>
    obtain ⟨hd, hds⟩ := Bool.and_eq_true_iff.mp hds
    exact ih (h.onDelta hd) hds

theorem foldl_onDelta_silent {ds : List Delta} (hcalls : s.toolIndexes = c.calls)
    (hds : Upstream.orderlyDeltas true c ds = true) :
    ds.foldl onDelta s = s ∧ ds.foldl Content.add c = c := by
  induction ds with
  | nil => exact ⟨rfl, rfl⟩
  | cons d ds ih =>
    obtain ⟨hd, hds⟩ := Bool.and_eq_true_iff.mp hds
    rw [add_of_silent hd] at hds
    rw [List.foldl_cons, List.foldl_cons, onDelta_of_silent hcalls hd, add_of_silent hd]
    exact ih hds

theorem Writes.readFinish (h : Writes c s) (choice : Choice) : Writes c (s.readFinish choice) := by
  obtain ⟨reason, hfinish, -⟩ := readFinish_eq (s := s) choice
  rw [hfinish]
  exact ⟨h.shows, h.calls, h.tools⟩

theorem Writes.foldl_onChoice {choices : List Choice} (h : Writes c s)
    (hds : Upstream.orderlyDeltas false c (choices.flatMap Choice.deltas) = true) :
    Writes ((choices.flatMap Choice.deltas).foldl Content.add c) (choices.foldl onChoice s) := by
  induction choices generalizing c s with
  | nil => exact h
  | cons choice choices ih =>
    rw [List.flatMap_cons, orderlyDeltas_append] at hds
    rw [List.flatMap_cons, List.foldl_append, List.foldl_cons, onChoice_eq]
    exact ih ((h.foldl_onDelta hds.1).readFinish choice) hds.2

/-- After the choices there is a finish reason if there was one before, or one of them gives it. -/
theorem foldl_onChoice_kept (choices : List Choice) :
    Kept s (choices.foldl onChoice s)
      ∧ ((choices.foldl onChoice s).finishReason ≠ "" ↔ s.finishReason ≠ ""
        ∨ choices.any (fun choice ↦ choice.finishReason.any fun r ↦ r ≠ "") = true) := by
  induction choices generalizing s with
  | nil => exact ⟨.refl s, by simp⟩
  | cons choice choices ih =>
    obtain ⟨hkept, hsame⟩ := foldl_onDelta_kept (s := s) choice.deltas
    obtain ⟨reason, hfinish, hreason⟩ := readFinish_eq (s := choice.deltas.foldl onDelta s) choice
    obtain ⟨hkept', hreason'⟩ := ih (s := (choice.deltas.foldl onDelta s).readFinish choice)
    rw [List.foldl_cons, onChoice_eq, hreason', hfinish, hreason, hsame, List.any_cons,
      Bool.or_eq_true, or_assoc]
    rw [hfinish] at hkept'
    refine ⟨hkept.trans (Kept.trans ?_ hkept'), Iff.rfl⟩
    exact ⟨rfl, rfl, rfl⟩

theorem foldl_onChoice_silent {choices : List Choice} (hcalls : s.toolIndexes = c.calls)
    (hds : Upstream.orderlyDeltas true c (choices.flatMap Choice.deltas) = true) :
    (∃ reason, choices.foldl onChoice s = { s with finishReason := reason })
      ∧ (choices.flatMap Choice.deltas).foldl Content.add c = c := by
  induction choices generalizing s with
  | nil => exact ⟨⟨s.finishReason, rfl⟩, rfl⟩
  | cons choice choices ih =>
    rw [List.flatMap_cons, orderlyDeltas_append] at hds
    obtain ⟨hs, hc⟩ := foldl_onDelta_silent hcalls hds.1
    obtain ⟨reason, hfinish, -⟩ := readFinish_eq (s := s) choice
    have hrest := hds.2
    rw [hc] at hrest
    obtain ⟨⟨reason', hs'⟩, hc'⟩ := ih (s := { s with finishReason := reason }) hcalls hrest
    rw [List.flatMap_cons, List.foldl_append, List.foldl_cons, onChoice_eq, hs, hc, hfinish, hs']
    exact ⟨⟨reason', rfl⟩, hc'⟩

/-- The blocks are written and the message is closed. -/
def Closed (bs : List Block) (s : ToAnthropic) : Prop :=
  ∃ id model stop input output, s.sent
    = .messageStart id model :: (renderBlocks 0 bs ++ [.messageDelta stop input output])

theorem messageDelta_eq : ∃ blockOpen sent,
    s.messageDelta = { s with blockOpen := blockOpen, deltaSent := true, sent := sent } := by
  rw [messageDelta]
  cases s.blockOpen
  · exact ⟨_, _, rfl⟩
  · exact ⟨_, _, rfl⟩

theorem Writes.messageDelta (h : Writes c s) : Closed c.blocks s.messageDelta := by
  rcases h.shows with ⟨hnil, hopen, -, id, model, hsent⟩
    | ⟨init, last, hblocks, hopen, hindex, -, id, model, hsent⟩
  · refine ⟨id, model, s.stopReason, s.inputTokens, s.outputTokens, ?_⟩
    rw [ToAnthropic.messageDelta, hopen, hnil]
    simp [event, hsent, renderBlocks]
  · rw [hblocks, Closed, renderBlocks_concat, ToAnthropic.messageDelta, hopen]
    simp [event, hsent, hindex]

/-- The translator is where the upstream is. -/
structure Follows (u : Upstream) (s : ToAnthropic) : Prop where
  started : s.started = true
  stopped : s.stopped = false
  deltaSent : s.deltaSent = u.closed
  finished : u.finished = true ↔ s.finishReason ≠ ""
  calls : s.toolIndexes = u.content.calls
  writes : u.closed = false → Writes u.content s
  closed : u.closed = true → Closed u.content.blocks s

theorem Follows.readUsage {u : Upstream} (h : Follows u s) (chunk : OpenAIChunk) :
    Follows u (s.readUsage chunk) := by
  rw [ToAnthropic.readUsage]
  cases chunk.usage with
  | none => exact h
  | some usage =>
    refine ⟨h.started, h.stopped, h.deltaSent, h.finished, h.calls, fun hopen ↦ ?_, h.closed⟩
    exact ⟨(h.writes hopen).shows, (h.writes hopen).calls, (h.writes hopen).tools⟩

/-- The choices of a chunk. -/
theorem Follows.foldl_onChoice {u : Upstream} (h : Follows u s) {chunk : OpenAIChunk}
    (hds : Upstream.orderlyDeltas u.closed u.content chunk.deltas = true) :
    Follows { u with
        content := chunk.deltas.foldl Content.add u.content
        finished := u.finished || chunk.finishes } (chunk.choices.foldl onChoice s) := by
  obtain ⟨hkept, hreason⟩ := foldl_onChoice_kept (s := s) chunk.choices
  have hfinished : (u.finished || chunk.finishes) = true
      ↔ (chunk.choices.foldl onChoice s).finishReason ≠ "" := by
    rw [hreason, Bool.or_eq_true, h.finished]
    rfl
  rcases Bool.eq_false_or_eq_true u.closed with hclosed | hclosed
  · rw [hclosed] at hds
    obtain ⟨⟨reason, hs⟩, hc⟩ := foldl_onChoice_silent h.calls hds
    have hcontent : chunk.deltas.foldl Content.add u.content = u.content := hc
    rw [hcontent]
    refine ⟨hkept.started.trans h.started, hkept.stopped.trans h.stopped,
      hkept.deltaSent.trans h.deltaSent, hfinished, ?_,
      (fun hc ↦ by cases hclosed.symm.trans hc), fun _ ↦ ?_⟩
    · rw [hs]
      exact h.calls
    · rw [hs]
      exact h.closed hclosed
  · rw [hclosed] at hds
    have hwrites := (h.writes hclosed).foldl_onChoice hds
    exact ⟨hkept.started.trans h.started, hkept.stopped.trans h.stopped,
      hkept.deltaSent.trans h.deltaSent, hfinished, hwrites.calls, fun _ ↦ hwrites,
      fun hc ↦ by cases hclosed.symm.trans hc⟩

/-- A chunk once the stream has started. -/
theorem Follows.onChunk {u : Upstream} {chunk : OpenAIChunk} (h : Follows u (s.start chunk))
    (hds : Upstream.orderlyDeltas u.closed u.content chunk.deltas = true) :
    Follows (u.next chunk) (s.onChunk chunk) := by
  have hchoices := (h.readUsage chunk).foldl_onChoice hds
  rw [ToAnthropic.onChunk]
  generalize chunk.choices.foldl onChoice ((s.start chunk).readUsage chunk) = t at hchoices
  have hfinished : (u.finished || chunk.finishes) = true ↔ t.finishReason ≠ "" := hchoices.finished
  by_cases hdelta : t.finishReason ≠ "" ∧ chunk.usage.isSome = true ∧ t.deltaSent = false
  · have hopen : u.closed = false := hchoices.deltaSent.symm.trans hdelta.2.2
    have hnext : (u.next chunk).closed = true := by
      rw [Upstream.next, hfinished.mpr hdelta.1, hdelta.2.1]
      exact Bool.or_true _
    obtain ⟨blockOpen, sent, heq⟩ := messageDelta_eq (s := t)
    have hclosed := (hchoices.writes hopen).messageDelta
    rw [if_pos hdelta]
    rw [heq] at hclosed ⊢
    exact ⟨hchoices.started, hchoices.stopped, hnext.symm, hchoices.finished, hchoices.calls,
      (fun hc ↦ nomatch hnext.symm.trans hc), fun _ ↦ hclosed⟩
  · have hnext : (u.next chunk).closed = u.closed := by
      change (u.closed || (u.finished || chunk.finishes) && chunk.usage.isSome) = u.closed
      rcases Bool.eq_false_or_eq_true u.closed with hclosed | hclosed
      · rw [hclosed]
        rfl
      · rw [hclosed, Bool.false_or]
        refine eq_false_of_ne_true fun hand ↦ hdelta ?_
        obtain ⟨hf, husage⟩ := Bool.and_eq_true_iff.mp hand
        exact ⟨hfinished.mp hf, husage, hchoices.deltaSent.trans hclosed⟩
    rw [if_neg hdelta]
    exact ⟨hchoices.started, hchoices.stopped, hchoices.deltaSent.trans hnext.symm,
      hchoices.finished, hchoices.calls, fun hc ↦ hchoices.writes (hnext.symm.trans hc),
      fun hc ↦ hchoices.closed (hnext.symm.trans hc)⟩

/-- The first chunk starts the message. -/
theorem follows_start (model id : String) (chunk : OpenAIChunk) :
    Follows {} (start { model := model, id := id } chunk) := by
  refine ⟨rfl, rfl, rfl, ?_, rfl, fun _ ↦ ⟨Or.inl ⟨rfl, rfl, rfl, id, _, rfl⟩, rfl, nofun⟩, nofun⟩
  exact ⟨nofun, fun h ↦ absurd rfl h⟩

theorem Follows.foldl_onChunk {u : Upstream} {chunks : List OpenAIChunk} (h : Follows u s)
    (hord : u.orderlyFrom chunks = true) :
    Follows (chunks.foldl Upstream.next u) (chunks.foldl ToAnthropic.onChunk s) := by
  induction chunks generalizing u s with
  | nil => exact h
  | cons chunk chunks ih =>
    obtain ⟨hds, hord⟩ := Bool.and_eq_true_iff.mp hord
    have hstart : s.start chunk = s := if_pos h.started
    exact ih (Follows.onChunk (hstart.symm ▸ h) hds) hord

theorem Follows.finish {u : Upstream} (h : Follows u s) :
    readStream s.finish.sent = some u.content.blocks ∧ s.finish.stopped = true := by
  have hclosed :
      Closed u.content.blocks (if !s.deltaSent then s.stop.messageDelta else s.stop) := by
    rw [h.deltaSent]
    rcases Bool.eq_false_or_eq_true u.closed with hclosed | hclosed
    · rw [if_neg (by rw [hclosed]; exact Bool.false_ne_true)]
      exact h.closed hclosed
    · rw [if_pos (by rw [hclosed]; rfl)]
      have hwrites := h.writes hclosed
      exact Writes.messageDelta ⟨hwrites.shows, hwrites.calls, hwrites.tools⟩
  have hfinish : s.finish
      = (if !s.deltaSent then s.stop.messageDelta else s.stop).event .messageStop := by
    rw [ToAnthropic.finish, h.stopped, if_neg Bool.false_ne_true, h.started]
    rfl
  obtain ⟨id, model, stop, input, output, hsent⟩ := hclosed
  rw [hfinish]
  constructor
  · rw [event, hsent, List.cons_append, List.append_assoc]
    exact readStream_render id model stop input output u.content.blocks
  · split_ifs
    · obtain ⟨blockOpen, sent, heq⟩ := messageDelta_eq (s := s.stop)
      rw [heq]
      rfl
    · rfl

theorem foldl_feed {lines : List (List UInt8)} {chunks : List OpenAIChunk}
    (h : lines.map openAILine = chunks.map .chunk) :
      lines.foldl feed s = chunks.foldl onChunk s := by
  induction lines generalizing chunks s with
  | nil =>
    rw [List.map_nil, eq_comm, List.map_eq_nil_iff] at h
    rw [h]
    rfl
  | cons line lines ih =>
    cases chunks with
    | nil => exact nomatch h
    | cons chunk chunks =>
      obtain ⟨hline, hrest⟩ := List.cons.inj h
      rw [List.foldl_cons, List.foldl_cons, feed, hline]
      exact ih hrest

/-- A caller reads the blocks of the upstream, as long as the upstream stays with the block that it
began last, and adds nothing once it has given its finish reason and its usage. -/
theorem translate_orderly (model id : String) {lines : List (List UInt8)} {last : List UInt8}
    {chunks : List OpenAIChunk} (hlines : lines.map openAILine = chunks.map .chunk)
    (hlast : openAILine last = .done) (hne : chunks ≠ [])
    (hord : Upstream.orderlyFrom {} chunks = true) :
    readStream (translate { model := model, id := id } (lines ++ [last]))
      = some (upstreamBlocks chunks) := by
  obtain ⟨chunk, rest, rfl⟩ := List.exists_cons_of_ne_nil hne
  obtain ⟨hds, hord⟩ := Bool.and_eq_true_iff.mp hord
  have hfollows := ((follows_start model id chunk).onChunk hds).foldl_onChunk hord
  obtain ⟨hread, hstopped⟩ := hfollows.finish
  rw [translate, List.foldl_append, List.foldl_cons, List.foldl_nil, foldl_feed hlines, feed, hlast]
  change readStream (List.foldl onChunk _ (chunk :: rest)).finish.finish.sent = _
  rw [List.foldl_cons, ToAnthropic.finish, if_pos hstopped]
  exact hread

/-- A line with a delta. -/
def deltaLine (delta : String) : List UInt8 :=
  Ascii.bytes ("data: \x7b\"choices\":[\x7b\"delta\":\x7b" ++ delta ++ "\x7d\x7d]\x7d")

/-- A line with arguments of a tool call. -/
def argumentsLine (index arguments : String) : List UInt8 :=
  deltaLine ("\"tool_calls\":[\x7b\"index\":" ++ index ++ ",\"function\":\x7b\"arguments\":\""
    ++ arguments ++ "\"\x7d\x7d]")

def argumentsChunk (index : ℤ) (arguments : String) : OpenAIChunk where
  choices := [{ toolCalls := [{ index := index, function := some { arguments := arguments } }] }]

/-- Text, a tool call whose arguments come in two parts, and usage with the finish reason. -/
theorem translate_orderly_tool :
    readStream (translate { model := "m", id := "msg_1" }
      ([deltaLine "\"content\":\"Hi\"", argumentsLine "0" "[", argumentsLine "0" "]",
        Ascii.bytes
          "data: \x7b\"choices\":[\x7b\"finish_reason\":\"stop\"\x7d],\"usage\":\x7b\x7d\x7d"]
        ++ [Ascii.bytes "data: [DONE]"]))
      = some [{ block := .text, parts := ["Hi"] },
        { block := .toolUse "" "", parts := ["[", "]"] }] := by
  have hlines : [deltaLine "\"content\":\"Hi\"", argumentsLine "0" "[", argumentsLine "0" "]",
      Ascii.bytes
        "data: \x7b\"choices\":[\x7b\"finish_reason\":\"stop\"\x7d],\"usage\":\x7b\x7d\x7d"].map
        openAILine
      = [{ choices := [{ content := some "Hi" }] }, argumentsChunk 0 "[", argumentsChunk 0 "]",
        { choices := [{ finishReason := some "stop" }], usage := some {} }].map .chunk := by
    decide +kernel
  exact (translate_orderly "m" "msg_1" hlines (by decide +kernel) (by decide)
    (by decide +kernel)).trans
    (by decide +kernel)

/-- Two tool calls whose arguments alternate: the third delta is for a block that was stopped. -/
theorem translate_interleaved :
    [argumentsLine "0" "[", argumentsLine "1" "2", argumentsLine "0" "]"].map openAILine
        = [argumentsChunk 0 "[", argumentsChunk 1 "2", argumentsChunk 0 "]"].map .chunk
      ∧ openAILine (Ascii.bytes "data: [DONE]") = .done
      ∧ readStream (translate { model := "m", id := "msg_1" }
        ([argumentsLine "0" "[", argumentsLine "1" "2", argumentsLine "0" "]"]
          ++ [Ascii.bytes "data: [DONE]"])) = none := by
  refine ⟨?_, ?_, ?_⟩
  · decide +kernel
  · decide +kernel
  · decide +kernel

end ToAnthropic

end Kaalm.Translate
