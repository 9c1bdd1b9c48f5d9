import Kaalm.Translate.Blocks
import Kaalm.Translate.ToOpenAI

/-!
# The end of a translated stream

A stream that was translated ends once: the last thing written is the terminator, and there is only
one, and at most one event says why the answer finished. Neither translator looks at whether it has
ended when it is fed a line, so this rests on the upstream: it must send nothing that is written
after its own end, and an Anthropic upstream must not send a second `message_delta`.
-/

namespace Kaalm.Translate

/-- Nothing was written, or the last thing written is the only terminator; and at most one thing
says why the answer finished. -/
def endsOnce {α : Type} (isEnd isFinish : α → Bool) (out : List α) : Bool :=
  out.countP isFinish ≤ 1 ∧ (out.isEmpty ∨ out.getLast?.any isEnd ∧ out.countP isEnd = 1)

def AnthropicOut.isStop : AnthropicOut → Bool
  | .messageStop => true
  | _ => false

def AnthropicOut.isDelta : AnthropicOut → Bool
  | .messageDelta _ _ _ => true
  | _ => false

def OpenAIOut.isDone : OpenAIOut → Bool
  | .done => true
  | _ => false

def OpenAIOut.isFinish : OpenAIOut → Bool
  | .chunk _ _ (some _) => true
  | _ => false

/-! ## OpenAI to Anthropic -/

/-- Nothing is written for the delta when the blocks of these tool calls are known. -/
def Delta.quiet (known : List ℤ) : Delta → Bool
  | .text _ => false
  | .call k => k.index ∈ known ∧ k.arguments = ""

/-- The tool call of a delta. -/
def Delta.index? : Delta → Option ℤ
  | .text _ => none
  | .call k => some k.index

def OpenAIChunk.indexes (c : OpenAIChunk) : List ℤ := c.deltas.filterMap Delta.index?

/-- After `[DONE]` there is no chunk if there was none before, and none that adds to the message. -/
def quietAfterDone (started done : Bool) (known : List ℤ) : List OpenAILine → Bool
  | [] => true
  | .dropped :: lines => quietAfterDone started done known lines
  | .done :: lines => quietAfterDone started true known lines
  | .chunk c :: lines =>
    (!done || started && c.deltas.all (Delta.quiet known))
      && quietAfterDone true done (c.indexes ++ known) lines

/-! ## Anthropic to OpenAI -/

/-- Something is written for the event. -/
def AnthropicEvent.speaks (type : String) (e : AnthropicEvent) : Bool :=
  type = "message_start"
    ∨ type = "content_block_start" ∧ (e.contentBlock.member "type").string? = some "tool_use"
    ∨ type = "content_block_delta" ∧ (e.deltaType = "text_delta" ∨ e.deltaType = "input_json_delta")
    ∨ type = "message_delta" ∨ type = "error"

/-- After `message_stop` or an error there is no event that something is written for, and there is
at most one `message_delta`. -/
def quietAfterStop (event : String) (stopped finished : Bool) : List (List UInt8) → Bool
  | [] => true
  | line :: lines =>
    match anthropicLine event line with
    | .name event => quietAfterStop event stopped finished lines
    | .dropped => quietAfterStop event stopped finished lines
    | .event type e =>
      (if stopped then !e.speaks type else !(finished && type = "message_delta"))
        && quietAfterStop event (stopped || type = "message_stop" || type = "error")
          (finished || type = "message_delta") lines

theorem endsOnce_of_append {α : Type} {isEnd isFinish : α → Bool} {out : List α} {e : α}
    (hend : isEnd e = true) (hout : out.countP isEnd = 0)
    (hfinish : (out ++ [e]).countP isFinish ≤ 1) : endsOnce isEnd isFinish (out ++ [e]) = true := by
  refine decide_eq_true ⟨hfinish, Or.inr ⟨?_, ?_⟩⟩
  · rw [List.getLast?_concat]
    exact hend
  · rw [List.countP_append, hout, List.countP_singleton, if_pos hend]

namespace ToOpenAI

variable {s s' : ToOpenAI} {type : String} {e : AnthropicEvent}

/-- Something was written that neither ends the stream nor says why it finished. -/
structure Plain (s s' : ToOpenAI) : Prop where
  event : s'.event = s.event
  done : s'.done = s.done
  finished : s'.finished = s.finished
  sent : ∃ out, s'.sent = s.sent ++ out ∧ out.countP OpenAIOut.isDone = 0
    ∧ out.countP OpenAIOut.isFinish = 0

theorem Plain.refl (s : ToOpenAI) : Plain s s :=
  ⟨rfl, rfl, rfl, [], (List.append_nil _).symm, rfl, rfl⟩

theorem plain_messageStart : Plain s (s.messageStart e) := by
  rw [messageStart]
  cases (e.message.member "model").string? with
  | none =>
    simp only
    split_ifs <;> exact ⟨rfl, rfl, rfl, _, rfl, rfl, rfl⟩
  | some m =>
    simp only
    split_ifs <;> exact ⟨rfl, rfl, rfl, _, rfl, rfl, rfl⟩

theorem plain_blockStart : Plain s (s.blockStart e) := by
  rw [blockStart]
  split_ifs
  · exact .refl s
  · exact ⟨rfl, rfl, rfl, _, rfl, rfl, rfl⟩

theorem plain_blockDelta : Plain s (s.blockDelta e) := by
  rw [blockDelta]
  split_ifs
  · exact ⟨rfl, rfl, rfl, _, rfl, rfl, rfl⟩
  · exact ⟨rfl, rfl, rfl, _, rfl, rfl, rfl⟩
  · exact .refl s

/-- How far the stream is: before its end no terminator was written. -/
structure Ends (stopped hasFinish : Bool) (s : ToOpenAI) : Prop where
  done : s.done = stopped
  finished : s.finished = hasFinish
  before : stopped = false → s.sent.countP OpenAIOut.isDone = 0
    ∧ s.sent.countP OpenAIOut.isFinish = if hasFinish then 1 else 0
  after : stopped = true → endsOnce OpenAIOut.isDone OpenAIOut.isFinish s.sent = true

variable {hasFinish : Bool}

theorem Ends.plain (h : Ends false hasFinish s) (hplain : Plain s s') :
    Ends false hasFinish s' := by
  obtain ⟨out, hsent, hdone, hfinish⟩ := hplain.sent
  obtain ⟨hbefore, hcount⟩ := h.before rfl
  refine ⟨hplain.done.trans h.done, hplain.finished.trans h.finished, fun _ ↦ ?_, Bool.noConfusion⟩
  rw [hsent, List.countP_append, List.countP_append, hdone, hfinish]
  exact ⟨hbefore, hcount⟩

theorem Ends.messageDelta (h : Ends false false s) :
    Ends false true (s.messageDelta e) ∧ (s.messageDelta e).event = s.event := by
  obtain ⟨hbefore, hcount⟩ := h.before rfl
  have husage : (s.readUsage e).sent = s.sent ∧ (s.readUsage e).done = s.done
      ∧ (s.readUsage e).event = s.event := by
    rw [readUsage]
    split_ifs <;> exact ⟨rfl, rfl, rfl⟩
  have hsent :
      ∃ head reason, (s.messageDelta e).sent = s.sent ++ [.chunk head .empty (some reason)] := by
    rw [← husage.1]
    exact ⟨_, _, rfl⟩
  obtain ⟨head, reason, hsent⟩ := hsent
  refine ⟨⟨husage.2.1.trans h.done, rfl, fun _ ↦ ?_, Bool.noConfusion⟩, husage.2.2⟩
  rw [hsent, List.countP_append, List.countP_append, hbefore, hcount]
  exact ⟨rfl, rfl⟩

theorem Ends.finish (h : Ends false hasFinish s) :
    Ends true hasFinish s.finish ∧ s.finish.event = s.event := by
  obtain ⟨hbefore, hcount⟩ := h.before rfl
  have hsent : ∃ out, s.finish.sent = s.sent ++ (out ++ [.done]) ∧ out.countP OpenAIOut.isDone = 0
      ∧ out.countP OpenAIOut.isFinish = if hasFinish then 0 else 1 := by
    rw [ToOpenAI.finish, h.done, h.finished, if_neg Bool.false_ne_true]
    cases hasFinish
    · exact ⟨[_, _], List.append_assoc s.sent [_] [_, _], rfl, rfl⟩
    · exact ⟨[_], rfl, rfl, rfl⟩
  have hrest : s.finish.done = true ∧ s.finish.finished = s.finished
      ∧ s.finish.event = s.event := by
    rw [ToOpenAI.finish, h.done, if_neg Bool.false_ne_true]
    cases s.finished <;> exact ⟨rfl, rfl, rfl⟩
  obtain ⟨out, hsent, hdone, hfinish⟩ := hsent
  refine ⟨⟨hrest.1, hrest.2.1.trans h.finished, Bool.noConfusion, fun _ ↦ ?_⟩, hrest.2.2⟩
  rw [hsent, ← List.append_assoc]
  refine endsOnce_of_append rfl ?_ ?_
  · rw [List.countP_append, hbefore, hdone]
  · rw [List.countP_append, List.countP_append, hcount, hfinish]
    cases hasFinish <;> decide

theorem Ends.onError (h : Ends false hasFinish s) : Ends true hasFinish (s.onError e) := by
  obtain ⟨hbefore, hcount⟩ := h.before rfl
  refine ⟨rfl, h.finished, Bool.noConfusion, fun _ ↦ ?_⟩
  change endsOnce _ _ (s.sent ++ ([.error e.error] ++ [.done])) = true
  rw [← List.append_assoc]
  refine endsOnce_of_append rfl ?_ ?_
  · rw [List.countP_append, hbefore]
    rfl
  · rw [List.countP_append, List.countP_append, hcount]
    cases hasFinish
    · exact Nat.zero_le 1
    · exact Nat.le_refl 1

/-- An event after the end for which nothing is written. -/
theorem onEvent_of_not_speaks (hdone : s.done = true) (h : e.speaks type = false) :
    s.onEvent type e = s := by
  have h := of_decide_eq_false h
  simp only [not_or, not_and] at h
  obtain ⟨hstart, hblock, hdelta, hmessage, herror⟩ := h
  rw [onEvent, if_neg hstart, if_neg hmessage, if_neg herror]
  split_ifs with htype htype htype
  · exact if_pos (hblock htype)
  · rw [blockDelta, if_neg (hdelta htype).1, if_neg (hdelta htype).2]
  · exact if_pos hdone
  · rfl

theorem plain_onEvent (hdelta : type ≠ "message_delta") (hstop : type ≠ "message_stop")
    (herror : type ≠ "error") : Plain s (s.onEvent type e) := by
  rw [onEvent, if_neg hdelta, if_neg hstop, if_neg herror]
  split_ifs
  · exact plain_messageStart
  · exact plain_blockStart
  · exact plain_blockDelta
  · exact .refl s

theorem Ends.onEvent {stopped : Bool} (h : Ends stopped hasFinish s)
    (hquiet : (if stopped then !e.speaks type else !(hasFinish && type = "message_delta")) = true) :
    Ends (stopped || type = "message_stop" || type = "error")
        (hasFinish || type = "message_delta") (s.onEvent type e)
      ∧ (s.onEvent type e).event = s.event := by
  cases stopped with
  | true =>
    have hspeaks : e.speaks type = false := (Bool.not_eq_true' _).mp hquiet
    have hdelta : type ≠ "message_delta" := by
      rintro rfl
      exact nomatch hspeaks
    rw [onEvent_of_not_speaks h.done hspeaks, Bool.true_or, Bool.true_or, decide_eq_false hdelta,
      Bool.or_false]
    exact ⟨h, rfl⟩
  | false =>
    by_cases hdelta : type = "message_delta"
    · subst hdelta
      have hfinish : hasFinish = false := by
        cases hasFinish
        · rfl
        · exact nomatch hquiet
      subst hfinish
      exact h.messageDelta
    by_cases hstop : type = "message_stop"
    · subst hstop
      obtain ⟨hends, hevent⟩ := h.finish
      rw [decide_eq_false hdelta, Bool.or_false]
      exact ⟨hends, hevent⟩
    by_cases herror : type = "error"
    · subst herror
      rw [decide_eq_false hdelta, Bool.or_false]
      exact ⟨h.onError, rfl⟩
    · have hplain := plain_onEvent (s := s) (e := e) hdelta hstop herror
      simp only [decide_eq_false hdelta, decide_eq_false hstop, decide_eq_false herror,
        Bool.or_false]
      exact ⟨h.plain hplain, hplain.event⟩

theorem Ends.foldl_feed {stopped : Bool} {lines : List (List UInt8)} (h : Ends stopped hasFinish s)
    (hquiet : quietAfterStop s.event stopped hasFinish lines = true) :
    endsOnce OpenAIOut.isDone OpenAIOut.isFinish (lines.foldl feed s).finish.sent = true := by
  induction lines generalizing s stopped hasFinish with
  | nil =>
    cases stopped with
    | true =>
      have hfinish : s.finish = s := if_pos h.done
      rw [List.foldl_nil, hfinish]
      exact h.after rfl
    | false => exact h.finish.1.after rfl
  | cons line lines ih =>
    rw [quietAfterStop] at hquiet
    rw [List.foldl_cons, feed]
    cases hline : anthropicLine s.event line with
    | name event =>
      rw [hline] at hquiet
      exact ih (s := { s with event := event }) ⟨h.done, h.finished, h.before, h.after⟩ hquiet
    | dropped =>
      rw [hline] at hquiet
      exact ih h hquiet
    | event type e =>
      rw [hline] at hquiet
      obtain ⟨hevent, hquiet⟩ := Bool.and_eq_true_iff.mp hquiet
      obtain ⟨hends, hname⟩ := h.onEvent hevent
      rw [← hname] at hquiet
      exact ih hends hquiet

end ToOpenAI

namespace ToAnthropic

variable {s s' : ToAnthropic} {known : List ℤ}

/-- Something was written that neither ends the stream nor says why it finished. -/
def Plain (s s' : ToAnthropic) : Prop :=
  ∃ out, s'.sent = s.sent ++ out ∧ out.countP AnthropicOut.isStop = 0
    ∧ out.countP AnthropicOut.isDelta = 0

theorem Plain.refl (s : ToAnthropic) : Plain s s := ⟨[], (List.append_nil _).symm, rfl, rfl⟩

theorem Plain.trans {s'' : ToAnthropic} (h : Plain s s') (h' : Plain s' s'') : Plain s s'' := by
  obtain ⟨out, hsent, hstop, hdelta⟩ := h
  obtain ⟨out', hsent', hstop', hdelta'⟩ := h'
  refine ⟨out ++ out', by rw [hsent', hsent, List.append_assoc], ?_, ?_⟩
  · rw [List.countP_append, hstop, hstop']
  · rw [List.countP_append, hdelta, hdelta']

theorem plain_openBlock (block : ContentBlock) (isTool : Bool) :
    Plain s (s.openBlock block isTool) := by
  rw [openBlock]
  cases s.blockOpen
  · exact ⟨[_], rfl, rfl, rfl⟩
  · exact ⟨[_, _], List.append_assoc s.sent [_] [_], rfl, rfl⟩

theorem plain_openCall (call : ToolCall) : Plain s (s.openCall call) := by
  rw [openCall]
  split_ifs
  · exact .refl s
  · exact plain_openBlock _ _

theorem plain_onDelta (d : Delta) : Plain s (s.onDelta d) := by
  cases d with
  | text text =>
    rw [onDelta, textDelta]
    cases !s.blockOpen || s.blockIsTool with
    | false => exact ⟨[_], rfl, rfl, rfl⟩
    | true => exact (plain_openBlock _ _).trans ⟨[_], rfl, rfl, rfl⟩
  | call call =>
    rw [onDelta, toolDelta_eq]
    split_ifs
    · exact plain_openCall call
    · exact (plain_openCall call).trans ⟨[_], rfl, rfl, rfl⟩

theorem plain_foldl_onDelta (ds : List Delta) : Plain s (ds.foldl onDelta s) := by
  induction ds generalizing s with
  | nil => exact .refl s
  | cons d ds ih => exact (plain_onDelta d).trans ih

theorem plain_foldl_onChoice (choices : List Choice) : Plain s (choices.foldl onChoice s) := by
  induction choices generalizing s with
  | nil => exact .refl s
  | cons choice choices ih =>
    obtain ⟨reason, hfinish, -⟩ := readFinish_eq (s := choice.deltas.foldl onDelta s) choice
    have hchoice : Plain s (s.onChoice choice) := by
      rw [onChoice_eq, hfinish]
      exact plain_foldl_onDelta choice.deltas
    exact hchoice.trans ih

/-- The translator knows the blocks of these tool calls. -/
def Knows (known : List ℤ) (s : ToAnthropic) : Prop :=
  ∀ i, (s.toolIndexes.lookup i).isSome = true ↔ i ∈ known

theorem isSome_lookup_openCall (call : ToolCall) (i : ℤ) :
    ((s.openCall call).toolIndexes.lookup i).isSome = true
      ↔ i = call.index ∨ (s.toolIndexes.lookup i).isSome = true := by
  rw [openCall]
  by_cases hknown : (s.toolIndexes.lookup call.index).isSome = true
  · rw [if_pos hknown]
    refine ⟨Or.inr, ?_⟩
    rintro (rfl | h)
    · exact hknown
    · exact h
  · rw [if_neg hknown]
    simp only [toolIndexes_openBlock, List.lookup_cons]
    by_cases hi : i = call.index
    · rw [beq_iff_eq.mpr hi]
      exact ⟨fun _ ↦ Or.inl hi, fun _ ↦ rfl⟩
    · rw [beq_eq_false_iff_ne.mpr hi]
      exact ⟨Or.inr, fun h ↦ h.resolve_left hi⟩

theorem Knows.onDelta (h : Knows known s) (d : Delta) :
    Knows (d.index?.toList ++ known) (s.onDelta d) := by
  intro i
  cases d with
  | text text =>
    have hcalls : (s.textDelta text).toolIndexes = s.toolIndexes := by
      rw [textDelta]
      cases !s.blockOpen || s.blockIsTool with
      | false => rfl
      | true => exact toolIndexes_openBlock .text false
    rw [ToAnthropic.onDelta, hcalls]
    exact h i
  | call call =>
    have hcalls : (s.toolDelta call).toolIndexes = (s.openCall call).toolIndexes := by
      rw [toolDelta_eq]
      split_ifs <;> rfl
    rw [ToAnthropic.onDelta, hcalls, isSome_lookup_openCall, h i]
    exact List.mem_cons.symm

theorem Knows.foldl_onDelta (h : Knows known s) (ds : List Delta) :
    Knows (ds.filterMap Delta.index? ++ known) (ds.foldl ToAnthropic.onDelta s) := by
  induction ds generalizing s known with
  | nil => exact h
  | cons d ds ih =>
    intro i
    rw [List.foldl_cons, ih (h.onDelta d) i]
    cases hd : d.index? <;> simp [hd, or_left_comm]

theorem Knows.foldl_onChoice (h : Knows known s) (choices : List Choice) :
    Knows ((choices.flatMap Choice.deltas).filterMap Delta.index? ++ known)
      (choices.foldl onChoice s) := by
  induction choices generalizing s known with
  | nil => exact h
  | cons choice choices ih =>
    intro i
    obtain ⟨reason, hfinish, -⟩ :=
      readFinish_eq (s := choice.deltas.foldl ToAnthropic.onDelta s) choice
    have hchoice : Knows (choice.deltas.filterMap Delta.index? ++ known) (s.onChoice choice) := by
      rw [onChoice_eq, hfinish]
      exact h.foldl_onDelta choice.deltas
    rw [List.foldl_cons, ih hchoice i, List.flatMap_cons, List.filterMap_append]
    simp only [List.mem_append, or_assoc, or_left_comm]

theorem orderly_of_quiet {c : Content} {ds : List Delta}
    (hknown : ∀ i ∈ known, (c.calls.lookup i).isSome = true)
    (hds : ds.all (Delta.quiet known) = true) : Upstream.orderlyDeltas true c ds = true := by
  induction ds with
  | nil => rfl
  | cons d ds ih =>
    obtain ⟨hd, hds⟩ := Bool.and_eq_true_iff.mp hds
    have hsilent : c.silent d = true := by
      cases d with
      | text text => exact nomatch hd
      | call call =>
        obtain ⟨hmem, hargs⟩ := of_decide_eq_true hd
        exact decide_eq_true ⟨hknown _ hmem, hargs⟩
    rw [Upstream.orderlyDeltas, if_pos rfl, hsilent, add_of_silent hsilent]
    exact ih hds

/-- How far the stream is. -/
structure Ends (started stopped : Bool) (known : List ℤ) (s : ToAnthropic) : Prop where
  started_eq : s.started = started
  stopped_eq : s.stopped = stopped
  knows : Knows known s
  fresh : started = false → s.sent = [] ∧ s.deltaSent = false
  before : stopped = false → s.sent.countP AnthropicOut.isStop = 0
    ∧ s.sent.countP AnthropicOut.isDelta = if s.deltaSent then 1 else 0
  after : stopped = true → endsOnce AnthropicOut.isStop AnthropicOut.isDelta s.sent = true
    ∧ (started = true → s.deltaSent = true)

theorem messageDelta_sent : ∃ out stop input output,
    s.messageDelta.sent = s.sent ++ (out ++ [.messageDelta stop input output])
      ∧ out.countP AnthropicOut.isStop = 0 ∧ out.countP AnthropicOut.isDelta = 0 := by
  rw [messageDelta]
  cases s.blockOpen
  · exact ⟨[], _, _, _, rfl, rfl, rfl⟩
  · exact ⟨[_], _, _, _, List.append_assoc s.sent [_] [_], rfl, rfl⟩

/-- The message delta is sent: it is the first one. -/
theorem countP_messageDelta (hstop : s.sent.countP AnthropicOut.isStop = 0)
    (hdelta : s.sent.countP AnthropicOut.isDelta = if s.deltaSent then 1 else 0)
    (hsent : s.deltaSent = false) :
    s.messageDelta.sent.countP AnthropicOut.isStop = 0
      ∧ s.messageDelta.sent.countP AnthropicOut.isDelta = 1 := by
  obtain ⟨out, stop, input, output, heq, hout, hout'⟩ := messageDelta_sent (s := s)
  rw [hsent] at hdelta
  rw [heq]
  simp only [List.countP_append, hstop, hdelta, hout, hout']
  exact ⟨rfl, rfl⟩

theorem Ends.finish {started : Bool} (h : Ends started false known s) :
    Ends started true known s.finish := by
  obtain ⟨hstop, hdelta⟩ := h.before rfl
  cases started with
  | false =>
    have hfinish : s.finish = s.stop := by
      rw [ToAnthropic.finish, h.stopped_eq, if_neg Bool.false_ne_true, h.started_eq]
      rfl
    rw [hfinish]
    refine ⟨h.started_eq, rfl, h.knows, h.fresh, Bool.noConfusion, fun _ ↦ ⟨?_, Bool.noConfusion⟩⟩
    change endsOnce _ _ s.sent = true
    rw [(h.fresh rfl).1]
    rfl
  | true =>
    have hfinish : s.finish
        = (if !s.deltaSent then s.stop.messageDelta else s.stop).event .messageStop := by
      rw [ToAnthropic.finish, h.stopped_eq, if_neg Bool.false_ne_true, h.started_eq]
      rfl
    rw [hfinish]
    rcases Bool.eq_false_or_eq_true s.deltaSent with hsent | hsent
    · rw [if_neg (by rw [hsent]; exact Bool.false_ne_true)]
      refine ⟨h.started_eq, rfl, h.knows, Bool.noConfusion, Bool.noConfusion,
        fun _ ↦ ⟨?_, fun _ ↦ hsent⟩⟩
      refine endsOnce_of_append rfl hstop ?_
      rw [List.countP_append]
      change s.sent.countP AnthropicOut.isDelta + 0 ≤ 1
      rw [hdelta, hsent]
      rfl
    · obtain ⟨blockOpen, sent, heq⟩ := messageDelta_eq (s := s.stop)
      obtain ⟨hstop', hdelta'⟩ := countP_messageDelta (s := s.stop) hstop hdelta hsent
      rw [heq] at hstop' hdelta'
      rw [if_pos (by rw [hsent]; rfl), heq]
      refine ⟨h.started_eq, rfl, h.knows, Bool.noConfusion, Bool.noConfusion,
        fun _ ↦ ⟨?_, fun _ ↦ rfl⟩⟩
      refine endsOnce_of_append rfl hstop' ?_
      rw [List.countP_append, hdelta']
      rfl

theorem readUsage_eq (chunk : OpenAIChunk) : ∃ input output,
    s.readUsage chunk = { s with inputTokens := input, outputTokens := output } := by
  rw [readUsage]
  cases chunk.usage with
  | none => exact ⟨s.inputTokens, s.outputTokens, rfl⟩
  | some u => exact ⟨u.promptTokens, u.completionTokens, rfl⟩

theorem Ends.onChunk_of_quiet {chunk : OpenAIChunk} (h : Ends true true known s)
    (hquiet : chunk.deltas.all (Delta.quiet known) = true) :
    Ends true true (chunk.indexes ++ known) (s.onChunk chunk) := by
  obtain ⟨input, output, husage⟩ := readUsage_eq (s := s) chunk
  have hstart : s.start chunk = s := if_pos h.started_eq
  have hdelta := (h.after rfl).2 rfl
  have hquiet' : Upstream.orderlyDeltas true { calls := s.toolIndexes }
      (chunk.choices.flatMap Choice.deltas) = true :=
    orderly_of_quiet (fun i hi ↦ (h.knows i).mpr hi) hquiet
  obtain ⟨⟨reason, hchoices⟩, -⟩ := foldl_onChoice_silent
    (s := { s with inputTokens := input, outputTokens := output }) rfl hquiet'
  have hchunk : s.onChunk chunk = { s with
      inputTokens := input, outputTokens := output, finishReason := reason } := by
    rw [ToAnthropic.onChunk, hstart, husage, hchoices]
    exact if_neg fun hc ↦ by cases hdelta.symm.trans (show s.deltaSent = false from hc.2.2)
  rw [hchunk]
  refine ⟨h.started_eq, h.stopped_eq, fun i ↦ ?_, Bool.noConfusion, Bool.noConfusion, h.after⟩
  rw [List.mem_append, ← h.knows i]
  refine ⟨Or.inr, ?_⟩
  rintro (hi | hi)
  · obtain ⟨d, hd, hdi⟩ := List.mem_filterMap.mp hi
    have hq := List.all_eq_true.mp hquiet d hd
    cases d with
    | text text => cases hdi
    | call k =>
      obtain rfl := Option.some.inj hdi
      exact (h.knows _).mpr (of_decide_eq_true hq).1
  · exact hi

/-- The first chunk starts the message. -/
theorem Ends.start {started : Bool} (h : Ends started false known s) (chunk : OpenAIChunk) :
    Ends true false known (s.start chunk) := by
  cases started with
  | true =>
    have hstart : s.start chunk = s := if_pos h.started_eq
    rw [hstart]
    exact h
  | false =>
    obtain ⟨hsent, hdelta⟩ := h.fresh rfl
    rw [ToAnthropic.start, h.started_eq, if_neg Bool.false_ne_true]
    refine ⟨rfl, h.stopped_eq, h.knows, Bool.noConfusion, fun _ ↦ ?_, Bool.noConfusion⟩
    simp only [event, hsent, hdelta]
    exact ⟨rfl, rfl⟩

theorem Ends.onChunk {started : Bool} (h : Ends started false known s) (chunk : OpenAIChunk) :
    Ends true false (chunk.indexes ++ known) (s.onChunk chunk) := by
  have hstart := h.start chunk
  obtain ⟨input, output, husage⟩ := readUsage_eq (s := s.start chunk) chunk
  have hread : Knows known ((s.start chunk).readUsage chunk) := by
    rw [husage]
    exact hstart.knows
  have hknows := hread.foldl_onChoice chunk.choices
  obtain ⟨hkept, -⟩ := foldl_onChoice_kept (s := (s.start chunk).readUsage chunk) chunk.choices
  obtain ⟨out, hsent, hout, hout'⟩ :=
    plain_foldl_onChoice (s := (s.start chunk).readUsage chunk) chunk.choices
  rw [ToAnthropic.onChunk]
  generalize chunk.choices.foldl onChoice ((s.start chunk).readUsage chunk) = t at *
  rw [husage] at hkept hsent
  obtain ⟨hstop, hdelta⟩ := hstart.before rfl
  have hstop' : t.sent.countP AnthropicOut.isStop = 0 := by
    rw [hsent, List.countP_append, hout]
    exact hstop
  have hdelta' : t.sent.countP AnthropicOut.isDelta = if t.deltaSent then 1 else 0 := by
    rw [hsent, List.countP_append, hout', hkept.deltaSent]
    exact hdelta
  have hstarted : t.started = true := hkept.started.trans hstart.started_eq
  have hstopped : t.stopped = false := hkept.stopped.trans hstart.stopped_eq
  by_cases hmessage : t.finishReason ≠ "" ∧ chunk.usage.isSome = true ∧ t.deltaSent = false
  · rw [if_pos hmessage]
    obtain ⟨blockOpen, sent, heq⟩ := messageDelta_eq (s := t)
    have hcount := countP_messageDelta hstop' hdelta' hmessage.2.2
    rw [heq] at hcount ⊢
    exact ⟨hstarted, hstopped, hknows, Bool.noConfusion, fun _ ↦ hcount, Bool.noConfusion⟩
  · rw [if_neg hmessage]
    exact ⟨hstarted, hstopped, hknows, Bool.noConfusion, fun _ ↦ ⟨hstop', hdelta'⟩,
      Bool.noConfusion⟩

theorem Ends.foldl_feed {started stopped : Bool} {lines : List (List UInt8)}
    (h : Ends started stopped known s)
    (hquiet : quietAfterDone started stopped known (lines.map openAILine) = true) :
    endsOnce AnthropicOut.isStop AnthropicOut.isDelta (lines.foldl feed s).finish.sent = true := by
  induction lines generalizing s started stopped known with
  | nil =>
    cases stopped with
    | true =>
      have hfinish : s.finish = s := if_pos h.stopped_eq
      rw [List.foldl_nil, hfinish]
      exact (h.after rfl).1
    | false => exact (h.finish.after rfl).1
  | cons line lines ih =>
    rw [List.map_cons] at hquiet
    rw [List.foldl_cons, feed]
    cases hline : openAILine line with
    | dropped =>
      rw [hline] at hquiet
      exact ih h hquiet
    | done =>
      rw [hline] at hquiet
      cases stopped with
      | true =>
        have hfinish : s.finish = s := if_pos h.stopped_eq
        exact ih (hfinish.symm ▸ h) hquiet
      | false => exact ih h.finish hquiet
    | chunk chunk =>
      rw [hline] at hquiet
      obtain ⟨hchunk, hrest⟩ := Bool.and_eq_true_iff.mp hquiet
      cases stopped with
      | true =>
        obtain ⟨hstarted, hchunk⟩ := Bool.and_eq_true_iff.mp hchunk
        exact ih ((hstarted ▸ h).onChunk_of_quiet hchunk) hrest
      | false => exact ih (h.onChunk chunk) hrest

end ToAnthropic

/-- Both translators end a stream once, as long as the upstream sends nothing that is written after
its own end, and an Anthropic upstream sends at most one `message_delta`. -/
theorem translate_endsOnce (model id : String) (created : ℤ) (lines : List (List UInt8)) :
    (quietAfterDone false false [] (lines.map openAILine) = true →
      endsOnce AnthropicOut.isStop AnthropicOut.isDelta
        (ToAnthropic.translate { model := model, id := id } lines) = true)
    ∧ (quietAfterStop "" false false lines = true →
      endsOnce OpenAIOut.isDone OpenAIOut.isFinish
        (ToOpenAI.translate { model := model, id := id, created := created } lines) = true) := by
  constructor
  · intro hquiet
    have hnew : ToAnthropic.Ends false false [] { model := model, id := id } :=
      ⟨rfl, rfl, fun i ↦ by simp, fun _ ↦ ⟨rfl, rfl⟩, fun _ ↦ ⟨rfl, rfl⟩, Bool.noConfusion⟩
    exact hnew.foldl_feed hquiet
  · intro hquiet
    have hnew : ToOpenAI.Ends false false { model := model, id := id, created := created } :=
      ⟨rfl, rfl, fun _ ↦ ⟨rfl, rfl⟩, Bool.noConfusion⟩
    exact hnew.foldl_feed hquiet

/-- Terminators that are repeated, and an empty chunk after the end. -/
theorem translate_endsOnce_repeated :
    endsOnce AnthropicOut.isStop AnthropicOut.isDelta
        (ToAnthropic.translate { model := "m", id := "msg_1" }
          [Ascii.bytes "data: \x7b\"choices\":[\x7b\"delta\":\x7b\"content\":\"Hi\"\x7d\x7d]\x7d",
           Ascii.bytes "data: [DONE]", Ascii.bytes "data: \x7b\x7d", Ascii.bytes "data: [DONE]"])
             = true
      ∧ endsOnce OpenAIOut.isDone OpenAIOut.isFinish
        (ToOpenAI.translate { model := "m", id := "chatcmpl-1", created := 0 }
          [Ascii.bytes "data: \x7b\"type\":\"message_delta\"\x7d",
           Ascii.bytes "event: message_stop", Ascii.bytes "data: \x7b\x7d",
             Ascii.bytes "data: \x7b\x7d"]) = true :=
  ⟨(translate_endsOnce _ _ 0 _).1 (by decide +kernel),
    (translate_endsOnce _ _ _ _).2 (by decide +kernel)⟩

/-- A text delta after `[DONE]` is written after `message_stop`; and a second `message_delta` is a
second chunk with a finish reason. -/
theorem translate_afterEnd :
    endsOnce AnthropicOut.isStop AnthropicOut.isDelta
        (ToAnthropic.translate { model := "m", id := "msg_1" }
          [Ascii.bytes "data: \x7b\"choices\":[\x7b\"delta\":\x7b\"content\":\"Hi\"\x7d\x7d]\x7d",
           Ascii.bytes "data: [DONE]",
           Ascii.bytes "data: \x7b\"choices\":[\x7b\"delta\":\x7b\"content\":\"Hi\"\x7d\x7d]\x7d"])
             = false
      ∧ endsOnce OpenAIOut.isDone OpenAIOut.isFinish
        (ToOpenAI.translate { model := "m", id := "chatcmpl-1", created := 0 }
          [Ascii.bytes "data: \x7b\"type\":\"message_delta\"\x7d",
           Ascii.bytes "data: \x7b\"type\":\"message_delta\"\x7d",
           Ascii.bytes "data: \x7b\"type\":\"message_stop\"\x7d"]) = false := by
  constructor
  · decide +kernel
  · decide +kernel

end Kaalm.Translate
