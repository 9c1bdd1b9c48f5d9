import Kaalm.Foundation.JsonObject
import Kaalm.Translate.ToAnthropic
import Kaalm.Translate.ToOpenAI

/-!
# Errors in a translated stream

A provider that fails in the middle of a stream can say so in the stream: Anthropic sends an `error`
event, OpenAI a chunk with an `error` member. A caller whose stream was translated should be told
too.

The translator to OpenAI writes an error chunk and ends the stream. It does not stop reading,
though, so a `message_delta` after the error is written as a finish reason after the end, and one
that came before the error has been written already. The translator to Anthropic has no errors at
all: the decoder of the chunks drops the member, and `Finish` ends the message as if it were
complete.
-/

namespace Kaalm.Translate

open Ascii JsonText GoJson

/-- The data of the line is an object with an `error` member. -/
def carriesError (line : List UInt8) : Bool :=
  match Utf8.cutPrefix line (bytes "data:") with
  | none => false
  | some rest => (parse (Utf8.trimSpace rest)).any fun d ↦ d.value.members.any (named true "error")

/-- The name in the `event` line. -/
def AnthropicOut.name : AnthropicOut → String
  | .messageStart _ _ => "message_start"
  | .blockStart _ _ => "content_block_start"
  | .blockDelta _ _ => "content_block_delta"
  | .blockStop _ => "content_block_stop"
  | .messageDelta _ _ _ => "message_delta"
  | .messageStop => "message_stop"

/-- The event says that the answer is complete. -/
def AnthropicOut.saysComplete : AnthropicOut → Bool
  | .messageDelta reason _ _ => reason ≠ "max_tokens" ∧ reason ≠ "refusal"
  | _ => false

/-- The chunk says that the answer is complete. -/
def OpenAIOut.saysComplete : OpenAIOut → Bool
  | .chunk _ _ (some reason) => reason ≠ "length" ∧ reason ≠ "content_filter"
  | _ => false

/-- The stop reason of the event is that of a complete answer. Anything that is not known counts as
one. -/
def AnthropicEvent.saysComplete (type : String) (e : AnthropicEvent) : Bool :=
  type = "message_delta" ∧ e.stopReason ≠ "max_tokens" ∧ e.stopReason ≠ "refusal"

namespace ToOpenAI

variable {s s' : ToOpenAI} {type : String} {e : AnthropicEvent} {o : OpenAIOut}

/-- Nothing that was written says that the answer is complete. -/
def Incomplete (s : ToOpenAI) : Prop := ∀ o ∈ s.sent, o.saysComplete = false

/-- What is written for an event: after the end it does not end again, and nothing says that the
answer is complete. -/
structure Adds (s s' : ToOpenAI) : Prop where
  done : s.done = true → s'.done = true
  sent : ∃ out : List OpenAIOut, s'.sent = s.sent ++ out ∧ ∀ o ∈ out, o.saysComplete = false

theorem Adds.refl (s : ToOpenAI) : Adds s s :=
  ⟨fun h ↦ h, [], (List.append_nil _).symm, nofun⟩

theorem Adds.trans {s'' : ToOpenAI} (h : Adds s s') (h' : Adds s' s'') : Adds s s'' := by
  obtain ⟨out, hsent, hout⟩ := h.sent
  obtain ⟨out', hsent', hout'⟩ := h'.sent
  refine ⟨fun hdone ↦ h'.done (h.done hdone), out ++ out', ?_, fun o ho ↦ ?_⟩
  · rw [hsent', hsent, List.append_assoc]
  · rcases List.mem_append.mp ho with ho | ho
    · exact hout o ho
    · exact hout' o ho

theorem Adds.incomplete (h : Adds s s') (hs : s.Incomplete) : s'.Incomplete := by
  obtain ⟨out, hsent, hout⟩ := h.sent
  intro o ho
  rw [hsent] at ho
  rcases List.mem_append.mp ho with ho | ho
  · exact hs o ho
  · exact hout o ho

theorem Adds.mem (h : Adds s s') (ho : o ∈ s.sent) : o ∈ s'.sent := by
  obtain ⟨out, hsent, -⟩ := h.sent
  rw [hsent]
  exact List.mem_append_left _ ho

/-- One thing is written, and it does not say that the answer is complete. -/
theorem Adds.of_write (hdone : s'.done = s.done) (hsent : s'.sent = s.sent ++ [o])
    (ho : o.saysComplete = false) : Adds s s' := by
  refine ⟨fun h ↦ hdone.trans h, [o], hsent, fun o' ho' ↦ ?_⟩
  rw [List.mem_singleton.mp ho']
  exact ho

theorem adds_messageStart : Adds s (s.messageStart e) := by
  rw [messageStart]
  cases (e.message.member "model").string? with
  | none =>
    simp only
    split_ifs <;> exact .of_write rfl rfl rfl
  | some m =>
    simp only
    split_ifs <;> exact .of_write rfl rfl rfl

theorem adds_blockStart : Adds s (s.blockStart e) := by
  rw [blockStart]
  split_ifs
  · exact .refl s
  · exact .of_write rfl rfl rfl

theorem adds_blockDelta : Adds s (s.blockDelta e) := by
  rw [blockDelta]
  split_ifs
  · exact .of_write rfl rfl rfl
  · exact .of_write rfl rfl rfl
  · exact .refl s

theorem sent_messageDelta (s : ToOpenAI) (e : AnthropicEvent) : (s.messageDelta e).sent = s.sent
    ++ [.chunk (s.readUsage e).head .empty (some ((stopToFinish e.stopReason).getD "stop"))] := by
  have husage : (s.readUsage e).sent = s.sent := by
    rw [readUsage]
    split_ifs <;> rfl
  rw [← husage]
  rfl

theorem adds_messageDelta (h : e.stopReason = "max_tokens" ∨ e.stopReason = "refusal") :
    Adds s (s.messageDelta e) := by
  have hdone : (s.readUsage e).done = s.done := by
    rw [readUsage]
    split_ifs <;> rfl
  refine .of_write hdone (sent_messageDelta s e) ?_
  rcases h with h | h
  · rw [h]
    rfl
  · rw [h]
    rfl

theorem adds_onError : Adds s (s.onError e) := by
  refine ⟨fun _ ↦ rfl, [.error e.error, .done], rfl, fun o ho ↦ ?_⟩
  rcases List.mem_cons.mp ho with rfl | ho
  · rfl
  · rw [List.mem_singleton.mp ho]
    rfl

/-- Only a `message_delta` and the end of a stream that has not ended say that the answer is
complete. -/
theorem adds_onEvent (hdelta : e.saysComplete type = false)
    (hstop : type = "message_stop" → s.done = true) : Adds s (s.onEvent type e) := by
  rw [onEvent]
  split_ifs with hstart hblock hblockDelta hmessage hend herror
  · exact adds_messageStart
  · exact adds_blockStart
  · exact adds_blockDelta
  · refine adds_messageDelta ?_
    have hreason := of_decide_eq_false hdelta
    tauto
  · rw [finish, if_pos (hstop hend)]
    exact .refl s
  · exact adds_onError
  · exact .refl s

theorem adds_onEvents {events : List (String × AnthropicEvent)}
    (hdelta : ∀ x ∈ events, x.2.saysComplete x.1 = false)
    (hstop : s.done = true ∨ ∀ x ∈ events, x.1 ≠ "message_stop") : Adds s (s.onEvents events) := by
  induction events generalizing s with
  | nil => exact .refl s
  | cons x events ih =>
    have hfirst : Adds s (s.onEvent x.1 x.2) := by
      refine adds_onEvent (hdelta x List.mem_cons_self) fun htype ↦ ?_
      rcases hstop with hdone | hstop
      · exact hdone
      · exact absurd htype (hstop x List.mem_cons_self)
    refine hfirst.trans (ih (fun y hy ↦ hdelta y (List.mem_cons_of_mem _ hy)) ?_)
    rcases hstop with hdone | hstop
    · exact Or.inl (hfirst.done hdone)
    · exact Or.inr fun y hy ↦ hstop y (List.mem_cons_of_mem _ hy)

/-- An Anthropic stream with an error before its end, and without a `message_delta` that says that
the answer is complete: the caller gets the error, and nothing says that the answer is complete. -/
theorem translate_error {model id : String} {created : ℤ} {lines : List (List UInt8)}
    {before after : List (String × AnthropicEvent)} {e : AnthropicEvent}
    (hevents : anthropicEvents "" lines = before ++ ("error", e) :: after)
    (hopen : ∀ x ∈ before, x.1 ≠ "message_stop")
    (hdelta : ∀ x ∈ anthropicEvents "" lines, x.2.saysComplete x.1 = false) :
    .error e.error ∈ translate { model, id, created } lines
      ∧ ∀ o ∈ translate { model, id, created } lines, o.saysComplete = false := by
  let s : ToOpenAI := { model, id, created }
  let atError := (s.onEvents before).onError e
  have hbefore : Adds s (s.onEvents before) :=
    adds_onEvents (fun x hx ↦ hdelta x (by rw [hevents]; exact List.mem_append_left _ hx))
      (Or.inr hopen)
  have hafter : Adds atError (atError.onEvents after) :=
    adds_onEvents (fun x hx ↦ hdelta x (by
      rw [hevents]
      exact List.mem_append_right _ (List.mem_cons_of_mem _ hx))) (Or.inl rfl)
  have hall : s.onEvents (before ++ ("error", e) :: after) = atError.onEvents after := by
    rw [onEvents, List.foldl_append]
    rfl
  have hfinish : (atError.onEvents after).finish = atError.onEvents after :=
    if_pos (hafter.done rfl)
  have hout : translate { model, id, created } lines = (atError.onEvents after).sent := by
    rw [translate_eq, hevents, hall, hfinish]
  rw [hout]
  refine ⟨hafter.mem (List.mem_append_right _ List.mem_cons_self), ?_⟩
  exact (hbefore.trans (adds_onError.trans hafter)).incomplete (s := s)
    fun o ho ↦ by cases ho

theorem mem_finish (ho : o ∈ s.sent) : o ∈ s.finish.sent := by
  rw [finish]
  split_ifs
  · exact ho
  · exact List.mem_append_left _ (List.mem_append_left _ ho)
  · exact List.mem_append_left _ ho

/-- What was written stays. -/
theorem mem_onEvent (ho : o ∈ s.sent) : o ∈ (s.onEvent type e).sent := by
  rw [onEvent]
  split_ifs
  · exact adds_messageStart.mem ho
  · exact adds_blockStart.mem ho
  · exact adds_blockDelta.mem ho
  · rw [sent_messageDelta]
    exact List.mem_append_left _ ho
  · exact mem_finish ho
  · exact adds_onError.mem ho
  · exact ho

/-- The finish reason of a complete answer is written. -/
theorem saysComplete_onEvent (h : e.saysComplete type = true) :
    ∃ o ∈ (s.onEvent type e).sent, o.saysComplete = true := by
  obtain ⟨rfl, hlength, hfilter⟩ := of_decide_eq_true h
  have hsent : (s.onEvent "message_delta" e).sent = _ := sent_messageDelta s e
  rw [hsent]
  refine ⟨_, List.mem_append_right _ List.mem_cons_self, decide_eq_true ?_⟩
  rw [stopToFinish, if_neg hlength, if_neg hfilter]
  split_ifs <;> decide

/-- The condition on the `message_delta` events is needed. -/
theorem saysComplete_translate {lines : List (List UInt8)} {x : String × AnthropicEvent}
    (hx : x ∈ anthropicEvents "" lines) (hcomplete : x.2.saysComplete x.1 = true)
    (model id : String) (created : ℤ) :
    ∃ o ∈ translate { model, id, created } lines, o.saysComplete = true := by
  rw [translate_eq]
  change ∃ o ∈ (onEvents _ (anthropicEvents "" lines)).finish.sent, _
  suffices h : ∃ o ∈ (onEvents { model, id, created } (anthropicEvents "" lines)).sent,
      o.saysComplete = true from h.imp fun o ho ↦ ⟨mem_finish ho.1, ho.2⟩
  generalize anthropicEvents "" lines = events at hx
  induction events using List.reverseRecOn with
  | nil => exact absurd hx List.not_mem_nil
  | append_singleton events y ih =>
    rw [onEvents, List.foldl_append]
    rcases List.mem_append.mp hx with hx | hx
    · exact (ih hx).imp fun o ho ↦ ⟨mem_onEvent ho.1, ho.2⟩
    · rw [List.mem_singleton.mp hx] at hcomplete
      exact saysComplete_onEvent hcomplete
/-- An overloaded upstream, in the middle of a text. -/
def overloaded : List (List UInt8) :=
  [bytes "data: \x7b\"type\":\"message_start\"\x7d",
   bytes ("data: \x7b\"type\":\"content_block_delta\",\"delta\":"
     ++ "\x7b\"type\":\"text_delta\",\"text\":\"Hi\"\x7d\x7d"),
   bytes "event: error", bytes "data: \x7b\"error\":\x7b\"type\":\"overloaded_error\"\x7d\x7d",
   bytes "data: \x7b\"type\":\"message_stop\"\x7d"]

theorem translate_error_overloaded : ∃ before e after,
    anthropicEvents "" overloaded = before ++ ("error", e) :: after
      ∧ .error e.error ∈ translate { model := "m", id := "chatcmpl-1", created := 0 } overloaded
      ∧ ∀ o ∈ translate { model := "m", id := "chatcmpl-1", created := 0 } overloaded,
        o.saysComplete = false := by
  have htypes : (anthropicEvents "" overloaded).map Prod.fst
      = ["message_start", "content_block_delta", "error", "message_stop"] := by decide +kernel
  have hdelta : ∀ x ∈ anthropicEvents "" overloaded, x.2.saysComplete x.1 = false := by
    decide +kernel
  obtain ⟨x₁, l₁, h₁, hx₁, hl₁⟩ := List.map_eq_cons_iff.mp htypes
  obtain ⟨x₂, l₂, h₂, hx₂, hl₂⟩ := List.map_eq_cons_iff.mp hl₁
  obtain ⟨⟨type, e⟩, l₃, h₃, htype, -⟩ := List.map_eq_cons_iff.mp hl₂
  have hevents : anthropicEvents "" overloaded = [x₁, x₂] ++ ("error", e) :: l₃ := by
    rw [h₁, h₂, h₃, show type = "error" from htype]
    rfl
  refine ⟨[x₁, x₂], e, l₃, hevents, translate_error hevents (fun x hx ↦ ?_) hdelta⟩
  rcases List.mem_cons.mp hx with rfl | hx
  · rw [hx₁]
    decide
  · rw [List.mem_singleton.mp hx, hx₂]
    decide

end ToOpenAI

/-- Both translators tell the caller of a complete answer. The chunk with the error is dropped, and
the message ends with `end_turn`; and the `message_delta` after an error is written as the reason
`stop`. -/
theorem translate_error_as_complete :
    (∃ before error : List UInt8, carriesError error = true ∧ openAILine before ≠ .done
      ∧ openAILine error ≠ .done
      ∧ ∃ out, ToAnthropic.translate { model := "m", id := "msg_1" }
        [before, error, bytes "data: [DONE]"]
          = out
        ∧ (∀ o ∈ out, o.name ≠ "error") ∧ ∃ o ∈ out, o.saysComplete = true)
    ∧ ∃ lines : List (List UInt8),
      (anthropicEvents "" lines).map Prod.fst = ["error", "message_delta", "message_stop"]
        ∧ ∃ o ∈ ToOpenAI.translate { model := "m", id := "chatcmpl-1", created := 0 } lines,
          o.saysComplete = true := by
  constructor
  · refine ⟨bytes "data: \x7b\"choices\":[\x7b\"delta\":\x7b\"content\":\"Hi\"\x7d\x7d]\x7d",
      bytes "data: \x7b\"error\":\x7b\"message\":\"overloaded\"\x7d\x7d", ?_⟩
    refine ⟨by decide +kernel, by decide +kernel, by decide +kernel, _, rfl, ?_, ?_⟩
    · decide +kernel
    · decide +kernel
  · refine ⟨[
      bytes "data: \x7b\"type\":\"error\",\"error\":\x7b\"type\":\"overloaded_error\"\x7d\x7d",
      bytes ("data: \x7b\"type\":\"message_delta\","
        ++ "\"delta\":\x7b\"stop_reason\":\"end_turn\"\x7d\x7d"),
      bytes "data: \x7b\"type\":\"message_stop\"\x7d"], ?_⟩
    constructor
    · decide +kernel
    · decide +kernel

end Kaalm.Translate
