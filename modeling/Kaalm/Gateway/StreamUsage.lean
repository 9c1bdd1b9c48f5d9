import Kaalm.Foundation.JsonSpelling

/-!
# Usage in a stream

Every payload of a stream may carry usage, and most do not. Before it decodes a payload, an adapter
looks for bytes that a payload with usage has to have. The search is on the bytes as they are
written, and the decoder works on names that are unescaped and compared ignoring case, so it has to
find every spelling (`exists_folded`); a `\u` escape, which can spell anything, counts as found.

Go ranges over the counts of server tools in any order, which matters only for two keys that differ
in the suffix; here it is the order of the map.
-/

namespace Kaalm.Gateway

structure Fallback.Usage where
  inputTokens : ℤ := 0
  outputTokens : ℤ := 0
  serverTools : GoMap String ℤ := ∅
  deriving DecidableEq

open Ascii GoJson JsonText Fallback

/-! ## Anthropic -/

/-- What the Anthropic adapter decodes of a payload. -/
structure UsageEvent where
  type : String := ""
  inputTokens : ℤ := 0
  outputTokens : ℤ := 0
  serverToolUse : Tree := .null

namespace UsageEvent

def messageUsage : Decoder UsageEvent := .struct
  [("input_tokens", .field inputTokens (fun e n ↦ { e with inputTokens := n }) .int64)]

def message : Decoder UsageEvent := .struct [("usage", messageUsage)]

def usage : Decoder UsageEvent := .struct
  [("output_tokens", .field outputTokens (fun e n ↦ { e with outputTokens := n }) .int64),
   ("server_tool_use", .field serverToolUse (fun e t ↦ { e with serverToolUse := t }) .any)]

def decoder : Decoder UsageEvent := .struct
  [("type", .field type (fun e s ↦ { e with type := s }) .string),
   ("message", message),
   ("usage", usage)]

end UsageEvent

/-- The counts of a decoded `map[string]int64`, and whether one of them has the wrong type. -/
def toolCounts (members : List (String × Tree)) : GoMap String ℤ × Bool :=
  members.foldl (fun r m ↦
    let n := Decoder.int64 0 m.2
    (r.1.insert m.1 n.1, r.2 || n.2)) (∅, false)

def trimSuffix (s suffix : String) : String :=
  if suffix.toList.isSuffixOf s.toList then
    String.ofList (s.toList.take (s.toList.length - suffix.toList.length))
  else s

def serverToolCounts (raw : Tree) : Option (GoMap String ℤ) :=
  match raw with
  | .object members =>
    let counts := toolCounts members
    if counts.2 then none
    else
      let tools := counts.1.entries.filter fun e ↦ 0 < e.2
      if tools = [] then none
      else some (tools.foldl (fun r e ↦ r.insert (trimSuffix e.1 "_requests") e.2) ∅)
  | _ => none

def mayBeAnthropicUsageEvent (data : List UInt8) : Bool :=
  bytes "message_start" <:+: data ∨ bytes "message_delta" <:+: data ∨ unicodeMark <:+: data

/-- What the Anthropic adapter does with a payload that it decodes. -/
def readAnthropicUsage (data : List UInt8) (u : Usage) : Usage :=
  match unmarshal {} UsageEvent.decoder data with
  | some (e, false) =>
    if e.type = "message_start" then { u with inputTokens := e.inputTokens }
    else if e.type = "message_delta" then
      let u := if 0 < e.outputTokens then { u with outputTokens := e.outputTokens } else u
      match serverToolCounts e.serverToolUse with
      | some tools => { u with serverTools := tools }
      | none => u
    else u
  | _ => u

/-- `accumulateStreamUsage` of the Anthropic adapter. -/
def anthropicStreamUsage (data : List UInt8) (u : Usage) : Usage :=
  if !mayBeAnthropicUsageEvent data then u else readAnthropicUsage data u

/-! ## OpenAI -/

structure ChunkUsage where
  promptTokens : ℤ := 0
  completionTokens : ℤ := 0

def ChunkUsage.decoder : Decoder ChunkUsage := .struct
  [("prompt_tokens", .field ChunkUsage.promptTokens
    (fun u n ↦ { u with promptTokens := n }) .int64),
   ("completion_tokens",
     .field ChunkUsage.completionTokens (fun u n ↦ { u with completionTokens := n }) .int64)]

/-- What the OpenAI adapter decodes of a payload. -/
def chunkDecoder : Decoder (Option ChunkUsage) := .struct
  [("usage", .pointer {} ChunkUsage.decoder)]

/-- The rest of a name after its first two letters. -/
def startsAge : List UInt8 → Bool
  | a :: g :: e :: _ => a ||| 0x20 = 0x61 ∧ g ||| 0x20 = 0x67 ∧ e ||| 0x20 = 0x65
  | _ => false

/-- The bytes start with a spelling of `usage`. The second letter may be U+017F. -/
def startsUsage : List UInt8 → Bool
  | u :: s :: rest =>
    if u ||| 0x20 ≠ 0x75 then false
    else if s ||| 0x20 = 0x73 then startsAge rest
    else if s = 0xc5 ∧ rest.head? = some 0xbf then startsAge rest.tail
    else false
  | _ => false

def mayCarryOpenAIUsage (data : List UInt8) : Bool :=
  unicodeMark <:+: data ∨ (List.range (data.length - 4)).any fun i ↦ startsUsage (data.drop i)

/-- What the OpenAI adapter does with a payload that it decodes. -/
def readOpenAIUsage (data : List UInt8) (u : Usage) : Usage :=
  match unmarshal none chunkDecoder data with
  | some (some usage, false) =>
    { u with inputTokens := usage.promptTokens, outputTokens := usage.completionTokens }
  | _ => u

/-- The end of the stream is no JSON. -/
def isDone (data : List UInt8) : Bool := Utf8.trimSpace data = bytes "[DONE]"

/-- `accumulateStreamUsage` of the OpenAI adapter. -/
def openaiStreamUsage (data : List UInt8) (u : Usage) : Usage :=
  if isDone data then u
  else if !mayCarryOpenAIUsage data then u
  else readOpenAIUsage data u

/-! ## Any name -/

/-- The bytes of `data` that spell `name`, counted from `j` on; `0` if they do not. -/
def foldedFrom : List UInt8 → List UInt8 → ℕ → ℕ
  | [], _, j => j
  | c :: name, data, j =>
    if data.head?.any fun b ↦ 0x61 ≤ c ∧ c ≤ 0x7a ∧ b ||| 0x20 = c then
      foldedFrom name data.tail (j + 1)
    else if data.head? = some c then foldedFrom name data.tail (j + 1)
    else if c = 0x73 ∧ [0xc5, 0xbf] <+: data then foldedFrom name (data.drop 2) (j + 2)
    else if c = 0x6b ∧ [0xe2, 0x84, 0xaa] <+: data then foldedFrom name (data.drop 3) (j + 3)
    else 0

def foldedPrefixLen (data : List UInt8) (name : String) : ℕ := foldedFrom (bytes name) data 0

def mayHoldFoldedName (data : List UInt8) (name : String) : Bool :=
  unicodeMark <:+: data
    ∨ (List.range data.length).any fun i ↦ 0 < foldedPrefixLen (data.drop i) name

/-! ## The searches find every spelling -/

section Search

variable {c : Char} {cs : List Char} {rest data : List UInt8}

theorem bytes_eq_encode (s : String) : bytes s = Utf8.encode s.toList := by
  rw [bytes, ← String.utf8Encode_toList, List.utf8Encode, List.toList_data_toByteArray]
  rfl

/-- A letter takes one round, however it is spelled. -/
theorem foldedFrom_cons (h : isLower (foldChar c)) (name : List UInt8) (j : ℕ) :
    foldedFrom (UInt8.ofNat (foldChar c).toNat :: name) (String.utf8EncodeChar c ++ rest) j
      = foldedFrom name rest (j + (String.utf8EncodeChar c).length) := by
  rcases encode_of_foldChar h with ⟨b, henc, hb⟩ | ⟨hfold, henc⟩ | ⟨hfold, henc⟩
  · have hrange : ∀ n < 0x80, isLower (Char.ofNat n) →
        0x61 ≤ UInt8.ofNat n ∧ UInt8.ofNat n ≤ 0x7a := by decide
    have hlt : (foldChar c).toNat < 0x80 := lt_of_le_of_lt (of_decide_eq_true h).2 (by decide)
    have hletter := hrange (foldChar c).toNat hlt
    rw [Char.ofNat_toNat] at hletter
    rw [henc, List.singleton_append, foldedFrom, List.head?_cons, Option.any_some,
      if_pos (decide_eq_true ⟨(hletter h).1, (hletter h).2, hb⟩)]
    rfl
  · rw [henc, hfold]
    rfl
  · rw [henc, hfold]
    rfl

theorem foldedFrom_encode (h : ∀ c ∈ cs, isLower (foldChar c)) (j : ℕ) :
    foldedFrom (Utf8.encode (cs.map foldChar)) (Utf8.encode cs ++ rest) j
      = j + (Utf8.encode cs).length := by
  induction cs generalizing j with
  | nil => rfl
  | cons c cs ih =>
    have hc := h c List.mem_cons_self
    have hascii : (foldChar c).toNat < 0x80 := lt_of_le_of_lt (of_decide_eq_true hc).2 (by decide)
    have hletter : String.utf8EncodeChar (foldChar c) = [UInt8.ofNat (foldChar c).toNat] :=
      if_pos (Nat.le_of_lt_succ hascii)
    rw [List.map_cons, Utf8.encode, List.flatMap_cons, hletter, Utf8.encode, List.flatMap_cons,
      List.append_assoc, List.singleton_append, foldedFrom_cons hc,
        List.length_append, ← Nat.add_assoc]
    exact ih (fun d hd ↦ h d (List.mem_cons_of_mem _ hd)) _

/-- A position in the bytes from which the rest starts with `l`. -/
theorem exists_drop_of_infix {l : List UInt8} (h : l <:+: data) :
    ∃ i rest, i + l.length ≤ data.length ∧ data.drop i = l ++ rest := by
  obtain ⟨before, after, rfl⟩ := h
  refine ⟨before.length, after, by simp only [List.length_append]; omega, ?_⟩
  rw [List.append_assoc, List.drop_left]

theorem mayHoldFoldedName_of_infix {name : String} (h : ∀ c ∈ cs, isLower (foldChar c))
    (hne : cs ≠ []) (hname : cs.map foldChar = name.toList) (hpart : Utf8.encode cs <:+: data) :
    mayHoldFoldedName data name := by
  have hlen : 0 < (Utf8.encode cs).length := by
    obtain ⟨c, l, rfl⟩ := List.exists_cons_of_ne_nil hne
    rw [Utf8.encode, List.flatMap_cons, List.length_append, String.length_utf8EncodeChar]
    exact Nat.add_pos_left c.utf8Size_pos _
  obtain ⟨i, rest, hi, hdrop⟩ := exists_drop_of_infix hpart
  refine decide_eq_true (.inr (List.any_eq_true.mpr ⟨i, List.mem_range.mpr (by omega), ?_⟩))
  rw [decide_eq_true_iff, hdrop, foldedPrefixLen, bytes_eq_encode, ← hname, foldedFrom_encode h]
  omega

/-- A letter that only ASCII letters fold to. -/
theorem encode_of_foldChar_eq {l : Char} (hl : isLower l) (hs : l ≠ 's') (hk : l ≠ 'k')
    (h : foldChar c = l) :
    ∃ b, String.utf8EncodeChar c = [b] ∧ b ||| 0x20 = UInt8.ofNat l.toNat := by
  subst h
  rcases encode_of_foldChar hl with hb | hb | hb
  · exact hb
  · exact absurd hb.1 hs
  · exact absurd hb.1 hk

/-- A spelling of `usage`, letter by letter. -/
theorem startsUsage_encode (h : cs.map foldChar = ['u', 's', 'a', 'g', 'e']) :
    startsUsage (Utf8.encode cs ++ rest) ∧ 5 ≤ (Utf8.encode cs).length := by
  obtain ⟨u, l₁, rfl, hu, h⟩ := List.map_eq_cons_iff.mp h
  obtain ⟨s, l₂, rfl, hs, h⟩ := List.map_eq_cons_iff.mp h
  obtain ⟨a, l₃, rfl, ha, h⟩ := List.map_eq_cons_iff.mp h
  obtain ⟨g, l₄, rfl, hg, h⟩ := List.map_eq_cons_iff.mp h
  obtain ⟨e, l₅, rfl, he, h⟩ := List.map_eq_cons_iff.mp h
  obtain rfl := List.map_eq_nil_iff.mp h
  obtain ⟨bu, hencu, hbu⟩ := encode_of_foldChar_eq (by decide) (by decide) (by decide) hu
  obtain ⟨ba, henca, hba⟩ := encode_of_foldChar_eq (by decide) (by decide) (by decide) ha
  obtain ⟨bg, hencg, hbg⟩ := encode_of_foldChar_eq (by decide) (by decide) (by decide) hg
  obtain ⟨be, hence, hbe⟩ := encode_of_foldChar_eq (by decide) (by decide) (by decide) he
  have hage : startsAge (ba :: bg :: be :: rest) := decide_eq_true ⟨hba, hbg, hbe⟩
  have hfirst : ¬ bu ||| 0x20 ≠ 0x75 := not_not.mpr hbu
  have hlower : isLower (foldChar s) := by rw [hs]; decide
  simp only [Utf8.encode, List.flatMap_cons, List.flatMap_nil, hencu, henca, hencg, hence]
  rcases encode_of_foldChar hlower with ⟨bs, hencs, hbs⟩ | ⟨-, hencs⟩ | ⟨hk, -⟩
  · have hsecond : bs ||| 0x20 = 0x73 := by
      rw [hbs, hs]
      rfl
    rw [hencs]
    refine ⟨?_, by simp⟩
    show (if _ then _ else if _ then _ else _) = true
    rw [if_neg hfirst, if_pos hsecond]
    exact hage
  · rw [hencs]
    refine ⟨?_, by simp⟩
    show (if _ then _ else if _ then _ else _) = true
    rw [if_neg hfirst]
    exact hage
  · rw [hs] at hk
    exact absurd hk (by decide)

theorem mayCarryOpenAIUsage_of_infix (h : cs.map foldChar = "usage".toList)
    (hpart : Utf8.encode cs <:+: data) : mayCarryOpenAIUsage data := by
  obtain ⟨i, rest, hi, hdrop⟩ := exists_drop_of_infix hpart
  obtain ⟨hstarts, hlen⟩ := startsUsage_encode (h.trans (by decide))
  refine decide_eq_true (.inr (List.any_eq_true.mpr ⟨i, List.mem_range.mpr (by omega), ?_⟩))
  rw [hdrop]
  exact hstarts

end Search

/-! ## The searches never miss usage -/

/-- A member whose name counts as `name` is found. -/
theorem mayHoldFoldedName_of_mem {data : List UInt8} {d : Document} {name : String} {n : Content}
    (hdata : parse data = some d) (hname : ∀ c ∈ name.toList, isLower c) (hne : name ≠ "")
    (hn : n ∈ d.value.names) (hmatch : nameMatches (unquote n.1) name) :
    mayHoldFoldedName data name := by
  by_cases hmark : unicodeMark <:+: data
  · exact decide_eq_true (.inl hmark)
  obtain rfl := parse_eq_some_iff.mp hdata
  have hpart : n.1 <:+: d.text := (infix_of_mem_valueNames hn).trans (infix_document d)
  obtain ⟨cs, hcs, hfold⟩ := exists_folded hname (fun h ↦ hmark (h.trans hpart)) hmatch
  refine mayHoldFoldedName_of_infix (fun c hc ↦ hname _ ?_) ?_ hfold (hcs ▸ hpart)
  · rw [← hfold]
    exact List.mem_map_of_mem hc
  · rintro rfl
    exact hne (String.toList_eq_nil_iff.mp hfold.symm)

theorem mayCarryOpenAIUsage_of_mem {data : List UInt8} {d : Document} {n : Content}
    (hdata : parse data = some d) (hn : n ∈ d.value.names)
    (hmatch : nameMatches (unquote n.1) "usage") : mayCarryOpenAIUsage data := by
  by_cases hmark : unicodeMark <:+: data
  · exact decide_eq_true (.inl hmark)
  obtain rfl := parse_eq_some_iff.mp hdata
  have hpart : n.1 <:+: d.text := (infix_of_mem_valueNames hn).trans (infix_document d)
  obtain ⟨cs, hcs, hfold⟩ :=
    exists_folded (List.forall_iff_forall_mem.mp (by decide)) (fun h ↦ hmark (h.trans hpart)) hmatch
  exact mayCarryOpenAIUsage_of_infix hfold (hcs ▸ hpart)

theorem hasField_chunk :
    HasField [("usage", Decoder.pointer {} ChunkUsage.decoder)] "usage" id
      (Decoder.pointer {} ChunkUsage.decoder) := by
  refine hasField_of_forall ?_ ⟨_, List.mem_cons_self, by decide⟩
  intro f hf a t
  obtain rfl := List.mem_singleton.mp hf
  exact (if_pos (by decide)).symm

/-- A payload that the OpenAI search passes over has no usage. -/
theorem readOpenAIUsage_of_skipped {data : List UInt8} (h : mayCarryOpenAIUsage data = false)
    (u : Usage) : readOpenAIUsage data u = u := by
  rw [readOpenAIUsage, unmarshal]
  cases hparse : parse data with
  | none => rfl
  | some d =>
    have hnone : ∀ m ∈ d.value.members, ¬ named true "usage" m := fun m hm hnamed ↦ by
      have hfound := mayCarryOpenAIUsage_of_mem hparse (mem_members hm).1 hnamed
      rw [h] at hfound
      cases hfound
    have hget := get_struct hasField_chunk d.value none
    rw [List.filter_eq_nil_iff.mpr hnone] at hget
    rw [Option.map_some]
    generalize hr : chunkDecoder none (ofValue d.value) = r
    obtain ⟨usage, err⟩ := r
    obtain rfl : usage = none := (congrArg Prod.fst hr).symm.trans hget
    rfl

theorem hasField_type :
    HasField [("type", .field UsageEvent.type (fun e s ↦ { e with type := s }) .string),
      ("message", UsageEvent.message), ("usage", UsageEvent.usage)] "type" UsageEvent.type
      Decoder.string := by
  refine hasField_of_forall ?_ ⟨_, List.mem_cons_self, by decide⟩
  have hnested : ∀ a t, (UsageEvent.message a t).1.type = a.type := by
    refine get_struct_of_forall fun f hf a t ↦ ?_
    obtain rfl := List.mem_singleton.mp hf
    refine get_struct_of_forall (fun f hf a t ↦ ?_) a t
    obtain rfl := List.mem_singleton.mp hf
    rfl
  have husage : ∀ a t, (UsageEvent.usage a t).1.type = a.type := by
    refine get_struct_of_forall fun f hf a t ↦ ?_
    rcases List.mem_cons.mp hf with rfl | hf
    · rfl
    · obtain rfl := List.mem_singleton.mp hf
      rfl
  intro f hf a t
  rcases List.mem_cons.mp hf with rfl | hf
  · exact (if_pos (by decide)).symm
  rcases List.mem_cons.mp hf with rfl | hf
  · exact (hnested a t).trans (if_neg (by decide)).symm
  · obtain rfl := List.mem_singleton.mp hf
    exact (husage a t).trans (if_neg (by decide)).symm

/-- A string that was decoded into a field comes from one of the members. -/
theorem exists_of_foldl_string {ms : List Member} {s₀ s : String}
    (h : ms.foldl (fun b m ↦ (Decoder.string b (ofValue m.value)).1) s₀ = s) (hne : s ≠ s₀) :
    ∃ m ∈ ms, ofValue m.value = .string s := by
  induction ms using List.reverseRecOn generalizing s with
  | nil => exact absurd h.symm hne
  | append_singleton ms m ih =>
    rw [List.foldl_append, List.foldl_cons, List.foldl_nil] at h
    cases hm : ofValue m.value with
    | string t =>
      rw [hm] at h
      obtain rfl : t = s := h
      exact ⟨m, List.mem_append_right _ List.mem_cons_self, hm⟩
    | _ =>
      rw [hm] at h
      obtain ⟨m', hm', hvalue⟩ := ih h hne
      exact ⟨m', List.mem_append_left _ hm', hvalue⟩

theorem exists_content_of_string {v : Value} {s : String} (h : ofValue v = .string s) :
    ∃ n : Content, v = .string n ∧ unquote n.1 = s := by
  cases v with
  | string n => exact ⟨n, rfl, Tree.string.inj h⟩
  | scalar t =>
    rw [ofValue] at h
    split_ifs at h
  | emptyArray s => cases h
  | array es => cases h
  | emptyObject s => cases h
  | object ms => cases h

/-- The type of an event is in the payload as it is, unless there is a `\u` escape. -/
theorem bytes_infix_of_type {data : List UInt8} {d : Document} {s : String}
    (hdata : parse data = some d) (hmark : ¬ unicodeMark <:+: data) (hne : s ≠ "")
    (hdirect : ∀ c ∈ s.toList, isDirect c)
    (htype : (UsageEvent.decoder {} (ofValue d.value)).1.type = s) : bytes s <:+: data := by
  obtain rfl := parse_eq_some_iff.mp hdata
  have hget := get_struct hasField_type d.value {}
  obtain ⟨m, hm, hvalue⟩ := exists_of_foldl_string (hget.symm.trans htype) hne
  obtain ⟨n, hn, hunquote⟩ := exists_content_of_string hvalue
  have hpart : n.1 <:+: d.text := by
    have hmember := (mem_members (List.mem_of_mem_filter hm)).2
    rw [hn] at hmember
    exact ((infix_quoted n.1).trans hmember).trans (infix_document d)
  have hcontent := content_eq_encode n.2 (fun h ↦ hmark (h.trans hpart))
    (hunquote ▸ hdirect)
  rw [hunquote, ← bytes_eq_encode] at hcontent
  exact hcontent ▸ hpart

/-- A payload that the Anthropic search passes over is no event with usage. -/
theorem readAnthropicUsage_of_skipped {data : List UInt8}
    (h : mayBeAnthropicUsageEvent data = false) (u : Usage) : readAnthropicUsage data u = u := by
  rw [mayBeAnthropicUsageEvent, decide_eq_false_iff_not, not_or, not_or] at h
  obtain ⟨hstart, hdelta, hmark⟩ := h
  rw [readAnthropicUsage, unmarshal]
  cases hparse : parse data with
  | none => rfl
  | some d =>
    have hstart' : (UsageEvent.decoder {} (ofValue d.value)).1.type ≠ "message_start" :=
      fun htype ↦ hstart (bytes_infix_of_type hparse hmark (by decide)
        (List.forall_iff_forall_mem.mp (by decide)) htype)
    have hdelta' : (UsageEvent.decoder {} (ofValue d.value)).1.type ≠ "message_delta" :=
      fun htype ↦ hdelta (bytes_infix_of_type hparse hmark (by decide)
        (List.forall_iff_forall_mem.mp (by decide)) htype)
    rw [Option.map_some]
    generalize UsageEvent.decoder {} (ofValue d.value) = r at hstart' hdelta'
    obtain ⟨e, err⟩ := r
    cases err with
    | true => rfl
    | false =>
      simp only
      rw [if_neg hstart', if_neg hdelta']

/-- The searches never change a result, and the search for a name of letters finds every member of
that name. -/
theorem searches_never_miss :
    (∀ data u, anthropicStreamUsage data u = readAnthropicUsage data u)
      ∧ (∀ data u, openaiStreamUsage data u = if isDone data then u else readOpenAIUsage data u)
      ∧ ∀ (data : List UInt8) (d : Document) (name : String), parse data = some d →
        name ≠ "" → (∀ c ∈ name.toList, isLower c) →
        (∃ n ∈ d.value.names, nameMatches (unquote n.1) name) → mayHoldFoldedName data name := by
  refine ⟨fun data u ↦ ?_, fun data u ↦ ?_, ?_⟩
  · rw [anthropicStreamUsage]
    cases h : mayBeAnthropicUsageEvent data with
    | true => rfl
    | false => exact (readAnthropicUsage_of_skipped h u).symm
  · rw [openaiStreamUsage]
    cases h : mayCarryOpenAIUsage data with
    | true => rfl
    | false => rw [readOpenAIUsage_of_skipped h u]; rfl
  · rintro data d name hdata hne hname ⟨n, hn, hmatch⟩
    exact mayHoldFoldedName_of_mem hdata hname hne hn hmatch

/-- A member inside an array, its name with U+017F and U+212A. -/
def foldedTask : List UInt8 := bytes "[\x7b\"ta\u017f\u212a\": 1\x7d]"

theorem searches_never_miss_folded : mayHoldFoldedName foldedTask "task" := by
  obtain ⟨d, hd⟩ : ∃ d, parse foldedTask = some d :=
    Option.isSome_iff_exists.mp (by decide +kernel)
  have hnames : (parse foldedTask).any (fun d ↦ d.value.names.any fun n ↦
      nameMatches (unquote n.1) "task") = true := by decide +kernel
  rw [hd, Option.any_some, List.any_eq_true] at hnames
  exact searches_never_miss.2.2 foldedTask d "task" hd (by decide)
    (List.forall_iff_forall_mem.mp (by decide)) hnames

end Kaalm.Gateway
