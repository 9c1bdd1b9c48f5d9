import Kaalm.Foundation.JsonReader
import Kaalm.Gateway.RequestScan
import Mathlib.Data.Finset.Image

/-!
# The MCP broker's check of a message

The broker decodes a JSON-RPC message, decides on its method and on the tool that a `tools/call`
names, and forwards the body as it was sent. The tool server decodes it once more, by rules of its
own: it may compare member names exactly or ignoring case, and of several copies keep the first or
the last. So the broker refuses a body in which `method`, `params` or the `name` inside `params`
could be more than one member (`repeatedMCPMember`), and what is left has one reading
(`forwarded_within_grant`).

A `json.RawMessage` is the tree of its text here. A walk that runs off the end of the body, where Go
panics, is `none`.
-/

namespace Kaalm.Gateway

open Ascii JsonText GoJson

/-! ## Members that are named more than once -/

/-- One member of the walk, which stops at the second one of the name. -/
def countName (field : String) (count : ℕ) (m : MemberSpan) : Except ℕ ℕ :=
  let count := if jsonNameMatches m.name field then count + 1 else count
  if count < 2 then .ok count else .error count

def repeatsJSONMember (b : List UInt8) (opening : ℕ) (field : String) : Option Bool :=
  (walkMembers b (countName field) b.length (opening + 1) 0).map fun
    | .error count => 1 < count
    | .ok (count, _) => 1 < count

/-- What a `duplicateFieldError` of the broker names. -/
inductive MCPField
  | method
  | params
  | paramsName
  deriving DecidableEq

def MCPField.name : MCPField → String
  | .method => "method"
  | .params => "params"
  | .paramsName => "params.name"

def MCPField.error (f : MCPField) : String :=
  "request body has more than one \"" ++ f.name ++ "\" field"

structure MCPCounts where
  methods : ℕ := 0
  params : ℕ := 0
  /-- Where `params` is, if it is an object. -/
  paramsStart : Option ℕ := none
  deriving DecidableEq

def MCPCounts.count (body : List UInt8) (s : MCPCounts) (m : MemberSpan) :
    Except MCPField MCPCounts :=
  if jsonNameMatches m.name "method" then
    if 1 < s.methods + 1 then .error .method else .ok { s with methods := s.methods + 1 }
  else if jsonNameMatches m.name "params" then
    if 1 < s.params + 1 then .error .params
    else if body[m.value.start]? = some lbrace then
      .ok { s with params := s.params + 1, paramsStart := some m.value.start }
    else .ok { s with params := s.params + 1 }
  else .ok s

/-- The first of `method`, `params` and `params.name` that the body names more than once. -/
def repeatedMCPMember (body : List UInt8) : Option (Option MCPField) :=
  let i := skipJSONSpace body 0
  match body[i]? with
  | none => none
  | some c =>
    if c ≠ lbrace then some none
    else
      match walkMembers body (MCPCounts.count body) body.length (i + 1) {} with
      | none => none
      | some (.error f) => some (some f)
      | some (.ok (s, _)) =>
        match s.paramsStart with
        | none => some none
        | some start => (repeatsJSONMember body start "name").map fun repeated ↦
            if repeated then some .paramsName else none

/-! ## Messages -/

/-- `mcpRequest`. -/
structure MCPRequest where
  jsonrpc : String := ""
  id : Option Tree := none
  method : String := ""
  params : Option Tree := none

namespace MCPRequest

/-- A `json.RawMessage` takes any value, `null` too. -/
def raw : Decoder (Option Tree) := fun _ t ↦ (some t, false)

def fields : List (String × Decoder MCPRequest) :=
  [("jsonrpc", .field jsonrpc (fun m s ↦ { m with jsonrpc := s }) .string),
    ("id", .field id (fun m t ↦ { m with id := t }) raw),
    ("method", .field method (fun m s ↦ { m with method := s }) .string),
    ("params", .field params (fun m t ↦ { m with params := t }) raw)]

end MCPRequest

def isJSONBatch (body : List UInt8) : Bool := (body.dropWhile isSpace).head? = some lbracket

/-- The message, or why it is refused with 400. -/
def decodeMCPMessage (body : List UInt8) : Option (Except String MCPRequest) :=
  if isJSONBatch body then some (.error "JSON-RPC batch requests are not supported")
  else
    match unmarshal {} (Decoder.struct MCPRequest.fields) body with
    | none => some (.error "request body is not a JSON-RPC message")
    | some (_, true) => some (.error "request body is not a JSON-RPC message")
    | some (msg, false) => (repeatedMCPMember body).map fun
      | none => .ok msg
      | some f => .error f.error

def methodToolsCall : String := "tools/call"

/-- The field of the struct that `governedToolName` decodes `params` into. -/
def toolNameFields : List (String × Decoder String) := [("name", .string)]

/-- The tool that a `tools/call` names. Decoding errors are ignored, so the name stays empty where
there is none. -/
def governedToolName (msg : MCPRequest) : String :=
  if msg.method ≠ methodToolsCall then ""
  else
    match msg.params with
    | none => ""
    | some params => (Decoder.struct toolNameFields "" params).1

def mcpAllowedMethod (method : String) : Bool :=
  method ∈ ["server/discover", "tools/list", methodToolsCall, "initialize", "ping"]
    || "notifications/".toList.isPrefixOf method.toList

/-! ## The grant -/

/-- The tools that a caller may use; `none` permits every tool. -/
structure ToolFilter where
  allow : Option (Finset String) := none

namespace ToolFilter

def permits (f : ToolFilter) (name : String) : Bool :=
  match f.allow with
  | none => true
  | some allow => name ∈ allow

/-- `newToolFilter`: the tools of the grant that are in the catalog. An empty list does not
constrain. -/
def new (grantTools catalog : List String) : ToolFilter :=
  if grantTools.isEmpty && catalog.isEmpty then {}
  else if grantTools.isEmpty then { allow := some catalog.toFinset }
  else { allow := some (grantTools.filter fun t ↦ catalog.isEmpty || t ∈ catalog).toFinset }

end ToolFilter

/-! ## The decision -/

/-- The headers that a modern request mirrors the body in, with `Mcp-Name` already decoded. -/
structure MCPHeaders where
  modern : Bool
  method : String
  name : String

inductive HeaderRejection
  | methodRequired
  | methodMismatch (header body : String)
  | nameRequired
  | nameMismatch (header body : String)

def modernHeaderRejection (h : MCPHeaders) (msg : MCPRequest) (toolName : String) :
    Option HeaderRejection :=
  if !h.modern then none
  else if h.method = "" then some .methodRequired
  else if h.method ≠ msg.method then some (.methodMismatch h.method msg.method)
  else if msg.method = methodToolsCall then
    if h.name = "" then some .nameRequired
    else if h.name ≠ toolName then some (.nameMismatch h.name toolName)
    else none
  else none

/-- Why the broker does not forward a message. -/
inductive Denial
  | invalidRequest (message : String)
  | methodNotBrokered (method : String)
  | headerMismatch (r : HeaderRejection)
  | toolNotGranted (tool : String)

/-- What `handleMCPBroker` checks of the body, up to the session and the credential. A body that
passes is forwarded as it is, or not at all. -/
def checkMCPBody (headers : MCPHeaders) (filter : ToolFilter) (body : List UInt8) :
    Option (Except Denial (MCPRequest × String)) :=
  (decodeMCPMessage body).map fun
    | .error refusal => .error (.invalidRequest refusal)
    | .ok msg =>
      if !mcpAllowedMethod msg.method then .error (.methodNotBrokered msg.method)
      else
        match modernHeaderRejection headers msg (governedToolName msg) with
        | some r => .error (.headerMismatch r)
        | none =>
          if msg.method = methodToolsCall && !filter.permits (governedToolName msg) then
            .error (.toolNotGranted (governedToolName msg))
          else .ok (msg, governedToolName msg)

/-! ## What the checks leave -/

section Checks

variable {body : List UInt8} {msg : MCPRequest} {tool : String} {headers : MCPHeaders}
  {filter : ToolFilter}

theorem checkMCPBody_ok (h : checkMCPBody headers filter body = some (.ok (msg, tool))) :
    decodeMCPMessage body = some (.ok msg) ∧ mcpAllowedMethod msg.method
      ∧ tool = governedToolName msg
      ∧ (msg.method = methodToolsCall → filter.permits tool) := by
  obtain ⟨r, hr, h⟩ := Option.map_eq_some_iff.mp h
  cases r with
  | error e => cases h
  | ok m =>
    simp only at h
    split_ifs at h with hallowed hgrant
    · split at h
      · cases h
      · cases h
    · split at h
      · cases h
      · cases h
        simp only [Bool.not_eq_true', Bool.not_eq_false] at hallowed
        simp only [Bool.and_eq_true, decide_eq_true_eq, Bool.not_eq_true', not_and,
          Bool.not_eq_false] at hgrant
        exact ⟨hr, hallowed, rfl, hgrant⟩

theorem decodeMCPMessage_ok (h : decodeMCPMessage body = some (.ok msg)) :
    ∃ d, parse body = some d ∧ msg = (Decoder.struct MCPRequest.fields {} (ofValue d.value)).1
      ∧ repeatedMCPMember body = some none := by
  rw [decodeMCPMessage] at h
  split_ifs at h
  · cases Option.some.inj h
  · cases hdecode : unmarshal {} (Decoder.struct MCPRequest.fields) body with
    | none =>
      rw [hdecode] at h
      cases Option.some.inj h
    | some r =>
      obtain ⟨m, flag⟩ := r
      rw [hdecode] at h
      cases flag with
      | true => cases Option.some.inj h
      | false =>
        obtain ⟨f, hf, h⟩ := Option.map_eq_some_iff.mp h
        cases f with
        | some f => cases h
        | none =>
          obtain rfl := Except.ok.inj h
          obtain ⟨d, hd, hm⟩ := Option.map_eq_some_iff.mp hdecode
          exact ⟨d, hd, congrArg Prod.fst hm.symm, hf⟩

end Checks

/-! ## One candidate for each field -/

section Once

variable {b body rest : List UInt8} {i : ℕ} {l : List MemberSpan} {ms : List Member}
  {m : MemberSpan}
  {s : MCPCounts} {field : String}

/-- The spans whose name counts as the field. -/
def MemberSpan.named (field : String) (m : MemberSpan) : Bool := jsonNameMatches m.name field

theorem countP_named (h : List.Forall₂ (SpanOf b) l ms) (field : String) :
    l.countP (MemberSpan.named field) = ms.countP (named true field) := by
  induction h with
  | nil => rfl
  | @cons sp m l ms hsp _ ih =>
    have hname : MemberSpan.named field sp = named true field m := by
      obtain ⟨q, rest, rfl, -⟩ := hsp
      exact (if_pos rfl).symm
    rw [List.countP_cons, List.countP_cons, ih, hname]

theorem countName_eq (field : String) (count : ℕ) (m : MemberSpan) :
    countName field count m = if count + [m].countP (MemberSpan.named field) < 2
      then .ok (count + [m].countP (MemberSpan.named field))
      else .error (count + [m].countP (MemberSpan.named field)) := by
  have hcount : (if jsonNameMatches m.name field then count + 1 else count)
      = count + [m].countP (MemberSpan.named field) := by
    rw [List.countP_singleton, MemberSpan.named]
    split_ifs
    · rfl
    · rfl
  rw [countName, hcount]

/-- The count goes through to the end, or it stops at a second member of the name. -/
theorem foldlM_countName {n : ℕ} (hn : n < 2) (l : List MemberSpan) :
    l.foldlM (countName field) n = if n + l.countP (MemberSpan.named field) < 2
      then .ok (n + l.countP (MemberSpan.named field)) else .error 2 := by
  induction l generalizing n with
  | nil => exact (if_pos hn).symm
  | cons m l ih =>
    have hcons : ([m] ++ l).countP (MemberSpan.named field)
        = [m].countP (MemberSpan.named field) + l.countP (MemberSpan.named field) :=
          List.countP_append
    have hle : [m].countP (MemberSpan.named field) ≤ 1 := List.countP_le_length
    rw [List.singleton_append] at hcons
    rw [List.foldlM_cons, countName_eq, hcons, ← Nat.add_assoc]
    by_cases h : n + [m].countP (MemberSpan.named field) < 2
    · rw [if_pos h]
      exact ih h
    · have htwo : n + [m].countP (MemberSpan.named field) = 2 := by omega
      rw [if_neg h, htwo, if_neg (by omega)]
      rfl

theorem repeatsJSONMember_eq {v : Value} (h : b.drop i = v.text ++ rest)
    (hv : v.text.head? = some lbrace) :
    repeatsJSONMember b i field = some (decide (1 < v.members.countP (named true field))) := by
  have hwalk : WalksFrom (countName field) b v.members 0 b.length _ _ _ := walksFrom_object h hv
  rw [WalksFrom] at hwalk
  rw [repeatsJSONMember, hwalk, foldlM_countName Nat.zero_lt_two, Nat.zero_add,
    countP_named (forall₂_spansFrom_object h hv)]
  split_ifs with hlt
  · rfl
  · have hrepeated : 1 < v.members.countP (named true field) := Nat.not_lt.mp hlt
    rw [decide_eq_true hrepeated]
    rfl

/-- A name counts as `method` or as `params`, not as both. -/
theorem not_named_params (h : m.named "method") : m.named "params" = false := by
  have hfold := of_decide_eq_true h
  rw [MemberSpan.named, jsonNameMatches, nameMatches, hfold]
  decide

/-- Neither of the two has been seen twice. -/
def MCPCounts.Once (s : MCPCounts) : Prop := s.methods ≤ 1 ∧ s.params ≤ 1

/-- One more member that is no repetition. -/
structure MCPCounts.Counts (body : List UInt8) (s s' : MCPCounts) (m : MemberSpan) : Prop where
  once : s'.Once
  methods : s'.methods = s.methods + (m.named "method").toNat
  params : s'.params = s.params + (m.named "params").toNat
  paramsStart : s'.paramsStart = if m.named "params" ∧ body[m.value.start]? = some lbrace
    then some m.value.start else s.paramsStart

theorem MCPCounts.counts_of_count {s' : MCPCounts} (hs : s.Once) (h : s.count body m = .ok s') :
    Counts body s s' m := by
  obtain ⟨hm, hp⟩ := hs
  rw [MCPCounts.count] at h
  split_ifs at h with hmethod hrepeated hparams hrepeated hbrace
  · obtain rfl := Except.ok.inj h
    have hnamed : m.named "params" = false := not_named_params hmethod
    have hmethod : m.named "method" = true := hmethod
    exact ⟨⟨Nat.not_lt.mp hrepeated, hp⟩, by rw [hmethod]; rfl, by rw [hnamed]; rfl,
      by simp [hnamed]⟩
  · obtain rfl := Except.ok.inj h
    have hmethod : m.named "method" = false := eq_false_of_ne_true hmethod
    have hparams : m.named "params" = true := hparams
    exact ⟨⟨hm, Nat.not_lt.mp hrepeated⟩, by rw [hmethod]; rfl, by rw [hparams]; rfl,
      by simp [hparams, hbrace]⟩
  · obtain rfl := Except.ok.inj h
    have hmethod : m.named "method" = false := eq_false_of_ne_true hmethod
    have hparams : m.named "params" = true := hparams
    exact ⟨⟨hm, Nat.not_lt.mp hrepeated⟩, by rw [hmethod]; rfl, by rw [hparams]; rfl,
      by simp [hbrace]⟩
  · obtain rfl := Except.ok.inj h
    have hmethod : m.named "method" = false := eq_false_of_ne_true hmethod
    have hparams : m.named "params" = false := eq_false_of_ne_true hparams
    exact ⟨⟨hm, hp⟩, by rw [hmethod]; rfl, by rw [hparams]; rfl, by simp [hparams]⟩

/-- What a walk over all members has found, if it was not stopped. -/
structure MCPCounts.Found (body : List UInt8) (s s' : MCPCounts) (l : List MemberSpan) : Prop where
  methods : s.methods + l.countP (MemberSpan.named "method") ≤ 1
  params : s.params + l.countP (MemberSpan.named "params") ≤ 1
  kept : l.countP (MemberSpan.named "params") = 0 → s'.paramsStart = s.paramsStart
  paramsStart : ∀ m ∈ l, m.named "params" → body[m.value.start]? = some lbrace →
    s'.paramsStart = some m.value.start

theorem countP_cons_toNat (p : MemberSpan → Bool) (m : MemberSpan) (l : List MemberSpan) :
    (m :: l).countP p = (p m).toNat + l.countP p := by
  rw [List.countP_cons, Nat.add_comm]
  cases p m with
  | true => rfl
  | false => rfl

theorem MCPCounts.found_of_foldlM {s' : MCPCounts} (hs : s.Once)
    (h : l.foldlM (MCPCounts.count body) s = .ok s') : Found body s s' l := by
  induction l generalizing s with
  | nil =>
    obtain rfl := Except.ok.inj h
    exact ⟨hs.1, hs.2, fun _ ↦ rfl, List.forall_mem_nil _⟩
  | cons m l ih =>
    rw [List.foldlM_cons] at h
    cases hcount : s.count body m with
    | error f =>
      rw [hcount] at h
      cases h
    | ok s₁ =>
      rw [hcount] at h
      have hm := counts_of_count hs hcount
      have hl := ih hm.once h
      have hmethods := hl.methods
      have hparams := hl.params
      rw [hm.methods] at hmethods
      rw [hm.params] at hparams
      refine ⟨by rw [countP_cons_toNat]; omega, by rw [countP_cons_toNat]; omega, ?_, ?_⟩
      · intro hnone
        rw [countP_cons_toNat] at hnone
        have hfalse : m.named "params" = false := by
          cases hn : m.named "params" with
          | false => rfl
          | true =>
            rw [hn, Bool.toNat_true] at hnone
            omega
        rw [hl.kept (by omega), hm.paramsStart, if_neg (by simp [hfalse])]
      · intro n hn hnamed hbrace
        rcases List.mem_cons.mp hn with rfl | hn
        · -- nothing after it is called `params` any more
          rw [hnamed, Bool.toNat_true] at hparams
          rw [hl.kept (by omega), hm.paramsStart, if_pos ⟨hnamed, hbrace⟩]
        · exact hl.paramsStart n hn hnamed hbrace

/-- The value has one candidate for the method, one for the parameters, and these one for the tool's
name. -/
structure Unambiguous (v : Value) : Prop where
  method : v.members.countP (named true "method") ≤ 1
  params : v.members.countP (named true "params") ≤ 1
  name : ∀ m ∈ v.members, named true "params" m → m.value.members.countP (named true "name") ≤ 1

theorem unambiguous_of_nil {v : Value} (h : v.members = []) : Unambiguous v := by
  refine ⟨?_, ?_, ?_⟩
  · rw [h]
    exact Nat.zero_le 1
  · rw [h]
    exact Nat.zero_le 1
  · rw [h]
    exact List.forall_mem_nil _

theorem exists_spanOf {m : Member} (h : List.Forall₂ (SpanOf b) l ms) (hm : m ∈ ms) :
    ∃ sp ∈ l, SpanOf b sp m := by
  induction h with
  | nil => cases hm
  | cons hsp _ ih =>
    rcases List.mem_cons.mp hm with rfl | hm
    · exact ⟨_, List.mem_cons_self, hsp⟩
    · obtain ⟨sp, hmem, hsp⟩ := ih hm
      exact ⟨sp, List.mem_cons_of_mem _ hmem, hsp⟩

theorem unambiguous_of_repeatedMCPMember {d : Document} (h : repeatedMCPMember d.text = some none) :
    Unambiguous d.value := by
  rw [repeatedMCPMember, skipJSONSpace_text] at h
  simp only [getElem_text] at h
  by_cases hv : d.value.text.head? = some lbrace
  · have hwalk : WalksFrom (MCPCounts.count d.text) d.text d.value.members {} d.text.length _ _ _ :=
      walksFrom_object (drop_text d) hv
    have hspans := forall₂_spansFrom_object (drop_text d) hv
    rw [WalksFrom] at hwalk
    simp only [hv, hwalk, ne_eq, not_true_eq_false, if_false] at h
    cases hfold :
      (spansFrom (d.before.1.length + 1) d.value.members).foldlM (MCPCounts.count d.text)
        ({} : MCPCounts) with
    | error f =>
      rw [hfold] at h
      cases Option.some.inj h
    | ok s =>
      rw [hfold] at h
      have hfound := MCPCounts.found_of_foldlM ⟨Nat.zero_le 1, Nat.zero_le 1⟩ hfold
      have hmethods := hfound.methods
      have hparams := hfound.params
      rw [countP_named hspans, Nat.zero_add] at hmethods hparams
      refine ⟨hmethods, hparams, fun m hm hnamed ↦ ?_⟩
      by_cases hbrace : m.value.text.head? = some lbrace
      · obtain ⟨sp, hsp, hspan⟩ := exists_spanOf hspans hm
        obtain ⟨rest, hdrop⟩ := hspan.drop_value
        have hspnamed : sp.named "params" := by
          obtain ⟨q, rest, rfl, -⟩ := hspan
          exact hnamed
        have hstart : d.text[sp.value.start]? = some lbrace := by
          rw [← List.head?_drop, hdrop, List.head?_append, hbrace]
          rfl
        have hs := hfound.paramsStart sp hsp hspnamed hstart
        simp only [Except.map, hs] at h
        obtain ⟨repeated, hrepeats, h⟩ := Option.map_eq_some_iff.mp h
        split_ifs at h with hrepeated
        rw [repeatsJSONMember_eq hdrop hbrace] at hrepeats
        rw [← Option.some.inj hrepeats, decide_eq_true_iff] at hrepeated
        exact Nat.not_lt.mp hrepeated
      · rw [members_eq_nil hbrace]
        exact Nat.zero_le 1
  · exact unambiguous_of_nil (members_eq_nil hv)

end Once

/-! ## What the tool server reads -/

theorem hasField_method : HasField MCPRequest.fields "method" MCPRequest.method Decoder.string := by
  refine hasField_of_forall ?_ ⟨_,
    List.mem_cons_of_mem _ (List.mem_cons_of_mem _ List.mem_cons_self), by decide⟩
  simp only [MCPRequest.fields, List.forall_mem_cons]
  exact ⟨fun _ _ ↦ (if_neg (by decide)).symm, fun _ _ ↦ (if_neg (by decide)).symm,
    fun _ _ ↦ (if_pos (by decide)).symm, fun _ _ ↦ (if_neg (by decide)).symm, List.forall_mem_nil _⟩

theorem hasField_params : HasField MCPRequest.fields "params" MCPRequest.params MCPRequest.raw := by
  refine hasField_of_forall ?_ ⟨_, List.mem_cons_of_mem _ (List.mem_cons_of_mem _
    (List.mem_cons_of_mem _ List.mem_cons_self)), by decide⟩
  simp only [MCPRequest.fields, List.forall_mem_cons]
  exact ⟨fun _ _ ↦ (if_neg (by decide)).symm, fun _ _ ↦ (if_neg (by decide)).symm,
    fun _ _ ↦ (if_neg (by decide)).symm, fun _ _ ↦ (if_pos (by decide)).symm, List.forall_mem_nil _⟩

theorem hasField_name : HasField toolNameFields "name" id Decoder.string := by
  refine hasField_of_forall ?_ ⟨_, List.mem_cons_self, by decide⟩
  simp only [toolNameFields, List.forall_mem_cons]
  exact ⟨fun _ _ ↦ (if_pos (by decide)).symm, List.forall_mem_nil _⟩

/-- The method that a tool server reads in a message. -/
def readMethod (r : NamePolicy) (message : Value) : Option String :=
  (r.pick "method" message.members).bind fun m ↦ (ofValue m.value).string?

/-- The tool that a tool server reads in a message. -/
def readToolName (r : NamePolicy) (message : Value) : Option String :=
  (r.pick "params" message.members).bind fun params ↦
    (r.pick "name" params.value.members).bind fun m ↦ (ofValue m.value).string?

section Reading

variable {v : Value} {r : NamePolicy}

theorem eq_string_of_string? {t : Tree} {s : String} (h : t.string? = some s) : t = .string s := by
  cases t with
  | string s' => exact congrArg Tree.string (Option.some.inj h)
  | null => cases h
  | bool b => cases h
  | number text => cases h
  | array ts => cases h
  | object ms => cases h

theorem readMethod_eq {method : String} (hv : Unambiguous v) (h : readMethod r v = some method) :
    (Decoder.struct MCPRequest.fields {} (ofValue v)).1.method = method := by
  obtain ⟨m, hm, hstring⟩ := Option.bind_eq_some_iff.mp h
  rw [struct_eq_of_pick hasField_method hv.method hm, eq_string_of_string? hstring]
  rfl

theorem readToolName_eq {tool : String} {msg : MCPRequest} (hv : Unambiguous v)
    (hmsg : msg = (Decoder.struct MCPRequest.fields {} (ofValue v)).1)
    (hmethod : msg.method = methodToolsCall) (h : readToolName r v = some tool) :
    governedToolName msg = tool := by
  obtain ⟨params, hparams, h⟩ := Option.bind_eq_some_iff.mp h
  obtain ⟨m, hm, hstring⟩ := Option.bind_eq_some_iff.mp h
  have hraw : msg.params = some (ofValue params.value) := by
    rw [hmsg]
    exact struct_eq_of_pick hasField_params hv.params hparams
  obtain ⟨hmem, hnamed⟩ := NamePolicy.mem_of_pick hparams
  have hname : (Decoder.struct toolNameFields "" (ofValue params.value)).1
      = (Decoder.string "" (ofValue m.value)).1 :=
    struct_eq_of_pick hasField_name (hv.name params hmem hnamed) hm
  rw [eq_string_of_string? hstring] at hname
  rw [governedToolName, if_neg (not_not.mpr hmethod), hraw]
  exact hname

end Reading

/-- Whatever the tool server's decoder takes for a member, a message that the broker forwards is
none that it does not broker, and no call of a tool that the caller was not granted. -/
theorem forwarded_within_grant {headers : MCPHeaders} {filter : ToolFilter} {body : List UInt8}
    {msg : MCPRequest} {tool : String}
    (hforward : checkMCPBody headers filter body = some (.ok (msg, tool))) :
    ∃ d, parse body = some d ∧ ∀ r : NamePolicy,
      (∀ method, readMethod r d.value = some method → mcpAllowedMethod method)
      ∧ (readMethod r d.value = some methodToolsCall →
          ∀ name, readToolName r d.value = some name → filter.permits name) := by
  obtain ⟨hdecode, hallowed, rfl, hgrant⟩ := checkMCPBody_ok hforward
  obtain ⟨d, hd, hmsg, hrepeated⟩ := decodeMCPMessage_ok hdecode
  rw [← text_of_parse hd] at hrepeated
  have hv := unambiguous_of_repeatedMCPMember hrepeated
  refine ⟨d, hd, fun r ↦ ⟨fun method hmethod ↦ ?_, fun hmethod name hname ↦ ?_⟩⟩
  · rw [← readMethod_eq hv hmethod, ← hmsg]
    exact hallowed
  · have hcall : msg.method = methodToolsCall := by
      rw [hmsg]
      exact readMethod_eq hv hmethod
    rw [← readToolName_eq hv hmsg hcall hname]
    exact hgrant hcall

private theorem exists_of_check {headers : MCPHeaders} {filter : ToolFilter} {body : List UInt8}
    {P : String → String → Bool}
    (h : (match checkMCPBody headers filter body with
      | some (.ok (msg, tool)) => P msg.method tool
      | _ => false) = true) :
    ∃ msg tool, checkMCPBody headers filter body = some (.ok (msg, tool)) ∧ P msg.method tool := by
  split at h
  · exact ⟨_, _, by assumption, h⟩
  · cases h

/-- A call of the one tool that the caller was granted, with a name that only some decoders see. -/
def searchBody : List UInt8 :=
  bytes "\x7b\"method\":\"tools/call\",\"params\":\x7b\"Name\":\"search\"\x7d\x7d"

theorem forwarded_within_grant_search :
    ∃ msg tool, checkMCPBody ⟨false, "", ""⟩ ⟨some {"search"}⟩ searchBody = some (.ok (msg, tool))
      ∧ msg.method = methodToolsCall ∧ tool = "search"
      ∧ ∃ d, parse searchBody = some d ∧ ∀ r : NamePolicy,
        (∀ method, readMethod r d.value = some method → mcpAllowedMethod method)
        ∧ (readMethod r d.value = some methodToolsCall →
            ∀ name, readToolName r d.value = some name →
              ToolFilter.permits ⟨some {"search"}⟩ name) := by
  obtain ⟨msg, tool, hcheck, hcall⟩ : ∃ msg tool,
      checkMCPBody ⟨false, "", ""⟩ ⟨some {"search"}⟩ searchBody = some (.ok (msg, tool))
        ∧ decide (msg.method = methodToolsCall ∧ tool = "search") = true :=
    exists_of_check (P := fun method tool ↦ method = methodToolsCall ∧ tool = "search")
      (by decide +kernel)
  obtain ⟨hmethod, htool⟩ := of_decide_eq_true hcall
  exact ⟨msg, tool, hcheck, hmethod, htool, forwarded_within_grant hcheck⟩

end Kaalm.Gateway
