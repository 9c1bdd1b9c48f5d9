import Kaalm.Budget.Partial
import Kaalm.Foundation.Base64
import Kaalm.Foundation.Cut
import Kaalm.Foundation.Utf8

/-!
# MCP session ids

The broker never reveals the session id of a tool server. The caller sees it bound to its own
identity under an HMAC, so any replica can verify who owns a session without a shared table.

The HMAC of the gateway's key is a function from messages to tags, arbitrary here; results assume
that it is injective. The message is the id, a zero byte and the identity. An id may hold zero
bytes, an identity never does, so the message is taken apart at its last one (`message_inj`).

Go strings are byte lists. The identity of a workload has two slashes and that of a gateway-only
caller has one, so the two forms never meet, not even in a namespace named `ns`
(`callerIdentity_inj`).
-/

namespace Kaalm.Gateway

/-! ## Callers -/

/-- The two kinds of workload that hold a certificate. -/
inductive WorkloadKind
  | agent
  | agentTask
  deriving DecidableEq, Repr

def WorkloadKind.text : WorkloadKind → String
  | .agent => "Agent"
  | .agentTask => "AgentTask"

/-- An authenticated caller. A gateway-only caller has a namespace and no workload. -/
structure Caller where
  ns : String
  workload : Option (WorkloadKind × String)
  deriving DecidableEq, Repr

/-- A DNS-1123 subdomain, the form of a workload's name: labels with dots between them. -/
def isDNS1123Subdomain (s : String) : Bool :=
  let alnum (c : Char) : Bool := ('a' ≤ c ∧ c ≤ 'z') ∨ ('0' ≤ c ∧ c ≤ '9')
  s.toList.length ≤ 253 ∧ s.toList.all (fun c ↦ alnum c || c == '-' || c == '.')
    ∧ (s.toList.splitOn '.').all fun part ↦
      part.head?.any alnum && part.getLast?.any alnum

/-- A caller with names that a cluster can hold. -/
def Caller.Valid (c : Caller) : Prop :=
  isDNS1123Label c.ns ∧ ∀ w ∈ c.workload, isDNS1123Subdomain w.2

instance (c : Caller) : Decidable c.Valid :=
  inferInstanceAs (Decidable (isDNS1123Label c.ns ∧ ∀ w ∈ c.workload, isDNS1123Subdomain w.2))

/-- The identity the session HMAC binds to. -/
def callerIdentity (c : Caller) : String :=
  match c.workload with
  | some (kind, name) => c.ns ++ "/" ++ kind.text ++ "/" ++ name
  | none => "ns/" ++ c.ns

/-! ## Wrapping -/

/-- The message that is authenticated. -/
def sessionMessage (upstreamID : List UInt8) (identity : String) : List UInt8 :=
  upstreamID ++ 0 :: Utf8.encode identity.toList

section Session

variable (hmac : List UInt8 → List UInt8)

def sessionMAC (upstreamID : List UInt8) (identity : String) : List UInt8 :=
  hmac (sessionMessage upstreamID identity)

def dot : UInt8 := 0x2e

/-- Bind an upstream session id to a caller identity. -/
def wrapSessionID (upstreamID : List UInt8) (identity : String) : List UInt8 :=
  Base64.encode upstreamID ++ dot :: Base64.encode (sessionMAC hmac upstreamID identity)

/-- Verify a wrapped id against the identity of the presenting caller. -/
def unwrapSessionID (wrapped : List UInt8) (identity : String) : Option (List UInt8) :=
  match Cut.cut dot wrapped with
  | none => none
  | some (idPart, macPart) =>
    match Base64.decode idPart, Base64.decode macPart with
    | some upstreamID, some mac =>
      if mac = sessionMAC hmac upstreamID identity then some upstreamID else none
    | _, _ => none

end Session

/-! ## Identities -/

section Identity

theorem slash_not_mem_of_isDNS1123Label {s : String} (h : isDNS1123Label s) :
    '/' ∉ s.toList ∧ '\x00' ∉ s.toList := by
  rw [isDNS1123Label] at h
  simp only [decide_eq_true_eq] at h
  have hall := List.all_eq_true.mp h.2.1
  exact ⟨fun hc ↦ absurd (hall _ hc) (by decide), fun hc ↦ absurd (hall _ hc) (by decide)⟩

theorem slash_not_mem_of_isDNS1123Subdomain {s : String} (h : isDNS1123Subdomain s) :
    '/' ∉ s.toList ∧ '\x00' ∉ s.toList := by
  rw [isDNS1123Subdomain] at h
  simp only [decide_eq_true_eq] at h
  have hall := List.all_eq_true.mp h.2.1
  exact ⟨fun hc ↦ absurd (hall _ hc) (by decide), fun hc ↦ absurd (hall _ hc) (by decide)⟩

theorem slash_not_mem_text (k : WorkloadKind) : '/' ∉ k.text.toList ∧ '\x00' ∉ k.text.toList := by
  cases k <;> decide

theorem text_injective : Function.Injective WorkloadKind.text := by
  intro k k' h
  cases k <;> cases k' <;> first | rfl | exact absurd h (by decide)

theorem toList_callerIdentity_some (ns : String) (kind : WorkloadKind) (name : String) :
    (callerIdentity ⟨ns, some (kind, name)⟩).toList
      = ns.toList ++ '/' :: (kind.text.toList ++ '/' :: name.toList) := by
  simp [callerIdentity]

theorem toList_callerIdentity_none (ns : String) :
    (callerIdentity ⟨ns, none⟩).toList = "ns".toList ++ '/' :: ns.toList := by
  simp [callerIdentity]

/-- The identity tells valid callers apart. -/
theorem callerIdentity_inj {c c' : Caller} (hc : c.Valid) (hc' : c'.Valid)
    (h : callerIdentity c = callerIdentity c') : c = c' := by
  have hfree : ∀ l : List Char, '/' ∉ l → ∀ a ∈ l, decide (a = '/') = false := by
    intro l hl a ha
    rw [decide_eq_false_iff_not]
    rintro rfl
    exact hl ha
  have hslash : decide ('/' = '/') = true := rfl
  obtain ⟨ns, workload⟩ := c
  obtain ⟨ns', workload'⟩ := c'
  have hns := hfree _ (slash_not_mem_of_isDNS1123Label hc.1).1
  have hns' := hfree _ (slash_not_mem_of_isDNS1123Label hc'.1).1
  have hnsText : ∀ a ∈ "ns".toList, decide (a = '/') = false :=
    List.forall_iff_forall_mem.mp (by decide)
  rw [← String.toList_inj] at h
  -- After the first slash a workload's identity has another one, a namespace has none.
  cases workload with
  | none =>
    cases workload' with
    | none =>
      rw [toList_callerIdentity_none, toList_callerIdentity_none] at h
      obtain ⟨-, -, hrest⟩ := Cut.append_cons_inj hnsText hnsText hslash hslash h
      rw [String.toList_inj.mp hrest]
    | some w' =>
      rw [toList_callerIdentity_none, toList_callerIdentity_some] at h
      obtain ⟨-, -, hrest⟩ := Cut.append_cons_inj hnsText hns' hslash hslash h
      refine absurd ?_ (slash_not_mem_of_isDNS1123Label hc.1).1
      rw [hrest]
      simp
  | some w =>
    cases workload' with
    | none =>
      rw [toList_callerIdentity_none, toList_callerIdentity_some] at h
      obtain ⟨-, -, hrest⟩ := Cut.append_cons_inj hns hnsText hslash hslash h
      refine absurd ?_ (slash_not_mem_of_isDNS1123Label hc'.1).1
      rw [← hrest]
      simp
    | some w' =>
      obtain ⟨kind, name⟩ := w
      obtain ⟨kind', name'⟩ := w'
      rw [toList_callerIdentity_some, toList_callerIdentity_some] at h
      obtain ⟨hn, -, hrest⟩ := Cut.append_cons_inj hns hns' hslash hslash h
      obtain ⟨hk, -, hname⟩ := Cut.append_cons_inj (hfree _ (slash_not_mem_text kind).1)
        (hfree _ (slash_not_mem_text kind').1) hslash hslash hrest
      have hns_eq : ns = ns' := String.toList_inj.mp hn
      rw [hns_eq, text_injective (String.toList_inj.mp hk), String.toList_inj.mp hname]

/-- A valid caller's identity holds no zero character. -/
theorem zero_not_mem_callerIdentity {c : Caller} (hc : c.Valid) :
    '\x00' ∉ (callerIdentity c).toList := by
  obtain ⟨ns, workload⟩ := c
  have hns := (slash_not_mem_of_isDNS1123Label hc.1).2
  cases workload with
  | none =>
    rw [toList_callerIdentity_none, List.mem_append, List.mem_cons, not_or, not_or]
    exact ⟨by decide, by decide, hns⟩
  | some w =>
    obtain ⟨kind, name⟩ := w
    have hname := (slash_not_mem_of_isDNS1123Subdomain (hc.2 _ rfl)).2
    rw [toList_callerIdentity_some]
    simp only [List.mem_append, List.mem_cons, not_or]
    exact ⟨hns, by decide, (slash_not_mem_text kind).2, by decide, hname⟩

/-- The encoding of a text without zero characters holds no zero byte. -/
theorem zero_not_mem_encode {cs : List Char} (h : '\x00' ∉ cs) : 0 ∉ Utf8.encode cs := by
  intro hzero
  obtain ⟨c, hc, hbyte⟩ := List.mem_flatMap.mp hzero
  rcases Utf8.utf8EncodeChar_cases c with ⟨hascii, henc⟩ | hhigh
  · rw [henc, List.mem_singleton] at hbyte
    have hnat : c.toNat = 0 := by
      have hmod := congrArg UInt8.toNat hbyte
      rw [UInt8.toNat_ofNat] at hmod
      simp only [UInt8.toNat_ofNat'] at hmod
      omega
    have : c = '\x00' := Char.toNat_inj.mp hnat
    exact h (this ▸ hc)
  · exact absurd (hhigh 0 hbyte) (by decide)

theorem encode_injective : Function.Injective Utf8.encode := by
  intro cs ds h
  rw [← Utf8.decode_encode cs, h, Utf8.decode_encode]

/-- The authenticated message determines the id and the caller. -/
theorem message_inj {id id' : List UInt8} {c c' : Caller} (hc : c.Valid) (hc' : c'.Valid)
    (h : sessionMessage id (callerIdentity c) = sessionMessage id' (callerIdentity c')) :
    id = id' ∧ c = c' := by
  obtain ⟨hid, hidentity⟩ := Cut.append_cons_inj_last
    (zero_not_mem_encode (zero_not_mem_callerIdentity hc))
    (zero_not_mem_encode (zero_not_mem_callerIdentity hc')) h
  exact ⟨hid, callerIdentity_inj hc hc' (String.toList_inj.mp (encode_injective hidentity))⟩

end Identity

/-! ## Ownership -/

section Ownership

variable {hmac : List UInt8 → List UInt8}

/-- What an accepted text decodes to. -/
theorem unwrapSessionID_eq_some {wrapped id : List UInt8} {identity : String} :
    unwrapSessionID hmac wrapped identity = some id ↔
      ∃ idPart macPart, Cut.cut dot wrapped = some (idPart, macPart)
        ∧ Base64.decode idPart = some id
        ∧ Base64.decode macPart = some (sessionMAC hmac id identity) := by
  rw [unwrapSessionID]
  constructor
  · intro h
    cases hcut : Cut.cut dot wrapped with
    | none => rw [hcut] at h; exact nomatch h
    | some parts =>
      obtain ⟨idPart, macPart⟩ := parts
      simp only [hcut] at h
      cases hid : Base64.decode idPart with
      | none => simp [hid] at h
      | some upstreamID =>
        cases hmac' : Base64.decode macPart with
        | none => simp [hid, hmac'] at h
        | some mac =>
          simp only [hid, hmac'] at h
          split_ifs at h with hmatch
          obtain rfl := Option.some_inj.mp h
          exact ⟨idPart, macPart, rfl, hid, by rw [hmac', hmatch]⟩
  · rintro ⟨idPart, macPart, hcut, hid, hmac'⟩
    simp only [hcut, hid, hmac', if_true]

/-- A wrapped id presented by any caller is accepted exactly when the tags agree. -/
theorem unwrap_wrap (id : List UInt8) (identity identity' : String) :
    unwrapSessionID hmac (wrapSessionID hmac id identity) identity'
      = if sessionMAC hmac id identity = sessionMAC hmac id identity' then some id else none := by
  have hcut : Cut.cut dot (wrapSessionID hmac id identity)
      = some (Base64.encode id, Base64.encode (sessionMAC hmac id identity)) :=
    Cut.cut_append (Base64.dot_not_mem_encode id)
  rw [unwrapSessionID]
  simp only [hcut, Base64.decode_encode]

/-- Session ids are bound to one caller. A wrapped id is accepted from a caller exactly when it was
wrapped for that caller, and then gives back the id; and whatever text is accepted from a caller
decodes to an id and a tag such that no other id and no other caller has that tag. -/
theorem session_bound_to_caller (hinj : Function.Injective hmac) :
    (∀ (id : List UInt8) (c₁ c₂ : Caller), c₁.Valid → c₂.Valid →
      ((unwrapSessionID hmac (wrapSessionID hmac id (callerIdentity c₁)) (callerIdentity c₂)).isSome
          ↔ c₁ = c₂)
      ∧ (c₁ = c₂ →
        unwrapSessionID hmac (wrapSessionID hmac id (callerIdentity c₁)) (callerIdentity c₂)
          = some id))
    ∧ ∀ (wrapped id : List UInt8) (c : Caller), c.Valid →
      unwrapSessionID hmac wrapped (callerIdentity c) = some id →
        ∃ idPart macPart tag, wrapped = idPart ++ dot :: macPart ∧ dot ∉ idPart
          ∧ Base64.decode idPart = some id ∧ Base64.decode macPart = some tag
          ∧ tag = sessionMAC hmac id (callerIdentity c)
          ∧ ∀ (id' : List UInt8) (c' : Caller), c'.Valid →
            tag = sessionMAC hmac id' (callerIdentity c') → id' = id ∧ c' = c := by
  refine ⟨fun id c₁ c₂ h₁ h₂ ↦ ⟨⟨fun hsome ↦ ?_, ?_⟩, ?_⟩, ?_⟩
  · rw [unwrap_wrap] at hsome
    split_ifs at hsome with htags
    · exact (message_inj h₁ h₂ (hinj htags)).2
    · exact nomatch hsome
  · rintro rfl
    rw [unwrap_wrap, if_pos rfl]
    rfl
  · rintro rfl
    rw [unwrap_wrap, if_pos rfl]
  · intro wrapped id c hc haccepted
    obtain ⟨idPart, macPart, hcut, hid, hmac'⟩ := unwrapSessionID_eq_some.mp haccepted
    obtain ⟨hwrapped, hdot⟩ := Cut.cut_eq_some hcut
    refine ⟨idPart, macPart, _, hwrapped, hdot, hid, hmac', rfl, fun id' c' hc' htag ↦ ?_⟩
    obtain ⟨rfl, rfl⟩ := message_inj hc hc' (hinj htag)
    exact ⟨rfl, rfl⟩

/-- A namespace named `ns` with an Agent, and the gateway-only callers of another namespace. -/
theorem session_bound_to_agent :
    (unwrapSessionID id (wrapSessionID id [1, 0, 2] (callerIdentity ⟨"ns", some (.agent, "a")⟩))
        (callerIdentity ⟨"team-a", none⟩)).isSome = false
      ∧ unwrapSessionID id (wrapSessionID id [1, 0, 2] (callerIdentity ⟨"ns", some (.agent, "a")⟩))
        (callerIdentity ⟨"ns", some (.agent, "a")⟩) = some [1, 0, 2] := by
  have hbound := (session_bound_to_caller Function.injective_id).1 [1, 0, 2]
  refine ⟨?_, (hbound ⟨"ns", some (.agent, "a")⟩ _ (by decide) (by decide)).2 rfl⟩
  rw [← Bool.not_eq_true, (hbound ⟨"ns", some (.agent, "a")⟩ ⟨"team-a", none⟩ (by decide)
    (by decide)).1]
  decide

end Ownership

end Kaalm.Gateway
