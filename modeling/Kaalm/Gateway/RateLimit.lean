import Kaalm.Budget.Partial
import Kaalm.Foundation.Cut
import Kaalm.Foundation.TokenBucket

/-!
# The rate limiter

One gateway replica keeps all its buckets in one map under text keys: the request bucket and the
token bucket of a (namespace, model) pair, the tool bucket of a (namespace, ToolProvider) pair, and
the heartbeat bucket of an Agent. Each call applies the share of the limit it was given to whatever
bucket its key selects.

Every method runs under the limiter's mutex and is one function of the map. The clock readings it
makes and the replica count it reads are arguments; `Allow` reads the clock once per bucket.

A namespace name holds neither a slash nor a colon. The keys of different kinds, and of different
pairs of one kind, are therefore different (`Key`), and a call leaves every other bucket alone
(`lookup_step_of_not_mem`).
-/

namespace Kaalm.Gateway

open Calendar

/-- `ModelProviderRateLimits`, cluster-wide ceilings. -/
structure RateLimits where
  requestsPerMinute : ℤ := 0
  tokensPerMinute : ℤ := 0
  deriving DecidableEq, Repr

/-- What the limiter reads of a `ModelProvider`. -/
structure LimitedProvider where
  name : String
  rateLimits : RateLimits
  deriving DecidableEq, Repr

/-- What the limiter reads of a `ToolProvider`. -/
structure LimitedTool where
  name : String
  requestsPerMinute : ℤ
  deriving DecidableEq, Repr

/-- The buckets of a replica. -/
abbrev RateLimiter := GoMap String TokenBucket

/-! ## Shares and waits -/

/-- The live replica count, at least one. -/
def replicas (n : ℤ) : ℤ := if 1 < n then n else 1

def perReplica (limit replicas : ℤ) : ℚ := limit / replicas

/-- The burst of a bucket that counts whole requests or calls. -/
def requestBurst (share : ℚ) : ℚ := max share 1

/-- `math.Round`: to the nearest integer, halves away from zero. -/
def mathRound (x : ℚ) : ℤ := if x < 0 then -⌊-x + 1 / 2⌋ else ⌊x + 1 / 2⌋

/-- The whole seconds until a bucket refilling at `perMinute` gains `deficit` tokens. -/
def retryAfterSeconds (deficit perMinute : ℚ) : ℤ :=
  let wait := mathRound (deficit / perMinute * (60 * second))
  let secs := (wait + second - 1).tdiv second
  if secs < 1 then 1 else secs

/-! ## Keys -/

def requestKey (ns model : String) : String := ns ++ "/" ++ model

def tokenKey (ns model : String) : String := "tpm:" ++ ns ++ "/" ++ model

def toolKey (ns tool : String) : String := "mcp:" ++ ns ++ "/" ++ tool

def heartbeatKey (ns agent : String) : String := "hb:" ++ ns ++ "/" ++ agent

/-! ## Methods -/

namespace RateLimiter

/-- Whether a call may proceed, and the `Retry-After` in seconds when it may not. -/
abbrev Answer := Bool × ℤ

/-- Consume one token of a bucket. -/
def take (r : RateLimiter) (key : String) (perMinute burst : ℚ) (now : Time) :
    RateLimiter × Answer :=
  let b := TokenBucket.refilled perMinute burst now (r.lookup key)
  if 1 ≤ b.tokens then (r.insert key b.taken, true, 0)
  else (r.insert key b, false, retryAfterSeconds (1 - b.tokens) perMinute)

/-- The token half of `Allow`: a bucket at or below zero refuses, and nothing is consumed. -/
def checkTokens (r : RateLimiter) (provider : LimitedProvider) (ns model : String) (n : ℤ)
    (now : Time) : RateLimiter × Option ℤ :=
  if 0 < provider.rateLimits.tokensPerMinute then
    let share := perReplica provider.rateLimits.tokensPerMinute (replicas n)
    let b := TokenBucket.refilled share share now (r.lookup (tokenKey ns model))
    (r.insert (tokenKey ns model) b,
      if b.tokens ≤ 0 then some (retryAfterSeconds (-b.tokens) share) else none)
  else (r, none)

/-- The request half of `Allow`. -/
def checkRequests (r : RateLimiter) (provider : LimitedProvider) (ns model : String) (n : ℤ)
    (now : Time) : RateLimiter × Answer :=
  if 0 < provider.rateLimits.requestsPerMinute then
    let share := perReplica provider.rateLimits.requestsPerMinute (replicas n)
    r.take (requestKey ns model) share (requestBurst share) now
  else (r, true, 0)

/-- Whether an LLM request may proceed. -/
def allow (r : RateLimiter) (provider : LimitedProvider) (ns model : String) (n : ℤ)
    (tokensAt requestsAt : Time) : RateLimiter × Answer :=
  let checked := r.checkTokens provider ns model n tokensAt
  match checked.2 with
  | some retryAfter => (checked.1, false, retryAfter)
  | none => checked.1.checkRequests provider ns model n requestsAt

/-- Subtract a finished call's settled tokens, down to a debt of one burst. -/
def debitTokens (r : RateLimiter) (provider : LimitedProvider) (ns model : String) (tokens n : ℤ)
    (now : Time) : RateLimiter :=
  let limit := provider.rateLimits.tokensPerMinute
  if limit ≤ 0 ∨ tokens ≤ 0 then r
  else
    let share := perReplica limit (replicas n)
    let b := TokenBucket.refilled share share now (r.lookup (tokenKey ns model))
    let left := b.tokens - tokens
    r.insert (tokenKey ns model) { b with tokens := if left < -share then -share else left }

/-- Whether a brokered tool call may proceed. -/
def allowTool (r : RateLimiter) (tp : LimitedTool) (ns : String) (n : ℤ) (now : Time) :
    RateLimiter × Answer :=
  if tp.requestsPerMinute ≤ 0 then (r, true, 0)
  else
    let share := perReplica tp.requestsPerMinute (replicas n)
    r.take (toolKey ns tp.name) share (requestBurst share) now

def heartbeatPerMinute : ℚ := 120

def heartbeatBurst : ℚ := 5

/-- Whether an Agent's heartbeat may proceed. -/
def allowHeartbeat (r : RateLimiter) (ns agent : String) (now : Time) : RateLimiter × Bool :=
  let answer := r.take (heartbeatKey ns agent) heartbeatPerMinute heartbeatBurst now
  (answer.1, answer.2.1)

/-- A call of the limiter, with the replica count and the clock readings it makes. -/
inductive Call
  | allow (provider : LimitedProvider) (ns model : String) (n : ℤ) (tokensAt requestsAt : Time)
  | debitTokens (provider : LimitedProvider) (ns model : String) (tokens n : ℤ) (now : Time)
  | allowTool (tp : LimitedTool) (ns : String) (n : ℤ) (now : Time)
  | allowHeartbeat (ns agent : String) (now : Time)
  deriving DecidableEq

namespace Call

/-- The namespace a call is made for. -/
def ns : Call → String
  | .allow _ ns .. | .debitTokens _ ns .. | .allowTool _ ns .. | .allowHeartbeat ns .. => ns

/-- The last clock reading of a call. -/
def time : Call → Time
  | .allow _ _ _ _ _ now | .debitTokens _ _ _ _ _ now | .allowTool _ _ _ now
  | .allowHeartbeat _ _ now => now

/-- The bucket of whole requests or calls that a call is counted in, with its limit and the replica
count the call reads. -/
def counted : Call → Option (String × ℤ × ℤ)
  | .allow provider ns model n _ _ =>
    some (requestKey ns model, provider.rateLimits.requestsPerMinute, replicas n)
  | .allowTool tp ns n _ => some (toolKey ns tp.name, tp.requestsPerMinute, replicas n)
  | .debitTokens .. | .allowHeartbeat .. => none

/-- The buckets a call may touch. -/
def keys : Call → List String
  | .allow _ ns model _ _ _ => [tokenKey ns model, requestKey ns model]
  | .debitTokens _ ns model _ _ _ => [tokenKey ns model]
  | .allowTool tp ns _ _ => [toolKey ns tp.name]
  | .allowHeartbeat ns agent _ => [heartbeatKey ns agent]

end Call

/-- Run one call. A debit answers nothing. -/
def step (r : RateLimiter) : Call → RateLimiter × Option Answer
  | .allow provider ns model n tokensAt requestsAt =>
    let a := r.allow provider ns model n tokensAt requestsAt
    (a.1, some a.2)
  | .debitTokens provider ns model tokens n now =>
    (r.debitTokens provider ns model tokens n now, none)
  | .allowTool tp ns n now =>
    let a := r.allowTool tp ns n now
    (a.1, some a.2)
  | .allowHeartbeat ns agent now =>
    let a := r.allowHeartbeat ns agent now
    (a.1, some (a.2, 0))

theorem allow_of_refused {r : RateLimiter} {provider : LimitedProvider} {ns model : String} {n : ℤ}
    {tokensAt : Time} {retryAfter : ℤ}
    (h : (r.checkTokens provider ns model n tokensAt).2 = some retryAfter) (requestsAt : Time) :
    r.allow provider ns model n tokensAt requestsAt
      = ((r.checkTokens provider ns model n tokensAt).1, false, retryAfter) := by
  simp only [allow, h]

theorem allow_of_passed {r : RateLimiter} {provider : LimitedProvider} {ns model : String} {n : ℤ}
    {tokensAt : Time} (h : (r.checkTokens provider ns model n tokensAt).2 = none)
    (requestsAt : Time) :
    r.allow provider ns model n tokensAt requestsAt
      = (r.checkTokens provider ns model n tokensAt).1.checkRequests provider ns model n
        requestsAt := by
  simp only [allow, h]

/-! ## What a call touches -/

theorem lookup_take_of_ne (r : RateLimiter) {key k : String} (h : k ≠ key) (perMinute burst : ℚ)
    (now : Time) : (r.take key perMinute burst now).1.lookup k = r.lookup k := by
  rw [take]
  split_ifs
  · exact AList.lookup_insert_ne h
  · exact AList.lookup_insert_ne h

theorem lookup_checkTokens_of_ne (r : RateLimiter) (provider : LimitedProvider)
    {ns model k : String}
    (h : k ≠ tokenKey ns model) (n : ℤ) (now : Time) :
    (r.checkTokens provider ns model n now).1.lookup k = r.lookup k := by
  rw [checkTokens]
  split_ifs
  · exact AList.lookup_insert_ne h
  · rfl

theorem lookup_checkRequests_of_ne (r : RateLimiter) (provider : LimitedProvider)
    {ns model k : String} (h : k ≠ requestKey ns model) (n : ℤ) (now : Time) :
    (r.checkRequests provider ns model n now).1.lookup k = r.lookup k := by
  rw [checkRequests]
  split_ifs
  · exact lookup_take_of_ne r h _ _ now
  · rfl

/-- The frame: a call leaves every bucket alone that is not among its keys. -/
theorem lookup_step_of_not_mem (r : RateLimiter) {c : Call} {k : String} (h : k ∉ c.keys) :
    (r.step c).1.lookup k = r.lookup k := by
  cases c with
  | allow provider ns model n tokensAt requestsAt =>
    rw [Call.keys, List.mem_cons, List.mem_singleton, not_or] at h
    have htokens := lookup_checkTokens_of_ne r provider h.1 n tokensAt
    show (r.allow provider ns model n tokensAt requestsAt).1.lookup k = r.lookup k
    cases hcheck : (r.checkTokens provider ns model n tokensAt).2 with
    | some retryAfter =>
      rw [allow_of_refused hcheck]
      exact htokens
    | none =>
      rw [allow_of_passed hcheck]
      exact (lookup_checkRequests_of_ne _ provider h.2 n requestsAt).trans htokens
  | debitTokens provider ns model tokens n now =>
    rw [Call.keys, List.mem_singleton] at h
    show (r.debitTokens provider ns model tokens n now).lookup k = r.lookup k
    rw [debitTokens]
    split_ifs
    · rfl
    · exact AList.lookup_insert_ne h
  | allowTool tp ns n now =>
    rw [Call.keys, List.mem_singleton] at h
    show (r.allowTool tp ns n now).1.lookup k = r.lookup k
    rw [allowTool]
    split_ifs
    · rfl
    · exact lookup_take_of_ne r h _ _ now
  | allowHeartbeat ns agent now =>
    rw [Call.keys, List.mem_singleton] at h
    exact lookup_take_of_ne r h _ _ now

end RateLimiter

/-! ## Telling keys apart -/

section Keys

/-- A character that ends a namespace name or a key's kind. -/
def isSeparator (c : Char) : Bool := c = ':' ∨ c = '/'

theorem no_separator_of_isDNS1123Label {ns : String} (h : isDNS1123Label ns) :
    ∀ c ∈ ns.toList, isSeparator c = false := by
  rw [isDNS1123Label] at h
  simp only [decide_eq_true_eq] at h
  intro c hc
  have hc' := List.all_eq_true.mp h.2.1 c hc
  cases hsep : isSeparator c with
  | false => rfl
  | true =>
    rw [isSeparator, decide_eq_true_iff] at hsep
    rcases hsep with rfl | rfl <;> exact absurd hc' (by decide)

theorem toList_requestKey (ns model : String) :
    (requestKey ns model).toList = ns.toList ++ '/' :: model.toList := by
  simp [requestKey]

/-- The key of a kind is the kind, a colon and a key without kind. -/
def kindKey (kind ns name : String) : String := kind ++ ":" ++ requestKey ns name

theorem toList_kindKey (kind ns name : String) :
    (kindKey kind ns name).toList = kind.toList ++ ':' :: (requestKey ns name).toList := by
  simp [kindKey]

theorem tokenKey_eq (ns model : String) : tokenKey ns model = kindKey "tpm" ns model := by
  rw [← String.toList_inj, toList_kindKey, toList_requestKey]
  simp [tokenKey]

theorem toolKey_eq (ns tool : String) : toolKey ns tool = kindKey "mcp" ns tool := by
  rw [← String.toList_inj, toList_kindKey, toList_requestKey]
  simp [toolKey]

theorem heartbeatKey_eq (ns agent : String) : heartbeatKey ns agent = kindKey "hb" ns agent := by
  rw [← String.toList_inj, toList_kindKey, toList_requestKey]
  simp [heartbeatKey]

variable {ns ns' a a' kind kind' : String}

theorem requestKey_inj (hns : isDNS1123Label ns) (hns' : isDNS1123Label ns')
    (h : requestKey ns a = requestKey ns' a') : ns = ns' ∧ a = a' := by
  rw [← String.toList_inj, toList_requestKey, toList_requestKey] at h
  obtain ⟨hn, -, ha⟩ := Cut.append_cons_inj (no_separator_of_isDNS1123Label hns)
    (no_separator_of_isDNS1123Label hns') rfl rfl h
  exact ⟨String.toList_inj.mp hn, String.toList_inj.mp ha⟩

theorem requestKey_ne_kindKey (hns : isDNS1123Label ns)
    (hkind : ∀ c ∈ kind.toList, isSeparator c = false) :
    requestKey ns a ≠ kindKey kind ns' a' := by
  intro h
  rw [← String.toList_inj, toList_requestKey, toList_kindKey] at h
  obtain ⟨-, hc, -⟩ := Cut.append_cons_inj (no_separator_of_isDNS1123Label hns) hkind rfl rfl h
  exact absurd hc (by decide)

theorem kindKey_inj (hkind : ∀ c ∈ kind.toList, isSeparator c = false)
    (hkind' : ∀ c ∈ kind'.toList, isSeparator c = false) (hns : isDNS1123Label ns)
    (hns' : isDNS1123Label ns') (h : kindKey kind ns a = kindKey kind' ns' a') :
    kind = kind' ∧ ns = ns' ∧ a = a' := by
  rw [← String.toList_inj, toList_kindKey, toList_kindKey] at h
  obtain ⟨hk, -, hrest⟩ := Cut.append_cons_inj hkind hkind' rfl rfl h
  exact ⟨String.toList_inj.mp hk, requestKey_inj hns hns' (String.toList_inj.mp hrest)⟩

theorem no_separator_tpm : ∀ c ∈ "tpm".toList, isSeparator c = false :=
  List.forall_iff_forall_mem.mp (by decide)

theorem no_separator_mcp : ∀ c ∈ "mcp".toList, isSeparator c = false :=
  List.forall_iff_forall_mem.mp (by decide)

theorem no_separator_hb : ∀ c ∈ "hb".toList, isSeparator c = false :=
  List.forall_iff_forall_mem.mp (by decide)

end Keys

end Kaalm.Gateway
