import Kaalm.Foundation.Unwinding
import Kaalm.Gateway.RateLimit
import Mathlib.Algebra.BigOperators.Group.Finset.Basic
import Mathlib.Algebra.Order.BigOperators.Group.Finset

/-!
# What the rate limiter guarantees

## The admission bound

The calls of a run that reach one bucket of requests are requests to that bucket at the instants
they read, in their order (`exists_run_of_calls`). The bound of a window is then that of a token
bucket. A request that the token bucket of `Allow` refuses does not reach its request bucket.

## Separation

The answers for a (namespace, model) pair depend on its two buckets only. A call for another pair,
for a tool or for a heartbeat has other keys and leaves both as they are. A call of another provider
for the same pair has the same keys: the buckets do not tell providers apart.
-/

namespace Kaalm.Gateway.RateLimiter

open Calendar

/-! ## The calls that are counted in a bucket -/

/-- A call is counted in the bucket. -/
def Call.on (k : String) (c : Call) : Bool := c.counted.any fun x ↦ x.1 = k

/-- The limiter after a run of calls. -/
def after (r : RateLimiter) (cs : List Call) : RateLimiter := cs.foldl (fun r c ↦ (r.step c).1) r

/-- The call is counted in the bucket and may proceed. -/
def admits (k : String) (r : RateLimiter) (c : Call) : Bool :=
  c.on k && (r.step c).2.any fun answer ↦ answer.1

/-- How many calls of a run are admitted through a bucket. -/
def admitted (k : String) : RateLimiter → List Call → ℕ
  | _, [] => 0
  | r, c :: cs => (admits k r c).toNat + admitted k (r.step c).1 cs

/-- The key of a bucket that counts whole requests or tool calls. -/
def IsCountedKey (k : String) : Prop :=
  (∃ ns model, isDNS1123Label ns ∧ k = requestKey ns model)
    ∨ ∃ ns tool, isDNS1123Label ns ∧ k = toolKey ns tool

/-- Every call that is counted in the bucket reads this limit and this replica count. -/
def Steady (k : String) (limit n : ℤ) (cs : List Call) : Prop :=
  ∀ c ∈ cs, ∀ x ∈ c.counted, x.1 = k → x.2 = (limit, n)

/-- The calls are for namespaces of a cluster, and their clock does not run backwards. -/
structure Clocked (cs : List Call) : Prop where
  labels : ∀ c ∈ cs, isDNS1123Label c.ns
  monotone : (cs.map Call.time).Pairwise (· ≤ ·)

/-- A call that is not counted in a bucket of requests does not touch it. -/
theorem not_mem_keys_of_not_on {k : String} (hk : IsCountedKey k) {c : Call}
    (hns : isDNS1123Label c.ns) (hon : c.on k = false) : k ∉ c.keys := by
  have htoken : ∀ ns model, k ≠ tokenKey ns model := by
    intro ns model
    rw [tokenKey_eq]
    rcases hk with ⟨ns', model', hns', rfl⟩ | ⟨ns', tool, hns', rfl⟩
    · exact requestKey_ne_kindKey hns' no_separator_tpm
    · rw [toolKey_eq]
      intro h
      rw [← String.toList_inj, toList_kindKey, toList_kindKey] at h
      exact absurd (Cut.append_cons_inj no_separator_mcp no_separator_tpm rfl rfl h).1 (by decide)
  have hheartbeat : ∀ ns agent, k ≠ heartbeatKey ns agent := by
    intro ns agent
    rw [heartbeatKey_eq]
    rcases hk with ⟨ns', model', hns', rfl⟩ | ⟨ns', tool, hns', rfl⟩
    · exact requestKey_ne_kindKey hns' no_separator_hb
    · rw [toolKey_eq]
      intro h
      rw [← String.toList_inj, toList_kindKey, toList_kindKey] at h
      exact absurd (Cut.append_cons_inj no_separator_mcp no_separator_hb rfl rfl h).1 (by decide)
  cases c with
  | allow provider ns model n tokensAt requestsAt =>
    rw [Call.on, Call.counted, Option.any_some, decide_eq_false_iff_not] at hon
    rw [Call.keys, List.mem_cons, List.mem_singleton, not_or]
    exact ⟨htoken ns model, Ne.symm hon⟩
  | debitTokens provider ns model tokens n now =>
    rw [Call.keys, List.mem_singleton]
    exact htoken ns model
  | allowTool tp ns n now =>
    rw [Call.on, Call.counted, Option.any_some, decide_eq_false_iff_not] at hon
    rw [Call.keys, List.mem_singleton]
    exact Ne.symm hon
  | allowHeartbeat ns agent now =>
    rw [Call.keys, List.mem_singleton]
    exact hheartbeat ns agent

/-- `take` is a request to the bucket. -/
theorem run_take (r : RateLimiter) (key : String) (perMinute burst : ℚ) (now : Time) :
    TokenBucket.run perMinute burst (r.lookup key) [now]
      = ((r.take key perMinute burst now).2.1.toNat,
        (r.take key perMinute burst now).1.lookup key) := by
  rw [TokenBucket.run, take]
  by_cases h : 1 ≤ (TokenBucket.refilled perMinute burst now (r.lookup key)).tokens
  · simp only [if_pos h, TokenBucket.run, AList.lookup_insert, zero_add, Bool.toNat_true]
  · simp only [if_neg h, TokenBucket.run, AList.lookup_insert, Bool.toNat_false]

section Projection

variable {k : String} {limit n : ℤ}

/-- One call as requests to the bucket: one at the instant it reads, or none. -/
theorem exists_run_of_step (hk : IsCountedKey k) (hlimit : 0 < limit) (r : RateLimiter) {c : Call}
    (hns : isDNS1123Label c.ns) (hsteady : ∀ x ∈ c.counted, x.1 = k → x.2 = (limit, n)) :
    ∃ ts, (ts = [] ∨ ts = [c.time])
      ∧ TokenBucket.run (perReplica limit n) (requestBurst (perReplica limit n)) (r.lookup k) ts
        = ((admits k r c).toNat, (r.step c).1.lookup k) := by
  cases hon : c.on k with
  | false =>
    refine ⟨[], Or.inl rfl, ?_⟩
    rw [lookup_step_of_not_mem r (not_mem_keys_of_not_on hk hns hon), admits, hon]
    rfl
  | true =>
    rw [admits, hon, Bool.true_and]
    cases c with
    | allow provider ns model m tokensAt requestsAt =>
      have hkey : requestKey ns model = k := by
        rw [Call.on, Call.counted, Option.any_some, decide_eq_true_iff] at hon
        exact hon
      obtain ⟨hl, hn⟩ : provider.rateLimits.requestsPerMinute = limit ∧ replicas m = n :=
        Prod.mk.inj (hsteady _ rfl hkey)
      have htokens : (r.checkTokens provider ns model m tokensAt).1.lookup k = r.lookup k := by
        refine lookup_checkTokens_of_ne r provider ?_ m tokensAt
        rw [← hkey, tokenKey_eq]
        exact requestKey_ne_kindKey hns no_separator_tpm
      simp only [step]
      cases hcheck : (r.checkTokens provider ns model m tokensAt).2 with
      | some retryAfter =>
        refine ⟨[], Or.inl rfl, ?_⟩
        rw [allow_of_refused hcheck, htokens]
        rfl
      | none =>
        refine ⟨[requestsAt], Or.inr rfl, ?_⟩
        rw [allow_of_passed hcheck, ← htokens]
        simp only [checkRequests, hl, hlimit, if_true, hn, hkey, Option.any_some]
        exact run_take _ k _ _ requestsAt
    | allowTool tp ns m now =>
      have hkey : toolKey ns tp.name = k := by
        rw [Call.on, Call.counted, Option.any_some, decide_eq_true_iff] at hon
        exact hon
      obtain ⟨hl, hn⟩ : tp.requestsPerMinute = limit ∧ replicas m = n :=
        Prod.mk.inj (hsteady _ rfl hkey)
      refine ⟨[now], Or.inr rfl, ?_⟩
      simp only [step, allowTool, hl, not_le.mpr hlimit, if_false, hn, hkey, Option.any_some]
      exact run_take r k _ _ now
    | debitTokens provider ns model tokens m now => cases hon
    | allowHeartbeat ns agent now => cases hon

/-- A run of calls as requests to the bucket, at instants the calls read and in their order. -/
theorem exists_run_of_calls (hk : IsCountedKey k) (hlimit : 0 < limit) (r : RateLimiter)
    {cs : List Call} (hlabels : ∀ c ∈ cs, isDNS1123Label c.ns) (hsteady : Steady k limit n cs) :
    ∃ ts, ts.Sublist (cs.map Call.time)
      ∧ TokenBucket.run (perReplica limit n) (requestBurst (perReplica limit n)) (r.lookup k) ts
        = (admitted k r cs, (r.after cs).lookup k) := by
  induction cs generalizing r with
  | nil => exact ⟨[], List.Sublist.refl _, rfl⟩
  | cons c cs ih =>
    obtain ⟨ts, hts, hrun⟩ := exists_run_of_step hk hlimit r (hlabels c List.mem_cons_self)
      (hsteady c List.mem_cons_self)
    obtain ⟨us, hus, hrun'⟩ := ih (r.step c).1 (fun c hc ↦ hlabels c (List.mem_cons_of_mem _ hc))
      fun c hc ↦ hsteady c (List.mem_cons_of_mem _ hc)
    refine ⟨ts ++ us, ?_, ?_⟩
    · rw [List.map_cons]
      rcases hts with rfl | rfl
      · exact hus.cons _
      · exact hus.cons_cons _
    · rw [TokenBucket.run_append, hrun]
      simp only [hrun']
      rfl

end Projection

/-! ## The bound of a window -/

theorem perReplica_nonneg {limit n : ℤ} (hlimit : 0 < limit) (hn : 0 < n) :
    0 ≤ perReplica limit n := by
  have : (0 : ℚ) < limit := by exact_mod_cast hlimit
  have : (0 : ℚ) < n := by exact_mod_cast hn
  rw [perReplica]
  positivity

theorem requestBurst_nonneg (share : ℚ) : 0 ≤ requestBurst share :=
  zero_le_one.trans (le_max_right share 1)

/-- What one replica admits through a bucket in a window. -/
theorem admitted_le {k : String} {limit n : ℤ} (hk : IsCountedKey k) (hlimit : 0 < limit)
    (hn : 0 < n) {before window : List Call} (hclock : Clocked (before ++ window))
    (hsteady : Steady k limit n (before ++ window)) {s T : Time} (hT : 0 ≤ T)
    (hwindow : ∀ c ∈ window, s ≤ c.time ∧ c.time ≤ s + T) :
    (admitted k (after ∅ before) window : ℚ)
      ≤ requestBurst (perReplica limit n) + TokenBucket.minutes T * perReplica limit n := by
  have hshare := perReplica_nonneg hlimit hn
  have hburst := requestBurst_nonneg (perReplica limit n)
  obtain ⟨ts, -, hbefore⟩ := exists_run_of_calls hk hlimit ∅
    (fun c hc ↦ hclock.labels c (List.mem_append_left _ hc))
    fun c hc ↦ hsteady c (List.mem_append_left _ hc)
  obtain ⟨us, hus, hrun⟩ := exists_run_of_calls hk hlimit (after ∅ before)
    (fun c hc ↦ hclock.labels c (List.mem_append_right _ hc))
    fun c hc ↦ hsteady c (List.mem_append_right _ hc)
  -- The bucket is full or absent at first, and requests leave no debt.
  have hnodebt : ∀ x ∈ (after ∅ before).lookup k, 0 ≤ x.tokens := by
    have hstart : ∀ x ∈ (∅ : RateLimiter).lookup k, 0 ≤ x.tokens := fun x hx ↦ nomatch hx
    have hend := TokenBucket.run_nonneg hshare hburst hstart ts
    rwa [hbefore] at hend
  have hmonotone := hclock.monotone
  rw [List.map_append] at hmonotone
  have hsorted : us.Pairwise (· ≤ ·) := (List.pairwise_append.mp hmonotone).2.1.sublist hus
  have htimes : ∀ t ∈ us, s ≤ t ∧ t ≤ s + T := by
    intro t ht
    obtain ⟨c, hc, rfl⟩ := List.mem_map.mp (hus.subset ht)
    exact hwindow c hc
  have hbound := TokenBucket.run_le_burst_add hshare hburst hnodebt hsorted
    (fun t ht ↦ (htimes t ht).1) (fun t ht ↦ (htimes t ht).2) (le_add_of_nonneg_right hT)
  rwa [hrun, add_sub_cancel_left] at hbound

/-- The shares of the replicas add up to the limit. -/
theorem card_mul_perReplica {N : ℕ} (hN : 0 < N) (limit : ℤ) :
    (N : ℚ) * perReplica limit N = limit := by
  have : (N : ℚ) ≠ 0 := by exact_mod_cast hN.ne'
  rw [perReplica, Int.cast_natCast]
  field_simp

/-- The admission bound. In a window of `T` every replica admits at most the burst and `T` minutes
of its share; the `N` replicas together admit at most `N` bursts and `T` minutes of the limit, so
over long windows the rate of all of them exceeds the limit by less than any given amount. -/
theorem admitted_le_burst_add {k : String} (hk : IsCountedKey k) {limit : ℤ} (hlimit : 0 < limit)
    {N : ℕ} (hN : 0 < N) :
    (∀ (before window : List Call), Clocked (before ++ window) →
      Steady k limit N (before ++ window) → ∀ (s T : Time), 0 ≤ T →
      (∀ c ∈ window, s ≤ c.time ∧ c.time ≤ s + T) →
        (admitted k (after ∅ before) window : ℚ)
          ≤ max (perReplica limit N) 1 + TokenBucket.minutes T * perReplica limit N)
    ∧ (∀ (before window : Fin N → List Call), (∀ i, Clocked (before i ++ window i)) →
      (∀ i, Steady k limit N (before i ++ window i)) → ∀ (s T : Time), 0 ≤ T →
      (∀ i, ∀ c ∈ window i, s ≤ c.time ∧ c.time ≤ s + T) →
        ∑ i, (admitted k (after ∅ (before i)) (window i) : ℚ)
          ≤ N * max (perReplica limit N) 1 + TokenBucket.minutes T * limit)
    ∧ ∀ ε : ℚ, 0 < ε → ∃ T₀ : Time, 0 ≤ T₀ ∧
      ∀ (before window : Fin N → List Call), (∀ i, Clocked (before i ++ window i)) →
      (∀ i, Steady k limit N (before i ++ window i)) → ∀ (s T : Time), T₀ ≤ T →
      (∀ i, ∀ c ∈ window i, s ≤ c.time ∧ c.time ≤ s + T) →
        ∑ i, (admitted k (after ∅ (before i)) (window i) : ℚ)
          ≤ (limit + ε) * TokenBucket.minutes T := by
  have hone : ∀ (before window : List Call), Clocked (before ++ window) →
      Steady k limit N (before ++ window) → ∀ (s T : Time), 0 ≤ T →
      (∀ c ∈ window, s ≤ c.time ∧ c.time ≤ s + T) →
        (admitted k (after ∅ before) window : ℚ)
          ≤ max (perReplica limit N) 1 + TokenBucket.minutes T * perReplica limit N := by
    intro before window hclock hsteady s T hT hwindow
    exact admitted_le hk hlimit (by exact_mod_cast hN) hclock hsteady hT hwindow
  have hall : ∀ (before window : Fin N → List Call), (∀ i, Clocked (before i ++ window i)) →
      (∀ i, Steady k limit N (before i ++ window i)) → ∀ (s T : Time), 0 ≤ T →
      (∀ i, ∀ c ∈ window i, s ≤ c.time ∧ c.time ≤ s + T) →
        ∑ i, (admitted k (after ∅ (before i)) (window i) : ℚ)
          ≤ N * max (perReplica limit N) 1 + TokenBucket.minutes T * limit := by
    intro before window hclock hsteady s T hT hwindow
    calc ∑ i, (admitted k (after ∅ (before i)) (window i) : ℚ)
        ≤ ∑ _i : Fin N, (max (perReplica limit N) 1
            + TokenBucket.minutes T * perReplica limit N) :=
          Finset.sum_le_sum fun i _ ↦
            hone (before i) (window i) (hclock i) (hsteady i) s T hT (hwindow i)
      _ = N * max (perReplica limit N) 1
            + TokenBucket.minutes T * (N * perReplica limit N) := by
          rw [Finset.sum_const, Finset.card_univ, Fintype.card_fin, nsmul_eq_mul]
          ring
      _ = N * max (perReplica limit N) 1 + TokenBucket.minutes T * limit := by
          rw [card_mul_perReplica hN]
  refine ⟨hone, hall, fun ε hε ↦ ?_⟩
  -- A window long enough for `ε` times its length to cover the bursts.
  set bursts : ℚ := N * max (perReplica limit N) 1
  have hbursts : 0 ≤ bursts := mul_nonneg (Nat.cast_nonneg N) (requestBurst_nonneg _)
  refine ⟨⌈bursts / ε⌉ * (60 * second), mul_nonneg (Int.ceil_nonneg (by positivity)) (by decide),
    ?_⟩
  intro before window hclock hsteady s T hT hwindow
  have hT' : 0 ≤ T :=
    (mul_nonneg (Int.ceil_nonneg (by positivity : 0 ≤ bursts / ε)) (by decide)).trans hT
  have hlong : bursts / ε ≤ TokenBucket.minutes T := by
    have hcast : ((⌈bursts / ε⌉ * (60 * second) : ℤ) : ℚ) ≤ T := by exact_mod_cast hT
    have hsecond : (0 : ℚ) < 60 * (second : ℤ) := by norm_num [second]
    rw [TokenBucket.minutes, le_div_iff₀ hsecond]
    push_cast at hcast
    exact (mul_le_mul_of_nonneg_right (Int.le_ceil _) hsecond.le).trans hcast
  have hcover : bursts ≤ ε * TokenBucket.minutes T := by
    rw [div_le_iff₀ hε] at hlong
    linarith
  have hsum := hall before window hclock hsteady s T hT' hwindow
  calc ∑ i, (admitted k (after ∅ (before i)) (window i) : ℚ)
      ≤ bursts + TokenBucket.minutes T * limit := hsum
    _ ≤ ε * TokenBucket.minutes T + TokenBucket.minutes T * limit := by linarith
    _ = (limit + ε) * TokenBucket.minutes T := by ring

/-- A provider with two requests a minute, and a request of a namespace to it. -/
def smallProvider : LimitedProvider := ⟨"openai", { requestsPerMinute := 2 }⟩

def smallCall (now : Time) : Call := .allow smallProvider "team-a" "gpt" 1 now now

theorem admitted_le_burst_add_at_once :
    (admitted "team-a/gpt" ∅ [smallCall 0, smallCall 0, smallCall 0] : ℚ) ≤ 2 := by
  have hbound := (admitted_le_burst_add (k := "team-a/gpt") (Or.inl ⟨"team-a", "gpt", by decide,
    by decide⟩) (show (0 : ℤ) < 2 by decide) (show 0 < 1 by decide)).1 []
    [smallCall 0, smallCall 0, smallCall 0] ⟨by decide, by decide⟩ (by unfold Steady; decide) 0 0
    (by decide) (by decide)
  refine hbound.trans ?_
  decide +kernel

/-! ## Separation -/

section Separation

/-- A call of the provider for the pair. -/
def Call.mine (provider ns model : String) : Call → Bool
  | .allow p n m .. | .debitTokens p n m .. => p.name = provider ∧ n = ns ∧ m = model
  | .allowTool .. | .allowHeartbeat .. => false

/-- A call of another provider is for another pair. -/
def Call.Separate (provider ns model : String) : Call → Prop
  | .allow p n m .. | .debitTokens p n m .. => p.name ≠ provider → n ≠ ns ∨ m ≠ model
  | .allowTool .. | .allowHeartbeat .. => True

instance (provider ns model : String) : DecidablePred (Call.Separate provider ns model) := fun c ↦
  match c with
  | .allow p n m .. => inferInstanceAs (Decidable (p.name ≠ provider → n ≠ ns ∨ m ≠ model))
  | .debitTokens p n m .. => inferInstanceAs (Decidable (p.name ≠ provider → n ≠ ns ∨ m ≠ model))
  | .allowTool .. => isTrue trivial
  | .allowHeartbeat .. => isTrue trivial

/-- The answers to the calls of a provider for a pair, in order. -/
def answers (provider ns model : String) : RateLimiter → List Call → List (Option Answer)
  | _, [] => []
  | r, c :: cs =>
    if c.mine provider ns model then (r.step c).2 :: answers provider ns model (r.step c).1 cs
    else answers provider ns model (r.step c).1 cs

variable {provider ns model : String}

/-- Two limiters with the same two buckets of the pair. -/
def SamePair (ns model : String) (r r' : RateLimiter) : Prop :=
  r.lookup (requestKey ns model) = r'.lookup (requestKey ns model)
    ∧ r.lookup (tokenKey ns model) = r'.lookup (tokenKey ns model)

/-- The calls of a cluster that meet the condition. -/
def guarded (provider ns model : String) (r : RateLimiter) (c : Call) :
    Option (RateLimiter × Option Answer) :=
  if isDNS1123Label c.ns ∧ c.Separate provider ns model then some (r.step c) else none

/-- A call that is not the provider's for the pair leaves both buckets of the pair alone. -/
theorem samePair_step (hns : isDNS1123Label ns) {c : Call} (hlabel : isDNS1123Label c.ns)
    (hseparate : c.Separate provider ns model) (hforeign : c.mine provider ns model = false)
    (r : RateLimiter) : SamePair ns model r (r.step c).1 := by
  suffices h : requestKey ns model ∉ c.keys ∧ tokenKey ns model ∉ c.keys from
    ⟨(lookup_step_of_not_mem r h.1).symm, (lookup_step_of_not_mem r h.2).symm⟩
  -- A call for another pair has neither key of this one.
  have hpair : ∀ n m, isDNS1123Label n → (n ≠ ns ∨ m ≠ model) →
      requestKey ns model ≠ requestKey n m ∧ tokenKey ns model ≠ tokenKey n m := by
    intro n m hn hne
    have hne' : ¬ (ns = n ∧ model = m) := by
      rintro ⟨rfl, rfl⟩
      rcases hne with h | h <;> exact h rfl
    refine ⟨fun h ↦ hne' (requestKey_inj hns hn h), fun h ↦ ?_⟩
    rw [tokenKey_eq, tokenKey_eq] at h
    exact hne' (kindKey_inj no_separator_tpm no_separator_tpm hns hn h).2
  have hcross : ∀ n m, isDNS1123Label n → requestKey ns model ≠ tokenKey n m
      ∧ tokenKey ns model ≠ requestKey n m := by
    intro n m hn
    rw [tokenKey_eq, tokenKey_eq]
    exact ⟨requestKey_ne_kindKey hns no_separator_tpm,
      (requestKey_ne_kindKey hn no_separator_tpm).symm⟩
  have hother : ∀ n m, (n ≠ ns ∨ m ≠ model) ∨ (n = ns ∧ m = model) := fun n m ↦ by tauto
  cases c with
  | allow p n m k tokensAt requestsAt =>
    have hne : n ≠ ns ∨ m ≠ model := by
      rcases hother n m with h | ⟨hn, hm⟩
      · exact h
      · refine hseparate fun hp ↦ ?_
        rw [Call.mine, decide_eq_false_iff_not] at hforeign
        exact hforeign ⟨hp, hn, hm⟩
    simp only [Call.keys, List.mem_cons, List.not_mem_nil, or_false, not_or]
    exact ⟨⟨(hcross n m hlabel).1, (hpair n m hlabel hne).1⟩, (hpair n m hlabel hne).2,
      (hcross n m hlabel).2⟩
  | debitTokens p n m tokens k now =>
    have hne : n ≠ ns ∨ m ≠ model := by
      rcases hother n m with h | ⟨hn, hm⟩
      · exact h
      · refine hseparate fun hp ↦ ?_
        rw [Call.mine, decide_eq_false_iff_not] at hforeign
        exact hforeign ⟨hp, hn, hm⟩
    simp only [Call.keys, List.mem_cons, List.not_mem_nil, or_false]
    exact ⟨(hcross n m hlabel).1, (hpair n m hlabel hne).2⟩
  | allowTool tp n k now =>
    simp only [Call.keys, List.mem_cons, List.not_mem_nil, or_false]
    rw [toolKey_eq, tokenKey_eq]
    refine ⟨requestKey_ne_kindKey hns no_separator_mcp, fun h ↦ ?_⟩
    exact absurd (kindKey_inj no_separator_tpm no_separator_mcp hns hlabel h).1 (by decide)
  | allowHeartbeat n agent now =>
    simp only [Call.keys, List.mem_cons, List.not_mem_nil, or_false]
    rw [heartbeatKey_eq, tokenKey_eq]
    refine ⟨requestKey_ne_kindKey hns no_separator_hb, fun h ↦ ?_⟩
    exact absurd (kindKey_inj no_separator_tpm no_separator_hb hns hlabel h).1 (by decide)

/-- The bucket a call takes from decides its answer and what it leaves there. -/
theorem take_congr {r r' : RateLimiter} {key : String} (h : r.lookup key = r'.lookup key)
    (perMinute burst : ℚ) (now : Time) :
    (r.take key perMinute burst now).2 = (r'.take key perMinute burst now).2
      ∧ (r.take key perMinute burst now).1.lookup key
        = (r'.take key perMinute burst now).1.lookup key := by
  rw [take, take, h]
  split_ifs
  · exact ⟨rfl, by rw [AList.lookup_insert, AList.lookup_insert]⟩
  · exact ⟨rfl, by rw [AList.lookup_insert, AList.lookup_insert]⟩

theorem checkTokens_congr {r r' : RateLimiter} (h : SamePair ns model r r') (p : LimitedProvider)
    (n : ℤ) (now : Time) (hne : requestKey ns model ≠ tokenKey ns model) :
    (r.checkTokens p ns model n now).2 = (r'.checkTokens p ns model n now).2
      ∧ SamePair ns model (r.checkTokens p ns model n now).1
        (r'.checkTokens p ns model n now).1 := by
  rw [checkTokens, checkTokens, h.2]
  split_ifs
  · refine ⟨rfl, ?_, ?_⟩
    · rw [AList.lookup_insert_ne hne, AList.lookup_insert_ne hne]
      exact h.1
    · rw [AList.lookup_insert, AList.lookup_insert]
  · exact ⟨rfl, h⟩

theorem checkRequests_congr {r r' : RateLimiter} (h : SamePair ns model r r') (p : LimitedProvider)
    (n : ℤ) (now : Time) (hne : requestKey ns model ≠ tokenKey ns model) :
    (r.checkRequests p ns model n now).2 = (r'.checkRequests p ns model n now).2
      ∧ SamePair ns model (r.checkRequests p ns model n now).1
        (r'.checkRequests p ns model n now).1 := by
  rw [checkRequests, checkRequests]
  split_ifs
  · obtain ⟨hanswer, hbucket⟩ := take_congr h.1
      (perReplica p.rateLimits.requestsPerMinute (replicas n))
      (requestBurst (perReplica p.rateLimits.requestsPerMinute (replicas n))) now
    refine ⟨hanswer, hbucket, ?_⟩
    rw [lookup_take_of_ne r hne.symm, lookup_take_of_ne r' hne.symm]
    exact h.2
  · exact ⟨rfl, h⟩

/-- A call of the provider for the pair is answered from the two buckets of the pair. -/
theorem step_congr (hns : isDNS1123Label ns) {r r' : RateLimiter} (h : SamePair ns model r r')
    {c : Call} (hmine : c.mine provider ns model = true) :
    (r.step c).2 = (r'.step c).2 ∧ SamePair ns model (r.step c).1 (r'.step c).1 := by
  have hne : requestKey ns model ≠ tokenKey ns model := by
    rw [tokenKey_eq]
    exact requestKey_ne_kindKey hns no_separator_tpm
  cases c with
  | allow p n m k tokensAt requestsAt =>
    rw [Call.mine, decide_eq_true_iff] at hmine
    obtain ⟨-, rfl, rfl⟩ := hmine
    obtain ⟨htokens, hpair⟩ := checkTokens_congr h p k tokensAt hne
    simp only [step]
    cases hcheck : (r'.checkTokens p n m k tokensAt).2 with
    | some retryAfter =>
      rw [allow_of_refused hcheck, allow_of_refused (htokens.trans hcheck)]
      exact ⟨rfl, hpair⟩
    | none =>
      rw [allow_of_passed hcheck, allow_of_passed (htokens.trans hcheck)]
      obtain ⟨hanswer, hpair'⟩ := checkRequests_congr hpair p k requestsAt hne
      exact ⟨congrArg some hanswer, hpair'⟩
  | debitTokens p n m tokens k now =>
    rw [Call.mine, decide_eq_true_iff] at hmine
    obtain ⟨-, rfl, rfl⟩ := hmine
    refine ⟨rfl, ?_⟩
    simp only [step, debitTokens, h.2]
    split_ifs
    · exact h
    · refine ⟨?_, ?_⟩
      · rw [AList.lookup_insert_ne hne, AList.lookup_insert_ne hne]
        exact h.1
      · rw [AList.lookup_insert, AList.lookup_insert]
    · refine ⟨?_, ?_⟩
      · rw [AList.lookup_insert_ne hne, AList.lookup_insert_ne hne]
        exact h.1
      · rw [AList.lookup_insert, AList.lookup_insert]
  | allowTool tp n k now => exact nomatch hmine
  | allowHeartbeat n agent now => exact nomatch hmine

/-- The two buckets of the pair unwind the guarded calls. -/
theorem unwinding_samePair (hns : isDNS1123Label ns) :
    Run.Unwinding (guarded provider ns model) (fun c ↦ !c.mine provider ns model) (fun _ ↦ True)
      (SamePair ns model) where
  symm h := ⟨h.1.symm, h.2.symm⟩
  trans h h' := ⟨h.1.trans h'.1, h.2.trans h'.2⟩
  keeps _ _ := trivial
  respects {s a t o} _ hhidden hcall := by
    rw [guarded] at hcall
    split_ifs at hcall with hguard
    have hstep := samePair_step hns hguard.1 hguard.2 (by simpa using hhidden) s
    rw [Option.some_inj.mp hcall] at hstep
    exact hstep
  consistent {s s' a t t' o o'} _ _ hR hvisible hcall hcall' := by
    rw [guarded] at hcall hcall'
    split_ifs at hcall hcall' with hguard
    have hmine : a.mine provider ns model = true := by simpa using hvisible
    obtain ⟨hanswer, hpair⟩ := step_congr hns hR hmine
    rw [Option.some_inj.mp hcall, Option.some_inj.mp hcall'] at hanswer hpair
    exact ⟨hpair, hanswer⟩

/-- The answers of a run of guarded calls are its observation. -/
theorem observe_guarded (r : RateLimiter) {cs : List Call}
    (hguard : ∀ c ∈ cs, isDNS1123Label c.ns ∧ c.Separate provider ns model) :
    Run.observe (guarded provider ns model) (fun c ↦ !c.mine provider ns model) r cs
      = some (r.after cs, answers provider ns model r cs) := by
  induction cs generalizing r with
  | nil => rfl
  | cons c cs ih =>
    rw [Run.observe, guarded, if_pos (hguard c List.mem_cons_self), Option.bind_some,
      ih _ fun c hc ↦ hguard c (List.mem_cons_of_mem _ hc), Option.map_some, answers]
    cases c.mine provider ns model <;> rfl

/-- Two runs that agree on the calls of a provider for a (namespace, model) pair give them the same
answers, as long as the calls of other providers are for other pairs. -/
theorem answers_eq_of_separate (hns : isDNS1123Label ns) {cs cs' : List Call}
    (hlabels : ∀ c ∈ cs, isDNS1123Label c.ns) (hlabels' : ∀ c ∈ cs', isDNS1123Label c.ns)
    (hseparate : ∀ c ∈ cs, c.Separate provider ns model)
    (hseparate' : ∀ c ∈ cs', c.Separate provider ns model)
    (hmine : cs.filter (Call.mine provider ns model) = cs'.filter (Call.mine provider ns model)) :
    answers provider ns model ∅ cs = answers provider ns model ∅ cs' := by
  have hobs := observe_guarded ∅ fun c hc ↦ ⟨hlabels c hc, hseparate c hc⟩
  have hobs' := observe_guarded ∅ fun c hc ↦ ⟨hlabels' c hc, hseparate' c hc⟩
  refine ((unwinding_samePair hns).observe_eq trivial trivial ⟨rfl, rfl⟩ ?_ hobs hobs').2
  simpa only [Bool.not_not] using hmine

/-- Another provider that offers the same model with one request a minute. -/
def otherProvider : LimitedProvider := ⟨"azure", { requestsPerMinute := 1 }⟩

theorem answers_eq_of_other_model :
    answers "openai" "team-a" "gpt" ∅ [smallCall 0]
      = answers "openai" "team-a" "gpt" ∅
        [.allow otherProvider "team-a" "gpt-mini" 1 0 0, smallCall 0] :=
  answers_eq_of_separate (by decide) (by decide) (by decide) (by decide) (by decide) (by decide)

/-- A request of the namespace through the other provider takes the request of the first provider:
the same call is admitted in one run and refused for a minute in the other. -/
theorem other_provider_drains_bucket :
    [smallCall 0].filter (Call.mine "openai" "team-a" "gpt")
        = [Call.allow otherProvider "team-a" "gpt" 1 0 0, smallCall 0].filter
          (Call.mine "openai" "team-a" "gpt")
      ∧ answers "openai" "team-a" "gpt" ∅ [smallCall 0] = [some (true, 0)]
      ∧ answers "openai" "team-a" "gpt" ∅
        [.allow otherProvider "team-a" "gpt" 1 0 0, smallCall 0] = [some (false, 30)] := by
  decide +kernel

end Separation

end Kaalm.Gateway.RateLimiter
