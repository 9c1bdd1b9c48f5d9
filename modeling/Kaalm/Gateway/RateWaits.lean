import Kaalm.Gateway.RateBounds
import Mathlib.Algebra.Order.Floor.Ring
import Mathlib.Order.Bounds.Basic

/-!
# How long the rate limiter makes a caller wait

A refusal gives the whole seconds after which the bucket has gained what it lacks. `waitSeconds` is
that time in exact arithmetic; the limiter rounds it to the nearest nanosecond and then up to a
second (`retryAfterSeconds_eq`).

A request bucket admits as soon as it holds a token, and a token bucket only once it is above zero.
So the answer is one second short for a token bucket that needs a whole number of seconds, above all
for one at its greatest debt, and for any bucket that needs less than half a nanosecond more than a
whole number of seconds. It is the least wait that helps in all other cases (`retryAfter_isLeast`).

A debt is cut to one share at every refill and every debit, whatever the share was when it was made
(`debt_bounded`).
-/

namespace Kaalm.Gateway.RateLimiter

open Calendar TokenBucket

/-! ## The wait -/

/-- The seconds until a bucket refilling at `perMinute` gains `deficit` tokens. -/
def waitSeconds (deficit perMinute : ℚ) : ℚ := deficit / perMinute * 60

/-- The least part of a second that is not rounded away. -/
def halfNano : ℚ := 1 / (2 * second)

/-- The wait is not one that is rounded to a second that is too early for a bucket of whole
requests. -/
def rounds (wait : ℚ) : Bool := wait < 1 ∨ Int.fract wait = 0 ∨ halfNano ≤ Int.fract wait

/-- The wait is not one that is rounded to a second at which a token bucket is still not above zero.
-/
def roundsAbove (wait : ℚ) : Bool := wait < 1 ∨ halfNano ≤ Int.fract wait

theorem retryAfterSeconds_eq {deficit perMinute : ℚ} (hdeficit : 0 ≤ deficit)
    (hrate : 0 < perMinute) :
    retryAfterSeconds deficit perMinute = max 1 (⌊waitSeconds deficit perMinute⌋
      + if halfNano ≤ Int.fract (waitSeconds deficit perMinute) then 1 else 0) := by
  set w := waitSeconds deficit perMinute with hw
  have hw0 : 0 ≤ w := by
    rw [hw, waitSeconds]
    positivity
  have hnanos : deficit / perMinute * (60 * second)
      = ⌊w⌋ * (second : ℤ) + Int.fract w * second := by
    have hsplit : w = ⌊w⌋ + Int.fract w := (Int.floor_add_fract w).symm
    calc deficit / perMinute * (60 * second) = w * second := by rw [hw, waitSeconds]; ring
      _ = (⌊w⌋ + Int.fract w) * second := by rw [← hsplit]
      _ = _ := by ring
  -- The nanoseconds beyond the last whole second, after rounding.
  set m := ⌊Int.fract w * second + 1 / 2⌋ with hm
  have hround : mathRound (deficit / perMinute * (60 * second)) = ⌊w⌋ * second + m := by
    have hnonneg : ¬ deficit / perMinute * (60 * second) < 0 := by
      rw [not_lt]
      have : (0 : ℚ) < second := by norm_num [second]
      positivity
    rw [mathRound, if_neg hnonneg, hnanos, add_assoc, ← Int.cast_mul, Int.floor_intCast_add]
  have hfloor : 0 ≤ ⌊w⌋ := Int.floor_nonneg.mpr hw0
  have hm0 : 0 ≤ m := by
    have := Int.fract_nonneg w
    rw [hm, Int.floor_nonneg]
    have : (0 : ℚ) < second := by norm_num [second]
    positivity
  have hm1 : m ≤ second := by
    have hlt := Int.fract_lt_one w
    rw [hm, ← Int.lt_add_one_iff, Int.floor_lt]
    push_cast
    norm_num [second] at hlt ⊢
    linarith
  have hzero : m = 0 ↔ ¬ halfNano ≤ Int.fract w := by
    have hlt : m < 1 ↔ Int.fract w * second + 1 / 2 < 1 := by
      rw [hm, Int.floor_lt, Int.cast_one]
    rw [not_le, halfNano]
    have hiff : Int.fract w * second + 1 / 2 < 1 ↔ Int.fract w < 1 / (2 * second) := by
      rw [lt_div_iff₀ (by norm_num [second])]
      constructor <;> intro h <;> linarith
    rw [← hiff, ← hlt]
    omega
  have hsecs : (⌊w⌋ * second + m + second - 1).tdiv second = ⌊w⌋ + if m = 0 then 0 else 1 := by
    rw [Int.tdiv_eq_ediv_of_nonneg (by rw [second] at hm1 ⊢; omega)]
    rw [second] at hm1 ⊢
    split_ifs <;> omega
  rw [retryAfterSeconds, hround, hsecs]
  by_cases h : halfNano ≤ Int.fract w
  · rw [if_neg (fun hm ↦ hzero.mp hm h), if_pos h]
    split_ifs <;> omega
  · rw [if_pos (hzero.mpr h), if_neg h]
    split_ifs <;> omega

/-- The rounded wait, or the second after it, is the least whole number of seconds from the wait
on. -/
theorem retryAfterSeconds_le_iff {deficit perMinute : ℚ} (hdeficit : 0 ≤ deficit)
    (hrate : 0 < perMinute) {k : ℤ} (hk : 1 ≤ k) :
    (if rounds (waitSeconds deficit perMinute) then retryAfterSeconds deficit perMinute
      else retryAfterSeconds deficit perMinute + 1) ≤ k ↔ waitSeconds deficit perMinute ≤ k := by
  rw [retryAfterSeconds_eq hdeficit hrate]
  set w := waitSeconds deficit perMinute
  have hsplit := Int.floor_add_fract w
  have hfract := Int.fract_nonneg w
  have hlt := Int.fract_lt_one w
  have hhalf : (0 : ℚ) < halfNano := by norm_num [halfNano, second]
  have hone : (1 : ℚ) ≤ k := by exact_mod_cast hk
  -- With a fraction of a second left, `w ≤ k` is `⌊w⌋ < k`.
  have habove : 0 < Int.fract w → (⌊w⌋ + 1 ≤ k ↔ w ≤ k) := by
    intro hpos
    rw [Int.add_one_le_iff]
    constructor
    · intro hfloor
      have hcast : ((⌊w⌋ + 1 : ℤ) : ℚ) ≤ k := by exact_mod_cast hfloor
      push_cast at hcast
      linarith
    · intro hwk
      have hcast : ((⌊w⌋ : ℤ) : ℚ) < k := by linarith
      exact_mod_cast hcast
  by_cases hpart : halfNano ≤ Int.fract w
  · have hrounds : rounds w = true := decide_eq_true (.inr (.inr hpart))
    rw [if_pos hrounds, if_pos hpart, max_le_iff, and_iff_right hk]
    exact habove (hhalf.trans_le hpart)
  · rw [if_neg hpart, add_zero]
    by_cases hsmall : w < 1
    · have hrounds : rounds w = true := decide_eq_true (.inl hsmall)
      have hfloor : ⌊w⌋ < 1 := Int.floor_lt.mpr (by exact_mod_cast hsmall)
      rw [if_pos hrounds, max_le_iff, and_iff_right hk]
      exact iff_of_true (by omega) (hsmall.le.trans hone)
    · have hfloor : 1 ≤ ⌊w⌋ := Int.le_floor.mpr (by exact_mod_cast not_lt.mp hsmall)
      rw [max_eq_right hfloor]
      by_cases hwhole : Int.fract w = 0
      · have hrounds : rounds w = true := decide_eq_true (.inr (.inl hwhole))
        rw [if_pos hrounds, ← hsplit, hwhole, add_zero, Int.cast_le, Int.floor_intCast]
      · have hrounds : ¬ rounds w = true := by
          rw [rounds, decide_eq_true_iff, not_or, not_or]
          exact ⟨hsmall, hwhole, hpart⟩
        rw [if_neg hrounds]
        exact habove (lt_of_le_of_ne hfract (Ne.symm hwhole))

/-- For a bucket that has to be above zero, the least whole number of seconds after the wait. -/
theorem retryAfterSeconds_le_iff_lt {deficit perMinute : ℚ} (hdeficit : 0 ≤ deficit)
    (hrate : 0 < perMinute) {k : ℤ} (hk : 1 ≤ k) :
    (if roundsAbove (waitSeconds deficit perMinute) then retryAfterSeconds deficit perMinute
      else retryAfterSeconds deficit perMinute + 1) ≤ k ↔ waitSeconds deficit perMinute < k := by
  have hle := retryAfterSeconds_le_iff hdeficit hrate hk
  have heq := retryAfterSeconds_eq hdeficit hrate
  set w := waitSeconds deficit perMinute
  have hsplit := Int.floor_add_fract w
  have hhalf : (0 : ℚ) < halfNano := by norm_num [halfNano, second]
  by_cases habove : roundsAbove w = true
  · have hcases := of_decide_eq_true habove
    have hrounds : rounds w = true := decide_eq_true (hcases.imp_right Or.inr)
    rw [if_pos hrounds] at hle
    rw [if_pos habove, hle]
    refine ⟨fun h ↦ lt_of_le_of_ne h fun hwk ↦ ?_, le_of_lt⟩
    rcases hcases with hsmall | hpart
    · have hone : (1 : ℚ) ≤ k := by exact_mod_cast hk
      linarith
    · rw [hwk, Int.fract_intCast] at hpart
      exact absurd hpart (not_le.mpr hhalf)
  · rw [if_neg habove]
    by_cases hrounds : rounds w = true
    · -- A whole number of seconds: the bucket is at zero then, and above it a second later.
      have hnot : ¬ w < 1 ∧ ¬ halfNano ≤ Int.fract w := by
        rwa [roundsAbove, decide_eq_true_iff, not_or] at habove
      have hwhole : Int.fract w = 0 :=
        ((of_decide_eq_true hrounds).resolve_left hnot.1).resolve_right hnot.2
      have hfloor : 1 ≤ ⌊w⌋ := Int.le_floor.mpr (by exact_mod_cast not_lt.mp hnot.1)
      rw [heq, if_neg hnot.2, add_zero, max_eq_right hfloor, Int.add_one_le_iff, ← hsplit, hwhole,
        add_zero, Int.cast_lt, Int.floor_intCast]
    · rw [if_neg hrounds] at hle
      rw [hle]
      refine ⟨fun h ↦ lt_of_le_of_ne h fun hwk ↦ hrounds ?_, le_of_lt⟩
      refine decide_eq_true (.inr (.inl ?_))
      rw [hwk, Int.fract_intCast]

/-! ## The bucket that refuses a call -/

/-- The share of a provider's token limit. -/
def tokenShare (provider : LimitedProvider) (n : ℤ) : ℚ :=
  perReplica provider.rateLimits.tokensPerMinute (replicas n)

/-- The share of a limit on requests or calls. -/
def requestShare (limit n : ℤ) : ℚ := perReplica limit (replicas n)

/-- The level of the token bucket that `Allow` looks at. -/
def tokenLevel (r : RateLimiter) (provider : LimitedProvider) (ns model : String) (n : ℤ)
    (now : Time) : ℚ :=
  level (tokenShare provider n) (tokenShare provider n) (r.lookup (tokenKey ns model)) now

/-- The level of a bucket of requests or calls. -/
def requestLevel (r : RateLimiter) (key : String) (limit n : ℤ) (now : Time) : ℚ :=
  level (requestShare limit n) (requestBurst (requestShare limit n)) (r.lookup key) now

/-- The token bucket refuses the request. -/
def lacksTokens (r : RateLimiter) (provider : LimitedProvider) (ns model : String) (n : ℤ)
    (now : Time) : Bool :=
  0 < provider.rateLimits.tokensPerMinute ∧ r.tokenLevel provider ns model n now ≤ 0

/-- The key of the bucket that refuses a call, if it is refused. -/
def refuser (r : RateLimiter) : Call → String
  | .allow provider ns model n now _ =>
    if r.lacksTokens provider ns model n now then tokenKey ns model else requestKey ns model
  | .debitTokens _ ns model .. => tokenKey ns model
  | .allowTool tp ns .. => toolKey ns tp.name
  | .allowHeartbeat ns agent _ => heartbeatKey ns agent

/-- The bucket that refuses the call in `r` admits it in `r'`, so many seconds later. -/
def admitsLater (r r' : RateLimiter) (seconds : ℤ) : Call → Bool
  | .allow provider ns model n tokensAt requestsAt =>
    if r.lacksTokens provider ns model n tokensAt then
      (r'.checkTokens provider ns model n (tokensAt + seconds * second)).2 = none
    else (r'.checkRequests provider ns model n (requestsAt + seconds * second)).2.1
  | .allowTool tp ns n now => (r'.allowTool tp ns n (now + seconds * second)).2.1
  | .debitTokens .. | .allowHeartbeat .. => true

/-- The waits in whole seconds after which the bucket that refused the call admits it, whatever
happens to the other buckets. -/
def helpfulWaits (r : RateLimiter) (c : Call) : Set ℤ :=
  {seconds | 1 ≤ seconds ∧ ∀ r' : RateLimiter,
    r'.lookup (r.refuser c) = (r.step c).1.lookup (r.refuser c) → r.admitsLater r' seconds c}

/-- The exact wait is one that the limiter rounds to a time at which the bucket admits. -/
def roundsWell (r : RateLimiter) : Call → Bool
  | .allow provider ns model n tokensAt requestsAt =>
    if r.lacksTokens provider ns model n tokensAt then
      roundsAbove (waitSeconds (-r.tokenLevel provider ns model n tokensAt) (tokenShare provider n))
    else
      rounds (waitSeconds (1 - r.requestLevel (requestKey ns model)
          provider.rateLimits.requestsPerMinute n requestsAt)
        (requestShare provider.rateLimits.requestsPerMinute n))
  | .allowTool tp ns n now =>
    rounds (waitSeconds (1 - r.requestLevel (toolKey ns tp.name) tp.requestsPerMinute n now)
      (requestShare tp.requestsPerMinute n))
  | .debitTokens .. | .allowHeartbeat .. => true

/-! ## The clock -/

/-- The clock readings of a call. -/
def Call.readings : Call → List Time
  | .allow _ _ _ _ tokensAt requestsAt => [tokensAt, requestsAt]
  | .debitTokens _ _ _ _ _ now | .allowTool _ _ _ now | .allowHeartbeat _ _ now => [now]

/-- The clock does not run backwards. -/
def InOrder (cs : List Call) : Prop := (cs.flatMap Call.readings).Pairwise (· ≤ ·)

instance (cs : List Call) : Decidable (InOrder cs) :=
  inferInstanceAs (Decidable (List.Pairwise _ _))

/-- No bucket was refilled later than this. -/
def Before (r : RateLimiter) (t : Time) : Prop := ∀ k, ∀ b ∈ r.lookup k, b.lastRefill ≤ t

theorem Before.mono {r : RateLimiter} {t u : Time} (h : r.Before t) (htu : t ≤ u) : r.Before u :=
  fun k b hb ↦ (h k b hb).trans htu

theorem Before.insert {r : RateLimiter} {t : Time} (h : r.Before t) {key : String} {b : TokenBucket}
    (hb : b.lastRefill ≤ t) : Before (r.insert key b) t := by
  intro k x hx
  by_cases hk : k = key
  · rw [hk, AList.lookup_insert] at hx
    cases hx
    exact hb
  · rw [AList.lookup_insert_ne hk] at hx
    exact h k x hx

theorem Before.take {r : RateLimiter} {t : Time} (h : r.Before t) (key : String)
    (perMinute burst : ℚ) : (r.take key perMinute burst t).1.Before t := by
  have hlast : (refilled perMinute burst t (r.lookup key)).lastRefill = t :=
    lastRefill_refilled (h key)
  rw [RateLimiter.take]
  split_ifs
  · exact h.insert hlast.le
  · exact h.insert hlast.le

theorem Before.checkTokens {r : RateLimiter} {t : Time} (h : r.Before t)
    (provider : LimitedProvider)
    (ns model : String) (n : ℤ) : (r.checkTokens provider ns model n t).1.Before t := by
  rw [RateLimiter.checkTokens]
  split_ifs
  · exact h.insert (lastRefill_refilled (h _)).le
  · exact h

theorem Before.checkRequests {r : RateLimiter} {t : Time} (h : r.Before t)
    (provider : LimitedProvider)
    (ns model : String) (n : ℤ) : (r.checkRequests provider ns model n t).1.Before t := by
  rw [RateLimiter.checkRequests]
  split_ifs
  · exact h.take _ _ _
  · exact h

/-- A call refills at the instants it reads. -/
theorem Before.step {r : RateLimiter} {c : Call} (h : ∀ t ∈ c.readings, r.Before t)
    (hsorted : c.readings.Pairwise (· ≤ ·)) {u : Time} (hu : ∀ t ∈ c.readings, t ≤ u) :
    (r.step c).1.Before u := by
  cases c with
  | allow provider ns model n tokensAt requestsAt =>
    have hchecked := (h tokensAt List.mem_cons_self).checkTokens provider ns model n
    have hle : tokensAt ≤ requestsAt := (List.pairwise_cons.mp hsorted).1 _ List.mem_cons_self
    have hlast : requestsAt ≤ u := hu _ (List.mem_cons_of_mem _ List.mem_cons_self)
    show (r.allow provider ns model n tokensAt requestsAt).1.Before u
    cases hcheck : (r.checkTokens provider ns model n tokensAt).2 with
    | some retryAfter =>
      rw [allow_of_refused hcheck]
      exact hchecked.mono (hle.trans hlast)
    | none =>
      rw [allow_of_passed hcheck]
      exact ((hchecked.mono hle).checkRequests provider ns model n).mono hlast
  | debitTokens provider ns model tokens n now =>
    have hnow : r.Before now := h now List.mem_cons_self
    refine Before.mono ?_ (hu now List.mem_cons_self)
    show (r.debitTokens provider ns model tokens n now).Before now
    rw [RateLimiter.debitTokens]
    split_ifs
    · exact hnow
    · exact hnow.insert (lastRefill_refilled (hnow _)).le
  | allowTool tp ns n now =>
    have hnow : r.Before now := h now List.mem_cons_self
    refine Before.mono ?_ (hu now List.mem_cons_self)
    show (r.allowTool tp ns n now).1.Before now
    rw [RateLimiter.allowTool]
    split_ifs
    · exact hnow
    · exact hnow.take _ _ _
  | allowHeartbeat ns agent now =>
    exact ((h now List.mem_cons_self).take _ _ _).mono (hu now List.mem_cons_self)

theorem after_append_singleton (r : RateLimiter) (cs : List Call) (c : Call) :
    r.after (cs ++ [c]) = ((r.after cs).step c).1 := by
  rw [after, after, List.foldl_append, List.foldl_cons, List.foldl_nil]

/-- In a run whose clock is in order, no bucket was refilled later than the last reading. -/
theorem before_after {cs : List Call} (h : InOrder cs) {u : Time}
    (hu : ∀ t ∈ cs.flatMap Call.readings, t ≤ u) : (after ∅ cs).Before u := by
  induction cs using List.reverseRecOn generalizing u with
  | nil =>
    intro k b hb
    exact absurd hb (by simp [after])
  | append_singleton cs c ih =>
    rw [InOrder, List.flatMap_append, List.pairwise_append] at h
    rw [List.flatMap_append] at hu
    obtain ⟨hcs, hc, hcross⟩ := h
    rw [List.flatMap_singleton] at hc hcross hu
    rw [after_append_singleton]
    refine Before.step (fun t ht ↦ ?_) hc fun t ht ↦ hu t (List.mem_append_right _ ht)
    exact ih hcs fun s hs ↦ hcross s hs t ht

/-- The next call of such a run comes after every refill. -/
theorem before_of_inOrder {cs : List Call} {c : Call} (h : InOrder (cs ++ [c])) :
    ∀ t ∈ c.readings, (after ∅ cs).Before t := by
  rw [InOrder, List.flatMap_append, List.pairwise_append, List.flatMap_singleton] at h
  exact fun t ht ↦ before_after h.1 fun s hs ↦ h.2.2 s hs t ht

/-! ## A bucket that is left alone -/

/-- The time until a bucket has gained what it lacks. -/
theorem waitSeconds_le_iff {x perMinute : ℚ} (hrate : 0 < perMinute) (goal : ℚ) (k : ℤ) :
    waitSeconds (goal - x) perMinute ≤ k ↔ goal ≤ x + minutes (k * second) * perMinute := by
  have hminutes : minutes (k * second) = k / 60 := by
    rw [minutes, second]
    push_cast
    ring
  rw [waitSeconds, hminutes, div_mul_eq_mul_div, div_le_iff₀ hrate]
  constructor <;> intro h <;> linarith

theorem waitSeconds_lt_iff {x perMinute : ℚ} (hrate : 0 < perMinute) (goal : ℚ) (k : ℤ) :
    waitSeconds (goal - x) perMinute < k ↔ goal < x + minutes (k * second) * perMinute := by
  have hminutes : minutes (k * second) = k / 60 := by
    rw [minutes, second]
    push_cast
    ring
  rw [waitSeconds, hminutes, div_mul_eq_mul_div, div_lt_iff₀ hrate]
  constructor <;> intro h <;> linarith

section Bucket

variable {perMinute burst : ℚ} {r r' : RateLimiter} {key : String} {t : Time} {k : ℤ}

/-- The level after a wait, of a bucket that is left alone after a refill. -/
theorem level_wait (hrate : 0 ≤ perMinute) (hburst : 0 ≤ burst) (ht : r.Before t)
    (hsame : r'.lookup key = some (refilled perMinute burst t (r.lookup key))) (hk : 1 ≤ k) :
    level perMinute burst (r'.lookup key) (t + k * second)
      = min burst (level perMinute burst (r.lookup key) t + minutes (k * second) * perMinute) := by
  have hlast : (refilled perMinute burst t (r.lookup key)).lastRefill = t :=
    lastRefill_refilled (ht key)
  have hpos : 0 < k * second := mul_pos (by omega) (by norm_num [second])
  have hdebt : -burst ≤ (refilled perMinute burst t (r.lookup key)).tokens :=
    neg_burst_le_level hrate hburst _ t
  rw [hsame]
  nth_rewrite 2 [← hlast]
  exact level_add hdebt hpos

theorem take_of_refused (h : ¬ 1 ≤ level perMinute burst (r.lookup key) t) :
    r.take key perMinute burst t = (r.insert key (refilled perMinute burst t (r.lookup key)), false,
      retryAfterSeconds (1 - level perMinute burst (r.lookup key) t) perMinute) := by
  rw [level] at h
  rw [take, if_neg h]
  rfl

theorem take_admits_iff : (r.take key perMinute burst t).2.1 = true
    ↔ 1 ≤ level perMinute burst (r.lookup key) t := by
  by_cases h : 1 ≤ level perMinute burst (r.lookup key) t
  · rw [level] at h
    rw [take, if_pos h]
    exact iff_of_true rfl h
  · rw [take_of_refused h]
    exact iff_of_false Bool.false_ne_true h

theorem of_take_refused {s : ℤ} (h : (r.take key perMinute burst t).2 = (false, s)) :
    ¬ 1 ≤ level perMinute burst (r.lookup key) t
      ∧ s = retryAfterSeconds (1 - level perMinute burst (r.lookup key) t) perMinute := by
  have hlevel : ¬ 1 ≤ level perMinute burst (r.lookup key) t := by
    rw [← take_admits_iff, h]
    exact Bool.false_ne_true
  rw [take_of_refused hlevel] at h
  exact ⟨hlevel, (congrArg Prod.snd h).symm⟩

theorem one_le_retryAfterSeconds (deficit perMinute : ℚ) :
    1 ≤ retryAfterSeconds deficit perMinute := by
  rw [retryAfterSeconds]
  split_ifs with h
  · exact le_rfl
  · exact not_lt.mp h

theorem one_le_retryAfter (deficit perMinute : ℚ) (p : Bool) :
    1 ≤ if p then retryAfterSeconds deficit perMinute
      else retryAfterSeconds deficit perMinute + 1 := by
  have h := one_le_retryAfterSeconds deficit perMinute
  split_ifs
  · exact h
  · omega

private theorem isLeast_of_iff {P : ℤ → Prop} {s : ℤ} (hs : 1 ≤ s)
    (h : ∀ k, 1 ≤ k → (P k ↔ s ≤ k)) :
    IsLeast {k | 1 ≤ k ∧ P k} s :=
  ⟨⟨hs, (h s hs).mpr le_rfl⟩, fun k hk ↦ (h k hk.1).mp hk.2⟩

/-- A refusal by a bucket of requests or calls. -/
theorem take_isLeast (hrate : 0 < perMinute) (hburst : 1 ≤ burst) (ht : r.Before t)
    (hrefused : ¬ 1 ≤ level perMinute burst (r.lookup key) t) :
    IsLeast {k : ℤ | 1 ≤ k ∧ ∀ r' : RateLimiter,
        r'.lookup key = (r.take key perMinute burst t).1.lookup key →
          (r'.take key perMinute burst (t + k * second)).2.1 = true}
      (if rounds (waitSeconds (1 - level perMinute burst (r.lookup key) t) perMinute) then
        retryAfterSeconds (1 - level perMinute burst (r.lookup key) t) perMinute
      else retryAfterSeconds (1 - level perMinute burst (r.lookup key) t) perMinute + 1) := by
  refine isLeast_of_iff (one_le_retryAfter _ _ _) fun k hk ↦ ?_
  have hlater : ∀ r' : RateLimiter, r'.lookup key = (r.take key perMinute burst t).1.lookup key →
      ((r'.take key perMinute burst (t + k * second)).2.1 = true
        ↔ waitSeconds (1 - level perMinute burst (r.lookup key) t) perMinute ≤ k) := by
    intro r' hr'
    rw [take_of_refused hrefused, AList.lookup_insert] at hr'
    rw [take_admits_iff, level_wait hrate.le (by linarith) ht hr' hk, waitSeconds_le_iff hrate,
      le_min_iff, and_iff_right hburst]
  rw [retryAfterSeconds_le_iff (by linarith) hrate hk]
  exact ⟨fun h ↦ (hlater _ rfl).mp (h _ rfl), fun h r' hr' ↦ (hlater r' hr').mpr h⟩

end Bucket

section Tokens

variable {provider : LimitedProvider} {ns model : String} {n : ℤ} {r r' : RateLimiter} {t : Time}

theorem perReplica_pos {limit : ℤ} (hlimit : 0 < limit) (n : ℤ) :
    0 < perReplica limit (replicas n) := by
  have hreplicas : 0 < replicas n := by
    rw [replicas]
    split_ifs
    · omega
    · exact one_pos
  rw [perReplica]
  have hl : (0 : ℚ) < limit := by exact_mod_cast hlimit
  have hn : (0 : ℚ) < replicas n := by exact_mod_cast hreplicas
  exact div_pos hl hn

theorem checkTokens_of_pos (hlimit : 0 < provider.rateLimits.tokensPerMinute) :
    r.checkTokens provider ns model n t
      = (r.insert (tokenKey ns model) (refilled (tokenShare provider n) (tokenShare provider n) t
          (r.lookup (tokenKey ns model))),
        if r.tokenLevel provider ns model n t ≤ 0 then
          some (retryAfterSeconds (-r.tokenLevel provider ns model n t) (tokenShare provider n))
        else none) := by
  rw [checkTokens, if_pos hlimit]
  rfl

theorem checkTokens_eq_none_iff :
    (r.checkTokens provider ns model n t).2 = none
    ↔ r.lacksTokens provider ns model n t = false := by
  rw [lacksTokens]
  by_cases hlimit : 0 < provider.rateLimits.tokensPerMinute
  · rw [checkTokens_of_pos hlimit]
    by_cases hlevel : r.tokenLevel provider ns model n t ≤ 0
    · simp [hlimit, hlevel]
    · simp [hlevel]
  · simp [checkTokens, hlimit]

theorem checkTokens_of_lacksTokens (h : r.lacksTokens provider ns model n t) :
    r.checkTokens provider ns model n t
      = (r.insert (tokenKey ns model) (refilled (tokenShare provider n) (tokenShare provider n) t
          (r.lookup (tokenKey ns model))),
        some (retryAfterSeconds (-r.tokenLevel provider ns model n t)
            (tokenShare provider n))) := by
  rw [lacksTokens, decide_eq_true_iff] at h
  rw [checkTokens_of_pos h.1, if_pos h.2]

/-- A refusal by a token bucket. -/
theorem checkTokens_isLeast (ht : r.Before t) (hlacks : r.lacksTokens provider ns model n t) :
    IsLeast {k : ℤ | 1 ≤ k ∧ ∀ r' : RateLimiter,
        r'.lookup (tokenKey ns model)
            = (r.checkTokens provider ns model n t).1.lookup (tokenKey ns model) →
          (r'.checkTokens provider ns model n (t + k * second)).2 = none}
      (if roundsAbove
          (waitSeconds (-r.tokenLevel provider ns model n t) (tokenShare provider n)) then
        retryAfterSeconds (-r.tokenLevel provider ns model n t) (tokenShare provider n)
      else
        retryAfterSeconds (-r.tokenLevel provider ns model n t) (tokenShare provider n) + 1) := by
  have hcond := hlacks
  rw [lacksTokens, decide_eq_true_iff] at hcond
  obtain ⟨hlimit, hlevel⟩ := hcond
  have hshare : 0 < tokenShare provider n := perReplica_pos hlimit n
  refine isLeast_of_iff (one_le_retryAfter _ _ _) fun k hk ↦ ?_
  have hlater : ∀ r' : RateLimiter, r'.lookup (tokenKey ns model)
        = (r.checkTokens provider ns model n t).1.lookup (tokenKey ns model) →
      ((r'.checkTokens provider ns model n (t + k * second)).2 = none
        ↔ waitSeconds (-r.tokenLevel provider ns model n t) (tokenShare provider n) < k) := by
    intro r' hr'
    rw [checkTokens_of_lacksTokens hlacks, AList.lookup_insert] at hr'
    have hwait := level_wait hshare.le hshare.le ht hr' hk
    rw [checkTokens_eq_none_iff, lacksTokens, decide_eq_false_iff_not, not_and_or,
      or_iff_right (not_not.mpr hlimit), not_le, tokenLevel, hwait, lt_min_iff,
      and_iff_right hshare,
      ← zero_sub, waitSeconds_lt_iff hshare]
    rfl
  rw [retryAfterSeconds_le_iff_lt (by linarith) hshare hk]
  exact ⟨fun h ↦ (hlater _ rfl).mp (h _ rfl), fun h r' hr' ↦ (hlater r' hr').mpr h⟩

end Tokens

/-! ## Refusals -/

theorem requestKey_ne_tokenKey (ns model : String) : requestKey ns model ≠ tokenKey ns model := by
  intro h
  have hlength := congrArg (fun s ↦ s.toList.length) h
  simp only [requestKey, tokenKey, String.toList_append, List.length_append] at hlength
  have hkind : "tpm:".toList.length = 4 := rfl
  omega

section Refusals

variable {cs : List Call} {c : Call} {s : ℤ}

theorem one_le_requestBurst (share : ℚ) : 1 ≤ requestBurst share := le_max_right _ _

/-- The `Retry-After` of a refusal is the least wait that helps, unless the exact wait is one that
is rounded to a second at which the bucket still refuses. -/
theorem retryAfter_isLeast (hclock : InOrder (cs ++ [c])) (hcall : c.counted.isSome)
    (hrefused : ((after ∅ cs).step c).2 = some (false, s)) :
    IsLeast ((after ∅ cs).helpfulWaits c)
      (if (after ∅ cs).roundsWell c then s else s + 1) := by
  have hbefore := before_of_inOrder hclock
  generalize after ∅ cs = r at *
  cases c with
  | allow provider ns model n tokensAt requestsAt =>
    have htokens := hbefore tokensAt List.mem_cons_self
    have hrequests := hbefore requestsAt (List.mem_cons_of_mem _ List.mem_cons_self)
    have hle : tokensAt ≤ requestsAt := by
      rw [InOrder, List.flatMap_append, List.pairwise_append, List.flatMap_singleton] at hclock
      exact (List.pairwise_cons.mp hclock.2.1).1 _ List.mem_cons_self
    have hanswer : (r.allow provider ns model n tokensAt requestsAt).2 = (false, s) :=
      Option.some.inj hrefused
    by_cases hlacks : r.lacksTokens provider ns model n tokensAt
    · have hcheck := congrArg Prod.snd (checkTokens_of_lacksTokens hlacks)
      have hrefuser : r.refuser (.allow provider ns model n tokensAt requestsAt)
          = tokenKey ns model := if_pos hlacks
      have hstep : (r.step (.allow provider ns model n tokensAt requestsAt)).1
          = (r.checkTokens provider ns model n tokensAt).1 :=
        congrArg Prod.fst (allow_of_refused hcheck _)
      rw [allow_of_refused hcheck] at hanswer
      obtain rfl := congrArg Prod.snd hanswer
      rw [helpfulWaits, hrefuser, hstep, roundsWell, if_pos hlacks]
      simpa only [admitsLater, if_pos hlacks, decide_eq_true_eq]
        using checkTokens_isLeast htokens hlacks
    · have hpassed := checkTokens_eq_none_iff.mpr (Bool.eq_false_iff.mpr hlacks)
      have hrefuser : r.refuser (.allow provider ns model n tokensAt requestsAt)
          = requestKey ns model := if_neg hlacks
      have hstep : (r.step (.allow provider ns model n tokensAt requestsAt)).1
          = ((r.checkTokens provider ns model n tokensAt).1.checkRequests provider ns model n
            requestsAt).1 :=
        congrArg Prod.fst (allow_of_passed hpassed _)
      rw [allow_of_passed hpassed] at hanswer
      -- The token check does not touch the request bucket.
      have hlookup := lookup_checkTokens_of_ne r provider
        (requestKey_ne_tokenKey ns model) n tokensAt
      have hchecked := (htokens.checkTokens provider ns model n).mono hle
      rw [helpfulWaits, hrefuser, hstep, roundsWell, if_neg hlacks, requestLevel, ← hlookup]
      generalize (r.checkTokens provider ns model n tokensAt).1 = r₁ at hanswer hlookup hchecked ⊢
      rw [checkRequests] at hanswer
      by_cases hlimit : 0 < provider.rateLimits.requestsPerMinute
      · rw [if_pos hlimit] at hanswer
        obtain ⟨hlevel, rfl⟩ := of_take_refused hanswer
        simp only [admitsLater, if_neg hlacks, checkRequests, if_pos hlimit]
        exact take_isLeast (perReplica_pos hlimit n) (one_le_requestBurst _) hchecked hlevel
      · rw [if_neg hlimit] at hanswer
        cases hanswer
  | debitTokens => cases hcall
  | allowTool tp ns n now =>
    have hnow := hbefore now List.mem_cons_self
    have hanswer : (r.allowTool tp ns n now).2 = (false, s) := Option.some.inj hrefused
    rw [allowTool] at hanswer
    by_cases hlimit : tp.requestsPerMinute ≤ 0
    · rw [if_pos hlimit] at hanswer
      cases hanswer
    · rw [if_neg hlimit] at hanswer
      obtain ⟨hlevel, rfl⟩ := of_take_refused hanswer
      simp only [helpfulWaits, refuser, step, admitsLater, roundsWell, allowTool, if_neg hlimit]
      exact take_isLeast (perReplica_pos (not_le.mp hlimit) n) (one_le_requestBurst _) hnow hlevel
  | allowHeartbeat => cases hcall

end Refusals

/-- 60 tokens a minute. -/
def tokenProvider : LimitedProvider := ⟨"openai", { tokensPerMinute := 60 }⟩

/-- A finished call of so many tokens, at time zero. -/
def settled (tokens : ℤ) : Call := .debitTokens tokenProvider "team-a" "gpt" tokens 1 0

/-- A request so many milliseconds after it. -/
def requestAfter (millis : ℤ) : Call :=
  .allow tokenProvider "team-a" "gpt" 1 (millis * 1000000) (millis * 1000000)

/-- 1 ms after the debt reached its bound, 59.999 seconds remain, and a minute is the least wait. -/
theorem retryAfter_isLeast_after_milli :
    IsLeast ((after ∅ [settled 1000]).helpfulWaits (requestAfter 1)) 60 :=
  by
  have hrefused : ((after ∅ [settled 1000]).step (requestAfter 1)).2 = some (false, 60) := by
    decide +kernel
  have hrounds : (after ∅ [settled 1000]).roundsWell (requestAfter 1) = true := by decide +kernel
  have h := retryAfter_isLeast (by decide +kernel) rfl hrefused
  rwa [if_pos hrounds] at h

/-- At once, 60 seconds remain. The request is told to wait for them, and finds an empty bucket. -/
theorem retryAfter_full_debt :
    InOrder [settled 1000, requestAfter 0]
      ∧ ((after ∅ [settled 1000]).step (requestAfter 0)).2 = some (false, 60)
      ∧ 60 ∉ (after ∅ [settled 1000]).helpfulWaits (requestAfter 0) := by
  refine ⟨by decide +kernel, by decide +kernel, fun h ↦ ?_⟩
  exact absurd (h.2 ((after ∅ [settled 1000]).step (requestAfter 0)).1 rfl) (by decide +kernel)

/-! ## Debts -/

/-- The token bucket a call refills or debits, with the share it is given. -/
def Call.tokenBucket : Call → Option (String × ℚ)
  | .allow provider ns model n _ _ =>
    if 0 < provider.rateLimits.tokensPerMinute then some (tokenKey ns model, tokenShare provider n)
    else none
  | .debitTokens provider ns model tokens n _ =>
    if 0 < provider.rateLimits.tokensPerMinute ∧ 0 < tokens then
      some (tokenKey ns model, tokenShare provider n)
    else none
  | .allowTool .. | .allowHeartbeat .. => none

/-- A wait of at most a minute is announced as at most 60 seconds. -/
theorem retryAfterSeconds_le_sixty {deficit perMinute : ℚ} (hdeficit : 0 ≤ deficit)
    (hrate : 0 < perMinute) (hle : deficit ≤ perMinute) :
    retryAfterSeconds deficit perMinute ≤ 60 := by
  have hwait : waitSeconds deficit perMinute ≤ 60 := by
    rw [waitSeconds]
    have : deficit / perMinute ≤ 1 := (div_le_one hrate).mpr hle
    linarith
  rw [retryAfterSeconds_eq hdeficit hrate]
  set w := waitSeconds deficit perMinute
  have hsplit := Int.floor_add_fract w
  have hhalf : (0 : ℚ) < halfNano := by norm_num [halfNano, second]
  refine max_le (by norm_num) ?_
  split_ifs with hpart
  · have hlt : ((⌊w⌋ : ℤ) : ℚ) < (60 : ℤ) := by
      push_cast
      linarith
    have := Int.cast_lt.mp hlt
    omega
  · rw [add_zero]
    exact Int.cast_le.mp ((Int.floor_le w).trans (by exact_mod_cast hwait))

section Debts

variable {r : RateLimiter}

/-- What a debit leaves of a bucket that was brought up to date. -/
def debited (share tokens : ℚ) (b : TokenBucket) : TokenBucket :=
  { b with tokens := if b.tokens - tokens < -share then -share else b.tokens - tokens }

theorem debited_bounds {share tokens : ℚ} {b : TokenBucket} (hshare : 0 ≤ share)
    (htokens : 0 ≤ tokens)
    (hb : b.tokens ≤ share) :
    -share ≤ (debited share tokens b).tokens ∧ (debited share tokens b).tokens ≤ share := by
  rw [debited]
  split_ifs with h
  · exact ⟨le_rfl, neg_le_self hshare⟩
  · exact ⟨not_lt.mp h, (sub_le_self _ htokens).trans hb⟩

/-- What a check or a debit leaves in its token bucket. -/
theorem tokenBucket_step (c : Call) {x : String × ℚ} (hx : x ∈ c.tokenBucket) :
    ∃ b, (r.step c).1.lookup x.1 = some b ∧ -x.2 ≤ b.tokens ∧ b.tokens ≤ x.2 := by
  cases c with
  | allow provider ns model n tokensAt requestsAt =>
    rw [Call.tokenBucket, Option.mem_def, Option.ite_none_right_eq_some] at hx
    obtain ⟨hlimit, hx⟩ := hx
    obtain rfl := Option.some.inj hx
    have hshare : 0 < tokenShare provider n := perReplica_pos hlimit n
    have hchecked : (r.checkTokens provider ns model n tokensAt).1.lookup (tokenKey ns model)
        = some (refilled (tokenShare provider n) (tokenShare provider n) tokensAt
          (r.lookup (tokenKey ns model))) := by
      rw [checkTokens_of_pos hlimit]
      exact AList.lookup_insert _
    refine ⟨_, ?_, neg_burst_le_level hshare.le hshare.le (r.lookup (tokenKey ns model)) tokensAt,
      level_le_burst _ tokensAt⟩
    show (r.allow provider ns model n tokensAt requestsAt).1.lookup (tokenKey ns model) = _
    cases hcheck : (r.checkTokens provider ns model n tokensAt).2 with
    | some retryAfter =>
      rw [allow_of_refused hcheck]
      exact hchecked
    | none =>
      rw [allow_of_passed hcheck,
        lookup_checkRequests_of_ne _ provider (requestKey_ne_tokenKey ns model).symm]
      exact hchecked
  | debitTokens provider ns model tokens n now =>
    rw [Call.tokenBucket, Option.mem_def, Option.ite_none_right_eq_some] at hx
    obtain ⟨⟨hlimit, htokens⟩, hx⟩ := hx
    obtain rfl := Option.some.inj hx
    have hshare : 0 < tokenShare provider n := perReplica_pos hlimit n
    have hdebit : (r.debitTokens provider ns model tokens n now).lookup (tokenKey ns model)
        = some (debited (tokenShare provider n) tokens
          (refilled (tokenShare provider n) (tokenShare provider n) now
            (r.lookup (tokenKey ns model)))) := by
      rw [debitTokens, if_neg (not_or.mpr ⟨not_le.mpr hlimit, not_le.mpr htokens⟩)]
      exact AList.lookup_insert _
    exact ⟨_, hdebit, debited_bounds hshare.le (by exact_mod_cast htokens.le)
      (level_le_burst (r.lookup (tokenKey ns model)) now)⟩
  | allowTool => cases hx
  | allowHeartbeat => cases hx

theorem lookup_take_nonneg {key : String} {perMinute burst : ℚ} (hrate : 0 ≤ perMinute)
    (hburst : 0 ≤ burst) (h : ∀ b ∈ r.lookup key, 0 ≤ b.tokens) (now : Time) :
    ∀ b ∈ (r.take key perMinute burst now).1.lookup key, 0 ≤ b.tokens := by
  intro b hb
  rw [take] at hb
  split_ifs at hb with hone
  · rw [AList.lookup_insert] at hb
    cases hb
    exact sub_nonneg.mpr hone
  · rw [AList.lookup_insert] at hb
    cases hb
    exact level_nonneg hrate hburst h now

/-- A call leaves no debt in a bucket of requests or calls. -/
theorem nonneg_step {k : String} (hk : IsCountedKey k) {c : Call} (hns : isDNS1123Label c.ns)
    (h : ∀ b ∈ r.lookup k, 0 ≤ b.tokens) : ∀ b ∈ (r.step c).1.lookup k, 0 ≤ b.tokens := by
  cases hon : c.on k with
  | false =>
    rw [lookup_step_of_not_mem r (not_mem_keys_of_not_on hk hns hon)]
    exact h
  | true =>
    cases c with
    | allow provider ns model n tokensAt requestsAt =>
      obtain rfl : requestKey ns model = k := of_decide_eq_true hon
      have hchecked : ∀ b ∈ (r.checkTokens provider ns model n tokensAt).1.lookup
        (requestKey ns model),
          0 ≤ b.tokens := by
        rw [lookup_checkTokens_of_ne r provider (requestKey_ne_tokenKey ns model)]
        exact h
      show ∀ b ∈ (r.allow provider ns model n tokensAt requestsAt).1.lookup _, 0 ≤ b.tokens
      cases hcheck : (r.checkTokens provider ns model n tokensAt).2 with
      | some retryAfter =>
        rw [allow_of_refused hcheck]
        exact hchecked
      | none =>
        rw [allow_of_passed hcheck, checkRequests]
        split_ifs with hlimit
        · exact lookup_take_nonneg (perReplica_pos hlimit n).le (requestBurst_nonneg _) hchecked _
        · exact hchecked
    | allowTool tp ns n now =>
      obtain rfl : toolKey ns tp.name = k := of_decide_eq_true hon
      show ∀ b ∈ (r.allowTool tp ns n now).1.lookup _, 0 ≤ b.tokens
      rw [allowTool]
      split_ifs with hlimit
      · exact h
      · exact lookup_take_nonneg (perReplica_pos (not_le.mp hlimit) n).le
          (requestBurst_nonneg _) h _
    | debitTokens => cases hon
    | allowHeartbeat => cases hon

theorem nonneg_after {k : String} (hk : IsCountedKey k) {cs : List Call}
    (hlabels : ∀ c ∈ cs, isDNS1123Label c.ns) (h : ∀ b ∈ r.lookup k, 0 ≤ b.tokens) :
    ∀ b ∈ (r.after cs).lookup k, 0 ≤ b.tokens := by
  induction cs generalizing r with
  | nil => exact h
  | cons c cs ih =>
    exact ih (fun c' hc' ↦ hlabels c' (List.mem_cons_of_mem _ hc'))
      (nonneg_step hk (hlabels c List.mem_cons_self) h)

end Debts

/-- Whatever the limits and the replica counts of a run were, a call leaves a token bucket within
the share of that call on both sides of zero, a refusal for tokens asks for at most a minute, and
buckets of requests or calls have no debt. -/
theorem debt_bounded {cs : List Call} (hlabels : ∀ c ∈ cs, isDNS1123Label c.ns) :
    (∀ c : Call, ∀ x ∈ c.tokenBucket, ∃ b, ((after ∅ cs).step c).1.lookup x.1 = some b
      ∧ -x.2 ≤ b.tokens ∧ b.tokens ≤ x.2)
    ∧ (∀ provider ns model n tokensAt requestsAt,
      (after ∅ cs).lacksTokens provider ns model n tokensAt →
        ∃ s, ((after ∅ cs).allow provider ns model n tokensAt requestsAt).2 = (false, s) ∧ s ≤ 60)
    ∧ ∀ k, IsCountedKey k → ∀ b ∈ (after ∅ cs).lookup k, 0 ≤ b.tokens := by
  refine ⟨fun c x hx ↦ tokenBucket_step c hx, ?_, ?_⟩
  · intro provider ns model n tokensAt requestsAt hlacks
    have hcheck := congrArg Prod.snd (checkTokens_of_lacksTokens hlacks)
    refine ⟨_, congrArg Prod.snd (allow_of_refused hcheck requestsAt), ?_⟩
    rw [lacksTokens, decide_eq_true_iff] at hlacks
    have hshare : 0 < tokenShare provider n := perReplica_pos hlacks.1 n
    have hdebt : -tokenShare provider n ≤ (after ∅ cs).tokenLevel provider ns model n tokensAt :=
      neg_burst_le_level hshare.le hshare.le _ tokensAt
    exact retryAfterSeconds_le_sixty (by linarith) hshare (by linarith)
  · intro k hk
    refine nonneg_after hk hlabels fun b hb ↦ ?_
    exact absurd hb (by simp)

/-- The share shrinks from 60 to 20 tokens a minute under a debt of 60. -/
theorem debt_bounded_shrinking :
    ∃ b, ((after ∅ [settled 1000]).step (.allow tokenProvider "team-a" "gpt" 3 0 0)).1.lookup
        (tokenKey "team-a" "gpt") = some b ∧ -20 ≤ b.tokens ∧ b.tokens ≤ 20 := by
  have hlabels : ∀ c ∈ [settled 1000], isDNS1123Label c.ns := by decide +kernel
  exact (debt_bounded hlabels).1 (.allow tokenProvider "team-a" "gpt" 3 0 0)
    (tokenKey "team-a" "gpt", 20) (by decide +kernel)

end Kaalm.Gateway.RateLimiter
