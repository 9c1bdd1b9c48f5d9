import Kaalm.Foundation.Calendar
import Mathlib.Data.Rat.Cast.Order
import Mathlib.Tactic.Linarith
import Mathlib.Tactic.Positivity

/-!
# Token buckets

A bucket holds at most `burst` tokens and gains `perMinute` tokens a minute. It stores its level and
the time of the last refill, and a refill brings both up to date. A debt is raised to one burst
before the refill. A bucket that does not exist yet is full.

`level` is the level a bucket would have after a refill at some instant. It never exceeds the burst,
and between two instants it grows by no more than the refill of the time between them; a request
that takes a token lowers it by one. `run_le` adds this up: what a bucket gives out in a window is
bounded by its level at the start of the window and the refill of the window.
-/

open Calendar

/-- A bucket's level and the time it was last refilled. -/
structure TokenBucket where
  tokens : ℚ
  lastRefill : Time
  deriving DecidableEq, Repr

namespace TokenBucket

/-- A length of time in minutes. -/
def minutes (d : Time) : ℚ := d / (60 * second)

/-- Bring a bucket up to date. -/
def refill (perMinute burst : ℚ) (now : Time) (b : TokenBucket) : TokenBucket :=
  let b := if b.tokens < -burst then { b with tokens := -burst } else b
  let elapsed := minutes (now - b.lastRefill)
  let b := if 0 < elapsed then ⟨b.tokens + elapsed * perMinute, now⟩ else b
  if burst < b.tokens then { b with tokens := burst } else b

/-- The bucket of a key brought up to date, created full when it is missing. -/
def refilled (perMinute burst : ℚ) (now : Time) (b : Option TokenBucket) : TokenBucket :=
  refill perMinute burst now (b.getD ⟨burst, now⟩)

/-- One token less. -/
def taken (b : TokenBucket) : TokenBucket := { b with tokens := b.tokens - 1 }

/-- A request at each of the instants: how many got a token, and the bucket they leave. -/
def run (perMinute burst : ℚ) : Option TokenBucket → List Time → ℕ × Option TokenBucket
  | b, [] => (0, b)
  | b, t :: ts =>
    let b' := refilled perMinute burst t b
    if 1 ≤ b'.tokens then
      let r := run perMinute burst (some b'.taken) ts
      (r.1 + 1, r.2)
    else run perMinute burst (some b') ts

/-- The level of a bucket at an instant. -/
def level (perMinute burst : ℚ) (b : Option TokenBucket) (t : Time) : ℚ :=
  (refilled perMinute burst t b).tokens

/-! ## Lengths of time -/

theorem minutes_nonneg {d : Time} (h : 0 ≤ d) : 0 ≤ minutes d := by
  have : (0 : ℚ) ≤ d := by exact_mod_cast h
  rw [minutes, second]
  positivity

theorem minutes_pos_iff {d : Time} : 0 < minutes d ↔ 0 < d := by
  rw [minutes, second, div_pos_iff_of_pos_right (by norm_num), Int.cast_pos]

theorem minutes_add (d e : Time) : minutes (d + e) = minutes d + minutes e := by
  rw [minutes, minutes, minutes, Int.cast_add, add_div]

theorem minutes_sub_add (s t u : Time) : minutes (u - t) + minutes (t - s) = minutes (u - s) := by
  rw [← minutes_add, sub_add_sub_cancel]

/-! ## The level -/

section Level

variable {perMinute burst : ℚ}

/-- A refill in closed form. -/
theorem refill_tokens (b : TokenBucket) (now : Time) :
    (refill perMinute burst now b).tokens
      = min burst (max b.tokens (-burst)
        + if 0 < now - b.lastRefill then minutes (now - b.lastRefill) * perMinute else 0) := by
  rw [refill]
  by_cases hdebt : b.tokens < -burst
  · simp only [if_pos hdebt, minutes_pos_iff, max_eq_right hdebt.le]
    split_ifs with helapsed hcap hcap
    · exact (min_eq_left hcap.le).symm
    · exact (min_eq_right (not_lt.mp hcap)).symm
    · rw [add_zero]
      exact (min_eq_left hcap.le).symm
    · rw [add_zero]
      exact (min_eq_right (not_lt.mp hcap)).symm
  · simp only [if_neg hdebt, minutes_pos_iff, max_eq_left (not_lt.mp hdebt)]
    split_ifs with helapsed hcap hcap
    · exact (min_eq_left hcap.le).symm
    · exact (min_eq_right (not_lt.mp hcap)).symm
    · rw [add_zero]
      exact (min_eq_left hcap.le).symm
    · rw [add_zero]
      exact (min_eq_right (not_lt.mp hcap)).symm

theorem level_le_burst (b : Option TokenBucket) (t : Time) : level perMinute burst b t ≤ burst := by
  rw [level, refilled, refill_tokens]
  exact min_le_left _ _

/-- A bucket without debt has a level of at least zero at every instant. -/
theorem level_nonneg (hrate : 0 ≤ perMinute) (hburst : 0 ≤ burst) {b : Option TokenBucket}
    (hb : ∀ x ∈ b, 0 ≤ x.tokens) (t : Time) : 0 ≤ level perMinute burst b t := by
  have hb' : 0 ≤ (b.getD ⟨burst, t⟩).tokens := by
    cases b with
    | none => exact hburst
    | some x => exact hb x rfl
  rw [level, refilled, refill_tokens]
  refine le_min hburst (add_nonneg (le_max_of_le_left hb') ?_)
  split_ifs with helapsed
  · exact mul_nonneg (minutes_nonneg helapsed.le) hrate
  · exact le_rfl

/-- The level grows by no more than the refill of the time that passes. -/
theorem level_le_add (hrate : 0 ≤ perMinute) (hburst : 0 ≤ burst) (b : Option TokenBucket)
    {s t : Time} (h : s ≤ t) :
    level perMinute burst b t ≤ level perMinute burst b s + minutes (t - s) * perMinute := by
  have hgain : 0 ≤ minutes (t - s) * perMinute :=
    mul_nonneg (minutes_nonneg (sub_nonneg.mpr h)) hrate
  cases b with
  | none =>
    -- A bucket that does not exist is full at every instant.
    have hfull : ∀ u, level perMinute burst none u = burst := by
      intro u
      rw [level, refilled, Option.getD_none, refill_tokens, sub_self, if_neg (lt_irrefl _),
        add_zero, max_eq_left (by linarith), min_self]
    rw [hfull, hfull]
    linarith
  | some b =>
    rw [level, level, refilled, refilled, Option.getD_some, Option.getD_some, refill_tokens,
      refill_tokens]
    set x := max b.tokens (-burst)
    have hsum := minutes_sub_add b.lastRefill s t
    have hgrowth : (if 0 < t - b.lastRefill then minutes (t - b.lastRefill) * perMinute else 0)
        ≤ (if 0 < s - b.lastRefill then minutes (s - b.lastRefill) * perMinute else 0)
          + minutes (t - s) * perMinute := by
      split_ifs with ht hs hs
      · rw [← hsum, add_mul, add_comm]
      · have hneg : minutes (s - b.lastRefill) ≤ 0 := by
          rw [← not_lt, minutes_pos_iff]
          exact hs
        rw [← hsum, zero_add]
        gcongr
        linarith
      · exact absurd (hs.trans_le (sub_le_sub_right h _)) ht
      · rw [zero_add]
        exact hgain
    rw [min_add]
    refine le_min ((min_le_left _ _).trans ?_) ((min_le_right _ _).trans ?_)
    · linarith
    · linarith

/-- A bucket that was just refilled is up to date. -/
theorem level_some {b : TokenBucket} {t : Time} (hlast : t ≤ b.lastRefill)
    (hdebt : -burst ≤ b.tokens)
    (hcap : b.tokens ≤ burst) : level perMinute burst (some b) t = b.tokens := by
  rw [level, refilled, Option.getD_some, refill_tokens,
    if_neg (not_lt.mpr (sub_nonpos.mpr hlast)), add_zero, max_eq_left hdebt, min_eq_right hcap]

theorem le_lastRefill_refilled (b : Option TokenBucket) (t : Time) :
    t ≤ (refilled perMinute burst t b).lastRefill := by
  rw [refilled]
  generalize b.getD ⟨burst, t⟩ = b
  rw [refill]
  by_cases hdebt : b.tokens < -burst
  · simp only [if_pos hdebt, minutes_pos_iff]
    split_ifs with helapsed hcap hcap
    · exact le_rfl
    · exact le_rfl
    · exact not_lt.mp fun h ↦ helapsed (sub_pos.mpr h)
    · exact not_lt.mp fun h ↦ helapsed (sub_pos.mpr h)
  · simp only [if_neg hdebt, minutes_pos_iff]
    split_ifs with helapsed hcap hcap
    · exact le_rfl
    · exact le_rfl
    · exact not_lt.mp fun h ↦ helapsed (sub_pos.mpr h)
    · exact not_lt.mp fun h ↦ helapsed (sub_pos.mpr h)

/-- A refill that does not come before the last one brings the bucket to the present. -/
theorem lastRefill_refilled {b : Option TokenBucket} {t : Time} (h : ∀ x ∈ b, x.lastRefill ≤ t) :
    (refilled perMinute burst t b).lastRefill = t := by
  refine le_antisymm ?_ (le_lastRefill_refilled b t)
  have hlast : (b.getD ⟨burst, t⟩).lastRefill ≤ t := by
    cases b with
    | none => exact le_rfl
    | some x => exact h x rfl
  rw [refilled]
  generalize b.getD ⟨burst, t⟩ = b at hlast
  rw [refill]
  by_cases hdebt : b.tokens < -burst
  · simp only [if_pos hdebt]
    split_ifs <;> first | exact le_rfl | exact hlast
  · simp only [if_neg hdebt]
    split_ifs <;> first | exact le_rfl | exact hlast

/-- A debt never exceeds one burst after a refill. -/
theorem neg_burst_le_level (hrate : 0 ≤ perMinute) (hburst : 0 ≤ burst) (b : Option TokenBucket)
    (t : Time) : -burst ≤ level perMinute burst b t := by
  rw [level, refilled, refill_tokens]
  refine le_min (by linarith) (le_add_of_le_of_nonneg (le_max_right _ _) ?_)
  split_ifs with helapsed
  · exact mul_nonneg (minutes_nonneg helapsed.le) hrate
  · exact le_rfl

/-- The level of a bucket that is left alone for some time. -/
theorem level_add {b : TokenBucket} (hdebt : -burst ≤ b.tokens) {d : Time} (hd : 0 < d) :
    level perMinute burst (some b) (b.lastRefill + d)
      = min burst (b.tokens + minutes d * perMinute) := by
  rw [level, refilled, Option.getD_some, refill_tokens, add_sub_cancel_left, if_pos hd,
    max_eq_left hdebt]

end Level

/-! ## Runs -/

section Runs

variable {perMinute burst : ℚ}

theorem run_append (b : Option TokenBucket) (ts us : List Time) :
    run perMinute burst b (ts ++ us)
      = ((run perMinute burst b ts).1 + (run perMinute burst (run perMinute burst b ts).2 us).1,
        (run perMinute burst (run perMinute burst b ts).2 us).2) := by
  induction ts generalizing b with
  | nil => rw [List.nil_append, run, zero_add]
  | cons t ts ih =>
    rw [List.cons_append, run, run]
    split_ifs with h
    · rw [ih]
      simp only [Prod.mk.injEq, and_true]
      omega
    · rw [ih]

/-- Requests never leave a debt. -/
theorem run_nonneg (hrate : 0 ≤ perMinute) (hburst : 0 ≤ burst) {b : Option TokenBucket}
    (hb : ∀ x ∈ b, 0 ≤ x.tokens) (ts : List Time) :
    ∀ x ∈ (run perMinute burst b ts).2, 0 ≤ x.tokens := by
  induction ts generalizing b with
  | nil => exact hb
  | cons t ts ih =>
    rw [run]
    split_ifs with h
    · refine ih ?_
      rintro x ⟨⟩
      exact sub_nonneg.mpr h
    · refine ih ?_
      rintro x ⟨⟩
      exact level_nonneg hrate hburst hb t

/-- What a bucket gives out between two instants. -/
theorem run_le (hrate : 0 ≤ perMinute) (hburst : 0 ≤ burst) {b : Option TokenBucket}
    (hb : ∀ x ∈ b, 0 ≤ x.tokens) {ts : List Time} (hsorted : ts.Pairwise (· ≤ ·)) {s e : Time}
    (hs : ∀ t ∈ ts, s ≤ t) (he : ∀ t ∈ ts, t ≤ e) (hse : s ≤ e) :
    ((run perMinute burst b ts).1 : ℚ)
      ≤ level perMinute burst b s + minutes (e - s) * perMinute := by
  induction ts generalizing b s with
  | nil =>
    rw [run, Nat.cast_zero]
    exact add_nonneg (level_nonneg hrate hburst hb s)
      (mul_nonneg (minutes_nonneg (sub_nonneg.mpr hse)) hrate)
  | cons t ts ih =>
    rw [List.pairwise_cons] at hsorted
    have hst := hs t List.mem_cons_self
    have hte := he t List.mem_cons_self
    have hgrow := level_le_add hrate hburst b hst
    have hsum : minutes (e - t) * perMinute + minutes (t - s) * perMinute
        = minutes (e - s) * perMinute := by
      rw [← add_mul, minutes_sub_add]
    have hlast : t ≤ (refilled perMinute burst t b).lastRefill := le_lastRefill_refilled b t
    have hlevel : (refilled perMinute burst t b).tokens = level perMinute burst b t := rfl
    have hcap : level perMinute burst b t ≤ burst := level_le_burst b t
    have hnonneg := level_nonneg hrate hburst hb t
    rw [run]
    split_ifs with h
    · -- The token taken pays for the request.
      have hb' : ∀ x ∈ some (refilled perMinute burst t b).taken, 0 ≤ x.tokens := by
        rintro x ⟨⟩
        exact sub_nonneg.mpr h
      have hrest := ih hb' hsorted.2 hsorted.1 (fun u hu ↦ he u (List.mem_cons_of_mem _ hu)) hte
      have htaken : level perMinute burst (some (refilled perMinute burst t b).taken) t
          = level perMinute burst b t - 1 := by
        refine level_some hlast ?_ ?_
        · show -burst ≤ level perMinute burst b t - 1
          linarith
        · show level perMinute burst b t - 1 ≤ burst
          linarith
      push_cast
      linarith
    · have hb' : ∀ x ∈ some (refilled perMinute burst t b), 0 ≤ x.tokens := by
        rintro x ⟨⟩
        exact hnonneg
      have hrest := ih hb' hsorted.2 hsorted.1 (fun u hu ↦ he u (List.mem_cons_of_mem _ hu)) hte
      rw [level_some hlast (by linarith) (by linarith)] at hrest
      linarith

/-- The bound of a window that does not depend on the bucket. -/
theorem run_le_burst_add (hrate : 0 ≤ perMinute) (hburst : 0 ≤ burst) {b : Option TokenBucket}
    (hb : ∀ x ∈ b, 0 ≤ x.tokens) {ts : List Time} (hsorted : ts.Pairwise (· ≤ ·)) {s e : Time}
    (hs : ∀ t ∈ ts, s ≤ t) (he : ∀ t ∈ ts, t ≤ e) (hse : s ≤ e) :
    ((run perMinute burst b ts).1 : ℚ) ≤ burst + minutes (e - s) * perMinute := by
  have hrun := run_le hrate hburst hb hsorted hs he hse
  have hcap : level perMinute burst b s ≤ burst := level_le_burst b s
  linarith

end Runs

end TokenBucket
