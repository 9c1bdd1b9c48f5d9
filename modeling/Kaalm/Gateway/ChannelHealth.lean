import Kaalm.Foundation.Calendar
import Kaalm.Foundation.Message
import Kaalm.Foundation.Window
import Mathlib.Data.Set.Finite.Lattice

/-!
# Channel health

The gateway keeps what it has seen of each channel path in memory: the newest success and the newest
failures, at most 256 of them. Old observations are dropped when the path is used again, and a path
that is not used is dropped by a sweep. `Snapshot` reduces what is kept to one entry for each path
of a namespace.

The full log has every observation of every path. What the store keeps of a path tells the newest
success and the newest failure of the log in the window (`Tracks`), each call preserves that, and so
`Snapshot` says of the log what it would say had nothing been dropped (`snapshot_describes`).
-/

namespace Kaalm.Gateway

open Ascii Message Window

/-! ## Texts -/

/-- `time.RFC3339` in UTC. -/
def rfc3339 (t : Time) : String :=
  let d := Calendar.civil (Calendar.dayNumber t)
  let s := (t - Calendar.midnight (Calendar.dayNumber t)) / Calendar.second
  Calendar.padded 4 d.year ++ "-" ++ Calendar.padded 2 d.month ++ "-" ++ Calendar.padded 2 d.day
    ++ "T"
    ++ Calendar.padded 2 (s / 3600) ++ ":" ++ Calendar.padded 2 (s / 60 % 60) ++ ":"
    ++ Calendar.padded 2 (s % 60) ++ "Z"

example : rfc3339 1794787199999999999 = "2026-11-15T23:59:59Z" := by decide +kernel

def maxNoteBytes : ℕ := 1024

/-! ## The store -/

structure HealthObservation where
  success : Bool := false
  reason : String
  lastError : List UInt8 := []
  time : Time
  deriving DecidableEq

/-- `pathObservations`. -/
structure PathObservations where
  success : Option HealthObservation := none
  failures : List HealthObservation := []
  deriving DecidableEq

structure ChannelHealthStore where
  window : ℤ
  observations : GoMap String PathObservations := ∅
  /-- At first the zero time, 1 January of the year 1. -/
  lastPrune : Time := -62135596800 * Calendar.second

def maxChannelObservations : ℕ := 256

def newChannelHealthStore (window : ℤ) : ChannelHealthStore where
  window := if window = 0 then 300 * Calendar.second else window

namespace PathObservations

def inWindow (p : PathObservations) (cutoff : Time) : Bool :=
  p.success.any (fun o ↦ cutoff < o.time) || p.failures.any fun o ↦ cutoff < o.time

def dropSuccess (p : PathObservations) (cutoff : Time) : PathObservations :=
  { p with success := p.success.filter fun o ↦ cutoff < o.time }

/-- The newer one is kept: successes can arrive out of order. -/
def addSuccess (p : PathObservations) (obs : HealthObservation) : PathObservations :=
  if ∀ o ∈ p.success, ¬obs.time < o.time then { p with success := some obs } else p

def addFailure (p : PathObservations) (cutoff : Time) (obs : HealthObservation) :
    PathObservations :=
  let kept := keepInPlace (fun o ↦ cutoff < o.time) p.failures
  let kept := if kept.length ≥ maxChannelObservations then
      kept.drop (kept.length - (maxChannelObservations - 1))
    else kept
  { p with failures := kept ++ [obs] }

/-- What `record` does to the record of the path. -/
def record (p : PathObservations) (cutoff : Time) (obs : HealthObservation) : PathObservations :=
  let p := p.dropSuccess cutoff
  if obs.success then p.addSuccess obs else p.addFailure cutoff obs

end PathObservations

inductive HealthState where
  | success
  | failure
  deriving DecidableEq

structure ChannelHealthEntry where
  state : HealthState
  reason : String
  timestamp : String
  lastError : Option (List UInt8)
  deriving DecidableEq

/-- What `Snapshot` makes of a path; `none` is a nil dereference. -/
def PathObservations.entry (p : PathObservations) (cutoff : Time) : Option ChannelHealthEntry :=
  let lastSuccess := p.success.filter fun o ↦ cutoff < o.time
  let lastFailure := latestAfter HealthObservation.time cutoff p.failures
  match lastSuccess with
  | some s => some
      { state := .success, reason := s.reason, timestamp := rfc3339 s.time
        lastError := (lastFailure.map HealthObservation.lastError).filter (· ≠ []) }
  | none => lastFailure.map fun f ↦
      { state := .failure, reason := f.reason, timestamp := rfc3339 f.time
        lastError := some f.lastError }

namespace ChannelHealthStore

variable (c : ChannelHealthStore)

def pruneLocked (now : Time) : ChannelHealthStore :=
  { c with
    observations := c.observations.keep fun _ p ↦ p.inWindow (now - c.window)
    lastPrune := now }

/-- The sweep of `record`, at most once per window. -/
def sweep (now : Time) : ChannelHealthStore :=
  if now - c.lastPrune ≥ c.window then c.pruneLocked now else c

/-- The record of a path, empty if there is none. -/
def of (path : String) : PathObservations := (c.observations.lookup path).getD {}

/-- `record`, when the clock reads `now`. -/
def record (path : String) (obs : HealthObservation) (now : Time) : ChannelHealthStore :=
  let c := c.sweep now
  { c with observations := c.observations.insert path ((c.of path).record (now - c.window) obs) }

/-- `Snapshot`, when the clock reads `now`: the store and the channels of the response, or `none` if
it dereferences a missing observation. -/
def snapshot (ns : String) (now : Time) :
    ChannelHealthStore × Option (GoMap String ChannelHealthEntry) :=
  let c := c.pruneLocked now
  (c, c.observations.collect fun path p ↦
    if ("/channels/" ++ ns ++ "/").toList.isPrefixOf path.toList then
      (p.entry (now - c.window)).map some
    else some none)

end ChannelHealthStore

/-! ## Calls -/

open HealthObservation (time)

/-- The observation of an authenticated, dispatched delivery. -/
def successObservation (t : Time) : HealthObservation :=
  { success := true, reason := "WebhookReady", time := t }

def failureObservation (reason : String) (lastError : List UInt8) (t : Time) : HealthObservation :=
  { reason, lastError := truncate lastError maxNoteBytes, time := t }

/-- A call, with the readings of the clock. A record reads it twice: `t` is before the lock. -/
inductive HealthCall where
  | recordSuccess (path : String) (t now : Time)
  | recordFailure (path reason : String) (lastError : List UInt8) (t now : Time)
  | snapshot (ns : String) (now : Time)

namespace HealthCall

def readings : HealthCall → List Time
  | recordSuccess _ t now => [t, now]
  | recordFailure _ _ _ t now => [t, now]
  | snapshot _ now => [now]

/-- What a call adds to the full log. -/
def observation? : HealthCall → Option (String × HealthObservation)
  | recordSuccess path t _ => some (path, successObservation t)
  | recordFailure path reason lastError t _ => some (path, failureObservation reason lastError t)
  | snapshot .. => none

end HealthCall

/-- The store after a call. -/
def ChannelHealthStore.call (c : ChannelHealthStore) : HealthCall → ChannelHealthStore
  | .recordSuccess path t now => c.record path (successObservation t) now
  | .recordFailure path reason lastError t now =>
      c.record path (failureObservation reason lastError t) now
  | .snapshot ns now => (c.snapshot ns now).1

/-- The successes, or the failures, of a path in the full log. -/
def observed (log : List (String × HealthObservation)) (path : String) (success : Bool) :
    List HealthObservation :=
  (log.filter fun e ↦ e.1 = path ∧ e.2.success = success).map Prod.snd

/-- What an answer should say of a path, given the full log. Observations with equal times are
equally new. -/
inductive Describes (log : List (String × HealthObservation)) (path : String) (cutoff : Time) :
    Option ChannelHealthEntry → Prop where
  | silent (hlog : ∀ e ∈ log, e.1 = path → ¬cutoff < e.2.time) : Describes log path cutoff none
  | success {s : HealthObservation} {lastFailure : Option HealthObservation}
      (hs : Newest time (after time cutoff (observed log path true)) s)
      (hf : Found time cutoff (observed log path false) lastFailure) :
      Describes log path cutoff (some
        { state := .success, reason := s.reason, timestamp := rfc3339 s.time
          lastError := (lastFailure.map HealthObservation.lastError).filter (· ≠ []) })
  | failure {f : HealthObservation}
      (hs : after time cutoff (observed log path true) = [])
      (hf : Newest time (after time cutoff (observed log path false)) f) :
      Describes log path cutoff (some
        { state := .failure, reason := f.reason, timestamp := rfc3339 f.time
          lastError := some f.lastError })

/-! ## What the store keeps of a path -/

section

variable {log : List (String × HealthObservation)} {path : String} {cutoff : Time}
  {p : PathObservations}

theorem mem_observed {success : Bool} {o : HealthObservation} :
    o ∈ observed log path success ↔ (path, o) ∈ log ∧ o.success = success := by
  rw [observed, List.mem_map]
  constructor
  · rintro ⟨⟨q, o'⟩, hmem, rfl⟩
    obtain ⟨hlog, h⟩ := List.mem_filter.mp hmem
    obtain ⟨hq, hsuccess⟩ := of_decide_eq_true h
    exact ⟨hq ▸ hlog, hsuccess⟩
  · rintro ⟨hlog, hsuccess⟩
    exact ⟨(path, o), List.mem_filter.mpr ⟨hlog, decide_eq_true ⟨rfl, hsuccess⟩⟩, rfl⟩

theorem observed_append (e : String × HealthObservation) (success : Bool) :
    observed (log ++ [e]) path success = observed log path success
      ++ if e.1 = path ∧ e.2.success = success then [e.2] else [] := by
  rw [observed, List.filter_append, List.map_append, ← observed]
  congr 1
  by_cases h : e.1 = path ∧ e.2.success = success
  · rw [if_pos h, List.filter_cons_of_pos (by simpa using h), List.filter_nil, List.map_singleton]
  · rw [if_neg h, List.filter_cons_of_neg (by simpa using h), List.filter_nil, List.map_nil]

/-- What is kept of a path tells the newest success and the newest failure of the log. -/
structure Tracks (log : List (String × HealthObservation)) (path : String) (cutoff : Time)
    (p : PathObservations) : Prop where
  success : Covers time cutoff p.success.toList (observed log path true)
  failures : Covers time cutoff p.failures (observed log path false)
  bound : p.failures.length ≤ maxChannelObservations

theorem Tracks.mono (h : Tracks log path cutoff p) {cutoff' : Time} (hle : cutoff ≤ cutoff') :
    Tracks log path cutoff' p :=
  ⟨h.success.mono hle, h.failures.mono hle, h.bound⟩

theorem after_toList (o : Option HealthObservation) :
    after time cutoff o.toList = (o.filter fun o ↦ cutoff < o.time).toList := by
  cases o with
  | none => rfl
  | some o =>
    rw [Option.toList_some, after, Option.filter_some, List.filter_singleton]
    cases decide (cutoff < o.time) <;> rfl

theorem not_inWindow (h : ¬p.inWindow cutoff) :
    after time cutoff p.success.toList = []
      ∧ after time cutoff p.failures = [] := by
  rw [PathObservations.inWindow, Bool.or_eq_true, not_or] at h
  constructor
  · rw [after_eq_nil]
    intro x hx hlt
    exact h.1 ((Option.any_eq_true _ _).mpr ⟨x, Option.mem_toList.mp hx, decide_eq_true hlt⟩)
  · rw [after_eq_nil]
    intro x hx hlt
    exact h.2 (List.any_eq_true.mpr ⟨x, hx, decide_eq_true hlt⟩)

theorem Tracks.forget (h : Tracks log path cutoff p) (hold : ¬p.inWindow cutoff) :
    Tracks log path cutoff {} :=
  ⟨h.success.drop (not_inWindow hold).1, h.failures.drop (not_inWindow hold).2, Nat.zero_le _⟩

theorem Tracks.dropSuccess (h : Tracks log path cutoff p) :
    Tracks log path cutoff (p.dropSuccess cutoff) where
  success := by
    rw [PathObservations.dropSuccess, ← after_toList]
    exact h.success.filter
  failures := h.failures
  bound := h.bound

theorem Tracks.addSuccess (h : Tracks log path cutoff p) {obs : HealthObservation}
    (hobs : obs.success = true) : Tracks (log ++ [(path, obs)]) path cutoff (p.addSuccess obs) := by
  have hfailures : observed (log ++ [(path, obs)]) path false = observed log path false := by
    rw [observed_append, if_neg fun h ↦ absurd (hobs.symm.trans h.2) (by decide), List.append_nil]
  have hsuccess : observed (log ++ [(path, obs)]) path true = observed log path true ++ [obs] := by
    rw [observed_append, if_pos ⟨rfl, hobs⟩]
  have hkept : (p.addSuccess obs).failures = p.failures := by
    rw [PathObservations.addSuccess]
    split <;> rfl
  refine ⟨?_, hkept ▸ hfailures ▸ h.failures, hkept ▸ h.bound⟩
  rw [hsuccess]
  have hslot : (p.addSuccess obs).success
      = if ∀ o ∈ p.success, ¬obs.time < o.time then some obs else p.success := by
    rw [PathObservations.addSuccess]
    split <;> rfl
  rw [hslot]
  exact h.success.replace obs

theorem length_addFailure_le (obs : HealthObservation) :
    (p.addFailure cutoff obs).failures.length ≤ maxChannelObservations := by
  rw [PathObservations.addFailure]
  generalize keepInPlace (fun o ↦ decide (cutoff < o.time)) p.failures = kept
  rw [List.length_append, List.length_singleton]
  split
  · rw [List.length_drop, maxChannelObservations] at *
    omega
  · omega

theorem Tracks.addFailure (h : Tracks log path cutoff p) {obs : HealthObservation}
    (hobs : obs.success = false) (hnew : ∀ o ∈ observed log path false, o.time ≤ obs.time) :
    Tracks (log ++ [(path, obs)]) path cutoff (p.addFailure cutoff obs) := by
  have hsuccess : observed (log ++ [(path, obs)]) path true = observed log path true := by
    rw [observed_append, if_neg fun h ↦ absurd (hobs.symm.trans h.2) (by decide), List.append_nil]
  have hfailures :
      observed (log ++ [(path, obs)]) path false = observed log path false ++ [obs] := by
    rw [observed_append, if_pos ⟨rfl, hobs⟩]
  refine ⟨hsuccess ▸ h.success, ?_, length_addFailure_le obs⟩
  rw [hfailures]
  refine h.failures.append hnew ?_
  rw [keepInPlace_eq_filter]
  intro o ho
  split at ho
  · exact List.mem_of_mem_filter (List.mem_of_mem_drop ho)
  · exact List.mem_of_mem_filter ho

theorem Tracks.record (h : Tracks log path cutoff p) {obs : HealthObservation}
    (hnew : ∀ e ∈ log, e.2.time ≤ obs.time) :
    Tracks (log ++ [(path, obs)]) path cutoff (p.record cutoff obs) := by
  rw [PathObservations.record]
  by_cases hobs : obs.success
  · rw [if_pos hobs]
    exact h.dropSuccess.addSuccess hobs
  · rw [if_neg hobs]
    refine h.dropSuccess.addFailure (Bool.eq_false_iff.mpr hobs) fun o ho ↦ ?_
    exact hnew (path, o) (mem_observed.mp ho).1

/-- An observation of another path changes nothing. -/
theorem Tracks.append_other (h : Tracks log path cutoff p) {q : String} (hq : q ≠ path)
    (obs : HealthObservation) : Tracks (log ++ [(q, obs)]) path cutoff p := by
  have hobserved : ∀ b, observed (log ++ [(q, obs)]) path b = observed log path b := by
    intro b
    rw [observed_append, if_neg fun h ↦ hq h.1, List.append_nil]
  exact ⟨hobserved true ▸ h.success, hobserved false ▸ h.failures, h.bound⟩

/-- A path that has something in the window has an entry, and the entry describes the log. -/
theorem Tracks.entry (h : Tracks log path cutoff p) (hin : p.inWindow cutoff) :
    ∃ e, p.entry cutoff = some e ∧ Describes log path cutoff (some e) := by
  have hsuccess : Found time cutoff (observed log path true)
      (p.success.filter fun o ↦ cutoff < o.time) := by
    rw [← latestAfter_toList]
    exact h.success.found
  have hfailure := h.failures.found
  cases hs : p.success.filter fun o ↦ cutoff < o.time with
  | some s =>
    rw [hs] at hsuccess
    exact ⟨_, by rw [PathObservations.entry, hs], .success hsuccess hfailure⟩
  | none =>
    rw [hs] at hsuccess
    cases hf : latestAfter time cutoff p.failures with
    | some f =>
      rw [hf] at hfailure
      exact ⟨_, by rw [PathObservations.entry, hs, hf]; rfl, .failure hsuccess hfailure⟩
    | none =>
      -- The sweep of `Snapshot` has left no such path.
      have hold : after time cutoff p.failures = [] := by
        have hfound : Found time cutoff p.failures (latestAfter time cutoff p.failures) :=
          found_latestAfter p.failures
        rwa [hf] at hfound
      rw [PathObservations.inWindow, Bool.or_eq_true, Option.any_eq_true, List.any_eq_true] at hin
      rcases hin with ⟨o, ho, hlt⟩ | ⟨o, ho, hlt⟩
      · rw [ho, Option.filter_some, if_pos hlt] at hs
        cases hs
      · exact absurd (of_decide_eq_true hlt) (after_eq_nil.mp hold o ho)

/-- A path of which nothing is kept has nothing in the window. -/
theorem Tracks.silent (h : Tracks log path cutoff {}) : Describes log path cutoff none := by
  have hnone : ∀ b, after time cutoff (observed log path b) = [] := by
    intro b
    cases b with
    | true => exact h.success.found
    | false => exact h.failures.found
  refine .silent fun e he hpath hlt ↦ ?_
  have hmem : e.2 ∈ observed log path e.2.success := mem_observed.mpr ⟨hpath ▸ he, rfl⟩
  exact after_eq_nil.mp (hnone _) e.2 hmem hlt

end

/-! ## Calls preserve it -/

section

variable {c : ChannelHealthStore} {log : List (String × HealthObservation)} {now : Time}

/-- The store tracks every path of the log, which has nothing from after `now`. -/
structure Follows (c : ChannelHealthStore) (log : List (String × HealthObservation)) (now : Time) :
    Prop where
  tracks : ∀ path, Tracks log path (now - c.window) (c.of path)
  past : ∀ e ∈ log, e.2.time ≤ now

theorem Follows.mono (h : Follows c log now) {now' : Time} (hle : now ≤ now') :
    Follows c log now' :=
  ⟨fun path ↦ (h.tracks path).mono (Int.sub_le_sub_right hle _), fun e he ↦ (h.past e he).trans hle⟩

theorem of_pruneLocked (path : String) : (c.pruneLocked now).of path
    = if (c.of path).inWindow (now - c.window) then c.of path else {} := by
  rw [ChannelHealthStore.of, ChannelHealthStore.pruneLocked, AList.lookup_keep,
    ChannelHealthStore.of]
  cases c.observations.lookup path with
  | none => rfl
  | some p =>
    rw [Option.filter_some, Option.getD_some]
    split <;> rfl

theorem Follows.pruneLocked (h : Follows c log now) : Follows (c.pruneLocked now) log now := by
  refine ⟨fun path ↦ ?_, h.past⟩
  rw [of_pruneLocked]
  by_cases hin : (c.of path).inWindow (now - c.window)
  · rw [if_pos hin]
    exact h.tracks path
  · rw [if_neg hin]
    exact (h.tracks path).forget hin

theorem Follows.sweep (h : Follows c log now) : Follows (c.sweep now) log now := by
  rw [ChannelHealthStore.sweep]
  split
  · exact h.pruneLocked
  · exact h

theorem window_sweep : (c.sweep now).window = c.window := by
  rw [ChannelHealthStore.sweep]
  split <;> rfl

theorem window_record (path : String) (obs : HealthObservation) :
    (c.record path obs now).window = c.window := window_sweep

theorem of_record (path q : String) (obs : HealthObservation) : (c.record path obs now).of q
    = if q = path then ((c.sweep now).of path).record (now - c.window) obs
      else (c.sweep now).of q := by
  rw [ChannelHealthStore.of, ChannelHealthStore.record, AList.lookup_insert_ite, window_sweep]
  split <;> rfl

theorem Follows.record (h : Follows c log now) {obs : HealthObservation} (htime : obs.time ≤ now)
    (hnew : ∀ e ∈ log, e.2.time ≤ obs.time) (path : String) :
    Follows (c.record path obs now) (log ++ [(path, obs)]) now := by
  constructor
  · intro q
    have hq := h.sweep.tracks q
    rw [window_sweep] at hq
    rw [window_record, of_record]
    by_cases hpath : q = path
    · rw [if_pos hpath]
      rw [hpath] at hq ⊢
      exact hq.record hnew
    · rw [if_neg hpath]
      exact hq.append_other (Ne.symm hpath) obs
  · intro e he
    rcases List.mem_append.mp he with he | he
    · exact h.past e he
    · rw [List.mem_singleton.mp he]
      exact htime

theorem window_call (a : HealthCall) : (c.call a).window = c.window := by
  cases a with
  | recordSuccess path t now => exact window_record path _
  | recordFailure path reason lastError t now => exact window_record path _
  | snapshot ns now => rfl

theorem window_foldl_call (calls : List HealthCall) :
    (calls.foldl ChannelHealthStore.call c).window = c.window := by
  induction calls generalizing c with
  | nil => rfl
  | cons a calls ih => rw [List.foldl_cons, ih, window_call]

/-- A record reads the clock, which has read `last` before, at `obs.time` and then at `now`. -/
theorem Follows.record_of_le {last : Time} (h : Follows c log last) {obs : HealthObservation}
    (hlast : last ≤ obs.time) (hnow : obs.time ≤ now) (path : String) :
    Follows (c.record path obs now) (log ++ [(path, obs)]) now :=
  (h.mono (hlast.trans hnow)).record hnow (fun e he ↦ (h.past e he).trans hlast) path

/-- A call, with the last reading that it makes. -/
theorem Follows.call {last : Time} (h : Follows c log last) (a : HealthCall)
    (hclock : (last :: a.readings).Pairwise (· ≤ ·)) :
    ∃ now ∈ a.readings, Follows (c.call a) (log ++ a.observation?.toList) now := by
  cases a with
  | recordSuccess path t now =>
    obtain ⟨hlast, hnow⟩ := List.pairwise_cons.mp hclock
    refine ⟨now, List.mem_cons_of_mem _ (List.mem_singleton_self now), ?_⟩
    exact h.record_of_le (hlast t List.mem_cons_self)
      (List.rel_of_pairwise_cons hnow (List.mem_singleton_self now)) path
  | recordFailure path reason lastError t now =>
    obtain ⟨hlast, hnow⟩ := List.pairwise_cons.mp hclock
    refine ⟨now, List.mem_cons_of_mem _ (List.mem_singleton_self now), ?_⟩
    exact h.record_of_le (hlast t List.mem_cons_self)
      (List.rel_of_pairwise_cons hnow (List.mem_singleton_self now)) path
  | snapshot ns now =>
    have hlast : last ≤ now := List.rel_of_pairwise_cons hclock (List.mem_singleton_self now)
    refine ⟨now, List.mem_singleton_self now, ?_⟩
    rw [HealthCall.observation?, Option.toList_none, List.append_nil]
    exact (h.mono hlast).pruneLocked

theorem Follows.foldl_call {calls : List HealthCall} {last : Time} (h : Follows c log last)
    (hclock : (last :: calls.flatMap HealthCall.readings).Pairwise (· ≤ ·))
    (hnow : ∀ t ∈ last :: calls.flatMap HealthCall.readings, t ≤ now) :
    Follows (calls.foldl ChannelHealthStore.call c)
      (log ++ calls.filterMap HealthCall.observation?) now := by
  induction calls generalizing c log last with
  | nil =>
    rw [List.filterMap_nil, List.append_nil]
    exact h.mono (hnow last List.mem_cons_self)
  | cons a calls ih =>
    rw [List.flatMap_cons, ← List.cons_append] at hclock hnow
    obtain ⟨hcall, hrest, hlater⟩ := List.pairwise_append.mp hclock
    obtain ⟨t, ht, hstep⟩ := h.call a hcall
    have ht' : t ∈ last :: a.readings := List.mem_cons_of_mem _ ht
    have hlog : (a :: calls).filterMap HealthCall.observation?
        = a.observation?.toList ++ calls.filterMap HealthCall.observation? := by
      rw [List.filterMap_cons]
      cases a.observation? <;> rfl
    rw [hlog, ← List.append_assoc]
    refine ih hstep (List.pairwise_cons.mpr ⟨hlater t ht', hrest⟩) fun u hu ↦ ?_
    rcases List.mem_cons.mp hu with rfl | hu
    · exact hnow u (List.mem_append_left _ ht')
    · exact hnow u (List.mem_append_right _ hu)

theorem follows_new (window : ℤ) (now : Time) : Follows (newChannelHealthStore window) [] now :=
  ⟨fun _ ↦ ⟨.nil, .nil, Nat.zero_le _⟩, fun _ he ↦ absurd he List.not_mem_nil⟩

theorem follows_foldl_call (window : ℤ) {calls : List HealthCall}
    (hclock : (calls.flatMap HealthCall.readings).Pairwise (· ≤ ·))
    (hnow : ∀ t ∈ calls.flatMap HealthCall.readings, t ≤ now) :
    Follows (calls.foldl ChannelHealthStore.call (newChannelHealthStore window))
      (calls.filterMap HealthCall.observation?) now := by
  obtain ⟨first, hfirst⟩ := (now :: calls.flatMap HealthCall.readings).toFinset.bddBelow
  have hle : ∀ t ∈ now :: calls.flatMap HealthCall.readings, first ≤ t :=
    fun t ht ↦ hfirst (List.mem_toFinset.mpr ht)
  refine (follows_new window first).foldl_call ?_ ?_
  · exact List.pairwise_cons.mpr ⟨fun t ht ↦ hle t (List.mem_cons_of_mem _ ht), hclock⟩
  · exact List.forall_mem_cons.mpr ⟨hle now List.mem_cons_self, hnow⟩

end

/-! ## Snapshots describe the full log -/

theorem Follows.snapshot {c : ChannelHealthStore} {log : List (String × HealthObservation)}
    {now : Time} (h : Follows c log now) (ns : String) :
    ∃ channels, (c.snapshot ns now).2 = some channels
      ∧ ∀ path, if ("/channels/" ++ ns ++ "/").toList <+: path.toList then
          Describes log path (now - c.window) (channels.lookup path)
        else channels.lookup path = none := by
  have hentry : ∀ path p, (c.pruneLocked now).observations.lookup path = some p →
      ∃ e, p.entry (now - c.window) = some e ∧ Describes log path (now - c.window) (some e) := by
    intro path p hp
    rw [ChannelHealthStore.pruneLocked, AList.lookup_keep, Option.filter_eq_some_iff] at hp
    have htracks := h.tracks path
    rw [ChannelHealthStore.of, hp.1] at htracks
    exact htracks.entry hp.2
  obtain ⟨channels, hchannels, hlookup⟩ := AList.exists_collect
    (m := (c.pruneLocked now).observations) (f := fun path p ↦
      if ("/channels/" ++ ns ++ "/").toList.isPrefixOf path.toList then
        (p.entry (now - c.window)).map some
      else some none) (by
    intro path p hp
    obtain ⟨e, he, -⟩ := hentry path p hp
    rw [he]
    split <;> rfl)
  refine ⟨channels, hchannels, fun path ↦ ?_⟩
  rw [hlookup]
  by_cases hns : ("/channels/" ++ ns ++ "/").toList <+: path.toList
  · rw [if_pos hns]
    cases hp : (c.pruneLocked now).observations.lookup path with
    | none =>
      have htracks := h.pruneLocked.tracks path
      rw [ChannelHealthStore.of, hp] at htracks
      exact htracks.silent
    | some p =>
      obtain ⟨e, he, hdescribes⟩ := hentry path p hp
      rw [Option.bind_some, if_pos (List.isPrefixOf_iff_prefix.mpr hns), he]
      exact hdescribes
  · rw [if_neg hns]
    cases (c.pruneLocked now).observations.lookup path with
    | none => rfl
    | some p =>
      rw [Option.bind_some, if_neg fun h ↦ hns (List.isPrefixOf_iff_prefix.mp h)]
      rfl

/-- In any sequence of calls with a clock that does not go back, `Snapshot` says what the full log
says, and no path has more than `maxChannelObservations` failures at any moment. -/
theorem snapshot_describes (window : ℤ) (calls : List HealthCall) (ns : String) (now : Time)
    (hclock : ((calls ++ [HealthCall.snapshot ns now]).flatMap HealthCall.readings).Pairwise
    (· ≤ ·)) :
    (∃ channels,
      ((calls.foldl ChannelHealthStore.call (newChannelHealthStore window)).snapshot ns now).2
        = some channels
      ∧ ∀ path, if ("/channels/" ++ ns ++ "/").toList <+: path.toList then
          Describes (calls.filterMap HealthCall.observation?) path
            (now - (newChannelHealthStore window).window) (channels.lookup path)
        else channels.lookup path = none)
    ∧ ∀ before, before <+: calls ++ [HealthCall.snapshot ns now] → ∀ path p,
        (before.foldl ChannelHealthStore.call (newChannelHealthStore window)).observations.lookup
        path
          = some p → p.failures.length ≤ maxChannelObservations := by
  have hreadings : (calls ++ [HealthCall.snapshot ns now]).flatMap HealthCall.readings
      = calls.flatMap HealthCall.readings ++ [now] := by
    rw [List.flatMap_append]
    rfl
  have hnow : ∀ t ∈ calls.flatMap HealthCall.readings ++ [now], t ≤ now := by
    rw [hreadings] at hclock
    intro t ht
    rcases List.mem_append.mp ht with ht | ht
    · exact (List.pairwise_append.mp hclock).2.2 t ht now (List.mem_singleton_self now)
    · exact (List.mem_singleton.mp ht).le
  have hfollows : ∀ before, before <+: calls ++ [HealthCall.snapshot ns now] →
      Follows (before.foldl ChannelHealthStore.call (newChannelHealthStore window))
        (before.filterMap HealthCall.observation?) now := by
    rintro before ⟨rest, hrest⟩
    rw [← hrest, List.flatMap_append] at hclock hreadings
    refine follows_foldl_call window (List.pairwise_append.mp hclock).1 fun t ht ↦ ?_
    exact hnow t (hreadings ▸ List.mem_append_left _ ht)
  constructor
  · have hsnapshot := (hfollows calls (List.prefix_append _ _)).snapshot ns
    rwa [window_foldl_call] at hsnapshot
  · intro before hbefore path p hp
    have htracks := (hfollows before hbefore).tracks path
    rw [ChannelHealthStore.of, hp] at htracks
    exact htracks.bound

/-- A success, and then a failure of the same channel. -/
private def failedAfterSuccess : List HealthCall :=
  [.recordSuccess "/channels/a/chat" 1 2,
    .recordFailure "/channels/a/chat" "DispatchFailed" (bytes "timeout") 3 3]

theorem snapshot_describes_success :
    ((failedAfterSuccess ++ [HealthCall.snapshot "a" 4]).flatMap HealthCall.readings).Pairwise
    (· ≤ ·)
    ∧ ∃ channels,
      ((failedAfterSuccess.foldl ChannelHealthStore.call (newChannelHealthStore 0)).snapshot "a"
      4).2
        = some channels
      ∧ Describes (failedAfterSuccess.filterMap HealthCall.observation?) "/channels/a/chat"
          (4 - (newChannelHealthStore 0).window) (channels.lookup "/channels/a/chat")
      ∧ channels.lookup "/channels/a/chat" = some
          { state := .success, reason := "WebhookReady", timestamp := "1970-01-01T00:00:00Z"
            lastError := some (bytes "timeout") } := by
  obtain ⟨⟨channels, hchannels, hpaths⟩, -⟩ :=
    snapshot_describes 0 failedAfterSuccess "a" 4 (by decide +kernel)
  refine ⟨by decide +kernel, channels, hchannels, ?_, ?_⟩
  · have hpath := hpaths "/channels/a/chat"
    rwa [if_pos (by decide +kernel)] at hpath
  · have heval : (((failedAfterSuccess.foldl ChannelHealthStore.call
        (newChannelHealthStore 0)).snapshot "a" 4).2.bind (AList.lookup "/channels/a/chat")) = some
          { state := .success, reason := "WebhookReady", timestamp := "1970-01-01T00:00:00Z"
            lastError := some (bytes "timeout") } := by decide +kernel
    rwa [hchannels] at heval

end Kaalm.Gateway
