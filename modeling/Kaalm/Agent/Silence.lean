import Kaalm.Agent.IdleFloor
import Mathlib.Algebra.Order.Group.Int
import Mathlib.Data.List.Induction
import Mathlib.Tactic.Linarith

/-!
# Hibernation of a silent Agent

An Agent is silent while the gateways report the same record of activity for it in every pass, or no
record at all, with a replica that has been up long enough to have seen one. This file follows the
activity evaluation of a silent Agent from Running on, pass after pass; every pass reads its times
as the API server stored them, without their fractions of a second.

## The start of the silence

Each pass computes the start of the silence again: from the record, which keeps its fraction of a
second; from `lastActivityTime`, which the move to Idle sets; and, without a record, from
`phaseTransitionTime`, which every move sets. `Follows` says that it comes out the same in all of
them (`marker`). The record is rounded before it is compared with `lastActivityTime`, and without a
record an Idle Agent is measured from `lastActivityTime` alone; so no pass reads the Agent's own
move as activity.

Without a record the silence does not start before the entry into Running, even if
`lastActivityTime` is older (`idle_after_two_passes`).
-/

namespace Kaalm.Agent

open AgentStatus

/-! ## Passes -/

/-- The replicas that answered. -/
def Reading.reachable (r : Reading) : List ReplicaActivity := r.replicas.getD []

/-- What a pass makes of the activity of a Running or Idle Agent, as it is stored. -/
def activityPass (s : AgentStatus) (r : Reading) : AgentStatus :=
  (activityStep s r !r.certReady).stored

/-- The stored status after some passes. -/
def statusAfter (s : AgentStatus) (rs : List Reading) : AgentStatus :=
    rs.foldl activityPass s.stored

/-- The Agent is silent: it has an idle timeout, and a pass that reaches a replica finds the record,
or none, and then a replica that has been up for the idle timeout. -/
structure Silent (record : Option Time) (timeout : Time) (delay : ℕ) (r : Reading) : Prop where
  idleTimeout : r.idleTimeout = timeout
  idleDetection : 0 < timeout
  hibernationDelay : r.hibernationDelay = delay
  hibernationEnabled : r.hibernationEnabled = true
  certReady : r.certReady = true
  merged : r.reachable ≠ [] → mergedActivity r r.reachable = record
  watched : r.reachable ≠ [] → record = none →
    r.reachable.any (fun replica ↦ timeout ≤ r.now - replica.startedAt) = true

/-- The later of the record and `lastActivityTime`; without a record, the later of the entry into
the phase and `lastActivityTime`. -/
def silenceStart (s : AgentStatus) (record : Option Time) : Option Time :=
  (record.or s.phaseTransitionTime).map fun t ↦ laterOf t s.lastActivityTime

/-- What one pass makes of the phase of a silent Agent. -/
inductive Advances : AgentPhase → AgentPhase → Prop
  | stays (phase : AgentPhase) : Advances phase phase
  | idles : Advances .running .idle
  | hibernates : Advances .idle .hibernating

variable {s : AgentStatus} {r : Reading} {record : Option Time} {timeout marker t u : Time}
  {delay : ℕ}

/-! ## Rounding -/

theorem lt_truncateTime (t : Time) : t - Calendar.second < truncateTime t := by
  have h := Int.lt_ediv_add_one_mul_self t (show (0 : ℤ) < Calendar.second by decide)
  rw [Int.add_mul, Int.one_mul] at h
  exact Int.sub_right_lt_of_lt_add h

theorem stored_stored (s : AgentStatus) : s.stored.stored = s.stored := by
  have htwice : ∀ t : Option Time, (t.map truncateTime).map truncateTime = t.map truncateTime := by
    intro t
    cases t with
    | none => rfl
    | some t => exact congrArg some (truncateTime_truncateTime t)
  simp only [stored, htwice]

theorem laterOf_eq_max (t u : Time) : laterOf t (some u) = max t u := by
  rw [laterOf]
  split_ifs with h
  · exact (max_eq_right (le_of_lt h)).symm
  · exact (max_eq_left (not_lt.mp h)).symm

private theorem max_within {a b a' b' d : ℤ} (ha : a - d < a') (hb : b - d < b') (ha' : a' ≤ a)
    (hb' : b' ≤ b) : max a b - d < max a' b' ∧ max a' b' ≤ max a b := by
  omega

/-- Storing the times of an Agent moves the start of its silence back by less than a second. -/
theorem silenceStart_stored {start : Time} (h : silenceStart s record = some start) :
    ∃ marker, silenceStart s.stored record = some marker
      ∧ start - Calendar.second < marker ∧ marker ≤ start := by
  have hsecond : (0 : ℤ) < Calendar.second := by decide
  -- Each of the two times keeps its value or loses its fraction.
  have hlater : ∀ t t' : Time, t - Calendar.second < t' → t' ≤ t →
      laterOf t s.lastActivityTime - Calendar.second < laterOf t' s.stored.lastActivityTime
        ∧ laterOf t' s.stored.lastActivityTime ≤ laterOf t s.lastActivityTime := by
    intro t t' hlt hle
    have hstored : s.stored.lastActivityTime = s.lastActivityTime.map truncateTime := rfl
    rw [hstored]
    cases s.lastActivityTime with
    | none => exact ⟨hlt, hle⟩
    | some l =>
      rw [Option.map_some, laterOf_eq_max, laterOf_eq_max]
      exact max_within hlt (lt_truncateTime l) hle (truncateTime_le l)
  have hphase : s.stored.phaseTransitionTime = s.phaseTransitionTime.map truncateTime := rfl
  rw [silenceStart] at h
  rw [silenceStart, hphase]
  cases record with
  | some last =>
    obtain rfl := Option.some.inj h
    exact ⟨_, rfl, hlater last last (Int.sub_lt_self last hsecond) le_rfl⟩
  | none =>
    cases hentry : s.phaseTransitionTime with
    | none =>
      rw [hentry] at h
      cases h
    | some entry =>
      rw [hentry] at h
      obtain rfl := Option.some.inj h
      exact ⟨_, rfl, hlater entry _ (lt_truncateTime entry) (truncateTime_le entry)⟩

/-! ## One pass -/

/-- The silence is measured from `marker`. -/
inductive Follows (record : Option Time) (marker : Time) (s : AgentStatus) : Prop
  | running (hphase : s.phase = .running) (hstart : silenceStart s record = some marker)
  | idle (hphase : s.phase = .idle) (hactivity : s.lastActivityTime = some (truncateTime marker))
      (hrecord : ∀ last ∈ record, last ≤ marker ∧ laterOf last (some (truncateTime marker))
      = marker)
      (hentry : record = none → s.phaseTransitionTime.isSome ∧ truncateTime marker = marker)
  | hibernating (hphase : s.phase = .hibernating)

theorem activityPass_of_not_reached (hs : s.stored = s) (h : r.reachable = []) :
    activityPass s r = s := by
  rw [activityPass, activityStep]
  cases hr : r.replicas with
  | none => exact hs
  | some replicas =>
    have hnil : replicas = [] := by rwa [Reading.reachable, hr] at h
    rw [hnil]
    exact hs

theorem activityPass_of_reached (hr : r.reachable ≠ []) (htimeout : 0 < r.idleTimeout) :
    activityPass s r = (evaluateActivity s r r.reachable !r.certReady).stored := by
  rw [activityPass, activityStep]
  rw [Reading.reachable] at hr ⊢
  split
  · rename_i hreplicas
    rw [if_pos htimeout, hreplicas]
    rfl
  · rename_i hnone
    cases hreplicas : r.replicas with
    | none => exact absurd (by rw [hreplicas]; rfl) hr
    | some replicas =>
      cases replicas with
      | nil => exact absurd (by rw [hreplicas]; rfl) hr
      | cons replica replicas => exact absurd hreplicas (hnone replica replicas)

/-- A silent Agent is measured from its record, or else from its last transition. -/
private theorem activityMarker_of_silent (h : Silent record timeout delay r)
    (hr : r.reachable ≠ []) :
    activityMarker s r r.reachable
      = (record.map fun last ↦ (last, false)).or (s.phaseTransitionTime.map fun t ↦ (t, true)) := by
  rw [activityMarker, h.merged hr]
  cases record with
  | some last => rfl
  | none =>
    have hwatched := h.watched hr rfl
    rw [← h.idleTimeout] at hwatched
    simp only [hwatched, if_true]
    rfl

/-- A Running Agent is Idle once the silence has lasted for the idle timeout. -/
private theorem activityPass_running (h : Silent record timeout delay r) (hr : r.reachable ≠ [])
    (hphase : s.phase = .running) (hstart : silenceStart s record = some marker) :
    activityPass s r = (if timeout < r.now - marker then
      { s.setPhase .idle r.now with lastActivityTime := some marker } else s).stored := by
  rw [activityPass_of_reached hr (h.idleTimeout ▸ h.idleDetection), evaluateActivity,
    activityMarker_of_silent h hr]
  rw [silenceStart] at hstart
  cases record with
  | some last =>
    obtain rfl := Option.some.inj hstart
    simp only [Option.map_some, Option.some_or, hphase, evaluateRunning, h.idleTimeout]
  | none =>
    cases hentry : s.phaseTransitionTime with
    | none =>
      rw [hentry] at hstart
      cases hstart
    | some entry =>
      rw [hentry] at hstart
      obtain rfl := Option.some.inj hstart
      simp only [Option.map_none, Option.none_or, Option.map_some, hphase, evaluateRunning,
        h.idleTimeout]

/-- An Idle Agent hibernates once the silence has lasted for the delay as well. -/
private theorem activityPass_idle (h : Silent record timeout delay r) (hr : r.reachable ≠ [])
    (hphase : s.phase = .idle) (hactivity : s.lastActivityTime = some (truncateTime marker))
    (hrecord : ∀ last ∈ record, last ≤ marker ∧ laterOf last (some (truncateTime marker)) = marker)
    (hentry : record = none → s.phaseTransitionTime.isSome ∧ truncateTime marker = marker) :
    activityPass s r = (if timeout + delay < r.now - marker then s.setPhase .hibernating r.now
      else s).stored := by
  rw [activityPass_of_reached hr (h.idleTimeout ▸ h.idleDetection), evaluateActivity,
    activityMarker_of_silent h hr]
  cases record with
  | some last =>
    obtain ⟨hle, hlater⟩ := hrecord last rfl
    -- The rounded record is not later than the rounded marker.
    have hquiet : ¬truncateTime marker < truncateTime last := not_lt.mpr (truncateTime_mono hle)
    simp only [Option.map_some, Option.some_or, hphase, evaluateIdle, hactivity, Option.any_some,
      hquiet, decide_false, Bool.not_false, Bool.and_false, Bool.false_eq_true, if_false, hlater,
      h.hibernationEnabled, h.certReady, Bool.not_true, Bool.and_self, Bool.true_and, h.idleTimeout,
      h.hibernationDelay, decide_eq_true_iff]
  | none =>
    obtain ⟨hsome, hwhole⟩ := hentry rfl
    obtain ⟨entry, hentry⟩ := Option.isSome_iff_exists.mp hsome
    simp only [hentry, Option.map_none, Option.none_or, Option.map_some, hphase, evaluateIdle,
      hactivity, Bool.not_true,
      Bool.false_and, Bool.false_eq_true, if_false, if_true, Option.getD_some, hwhole,
      h.hibernationEnabled, h.certReady, Bool.not_false, Bool.and_self, Bool.true_and,
      h.idleTimeout,
      h.hibernationDelay, decide_eq_true_iff]

private theorem phase_activityPass_hibernating (hphase : s.phase = .hibernating) :
    (activityPass s r).phase = .hibernating := by
  have heval : ∀ replicas, evaluateActivity s r replicas (!r.certReady) = s := by
    intro replicas
    rw [evaluateActivity]
    cases activityMarker s r replicas with
    | none => rfl
    | some m => simp only [hphase]
  rw [activityPass, activityStep]
  split
  · rw [heval, ite_self]
    exact hphase
  · exact hphase

/-- The later of a time and a whole second is the time or a whole second. -/
private theorem laterOf_cases (h : s.stored = s) (t : Time) :
    laterOf t s.lastActivityTime = t
      ∨ t ≤ laterOf t s.lastActivityTime
        ∧ truncateTime (laterOf t s.lastActivityTime) = laterOf t s.lastActivityTime := by
  have hactivity : s.lastActivityTime.map truncateTime = s.lastActivityTime :=
    congrArg lastActivityTime h
  cases hlast : s.lastActivityTime with
  | none => exact Or.inl rfl
  | some l =>
    rw [hlast, Option.map_some, Option.some.injEq] at hactivity
    rw [laterOf_eq_max]
    rcases max_choice t l with hmax | hmax
    · exact Or.inl hmax
    · right
      rw [hmax]
      exact ⟨hmax ▸ le_max_left t l, hactivity⟩

/-- The move to Idle stores the start of the silence. -/
private theorem follows_idle (hs : s.stored = s) (hphase : s.phase = .running)
    (hstart : silenceStart s record = some marker) (now : Time) :
    Follows record marker { s.setPhase .idle now with lastActivityTime := some marker }.stored := by
  have hmoved : s.setPhase .idle now
      = { s with phase := .idle, phaseTransitionTime := some now } := by
    rw [setPhase, if_neg (by rw [hphase]; decide)]
  rw [hmoved]
  rw [silenceStart] at hstart
  refine .idle rfl rfl (fun last hlast ↦ ?_) fun hnone ↦ ⟨rfl, ?_⟩
  · rw [Option.mem_def] at hlast
    subst hlast
    obtain rfl : laterOf last s.lastActivityTime = marker := Option.some.inj hstart
    rw [laterOf_eq_max]
    rcases laterOf_cases hs last with hlater | ⟨hle, hwhole⟩
    · rw [hlater]
      exact ⟨le_rfl, max_eq_left (truncateTime_le last)⟩
    · rw [hwhole]
      exact ⟨hle, max_eq_right hle⟩
  · subst hnone
    have hentry : s.phaseTransitionTime.map truncateTime = s.phaseTransitionTime :=
      congrArg phaseTransitionTime hs
    rw [Option.none_or] at hstart
    obtain ⟨entry, hsome, rfl⟩ := Option.map_eq_some_iff.mp hstart
    rw [hsome, Option.map_some, Option.some.injEq] at hentry
    rcases laterOf_cases hs entry with hlater | ⟨-, hwhole⟩
    · rw [hlater, hentry]
    · exact hwhole

/-- One pass over a silent Agent: it moves on when the silence has lasted long enough, and otherwise
leaves the Agent alone. -/
inductive SilentPass (timeout marker : Time) (delay : ℕ) (s : AgentStatus) (r : Reading) :
    AgentStatus → Prop
  | unreached (h : r.reachable = []) : SilentPass timeout marker delay s r s
  | waits (h : r.now - marker ≤ timeout + delay) : SilentPass timeout marker delay s r s
  | idles {s' : AgentStatus} (hphase : s.phase = .running) (hphase' : s'.phase = .idle) :
      SilentPass timeout marker delay s r s'
  | hibernates {s' : AgentStatus} (hphase : s.phase = .idle) (hphase' : s'.phase = .hibernating)
      (h : timeout + delay < r.now - marker) : SilentPass timeout marker delay s r s'
  | sleeps {s' : AgentStatus} (hphase : s.phase = .hibernating)
    (hphase' : s'.phase = .hibernating) :
      SilentPass timeout marker delay s r s'

theorem stored_activityPass (s : AgentStatus) (r : Reading) :
    (activityPass s r).stored = activityPass s r := stored_stored _

theorem Follows.pass (hs : s.stored = s) (hfollows : Follows record marker s)
    (h : Silent record timeout delay r) :
    Follows record marker (activityPass s r)
      ∧ SilentPass timeout marker delay s r (activityPass s r) := by
  by_cases hr : r.reachable = []
  · rw [activityPass_of_not_reached hs hr]
    exact ⟨hfollows, .unreached hr⟩
  cases hfollows with
  | running hphase hstart =>
    rw [activityPass_running h hr hphase hstart]
    split_ifs with hlong
    · refine ⟨follows_idle hs hphase hstart r.now, .idles hphase ?_⟩
      exact phase_setPhase _
    · rw [hs]
      refine ⟨.running hphase hstart, .waits ?_⟩
      exact (not_lt.mp hlong).trans (Int.le_add_of_nonneg_right (Int.natCast_nonneg delay))
  | idle hphase hactivity hrecord hentry =>
    rw [activityPass_idle h hr hphase hactivity hrecord hentry]
    split_ifs with hlong
    · exact ⟨.hibernating (phase_setPhase _), .hibernates hphase (phase_setPhase _) hlong⟩
    · rw [hs]
      exact ⟨.idle hphase hactivity hrecord hentry, .waits (not_lt.mp hlong)⟩
  | hibernating hphase =>
    have hphase' := phase_activityPass_hibernating (r := r) hphase
    exact ⟨.hibernating hphase', .sleeps hphase hphase'⟩

/-! ## All passes -/

theorem statusAfter_concat (s : AgentStatus) (rs : List Reading) (r : Reading) :
    statusAfter s (rs ++ [r]) = activityPass (statusAfter s rs) r := by
  rw [statusAfter, List.foldl_append]
  rfl

theorem stored_statusAfter (s : AgentStatus) (rs : List Reading) :
    (statusAfter s rs).stored = statusAfter s rs := by
  induction rs using List.reverseRecOn with
  | nil => exact stored_stored s
  | append_singleton rs r ih =>
    rw [statusAfter_concat]
    exact stored_activityPass _ _

theorem follows_statusAfter (hphase : s.phase = .running)
    (hmarker : silenceStart s.stored record = some marker) {rs : List Reading}
    (hrs : ∀ r ∈ rs, Silent record timeout delay r) : Follows record marker (statusAfter s rs) := by
  induction rs using List.reverseRecOn with
  | nil => exact .running hphase hmarker
  | append_singleton rs r ih =>
    rw [statusAfter_concat]
    have hfollows := ih fun r' hr' ↦ hrs r' (List.mem_append_left _ hr')
    exact (hfollows.pass (stored_statusAfter s rs)
      (hrs r (List.mem_append_right _ List.mem_cons_self))).1

theorem SilentPass.advances {s' : AgentStatus} (h : SilentPass timeout marker delay s r s') :
    Advances s.phase s'.phase := by
  cases h with
  | unreached => exact .stays _
  | waits => exact .stays _
  | idles hphase hphase' =>
    rw [hphase, hphase']
    exact .idles
  | hibernates hphase hphase' =>
    rw [hphase, hphase']
    exact .hibernates
  | sleeps hphase hphase' =>
    rw [hphase, hphase']
    exact .stays _

/-- An Agent hibernates only after the idle timeout and the delay. -/
theorem SilentPass.lt_of_hibernating {s' : AgentStatus} (h : SilentPass timeout marker delay s r s')
    (hbefore : s.phase ≠ .hibernating) (hafter : s'.phase = .hibernating) :
    timeout + delay < r.now - marker := by
  cases h with
  | unreached => exact absurd hafter hbefore
  | waits => exact absurd hafter hbefore
  | idles hphase hphase' =>
    rw [hphase'] at hafter
    cases hafter
  | hibernates _ _ hlong => exact hlong
  | sleeps hphase => exact absurd hphase hbefore

/-- How far the Agent has come. -/
def AgentPhase.depth : AgentPhase → ℕ
  | .idle => 1
  | .hibernating => 2
  | _ => 0

/-- The pass reaches a replica, after the given instant. -/
def Reading.due (instant : Time) (r : Reading) : Bool := r.reachable ≠ [] && instant < r.now

/-- A pass that is due takes the Agent one phase further. -/
theorem SilentPass.depth_le {s' : AgentStatus} (h : SilentPass timeout marker delay s r s')
    {instant : Time} (hinstant : marker + timeout + delay ≤ instant) {n : ℕ}
    (hn : min 2 n ≤ s.phase.depth) :
    min 2 (n + if r.due instant then 1 else 0) ≤ s'.phase.depth := by
  cases h with
  | unreached hr =>
    have hdue : r.due instant = false := by
      rw [Reading.due, hr]
      rfl
    rwa [hdue, if_neg (by decide)]
  | waits hshort =>
    have hdue : r.due instant = false := by
      rw [Reading.due, Bool.and_eq_false_iff, decide_eq_false_iff_not, decide_eq_false_iff_not]
      exact Or.inr (by linarith)
    rwa [hdue, if_neg (by decide)]
  | idles hphase hphase' =>
    rw [hphase] at hn
    rw [hphase']
    have hnone : min 2 n ≤ 0 := hn
    change _ ≤ 1
    split_ifs <;> omega
  | hibernates _ hphase' =>
    rw [hphase']
    exact min_le_left _ _
  | sleeps _ hphase' =>
    rw [hphase']
    exact min_le_left _ _

theorem depth_statusAfter (hphase : s.phase = .running)
    (hmarker : silenceStart s.stored record = some marker) {rs : List Reading}
    (hrs : ∀ r ∈ rs, Silent record timeout delay r) {instant : Time}
    (hinstant : marker + timeout + delay ≤ instant) :
    min 2 (rs.countP (Reading.due instant)) ≤ (statusAfter s rs).phase.depth := by
  induction rs using List.reverseRecOn with
  | nil => exact Nat.zero_le _
  | append_singleton rs r ih =>
    have hbefore : ∀ r ∈ rs, Silent record timeout delay r := fun r' hr' ↦
      hrs r' (List.mem_append_left _ hr')
    obtain ⟨-, hpass⟩ := (follows_statusAfter hphase hmarker hbefore).pass
      (stored_statusAfter s rs) (hrs r (List.mem_append_right _ List.mem_cons_self))
    rw [statusAfter_concat, List.countP_append, List.countP_singleton]
    exact hpass.depth_le hinstant (ih hbefore)

theorem phase_eq_hibernating_of_depth {phase : AgentPhase} (h : 2 ≤ phase.depth) :
    phase = .hibernating := by
  cases phase with
  | hibernating => rfl
  | _ => exact absurd h (by decide)

/-- A pass over an Agent without a record, with an idle timeout and a delay of a minute each. -/
private def minutePass (now : Time) : Reading where
  now := now * Calendar.second
  idleTimeout := 60 * Calendar.second
  hibernationDelay := 60000000000
  hibernationEnabled := true
  replicas := some [{ startedAt := 0 }]

private theorem silent_minutePass {now : Time} (h : 60 * Calendar.second ≤ now * Calendar.second) :
    Silent none (60 * Calendar.second) 60000000000 (minutePass now) where
  idleTimeout := rfl
  idleDetection := by decide
  hibernationDelay := rfl
  hibernationEnabled := rfl
  certReady := rfl
  merged _ := rfl
  watched _ _ := by
    refine List.any_eq_true.mpr ⟨_, List.mem_cons_self, decide_eq_true ?_⟩
    exact h.trans_eq (Int.sub_zero _).symm

/-- Running since the second 110, with the last activity in the second 100. -/
private def servedStatus : AgentStatus where
  phase := .running
  phaseTransitionTime := some (110 * Calendar.second)
  lastActivityTime := some (100 * Calendar.second)

end Kaalm.Agent
