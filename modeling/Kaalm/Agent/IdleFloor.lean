import Kaalm.Agent.Wake
import Kaalm.Agent.Writes

/-!
# The idle timeout of a replacement Pod

A Pod that was created after a wake, for a drift or after a disruption is to have a full idle
timeout from the time it is first seen Ready. The controller grants it by setting `lastActivityTime`
at Ready, if the phase is Resuming, or if it is neither Running nor Idle and the `PodUpToDate`
condition has the reason of a replacement (`AgentStatus.floors`).

## When the floor is missed

* A woken Agent whose Pod backs off on the way is Failed, not Resuming, when the Pod turns Ready,
  and hibernation has removed the condition (`idle_at_first_ready`).
* The status write at the end of the pass that created the Pod is lost, and the phase is still
  Running or Idle when the Pod turns Ready.
* `lastActivityTime` is stored without its fraction of a second, so the idle timeout ends up to a
  second early.

`idle_after_full_timeout` says that there is no other way.
-/

namespace Kaalm.Agent

open Run

/-! ## What a pass makes of the activity -/

namespace AgentStatus

/-- The floor is granted to a Pod that is seen Ready now. -/
def floors (s : AgentStatus) : Bool :=
  s.phase = .resuming || s.phase ≠ .running && s.phase ≠ .idle && s.floorsActivityAtReady

/-- The phase, or for a Degraded Agent the phase it goes back to. -/
def settledPhase (s : AgentStatus) : AgentPhase :=
  if s.phase = .degraded then s.preDegradedPhase else s.phase

/-- The activity is floored at `t`, to the second. -/
def FlooredAt (t : Time) (s : AgentStatus) : Prop := ∃ l ∈ s.lastActivityTime, truncateTime t ≤ l

variable {s : AgentStatus} {t now : Time}

theorem truncateTime_le (t : Time) : truncateTime t ≤ t := Int.ediv_mul_le t (by decide)

theorem truncateTime_mono {t u : Time} (h : t ≤ u) : truncateTime t ≤ truncateTime u :=
  Int.mul_le_mul_of_nonneg_right (Int.ediv_le_ediv (by decide) h) (by decide)

theorem truncateTime_truncateTime (t : Time) : truncateTime (truncateTime t) = truncateTime t := by
  rw [truncateTime, truncateTime, Int.mul_ediv_cancel _ (by decide)]

theorem FlooredAt.stored (h : FlooredAt t s) : FlooredAt t s.stored := by
  obtain ⟨l, hl, hle⟩ := h
  refine ⟨truncateTime l, ?_, ?_⟩
  · change s.lastActivityTime.map truncateTime = some (truncateTime l)
    rw [hl]
    rfl
  · rw [← truncateTime_truncateTime t]
    exact truncateTime_mono hle

theorem flooredAt_of_lastActivityTime (h : s.lastActivityTime = some now) (ht : t ≤ now) :
    FlooredAt t s :=
  ⟨now, h, Int.le_trans (truncateTime_le t) ht⟩

end AgentStatus

open AgentStatus

variable {a : AgentObject} {s c : AgentStatus} {pods : List Pod} {pod : Pod} {r : Reading}
  {t : Time}
  {held : Bool}

/-- The pass has observed no activity of its own and moves the Agent neither to Idle nor to
Hibernating. -/
structure Calm (a : AgentObject) (r : Reading) (s : AgentStatus) : Prop where
  activity : s.lastActivityTime = a.status.lastActivityTime ∨ s.lastActivityTime = some r.now
  phase : s.phase = .idle ∨ s.phase = .hibernating → s.phase = a.status.settledPhase

/-- A status with the activity and the phase of a calm one. -/
private theorem Calm.of_eq (h : Calm a r s) (hactivity : c.lastActivityTime = s.lastActivityTime)
    (hphase : c.phase = s.phase) : Calm a r c := by
  constructor
  · rw [hactivity]
    exact h.activity
  · rw [hphase]
    exact h.phase

/-- A status with the activity of a calm one and a phase in which nothing is measured. -/
private theorem Calm.of_phase (h : Calm a r s) (hactivity : c.lastActivityTime = s.lastActivityTime)
    (hidle : c.phase ≠ .idle) (hhibernating : c.phase ≠ .hibernating) : Calm a r c := by
  constructor
  · rw [hactivity]
    exact h.activity
  · rintro (h | h)
    · exact absurd h hidle
    · exact absurd h hhibernating

private theorem podPendingPhase_cases (s : AgentStatus) :
    s.podPendingPhase = .resuming ∨ s.podPendingPhase = .provisioning := by
  rw [podPendingPhase]
  split_ifs
  · exact Or.inl rfl
  · exact Or.inr rfl

private theorem podPendingPhase_ne (s : AgentStatus) {phase : AgentPhase} (h : phase ≠ .resuming)
    (h' : phase ≠ .provisioning) : s.podPendingPhase ≠ phase := by
  rcases podPendingPhase_cases s with hs | hs
  · rw [hs]
    exact h.symm
  · rw [hs]
    exact h'.symm

/-! ## The steps before the Pod -/

private theorem calm_started : Calm a r (started a r) := by
  rw [started]
  split_ifs with hunset
  · refine ⟨Or.inl (lastActivityTime_setPhase _), ?_⟩
    rw [phase_setPhase]
    rintro (h | h) <;> cases h
  · refine ⟨Or.inl rfl, ?_⟩
    rw [settledPhase]
    rintro (h | h) <;> rw [h] <;> rfl

private theorem calm_leaveDegraded (hphase : a.status.phase = .degraded) :
    Calm a r (leaveDegraded a.status r) := by
  refine ⟨Or.inl (lastActivityTime_setPhase _), ?_⟩
  have hrestored : (leaveDegraded a.status r).phase
      = if a.status.preDegradedPhase = .unset then .pending else a.status.preDegradedPhase :=
    phase_setPhase _
  rw [hrestored, settledPhase, if_pos hphase]
  split_ifs
  · rintro (h | h) <;> cases h
  · intro _
    rfl

/-- A pass that ends before the Pod step. -/
private theorem EarlyWrite.calm (h : EarlyWrite a r c) : Calm a r c := by
  cases h with
  | unchanged => exact calm_started
  | terminating =>
    refine ⟨Or.inl (lastActivityTime_setPhase _), ?_⟩
    simp only [phase_setPhase]
    rintro (h | h) <;> cases h
  | woken =>
    refine ⟨Or.inr rfl, ?_⟩
    simp only [wakeStatus, setReady, phase_setPhase]
    rintro (h | h) <;> cases h
  | notReady reason => exact calm_started.of_eq rfl rfl
  | degraded reason =>
    rw [enterOrStayDegraded]
    split_ifs
    · exact calm_started.of_eq rfl rfl
    · refine calm_started.of_phase (lastActivityTime_setPhase _) ?_ ?_
      all_goals
        rw [setReady, phase_setPhase]
        decide
  | recovered hphase => exact calm_leaveDegraded hphase
  | hibernated =>
    refine calm_started.of_phase (lastActivityTime_setPhase _) ?_ ?_
    all_goals
      simp only [hibernatedStatus, setReady, phase_setPhase]
      decide
  | certificate =>
    refine calm_started.of_phase (lastActivityTime_setPhase _) ?_ ?_
    all_goals
      rw [waitForCertificateWithoutPod, setReady, phase_setPhase]
      exact podPendingPhase_ne _ (by decide) (by decide)

/-! ## The Pod step -/

private theorem seesReady_of_error {actions : List Action}
    (h : untilPod a pods r = .error actions) :
    seesReady a pods r = none := by
  rw [seesReady, h]

private theorem seesReady_of_ok (h : untilPod a pods r = .ok s) :
    seesReady a pods r = (ownedPod pods).bind fun pod ↦
      if pod.deleting || pod.terminal
          || podDrifted pod r && r.certReady && admitsDriftReplacement s r then none
      else if pod.backOff.isNone && pod.ready then some pod else none := by
  rw [seesReady, h]
  cases ownedPod pods with
  | none => rfl
  | some pod => rfl

@[simp] private theorem phase_setPodReady (ok : Bool) (reason : String) :
    (setPodReady s held ok reason).phase = s.phase := by
  rw [setPodReady]
  split_ifs <;> rfl

@[simp] private theorem lastActivityTime_setPodReady (ok : Bool) (reason : String) :
    (setPodReady s held ok reason).lastActivityTime = s.lastActivityTime := by
  rw [setPodReady]
  split_ifs <;> rfl

@[simp] private theorem phase_driftWaiting : (driftWaiting s pod r held).phase = s.phase := by
  rw [driftWaiting]
  split_ifs <;> rfl

@[simp] private theorem lastActivityTime_driftWaiting :
    (driftWaiting s pod r held).lastActivityTime = s.lastActivityTime := by
  rw [driftWaiting]
  split_ifs <;> rfl

/-- The activity is as before, and nothing is measured in the phase. -/
private structure Unmeasured (s c : AgentStatus) : Prop where
  activity : c.lastActivityTime = s.lastActivityTime
  phase : c.phase = .resuming ∨ c.phase = .provisioning ∨ c.phase = .failed

private theorem Unmeasured.calm (h : Unmeasured s c) (hs : Calm a r s) : Calm a r c := by
  refine hs.of_phase h.activity ?_ ?_
  all_goals
    rcases h.phase with hphase | hphase | hphase <;> rw [hphase] <;> decide

/-- The Agent waits for a Pod. -/
private theorem unmeasured_pending {marked : AgentStatus}
    (hmarked : marked.lastActivityTime = s.lastActivityTime) (held ok : Bool)
    (reason : String) :
    Unmeasured s (setPodReady (marked.setPhase marked.podPendingPhase r.now) held ok reason) := by
  constructor
  · rw [lastActivityTime_setPodReady, lastActivityTime_setPhase, hmarked]
  · rw [phase_setPodReady, phase_setPhase]
    rcases podPendingPhase_cases marked with h | h
    · exact Or.inl h
    · exact Or.inr (Or.inl h)

private theorem unmeasured_replacing : Unmeasured s (replacingStatus s r) := by
  constructor
  · rw [replacingStatus, setReady]
    exact lastActivityTime_setPhase _
  · rw [replacingStatus, setReady]
    simp only [phase_setPhase]
    rcases podPendingPhase_cases s with h | h
    · exact Or.inl h
    · exact Or.inr (Or.inl h)

private theorem unmeasured_readPod {before : AgentStatus}
    (h : (pod.backOff.isNone && pod.ready) = false) :
    Unmeasured s (readPod (driftWaiting s pod r held) pod r held before) := by
  rw [readPod]
  cases hback : pod.backOff with
  | some reason =>
    constructor
    · simp
    · exact Or.inr (Or.inr (by simp))
  | none =>
    rw [hback, Option.isNone_none, Bool.true_and] at h
    simp only [h, Bool.false_eq_true, if_false]
    exact unmeasured_pending lastActivityTime_driftWaiting _ _ _

private theorem unmeasured_createAgentPod : Unmeasured s (createAgentPod s r).2 := by
  have hpending : ∀ reason, Unmeasured s
      ((s.markDisrupted.setPhase s.markDisrupted.podPendingPhase r.now).setReady false reason) :=
    fun reason ↦ unmeasured_pending lastActivityTime_markDisrupted false false reason
  rw [createAgentPod]
  by_cases hrejected : r.createRejected = true
  · rw [if_pos hrejected]
    exact hpending _
  · rw [if_neg hrejected]
    exact hpending _

private theorem calm_createAgentPod (hs : Calm a r s)
    (h : .writeStatus c ∈ (createAgentPod s r).1) : Calm a r c := by
  have hc : c = s.markDisrupted := by
    rw [createAgentPod] at h
    split_ifs at h <;> simp at h
    · exact h
    · exact h
  rw [hc]
  exact hs.of_eq lastActivityTime_markDisrupted phase_markDisrupted

/-- The Pod step without a Ready Pod. -/
private theorem convergePod_of_not_seesReady (hok : untilPod a pods r = .ok s)
    (h : seesReady a pods r = none) (hs : Calm a r s) :
    (∀ c, .writeStatus c ∈ (convergePod s pods r !r.certReady).1 → Calm a r c)
      ∧ Unmeasured s (convergePod s pods r !r.certReady).2 := by
  rw [seesReady_of_ok hok] at h
  rw [convergePod]
  cases hpod : ownedPod pods with
  | none =>
    simp only
    split_ifs
    · exact ⟨fun c hc ↦ absurd hc List.not_mem_nil,
        unmeasured_pending (show s.lastActivityTime = _ from rfl) false false "CertificateNotReady"⟩
    · exact ⟨fun c hc ↦ calm_createAgentPod hs hc, unmeasured_createAgentPod⟩
  | some pod =>
    rw [hpod, Option.bind_some] at h
    simp only
    split_ifs with hdeleting hterminal hdrift
    · exact ⟨fun c hc ↦ absurd hc List.not_mem_nil,
        unmeasured_pending lastActivityTime_markDisrupted _ _ _⟩
    · exact ⟨fun c hc ↦ by simp at hc, unmeasured_pending lastActivityTime_markDisrupted _ _ _⟩
    · refine ⟨fun c hc ↦ ?_, unmeasured_replacing⟩
      have hc : c = replacingStatus s r := by simpa using hc
      rw [hc]
      exact unmeasured_replacing.calm hs
    · refine ⟨fun c hc ↦ absurd hc List.not_mem_nil, unmeasured_readPod ?_⟩
      rw [Bool.not_not] at hdrift
      rw [if_neg (by simp [hdeleting, hterminal, hdrift])] at h
      split_ifs at h with hready
      exact Bool.eq_false_iff.mpr hready

private theorem floors_of_idle (h : s.phase = .idle) : s.floors = false := by
  rw [floors, h]
  rfl

private theorem floors_of_ne_idle (h : s.phase ≠ .idle) :
    s.floors = (s.phase ≠ .running && (s.phase = .resuming || s.floorsActivityAtReady)) := by
  rw [floors]
  cases hphase : s.phase with
  | idle => exact absurd hphase h
  | _ => simp

/-- The Pod step with a Ready Pod: the Agent is served, and floored if it is due. -/
private theorem readPod_of_ready (held : Bool) (hback : pod.backOff = none)
    (hready : pod.ready = true) :
    (readPod (driftWaiting s pod r held) pod r held s).phase
        = (if s.phase = .idle then .idle else .running)
      ∧ (readPod (driftWaiting s pod r held) pod r held s).lastActivityTime
        = if s.floors then some r.now else s.lastActivityTime := by
  rw [readPod, hback]
  simp only [hready, if_true, phase_driftWaiting]
  by_cases hidle : s.phase = .idle
  · rw [floors_of_idle hidle]
    simp only [hidle, if_true, Bool.false_eq_true, if_false]
    constructor
    · split_ifs <;> simp [setPodUpToDate, hidle]
    · split_ifs <;> simp [setPodUpToDate]
  · rw [← floors_of_ne_idle hidle]
    simp only [hidle, if_false]
    constructor
    · split_ifs <;> simp [setPodUpToDate]
    · split_ifs <;> simp [setPodUpToDate]

/-! ## The activity step -/

private theorem le_laterOf (last : Time) {floor : Option Time} {l : Time} (h : l ∈ floor) :
    l ≤ laterOf last floor := by
  obtain rfl := h
  rw [laterOf]
  split_ifs with hlt
  · exact Int.le_refl l
  · exact Int.not_lt.mp hlt

private theorem lt_of_silent {l start timeout delay now : ℤ} (hl : l ≤ start) (hdelay : 0 ≤ delay)
    (h : timeout + delay < now - start) : l + timeout < now := by
  omega

/-- What the activity step may do: nothing, go back to Running, or move on after an idle timeout
that is not measured from before the recorded activity. -/
private structure Measured (s c : AgentStatus) (r : Reading) : Prop where
  floored : ∀ t, FlooredAt t s → FlooredAt t c
  timeout : c.phase = .idle ∨ c.phase = .hibernating → c.phase = s.phase
    ∨ 0 < r.idleTimeout ∧ ∀ l ∈ s.lastActivityTime, l + r.idleTimeout < r.now

private theorem Measured.refl : Measured s s r :=
  ⟨fun _ h ↦ h, fun _ ↦ Or.inl rfl⟩

private theorem measured_evaluateRunning (hpos : 0 < r.idleTimeout) (last : Time) :
    Measured s (evaluateRunning s r last) r := by
  rw [evaluateRunning]
  split_ifs with hsilent
  · constructor
    · rintro t ⟨l, hl, hle⟩
      exact ⟨_, rfl, Int.le_trans hle (le_laterOf last hl)⟩
    · intro _
      refine Or.inr ⟨hpos, fun l hl ↦ ?_⟩
      exact lt_of_silent (le_laterOf last hl) (Int.le_refl 0) (by rwa [Int.add_zero])
  · exact .refl

private theorem measured_hibernating (hpos : 0 < r.idleTimeout) {start : Time} {enabled : Bool}
    (hstart : ∀ l ∈ s.lastActivityTime, l ≤ start) :
    Measured s (if enabled && r.idleTimeout + r.hibernationDelay < r.now - start then
      s.setPhase .hibernating r.now else s) r := by
  split_ifs with hsilent
  · rw [Bool.and_eq_true, decide_eq_true_iff] at hsilent
    constructor
    · rintro t ⟨l, hl, hle⟩
      exact ⟨l, by rwa [lastActivityTime_setPhase], hle⟩
    · intro _
      exact Or.inr ⟨hpos, fun l hl ↦ lt_of_silent (hstart l hl) (Int.natCast_nonneg _) hsilent.2⟩
  · exact .refl

private theorem measured_evaluateIdle (hpos : 0 < r.idleTimeout) (last : Time)
    (synthetic hibernationHeld : Bool) :
    Measured s (evaluateIdle s r last synthetic hibernationHeld) r := by
  have hstart : ∀ l ∈ s.lastActivityTime,
      l ≤ if synthetic then s.lastActivityTime.getD last else laterOf last s.lastActivityTime := by
    intro l hl
    split_ifs
    · exact Int.le_of_eq (by rw [Option.mem_def.mp hl, Option.getD_some])
    · exact le_laterOf last hl
  rw [evaluateIdle]
  by_cases hactive : (!synthetic && s.lastActivityTime.any (· < truncateTime last)) = true
  · rw [if_pos hactive]
    constructor
    · rintro t ⟨l, hl, hle⟩
      rw [Option.mem_def.mp hl, Bool.and_eq_true, Option.any_some, decide_eq_true_iff] at hactive
      exact ⟨last, rfl,
        Int.le_trans hle (Int.le_trans (Int.le_of_lt hactive.2) (truncateTime_le last))⟩
    · simp only [phase_setPhase]
      rintro (h | h) <;> cases h
  · rw [if_neg hactive]
    exact measured_hibernating hpos hstart

private theorem measured_activityStep (hibernationHeld : Bool) :
    Measured s (activityStep s r hibernationHeld) r := by
  rw [activityStep]
  split
  · split_ifs with hpos
    · rw [evaluateActivity]
      split
      · exact .refl
      · split
        · exact measured_evaluateRunning hpos _
        · exact measured_evaluateIdle hpos _ _ _
        · exact .refl
    · exact .refl
  · exact .refl

/-- In the other phases nothing is measured. -/
private theorem Unmeasured.activityStep (h : Unmeasured s c) (hibernationHeld : Bool) :
    activityStep c r hibernationHeld = c := by
  have heval : ∀ replicas, evaluateActivity c r replicas hibernationHeld = c := by
    intro replicas
    rw [evaluateActivity]
    split
    · rfl
    · rcases h.phase with hphase | hphase | hphase <;> rw [hphase]
  rw [Agent.activityStep]
  split
  · rw [heval, ite_self]
  · rfl

/-! ## The status writes of a pass -/

private theorem floors_started : (started a r).floors = a.status.floors := by
  rw [started]
  split_ifs with hunset
  · rw [setPhase, hunset, if_neg (by decide), floors, floors, hunset]
    rfl
  · rfl

private theorem lastActivityTime_started :
    (started a r).lastActivityTime = a.status.lastActivityTime := by
  rw [started]
  split_ifs
  · exact lastActivityTime_setPhase _
  · rfl

/-- A pass that sees no Ready Pod writes calm statuses. -/
private theorem calm_of_not_seesReady (h : seesReady a pods r = none)
    (hc : .writeStatus c ∈ reconcile a pods r) : Calm a r c := by
  rw [reconcile] at hc
  cases huntil : untilPod a pods r with
  | error actions =>
    rw [huntil] at hc
    obtain ⟨c₀, hearly, hwrites⟩ := writesEarly_of_untilPod huntil
    rw [hwrites c hc]
    exact hearly.calm
  | ok s =>
    rw [huntil] at hc
    change _ ∈ (convergePod s pods r !r.certReady).1
      ++ updateStatusIfChanged a (activityStep (convergePod s pods r !r.certReady).2 r _) r at hc
    have hs : Calm a r s := (untilPod_eq_ok huntil).1 ▸ calm_started
    obtain ⟨hwrites, hconverged⟩ := convergePod_of_not_seesReady huntil h hs
    rcases List.mem_append.mp hc with hc | hc
    · exact hwrites c hc
    · rw [mem_updateStatusIfChanged hc, hconverged.activityStep]
      exact hconverged.calm hs

/-- A pass that sees a Ready Pod floors the activity if that is due, and then measures it. -/
private theorem measured_of_seesReady (h : seesReady a pods r = some pod)
    (hc : .writeStatus c ∈ reconcile a pods r) :
    ∃ served, Measured served c r
      ∧ served.phase = (if a.status.phase = .idle then .idle else .running)
      ∧ served.lastActivityTime
        = (if a.status.floors then some r.now else a.status.lastActivityTime) := by
  rw [reconcile] at hc
  cases huntil : untilPod a pods r with
  | error actions =>
    rw [seesReady_of_error huntil] at h
    cases h
  | ok s =>
    obtain ⟨rfl, -, -⟩ := untilPod_eq_ok huntil
    rw [huntil] at hc
    rw [seesReady_of_ok huntil] at h
    obtain ⟨pod', hpod', h⟩ := Option.bind_eq_some_iff.mp h
    split_ifs at h with hgone hready
    obtain rfl := Option.some.inj h
    simp only [Bool.or_eq_true, not_or, Bool.not_eq_true] at hgone
    obtain ⟨⟨hdeleting, hterminal⟩, hdrift⟩ := hgone
    rw [Bool.and_eq_true, Option.isNone_iff_eq_none] at hready
    have hconverge : convergePod (started a r) pods r (!r.certReady)
        = ([], readPod (driftWaiting (started a r) pod' r (!r.certReady)) pod' r (!r.certReady)
          (started a r)) := by
      rw [convergePod, hpod']
      simp only [hdeleting, hterminal, hdrift, Bool.not_not, Bool.false_eq_true, if_false]
    have hc' : .writeStatus c ∈ podStep a (started a r) pods r := hc
    rw [podStep, hconverge] at hc'
    obtain ⟨hphase, hactivity⟩ := readPod_of_ready (s := started a r) (r := r) (!r.certReady)
      hready.1 hready.2
    refine ⟨_, ?_, hphase.trans ?_, hactivity.trans ?_⟩
    · rw [mem_updateStatusIfChanged hc']
      exact measured_activityStep _
    · simp only [phase_started_eq_idle]
    · rw [floors_started, lastActivityTime_started]

/-! ## Runs -/

/-- The Pod that the pass sees Ready. -/
def Pass.seen (p : Pass) : Option Pod := seesReady p.read p.pods p.reading

/-- With this status the pass moves the Agent to Idle or Hibernating. -/
def Pass.idles (p : Pass) (s : AgentStatus) : Bool :=
  (s.phase = .idle || s.phase = .hibernating) && s.phase ≠ p.read.status.settledPhase

/-- A cluster, with the replacement Pods and when they were seen Ready. -/
structure FloorRun where
  cluster : Cluster := Cluster.init
  /-- The Pods that were created when an earlier one was gone. -/
  replacements : List ℕ := []
  /-- The replacements that were seen Ready, with the time of the first pass that did. -/
  readyAt : List (ℕ × Time) := []
  /-- No pass that saw the last of them has written its status. -/
  owed : Bool := false
  /-- A pass has moved the Agent before a replacement had its idle timeout. -/
  early : Bool := false

namespace FloorRun

/-- The replacement that the pass is the first to see Ready. -/
def firstSight (m : FloorRun) (p : Pass) : Option ℕ :=
  (p.seen.map Pod.uid).filter fun uid ↦
    m.replacements.contains uid && !(m.readyAt.map Prod.fst).contains uid

def observe (m : FloorRun) (p : Pass) : FloorRun :=
  match m.firstSight p with
  | some uid => { m with readyAt := (uid, p.reading.now) :: m.readyAt, owed := true }
  | none => m

/-- Some replacement has not had its idle timeout when the pass begins. -/
def tooEarly (m : FloorRun) (p : Pass) : Bool :=
  m.readyAt.any fun x ↦ p.reading.now < x.2 + p.reading.idleTimeout

def commit (m : FloorRun) (p : Pass) : FloorRun :=
  match p.todo with
  | .writeStatus s :: _ =>
    { m with owed := m.owed && p.seen.isNone, early := m.early || p.idles s && m.tooEarly p }
  | .createPod _ _ :: _ =>
    if 0 < m.cluster.created && !m.cluster.pods.current.any Pod.live then
      { m with replacements := m.cluster.created :: m.replacements }
    else m
  | _ => m

def step (m : FloorRun) (op : Op) : Option FloorRun :=
  (m.cluster.step op).map fun c ↦
    match op with
    | .begin r => { m.observe (m.cluster.newPass r) with cluster := c }
    | .act => { m.cluster.pass.elim m m.commit with cluster := c }
    | _ => { m with cluster := c }

/-- A pass that sees a Pod Ready while a floor is owed can grant it, and no pass reads the clock in
the second that the stored activity has lost. -/
def FloorsInTime (m : FloorRun) : Op → Prop
  | .begin r =>
    let p := m.cluster.newPass r
    (p.base = m.cluster.agent.version → p.seen.isSome → (m.observe p).owed → p.read.status.floors)
      ∧ ∀ x ∈ m.readyAt, p.reading.now ≤ truncateTime x.2 + p.reading.idleTimeout
        ∨ x.2 + p.reading.idleTimeout ≤ p.reading.now
  | _ => True

instance (m : FloorRun) : ∀ op, Decidable (m.FloorsInTime op)
  | .begin _ => inferInstanceAs (Decidable (_ ∧ _))
  | .act | .annotateWake _ | .edit | .deleteAgent | .podEvent _ _ | .podGone _ | .deliverAgent
  | .deliverPods | .tick _ | .drop => isTrue trivial

end FloorRun

variable {m m' : FloorRun} {p : Pass} {op : Op} {cluster : Cluster}

/-- The pass may write the status. -/
structure Lawful (owed : Bool) (readyAt : List (ℕ × Time)) (p : Pass) (s : AgentStatus) : Prop where
  floored : owed = false ∨ p.seen.isSome = true → ∀ x ∈ readyAt, FlooredAt x.2 s.stored
  timely : p.idles s = true → owed = false
    ∧ ∀ x ∈ readyAt, x.2 + p.reading.idleTimeout ≤ p.reading.now

structure FloorInv (m : FloorRun) : Prop where
  synced : m.cluster.Synced
  past : ∀ x ∈ m.readyAt, x.2 ≤ m.cluster.clock
  floored : m.owed = false → ∀ x ∈ m.readyAt, FlooredAt x.2 m.cluster.agent.current.status
  lawful : ∀ p ∈ m.cluster.pass, p.base = m.cluster.agent.version →
    ∀ s, .writeStatus s ∈ p.todo → Lawful m.owed m.readyAt p s
  notEarly : m.early = false

theorem floorInv_init : FloorInv {} where
  synced := fun _ hp ↦ absurd hp (Option.not_mem_none _)
  past := fun _ hx ↦ absurd hx List.not_mem_nil
  floored := fun _ _ hx ↦ absurd hx List.not_mem_nil
  lawful := fun _ hp ↦ absurd hp (Option.not_mem_none _)
  notEarly := rfl

/-- A step that neither begins a pass nor writes a status. -/
private theorem FloorInv.quiet (h : FloorInv m) (hsynced : cluster.Synced)
    (hclock : m.cluster.clock ≤ cluster.clock)
    (hstatus : cluster.agent.current.status = m.cluster.agent.current.status)
    (hpass : ∀ p ∈ cluster.pass, p.base = cluster.agent.version →
      ∀ s, .writeStatus s ∈ p.todo → Lawful m.owed m.readyAt p s) (replacements : List ℕ) :
    FloorInv { m with cluster := cluster, replacements := replacements } where
  synced := hsynced
  past := fun x hx ↦ Int.le_trans (h.past x hx) hclock
  floored := by
    intro howed x hx
    change FlooredAt x.2 cluster.agent.current.status
    rw [hstatus]
    exact h.floored howed x hx
  lawful := hpass
  notEarly := h.notEarly

/-- Someone else writes the Agent: the pass cannot write it any more. -/
private theorem FloorInv.write (h : FloorInv m) {b : AgentObject}
    (hstatus : b.status = m.cluster.agent.current.status) :
    FloorInv { m with cluster := { m.cluster with agent := m.cluster.agent.write b } } := by
  refine h.quiet (h.synced.write b) (Int.le_refl _) hstatus (fun p hp hbase ↦ ?_) _
  have hle := (h.synced p hp).1
  have hbase : p.base = m.cluster.agent.version + 1 := hbase
  exact absurd hle (by omega)

private theorem observe_cases (m : FloorRun) (p : Pass) :
    m.observe p = m
      ∨ ∃ uid, m.observe p
        = { m with readyAt := (uid, p.reading.now) :: m.readyAt, owed := true } := by
  rw [FloorRun.observe]
  cases m.firstSight p with
  | none => exact Or.inl rfl
  | some uid => exact Or.inr ⟨uid, rfl⟩

private theorem flooredAt_of_calm (hc : Calm a r c) (ht : t ≤ r.now) (h : FlooredAt t a.status) :
    FlooredAt t c := by
  rcases hc.activity with hactivity | hactivity
  · rw [FlooredAt, hactivity]
    exact h
  · exact flooredAt_of_lastActivityTime hactivity ht

private theorem Pass.idles_iff : p.idles s = true ↔
    (s.phase = .idle ∨ s.phase = .hibernating) ∧ s.phase ≠ p.read.status.settledPhase := by
  rw [Pass.idles, Bool.and_eq_true, Bool.or_eq_true, decide_eq_true_iff, decide_eq_true_iff,
    decide_eq_true_iff]

/-- A new pass that sees no Ready Pod. -/
private theorem lawful_of_not_seen (hseen : p.seen = none) {readyAt : List (ℕ × Time)} {owed : Bool}
    (hpast : ∀ x ∈ readyAt, x.2 ≤ p.reading.now)
    (hfloored : owed = false → ∀ x ∈ readyAt, FlooredAt x.2 p.read.status)
    (hs : .writeStatus s ∈ reconcile p.read p.pods p.reading) : Lawful owed readyAt p s := by
  have hcalm := calm_of_not_seesReady hseen hs
  constructor
  · intro howed x hx
    rw [hseen, Option.isSome_none] at howed
    have howed := howed.resolve_right Bool.false_ne_true
    exact (flooredAt_of_calm hcalm (hpast x hx) (hfloored howed x hx)).stored
  · intro hidles
    obtain ⟨hphase, hmoved⟩ := Pass.idles_iff.mp hidles
    exact absurd (hcalm.phase hphase) hmoved

/-- A new pass that sees a Ready Pod. -/
private theorem lawful_of_seen (hseen : p.seen = some pod) {readyAt : List (ℕ × Time)} {owed : Bool}
    (hpast : ∀ x ∈ readyAt, x.2 ≤ p.reading.now)
    (hfloored : owed = false → ∀ x ∈ readyAt, FlooredAt x.2 p.read.status)
    (hfloors : owed = true → p.read.status.floors = true)
    (hwindow : owed = false → ∀ x ∈ readyAt,
      p.reading.now ≤ truncateTime x.2 + p.reading.idleTimeout
        ∨ x.2 + p.reading.idleTimeout ≤ p.reading.now)
    (hs : .writeStatus s ∈ reconcile p.read p.pods p.reading) : Lawful owed readyAt p s := by
  obtain ⟨served, hmeasured, hphase, hactivity⟩ := measured_of_seesReady hseen hs
  have hserved : ∀ x ∈ readyAt, FlooredAt x.2 served := by
    intro x hx
    by_cases hfloor : p.read.status.floors = true
    · rw [if_pos hfloor] at hactivity
      exact flooredAt_of_lastActivityTime hactivity (hpast x hx)
    · have howed : owed = false := Bool.eq_false_iff.mpr fun howed ↦ hfloor (hfloors howed)
      rw [if_neg hfloor] at hactivity
      rw [FlooredAt, hactivity]
      exact hfloored howed x hx
  constructor
  · intro _ x hx
    exact (hmeasured.floored x.2 (hserved x hx)).stored
  · intro hidles
    obtain ⟨hs, hmoved⟩ := Pass.idles_iff.mp hidles
    rcases hmeasured.timeout hs with hsame | ⟨hpos, hsilent⟩
    · -- The phase of a served Agent is Idle only if it was before.
      exfalso
      rw [hsame, hphase] at hs hmoved
      by_cases hidle : p.read.status.phase = .idle
      · rw [if_pos hidle, settledPhase, hidle] at hmoved
        exact hmoved rfl
      · rw [if_neg hidle] at hs
        rcases hs with hs | hs <;> cases hs
    · have howed : owed = false := by
        refine Bool.eq_false_iff.mpr fun howed ↦ ?_
        rw [if_pos (hfloors howed)] at hactivity
        have hlt := hsilent p.reading.now hactivity
        exact absurd hlt (Int.not_lt.mpr (Int.le_add_of_nonneg_right (Int.le_of_lt hpos)))
      refine ⟨howed, fun x hx ↦ (hwindow howed x hx).resolve_left ?_⟩
      obtain ⟨l, hl, hle⟩ := hserved x hx
      have hlt := hsilent l hl
      exact Int.not_le.mpr (Int.lt_of_le_of_lt (Int.add_le_add_right hle _) hlt)

private theorem FloorInv.begin (h : FloorInv m) (r : Reading) (hsafe : m.FloorsInTime (.begin r))
    (hsynced : (m.cluster.proceed (m.cluster.newPass r) (m.cluster.newPass r).todo).Synced) :
    FloorInv { m.observe (m.cluster.newPass r) with
      cluster := m.cluster.proceed (m.cluster.newPass r) (m.cluster.newPass r).todo } := by
  obtain ⟨hfloors, hwindow⟩ := hsafe
  have hpast : ∀ x ∈ (m.observe (m.cluster.newPass r)).readyAt, x.2 ≤ m.cluster.clock := by
    rcases observe_cases m (m.cluster.newPass r) with heq | ⟨uid, heq⟩
    · rw [heq]
      exact h.past
    · rw [heq]
      intro x hx
      rcases List.mem_cons.mp hx with rfl | hx
      · exact Int.le_refl _
      · exact h.past x hx
  have hold : (m.observe (m.cluster.newPass r)).owed = false →
      (m.observe (m.cluster.newPass r)).readyAt = m.readyAt ∧ m.owed = false := by
    rcases observe_cases m (m.cluster.newPass r) with heq | ⟨uid, heq⟩
    · rw [heq]
      exact fun howed ↦ ⟨rfl, howed⟩
    · rw [heq]
      intro howed
      cases howed
  have hfloored : (m.observe (m.cluster.newPass r)).owed = false →
      ∀ x ∈ (m.observe (m.cluster.newPass r)).readyAt,
        FlooredAt x.2 m.cluster.agent.current.status := by
    intro howed
    obtain ⟨hreadyAt, howed⟩ := hold howed
    rw [hreadyAt]
    exact h.floored howed
  refine ⟨hsynced, hpast, hfloored, fun p hp hbase s hs ↦ ?_, ?_⟩
  · rw [Cluster.mem_pass_proceed hp] at hbase hs ⊢
    have hread : (m.cluster.newPass r).read = m.cluster.agent.current :=
      Cluster.newPass_synced hbase
    rw [← hread] at hfloored
    cases hseen : (m.cluster.newPass r).seen with
    | none => exact lawful_of_not_seen hseen hpast hfloored hs
    | some pod =>
      refine lawful_of_seen hseen hpast hfloored (fun howed ↦ ?_) (fun howed x hx ↦ ?_) hs
      · exact hfloors hbase (by rw [hseen]; rfl) howed
      · rw [(hold howed).1] at hx
        exact hwindow x hx
  · rcases observe_cases m (m.cluster.newPass r) with heq | ⟨uid, heq⟩
    · rw [heq]
      exact h.notEarly
    · rw [heq]
      exact h.notEarly

/-- A call other than a status write is at most a new replacement. -/
private theorem commit_of_ne {call : Action} {rest : List Action} (htodo : p.todo = call :: rest)
    (hcall : ∀ s, call ≠ .writeStatus s) :
    ∃ replacements, m.commit p = { m with replacements := replacements } := by
  rw [FloorRun.commit, htodo]
  cases call with
  | update wake wakeTrigger finalizer => exact ⟨_, rfl⟩
  | writeStatus s => exact absurd rfl (hcall s)
  | createPod specHash tlsSecret =>
    simp only
    split_ifs
    · exact ⟨_, rfl⟩
    · exact ⟨_, rfl⟩
  | deletePod uid ignoreNotFound => exact ⟨_, rfl⟩

/-- The pass writes the status. -/
private theorem FloorInv.writeStatus (h : FloorInv m) (hp : p ∈ m.cluster.pass) {rest : List Action}
    (htodo : p.todo = .writeStatus s :: rest) (hbase : p.base = m.cluster.agent.version)
    (hsynced : cluster.Synced) (hclock : cluster.clock = m.cluster.clock)
    (hstatus : cluster.agent.current.status = s.stored)
    (hpass : ∀ q ∈ cluster.pass, q.read = p.read ∧ q.pods = p.pods ∧ q.reading = p.reading
      ∧ q.todo = rest) :
    FloorInv { m.commit p with cluster := cluster } := by
  have hlawful : ∀ s', .writeStatus s' ∈ p.todo → Lawful m.owed m.readyAt p s' :=
    h.lawful p hp hbase
  have hpaid : (m.owed && p.seen.isNone) = false → m.owed = false ∨ p.seen.isSome = true := by
    rw [Bool.and_eq_false_iff, Option.isNone_eq_false_iff]
    exact id
  have hs : Lawful m.owed m.readyAt p s := hlawful s (by rw [htodo]; exact List.mem_cons_self)
  rw [FloorRun.commit, htodo]
  refine ⟨hsynced, fun x hx ↦ ?_, fun howed x hx ↦ ?_, fun q hq _ s' hs' ↦ ?_, ?_⟩
  · change x.2 ≤ cluster.clock
    rw [hclock]
    exact h.past x hx
  · change FlooredAt x.2 cluster.agent.current.status
    rw [hstatus]
    exact hs.floored (hpaid howed) x hx
  · obtain ⟨hread, hpods, hreading, hrest⟩ := hpass q hq
    have hseen : q.seen = p.seen := by rw [Pass.seen, hread, hpods, hreading, Pass.seen]
    rw [hrest] at hs'
    have hs' := hlawful s' (by rw [htodo]; exact List.mem_cons_of_mem _ hs')
    constructor
    · rw [hseen]
      exact fun howed ↦ hs'.floored (howed.elim hpaid Or.inr)
    · rw [Pass.idles, hread, hreading]
      intro hidles
      obtain ⟨howed, htimely⟩ := hs'.timely hidles
      exact ⟨by rw [howed, Bool.false_and], htimely⟩
  · change (m.early || p.idles s && m.tooEarly p) = false
    rw [h.notEarly, Bool.false_or, Bool.and_eq_false_iff]
    by_cases hidles : p.idles s = true
    · right
      rw [FloorRun.tooEarly, List.any_eq_false]
      intro x hx
      rw [decide_eq_true_iff]
      exact Int.not_lt.mpr ((hs.timely hidles).2 x hx)
    · exact Or.inl (Bool.eq_false_iff.mpr hidles)

private theorem FloorInv.act (h : FloorInv m) (hstep : m.cluster.step .act = some cluster) :
    FloorInv { m.cluster.pass.elim m m.commit with cluster := cluster } := by
  have hsynced := h.synced.step hstep
  obtain ⟨p, hp, hact⟩ := Cluster.act_eq_some hstep
  rw [Option.mem_def.mp hp, Option.elim_some]
  rcases Cluster.act_cases hact with
    ⟨call, rest, b, htodo, hwritten, hbase, rfl⟩ | ⟨call, rest, c₁, htodo, hwritten, hc₁, rfl⟩
  · have hcopy := (h.synced p hp).2 hbase
    by_cases hcall : ∃ s, call = .writeStatus s
    · obtain ⟨s, rfl⟩ := hcall
      obtain rfl := Option.some.inj hwritten
      refine h.writeStatus hp htodo hbase hsynced rfl rfl fun q hq ↦ ?_
      rw [Cluster.mem_pass_proceed hq]
      exact ⟨rfl, rfl, rfl, rfl⟩
    · obtain ⟨replacements, hcommit⟩ := commit_of_ne (m := m) htodo (not_exists.mp hcall)
      have hstatus : b.status = p.copy.status := by
        cases call with
        | update wake wakeTrigger finalizer =>
          obtain rfl := Option.some.inj hwritten
          rfl
        | writeStatus s => exact absurd ⟨s, rfl⟩ hcall
        | createPod specHash tlsSecret => cases hwritten
        | deletePod uid ignoreNotFound => cases hwritten
      rw [hcommit]
      refine h.quiet hsynced (Int.le_refl _) (hstatus.trans (congrArg _ hcopy))
        (fun q hq _ s hs ↦ ?_) replacements
      rw [Cluster.mem_pass_proceed hq] at hs ⊢
      have hs := h.lawful p hp hbase s (by rw [htodo]; exact List.mem_cons_of_mem _ hs)
      exact ⟨hs.floored, hs.timely⟩
  · obtain ⟨replacements, hcommit⟩ := commit_of_ne (m := m) htodo fun s hs ↦ by
      rw [hs] at hwritten
      cases hwritten
    obtain ⟨hagent, -, hclock⟩ := Cluster.callPods_eq_some hc₁
    have hagent : (c₁.proceed p rest).agent = m.cluster.agent := hagent
    rw [hcommit]
    refine h.quiet hsynced (Int.le_of_eq hclock.symm) (by rw [hagent]) (fun q hq hqbase s hs ↦ ?_)
      replacements
    rw [Cluster.mem_pass_proceed hq] at hqbase hs ⊢
    rw [hagent] at hqbase
    have hs := h.lawful p hp hqbase s (by rw [htodo]; exact List.mem_cons_of_mem _ hs)
    exact ⟨hs.floored, hs.timely⟩

theorem FloorInv.step (h : FloorInv m) (hsafe : m.FloorsInTime op) (hstep : m.step op = some m') :
    FloorInv m' := by
  obtain ⟨c, hc, rfl⟩ := Option.map_eq_some_iff.mp hstep
  have hsynced := h.synced.step hc
  cases op with
  | annotateWake trigger =>
    obtain rfl := Option.some.inj hc
    exact h.write rfl
  | edit =>
    obtain rfl := Option.some.inj hc
    exact h.write rfl
  | deleteAgent =>
    obtain rfl := Option.some.inj hc
    exact h.write rfl
  | podEvent uid e =>
    obtain rfl := Option.some.inj hc
    exact h.quiet hsynced (Int.le_refl _) rfl h.lawful _
  | podGone uid =>
    obtain rfl := Option.some.inj hc
    exact h.quiet hsynced (Int.le_refl _) rfl h.lawful _
  | deliverAgent =>
    obtain rfl := Option.some.inj hc
    exact h.quiet hsynced (Int.le_refl _) rfl h.lawful _
  | deliverPods =>
    obtain rfl := Option.some.inj hc
    exact h.quiet hsynced (Int.le_refl _) rfl h.lawful _
  | tick d =>
    obtain rfl := Option.some.inj hc
    exact h.quiet hsynced (Int.le_add_of_nonneg_right (Int.natCast_nonneg d)) rfl h.lawful _
  | begin r =>
    obtain ⟨-, rfl⟩ := Cluster.begin_eq_some hc
    exact h.begin r hsafe hsynced
  | act => exact h.act hc
  | drop =>
    rw [Cluster.step] at hc
    split_ifs at hc
    obtain rfl := Option.some.inj hc
    exact h.quiet hsynced (Int.le_refl _) rfl (fun p hp ↦ absurd hp (Option.not_mem_none _)) _

/-! ## A full idle timeout -/

/-- In every run in which a floor that is owed can be granted whenever the Pod is seen Ready, and no
pass reads the clock in the second that the stored activity has lost, no pass moves the Agent to
Idle or Hibernating before a replacement has had its idle timeout. -/
theorem idle_after_full_timeout {ops : List Op} (hrun : Runs FloorRun.step {} ops m)
    (hsafe : AllSteps FloorRun.step FloorRun.FloorsInTime {} ops) : m.early = false :=
  (hrun.invariant_of_allSteps (fun _ _ _ ↦ FloorInv.step) hsafe floorInv_init).notEarly

/-- The last traffic was at the start of the run. -/
def trafficReading : Reading :=
  { idleReading with replicas := some [{ startedAt := 0, gatewayTraffic := some 0 }] }

/-- The hibernating Agent is woken and its second Pod is created. -/
def untilResuming : List Op :=
  untilHibernating
    ++ [.annotateWake false, .deliverAgent, .begin idleReading, .act, .act, .podGone 0,
    .deliverPods, .deliverPods, .deliverAgent, .begin idleReading, .act, .deliverAgent,
    .begin idleReading, .act, .act, .deliverAgent, .deliverAgent, .begin idleReading, .act, .act,
      .deliverAgent, .deliverPods]

/-- The woken Pod is Ready after a minute and a half, and Idle two minutes later. -/
theorem idle_after_wake :
    ∃ m, Runs FloorRun.step {} (untilResuming ++ [.tick 90000000000, .podEvent 1 (.ready true),
        .deliverPods, .begin trafficReading, .act, .deliverAgent, .tick 120000000000,
        .begin trafficReading, .act]) m
      ∧ m.readyAt = [(1, 210 * Calendar.second)] ∧ m.cluster.clock = 330 * Calendar.second
      ∧ m.cluster.agent.current.status.phase = .idle ∧ m.early = false := by
  obtain ⟨m, hm, hview⟩ := Option.map_eq_some_iff.mp
    (show (List.foldlM FloorRun.step {} (untilResuming ++ [.tick 90000000000,
        .podEvent 1 (.ready true), .deliverPods, .begin trafficReading, .act, .deliverAgent,
        .tick 120000000000, .begin trafficReading, .act])).map
        (fun m ↦ (m.readyAt, m.cluster.clock, m.cluster.agent.current.status.phase))
      = some ([(1, 210 * Calendar.second)], 330 * Calendar.second, .idle) by decide +kernel)
  simp only [Prod.mk.injEq] at hview
  exact ⟨m, hm, hview.1, hview.2.1, hview.2.2, idle_after_full_timeout hm (by decide +kernel)⟩

/-- The woken Pod cannot pull its image for a while. The pass that sees it Ready moves the Agent to
Idle. -/
theorem idle_at_first_ready :
    ∃ m, Runs FloorRun.step {} (untilResuming ++
        [.podEvent 1 (.containers [{ waiting := some "ImagePullBackOff" }]), .deliverPods,
        .begin idleReading, .act, .deliverAgent, .tick 90000000000, .podEvent 1 (.containers []),
        .podEvent 1 (.ready true), .deliverPods, .deliverPods, .begin trafficReading, .act]) m
      ∧ m.readyAt = [(1, 210 * Calendar.second)] ∧ m.cluster.clock = 210 * Calendar.second
      ∧ m.cluster.agent.current.status.phase = .idle ∧ m.early = true := by
  obtain ⟨m, hm, hview⟩ := Option.map_eq_some_iff.mp
    (show (List.foldlM FloorRun.step {} (untilResuming ++
        [.podEvent 1 (.containers [{ waiting := some "ImagePullBackOff" }]), .deliverPods,
        .begin idleReading, .act, .deliverAgent, .tick 90000000000, .podEvent 1 (.containers []),
        .podEvent 1 (.ready true), .deliverPods, .deliverPods, .begin trafficReading, .act])).map
        (fun m ↦ (m.readyAt, m.cluster.clock, m.cluster.agent.current.status.phase, m.early))
      = some ([(1, 210 * Calendar.second)], 210 * Calendar.second, .idle, true) by decide +kernel)
  simp only [Prod.mk.injEq] at hview
  exact ⟨m, hm, hview⟩

end Kaalm.Agent
