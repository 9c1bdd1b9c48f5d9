import Kaalm.Agent.Cluster

/-!
# Wakes

A wake is an annotation on the Agent. The controller removes it, at once if the Agent is awake, and
otherwise after it has committed the phase Resuming. An Agent that is Hibernating keeps the
annotation until it is Hibernated.

There is one way to lose a wake: while an Agent is Hibernating with a wake, a pass finds a violated
cross-check and moves the Agent to Degraded. The next pass sees a wake on an Agent that is neither
Hibernating nor Hibernated, and removes it (`wake_lost_in_degraded`). `wake_not_lost` says that in
every run without such a pass the annotation is only removed after Resuming was committed.
-/

namespace Kaalm.Agent

open Run

/-- What has become of a wake that was asked for in the sleep. -/
inductive WakeState
  | none
  | requested
  /-- The phase Resuming has been committed since. -/
  | committed
  deriving DecidableEq

/-- A cluster, with the fate of the wake. -/
structure WakeRun where
  cluster : Cluster := Cluster.init
  wake : WakeState := .none
  /-- A wake was removed before Resuming was committed. -/
  lost : Bool := false

def AgentObject.asleep (a : AgentObject) : Bool :=
  a.status.phase = .hibernating || a.status.phase = .hibernated

namespace WakeRun

/-- The fate of the wake after a step that changes the Agent from `a` to `b`. -/
def next (w : WakeRun) (op : Op) (a b : AgentObject) : WakeState :=
  match op with
  | .annotateWake _ => if a.asleep then .requested else w.wake
  | _ =>
    if a.wake && !b.wake then .none
    else if w.wake = .requested && b.status.phase = .resuming then .committed
    else w.wake

/-- The annotation is removed before Resuming was committed. -/
def loses (w : WakeRun) (a b : AgentObject) : Bool := w.wake = .requested && a.wake && !b.wake

def step (w : WakeRun) (op : Op) : Option WakeRun :=
  (w.cluster.step op).map fun c ↦
    { cluster := c
      wake := w.next op w.cluster.agent.current c.agent.current
      lost := w.lost || w.loses w.cluster.agent.current c.agent.current }

/-- No pass takes an Agent that is Hibernating with a wake to Degraded. -/
def StaysOutOfDegraded (w : WakeRun) : Op → Prop
  | .act => ∀ p ∈ w.cluster.pass, p.base = w.cluster.agent.version →
      w.cluster.agent.current.status.phase = .hibernating → w.cluster.agent.current.wake →
      p.reading.degradedReasons = []
  | _ => True

instance (w : WakeRun) : ∀ op, Decidable (w.StaysOutOfDegraded op)
  | .act => inferInstanceAs (Decidable (∀ p ∈ w.cluster.pass, _))
  | .annotateWake _ | .edit | .deleteAgent | .podEvent _ _ | .podGone _ | .deliverAgent
      | .deliverPods
  | .tick _ | .begin _ | .drop => isTrue trivial

end WakeRun

/-! ## The calls of a pass on a sleeping Agent -/

/-- The Agent has a wake and sleeps, or is being deleted. -/
structure Waits (a : AgentObject) : Prop where
  wake : a.wake = true
  asleep : a.asleep = true ∨ a.deleting = true

/-- The calls leave the Agent waiting until one of them commits Resuming. -/
def KeepsWake : AgentObject → List Action → Prop
  | _, [] => True
  | a, call :: todo =>
    match call.written a with
    | some b => Waits b ∧ KeepsWake b todo ∨ b.wake = true ∧ b.status.phase = .resuming
    | none => KeepsWake a todo

variable {a : AgentObject} {s : AgentStatus} {pods : List Pod} {r : Reading}

private theorem asleep_of_phase (h : a.asleep = true) :
    a.status.phase = .hibernating ∨ a.status.phase = .hibernated := by
  rw [AgentObject.asleep, Bool.or_eq_true, decide_eq_true_iff, decide_eq_true_iff] at h
  exact h

private theorem keepsWake_writeStatus (ha : Waits a)
    (hs : (s.phase = .hibernating ∨ s.phase = .hibernated) ∨ a.deleting = true)
    {todo : List Action} (htodo : ∀ b, Waits b → KeepsWake b todo) :
    KeepsWake a (.writeStatus s :: todo) := by
  have hwaits : Waits { a with status := s.stored } := by
    refine ⟨ha.wake, hs.imp_left ?_⟩
    rintro (h | h)
    · rw [AgentObject.asleep, Bool.or_eq_true]
      exact Or.inl (decide_eq_true h)
    · rw [AgentObject.asleep, Bool.or_eq_true]
      exact Or.inr (decide_eq_true h)
  exact Or.inl ⟨hwaits, htodo _ hwaits⟩

private theorem keepsWake_updateStatusIfChanged (ha : Waits a)
    (hs : s.phase = .hibernating ∨ s.phase = .hibernated) :
    KeepsWake a (updateStatusIfChanged a s r) := by
  rw [updateStatusIfChanged]
  split_ifs
  · exact keepsWake_writeStatus ha (Or.inl hs) fun _ _ ↦ trivial
  · trivial

private theorem keepsWake_reconcileDelete (ha : Waits a) (hdeleting : a.deleting = true) :
    KeepsWake a (reconcileDelete a s pods r) := by
  obtain ⟨rest, hrest, heq⟩ := exists_reconcileDelete a s pods r
  have hrest : ∀ b, Waits b → KeepsWake b rest := by
    intro b hb
    rcases hrest with rfl | ⟨uid, rfl⟩ | rfl
    · trivial
    · trivial
    · exact Or.inl ⟨⟨ha.wake, hb.asleep⟩, trivial⟩
  rw [heq]
  split_ifs
  · exact hrest a ha
  · exact keepsWake_writeStatus ha (Or.inr hdeleting) hrest
  · trivial

private theorem keepsWake_driveHibernating (ha : Waits a) (hs : s.phase = .hibernating) :
    KeepsWake a (driveHibernating s pods r) := by
  have hlast : KeepsWake a [.writeStatus s] :=
    keepsWake_writeStatus ha (Or.inl (Or.inl hs)) fun _ _ ↦ trivial
  rw [driveHibernating]
  cases ownedPod pods with
  | none =>
    refine keepsWake_writeStatus ha (Or.inl (Or.inr ?_)) fun _ _ ↦ trivial
    rw [hibernatedStatus, AgentStatus.setReady, AgentStatus.setPhase, hs, if_neg (by decide)]
  | some pod =>
    simp only
    split_ifs
    · exact hlast
    · exact hlast

/-- A pass on a sleeping Agent with a wake, if it does not go to Degraded. -/
private theorem keepsWake_reconcile (ha : Waits a)
    (hdegraded : a.status.phase = .hibernating → r.degradedReasons = []) :
    KeepsWake a (reconcile a pods r) := by
  rw [reconcile, untilPod]
  by_cases hdeleting : a.deleting = true
  · rw [if_pos hdeleting]
    exact keepsWake_reconcileDelete ha hdeleting
  rw [if_neg hdeleting]
  by_cases hfinalizer : (!a.finalizer) = true
  · rw [if_pos hfinalizer]
    exact Or.inl ⟨⟨ha.wake, ha.asleep⟩, trivial⟩
  have hphase := asleep_of_phase (ha.asleep.resolve_right hdeleting)
  have hstarted : started a r = a.status := by
    rw [started]
    rcases hphase with h | h <;> rw [h] <;> rfl
  rw [if_neg hfinalizer, hstarted, drive]
  rcases hphase with hphase | hphase
  · -- Hibernating: the annotation step leaves the wake alone.
    have hskip : reconcileWakeAnnotations a a.status r = none := by
      rw [reconcileWakeAnnotations, ha.wake, hphase]
      simp
    have hready :
        ∀ reason, KeepsWake a (updateStatusIfChanged a (a.status.setReady false reason) r) :=
      fun reason ↦ keepsWake_updateStatusIfChanged ha (Or.inl hphase)
    rw [hskip]
    simp only
    split_ifs
    · exact hready _
    · exact hready _
    · rw [reconcileDegraded, hdegraded hphase]
      simp only [hphase, reduceCtorEq, if_false]
      exact keepsWake_driveHibernating ha hphase
  · -- Hibernated: Resuming is committed before the annotation is removed.
    have hwake : reconcileWakeAnnotations a a.status r
        = some [.writeStatus (wakeStatus a.status r), .update false false a.finalizer] := by
      rw [reconcileWakeAnnotations, ha.wake, handleWake, if_pos hphase, hphase]
      rfl
    rw [hwake]
    refine Or.inr ⟨ha.wake, ?_⟩
    change (wakeStatus a.status r).phase = .resuming
    rw [wakeStatus, AgentStatus.setPhase, hphase]
    rfl

/-! ## The invariant -/

/-- While a wake is waited for, the Agent keeps it, and so does the pass. -/
structure WakeInv (w : WakeRun) : Prop where
  synced : w.cluster.Synced
  waits : w.wake = .requested → Waits w.cluster.agent.current
  keeps : w.wake = .requested → ∀ p ∈ w.cluster.pass, p.base = w.cluster.agent.version →
    KeepsWake p.copy p.todo
      ∨ p.copy.status.phase = .hibernating ∧ p.copy.wake = true ∧ p.reading.degradedReasons ≠ []
  notLost : w.lost = false

theorem wakeInv_init : WakeInv {} where
  synced := fun _ hp ↦ absurd hp (Option.not_mem_none _)
  waits := fun h ↦ absurd h (by decide)
  keeps := fun h ↦ absurd h (by decide)
  notLost := rfl

variable {w w' : WakeRun} {c : Cluster} {op : Op}

/-- A wake is waited for after a step if it was before, or if it is asked for now. -/
private theorem next_eq_requested {b : AgentObject} (h : w.next op a b = .requested) :
    w.wake = .requested ∧ ((∃ trigger, op = .annotateWake trigger) ∨ b.status.phase ≠ .resuming)
      ∨ (∃ trigger, op = .annotateWake trigger) ∧ a.asleep = true := by
  by_cases hop : ∃ trigger, op = .annotateWake trigger
  · obtain ⟨trigger, rfl⟩ := hop
    rw [WakeRun.next] at h
    split_ifs at h with hasleep
    · exact Or.inr ⟨⟨trigger, rfl⟩, hasleep⟩
    · exact Or.inl ⟨h, Or.inl ⟨trigger, rfl⟩⟩
  · have hnext : w.next op a b = if a.wake && !b.wake then .none
        else if w.wake = .requested && b.status.phase = .resuming then .committed else w.wake := by
      cases op with
      | annotateWake trigger => exact absurd ⟨trigger, rfl⟩ hop
      | _ => rfl
    rw [hnext] at h
    split_ifs at h with hremoved hresuming
    refine Or.inl ⟨h, Or.inr fun hphase ↦ hresuming ?_⟩
    rw [h, hphase]
    rfl

private theorem loses_eq_false {b : AgentObject} (h : w.wake = .requested → b.wake = true) :
    w.loses a b = false := by
  rw [WakeRun.loses]
  by_cases hwake : w.wake = .requested
  · rw [h hwake, Bool.not_true, Bool.and_false]
  · rw [decide_eq_false hwake, Bool.false_and, Bool.false_and]

/-- A step is safe if it keeps the Agent waiting, or commits Resuming first. -/
private theorem WakeInv.of_step (h : WakeInv w) (hsynced : c.Synced)
    (hwake : w.wake = .requested → c.agent.current.wake = true)
    (hwaits : w.next op w.cluster.agent.current c.agent.current = .requested →
      Waits c.agent.current)
    (hkeeps : w.next op w.cluster.agent.current c.agent.current = .requested →
      ∀ p ∈ c.pass, p.base = c.agent.version → KeepsWake p.copy p.todo
        ∨ p.copy.status.phase = .hibernating ∧ p.copy.wake = true
          ∧ p.reading.degradedReasons ≠ []) :
    WakeInv { cluster := c
              wake := w.next op w.cluster.agent.current c.agent.current
              lost := w.lost || w.loses w.cluster.agent.current c.agent.current } := by
  refine ⟨hsynced, hwaits, hkeeps, ?_⟩
  rw [h.notLost, loses_eq_false hwake]
  rfl

/-- A step that leaves the Agent alone and begins no pass. -/
private theorem WakeInv.quiet (h : WakeInv w) (hop : ∀ trigger, op ≠ .annotateWake trigger)
    (hsynced : c.Synced) (hagent : c.agent.current = w.cluster.agent.current)
    (hversion : c.agent.version = w.cluster.agent.version)
    (hpass : ∀ p ∈ c.pass, p ∈ w.cluster.pass) :
    WakeInv { cluster := c
              wake := w.next op w.cluster.agent.current c.agent.current
              lost := w.lost || w.loses w.cluster.agent.current c.agent.current } := by
  have hrequested : w.next op w.cluster.agent.current c.agent.current = .requested →
      w.wake = .requested := by
    intro hnext
    rcases next_eq_requested hnext with ⟨hwake, -⟩ | ⟨⟨trigger, htrigger⟩, -⟩
    · exact hwake
    · exact absurd htrigger (hop trigger)
  refine h.of_step hsynced (fun hwake ↦ ?_) (fun hnext ↦ ?_) fun hnext p hp hbase ↦ ?_
  · rw [hagent]
    exact (h.waits hwake).wake
  · rw [hagent]
    exact h.waits (hrequested hnext)
  · rw [hversion] at hbase
    exact h.keeps (hrequested hnext) p (hpass p hp) hbase

/-- Someone else writes the Agent: the pass cannot write it any more. -/
private theorem WakeInv.write (h : WakeInv w) {b : AgentObject}
    (hwaits : Waits w.cluster.agent.current → Waits b)
    (hasleep : (∃ trigger, op = .annotateWake trigger) → w.cluster.agent.current.asleep = true →
      Waits b) :
    WakeInv { cluster := { w.cluster with agent := w.cluster.agent.write b }
              wake := w.next op w.cluster.agent.current b
              lost := w.lost || w.loses w.cluster.agent.current b } := by
  refine h.of_step (c := { w.cluster with agent := w.cluster.agent.write b }) (h.synced.write b)
    (fun hwake ↦ (hwaits (h.waits hwake)).wake) (fun hnext ↦ ?_) fun hnext p hp hbase ↦ ?_
  · rcases next_eq_requested hnext with ⟨hwake, -⟩ | ⟨hop, ha⟩
    · exact hwaits (h.waits hwake)
    · exact hasleep hop ha
  · have hle := (h.synced p hp).1
    have hbase : p.base = w.cluster.agent.version + 1 := hbase
    exact absurd hle (by omega)

/-- A call of the pass that writes the Agent. -/
private theorem WakeInv.act_write (h : WakeInv w) {p : Pass} (hp : p ∈ w.cluster.pass)
    (hsafe : w.StaysOutOfDegraded .act) {call : Action} {rest : List Action} {b : AgentObject}
    (htodo : p.todo = call :: rest) (hwritten : call.written p.copy = some b)
    (hbase : p.base = w.cluster.agent.version) :
    w.wake = .requested →
      Waits b ∧ KeepsWake b rest ∨ b.wake = true ∧ b.status.phase = .resuming := by
  intro hwake
  have hcopy := (h.synced p hp).2 hbase
  rcases h.keeps hwake p hp hbase with hkeeps | ⟨hphase, hpwake, hreasons⟩
  · rw [htodo, KeepsWake, hwritten] at hkeeps
    exact hkeeps
  · rw [hcopy] at hphase hpwake
    exact absurd (hsafe p hp hbase hphase hpwake) hreasons

theorem WakeInv.step (h : WakeInv w) (hsafe : w.StaysOutOfDegraded op)
    (hstep : w.step op = some w') : WakeInv w' := by
  obtain ⟨c, hc, rfl⟩ := Option.map_eq_some_iff.mp hstep
  have hsynced := h.synced.step hc
  cases op with
  | annotateWake trigger =>
    obtain rfl := Option.some.inj hc
    refine h.write (fun ha ↦ ⟨rfl, ha.asleep⟩) fun _ ha ↦ ⟨rfl, Or.inl ha⟩
  | edit =>
    obtain rfl := Option.some.inj hc
    exact h.write (fun ha ↦ ha) (by rintro ⟨_, hop⟩; cases hop)
  | deleteAgent =>
    obtain rfl := Option.some.inj hc
    exact h.write (fun ha ↦ ⟨ha.wake, Or.inr rfl⟩) (by rintro ⟨_, hop⟩; cases hop)
  | podEvent uid e =>
    obtain rfl := Option.some.inj hc
    exact h.quiet (by intro _ hop; cases hop) hsynced rfl rfl fun _ hp ↦ hp
  | podGone uid =>
    obtain rfl := Option.some.inj hc
    exact h.quiet (by intro _ hop; cases hop) hsynced rfl rfl fun _ hp ↦ hp
  | deliverAgent =>
    obtain rfl := Option.some.inj hc
    exact h.quiet (by intro _ hop; cases hop) hsynced rfl rfl fun _ hp ↦ hp
  | deliverPods =>
    obtain rfl := Option.some.inj hc
    exact h.quiet (by intro _ hop; cases hop) hsynced rfl rfl fun _ hp ↦ hp
  | tick d =>
    obtain rfl := Option.some.inj hc
    exact h.quiet (by intro _ hop; cases hop) hsynced rfl rfl fun _ hp ↦ hp
  | begin r =>
    obtain ⟨-, rfl⟩ := Cluster.begin_eq_some hc
    refine h.of_step hsynced (fun hwake ↦ (h.waits hwake).wake) (fun hnext ↦ ?_)
      fun hnext p hp hbase ↦ ?_
    all_goals
      have hwake : w.wake = .requested := by
        rcases next_eq_requested hnext with ⟨hwake, -⟩ | ⟨⟨_, hop⟩, -⟩
        · exact hwake
        · cases hop
    · exact h.waits hwake
    · -- The new pass has the Agent as it is, so the lemma about passes applies.
      rw [Cluster.mem_pass_proceed hp] at hbase ⊢
      have hcopy := Cluster.newPass_synced hbase
      have hwaits : Waits (w.cluster.newPass r).copy := hcopy ▸ h.waits hwake
      by_cases hreasons : (w.cluster.newPass r).reading.degradedReasons = []
      · exact Or.inl (keepsWake_reconcile hwaits fun _ ↦ hreasons)
      · by_cases hphase : (w.cluster.newPass r).copy.status.phase = .hibernating
        · exact Or.inr ⟨hphase, hwaits.wake, hreasons⟩
        · exact Or.inl (keepsWake_reconcile hwaits fun h ↦ absurd h hphase)
  | act =>
    obtain ⟨p, hp, hact⟩ := Cluster.act_eq_some hc
    rcases Cluster.act_cases hact with
      ⟨call, rest, b, htodo, hwritten, hbase, rfl⟩ | ⟨call, rest, c₁, htodo, hwritten, hc₁, rfl⟩
    · have hnewPass := h.act_write hp hsafe htodo hwritten hbase
      refine h.of_step hsynced (fun hwake ↦ ?_) (fun hnext ↦ ?_) fun hnext q hq hqbase ↦ ?_
      · rcases hnewPass hwake with ⟨hwaits, -⟩ | ⟨hbwake, -⟩
        · exact hwaits.wake
        · exact hbwake
      all_goals
        obtain ⟨hwaits, hkeeps⟩ : Waits b ∧ KeepsWake b rest := by
          rcases next_eq_requested hnext with ⟨hwake, ⟨_, hop⟩ | hphase⟩ | ⟨⟨_, hop⟩, -⟩
          · cases hop
          · exact (hnewPass hwake).resolve_right fun hresuming ↦ hphase hresuming.2
          · cases hop
      · exact hwaits
      · rw [Cluster.mem_pass_proceed hq]
        exact Or.inl hkeeps
    · obtain ⟨hagent, -, -⟩ := Cluster.callPods_eq_some hc₁
      have hcurrent : (c₁.proceed p rest).agent = w.cluster.agent := hagent
      refine h.of_step hsynced (fun hwake ↦ ?_) (fun hnext ↦ ?_) fun hnext q hq hqbase ↦ ?_
      · rw [hcurrent]
        exact (h.waits hwake).wake
      all_goals
        have hwake : w.wake = .requested := by
          rcases next_eq_requested hnext with ⟨hwake, -⟩ | ⟨⟨_, hop⟩, -⟩
          · exact hwake
          · cases hop
      · rw [hcurrent]
        exact h.waits hwake
      · rw [Cluster.mem_pass_proceed hq] at hqbase ⊢
        rw [hcurrent] at hqbase
        have hkeeps := h.keeps hwake p hp hqbase
        rw [htodo, KeepsWake, hwritten] at hkeeps
        exact hkeeps
  | drop =>
    rw [Cluster.step] at hc
    split_ifs at hc
    obtain rfl := Option.some.inj hc
    exact h.quiet (by intro _ hop; cases hop) hsynced rfl rfl fun _ hp ↦
      absurd hp (Option.not_mem_none _)

/-! ## Wakes are not lost -/

/-- In every run in which no pass takes an Agent that is Hibernating with a wake to Degraded, a wake
asked for in the sleep is removed only after Resuming was committed. -/
theorem wake_not_lost {ops : List Op} (hrun : Runs WakeRun.step {} ops w)
    (hsafe : AllSteps WakeRun.step WakeRun.StaysOutOfDegraded {} ops) : w.lost = false :=
  (hrun.invariant_of_allSteps (fun _ _ _ ↦ WakeInv.step) hsafe wakeInv_init).notLost

/-- An Agent with an idle timeout of a minute that hibernates, and a gateway that has seen
nothing. -/
def idleReading : Reading where
  idleTimeout := 60 * Calendar.second
  hibernationEnabled := true
  replicas := some [{ startedAt := 0 }]

/-- A new Agent gets its Pod, runs, and goes to Hibernating after two silent minutes. -/
def untilHibernating : List Op :=
  [.begin idleReading, .act, .deliverAgent, .begin idleReading, .act, .act, .deliverAgent,
    .podEvent 0 (.ready true), .deliverPods, .deliverPods, .begin idleReading, .act, .deliverAgent,
    .tick 120000000000, .begin idleReading, .act, .deliverAgent, .begin idleReading, .act,
    .deliverAgent]

/-- A wake in Hibernating: the Agent settles Hibernated, and the wake resumes it. -/
theorem wake_resumes :
    ∃ w, Runs WakeRun.step {} (untilHibernating ++ [.annotateWake false, .deliverAgent,
        .begin idleReading, .act, .act, .podGone 0, .deliverPods, .deliverPods, .deliverAgent,
        .begin idleReading, .act, .deliverAgent, .begin idleReading, .act, .act]) w
      ∧ w.cluster.agent.current.status.phase = .resuming
      ∧ w.cluster.agent.current.wake = false ∧ w.lost = false := by
  obtain ⟨w, hw, hview⟩ := Option.map_eq_some_iff.mp
    (show (List.foldlM WakeRun.step {} (untilHibernating ++ [.annotateWake false, .deliverAgent,
        .begin idleReading, .act, .act, .podGone 0, .deliverPods, .deliverPods, .deliverAgent,
        .begin idleReading, .act, .deliverAgent, .begin idleReading, .act, .act])).map
        (fun w ↦ (w.cluster.agent.current.status.phase, w.cluster.agent.current.wake))
      = some (.resuming, false) by decide +kernel)
  simp only [Prod.mk.injEq] at hview
  exact ⟨w, hw, hview.1, hview.2, wake_not_lost hw (by decide +kernel)⟩

/-- A wake in Hibernating, and an edit of the class that the Agent violates: the pass goes to
Degraded, and the next one removes the wake. -/
theorem wake_lost_in_degraded :
    ∃ w, Runs WakeRun.step {} (untilHibernating ++ [.annotateWake false, .deliverAgent,
        .begin { idleReading with degradedReasons := ["HibernationNotAllowed"] }, .act,
        .deliverAgent, .begin idleReading, .act]) w
      ∧ w.cluster.agent.current.status.phase = .degraded
      ∧ w.cluster.agent.current.wake = false ∧ w.lost = true := by
  obtain ⟨w, hw, hview⟩ := Option.map_eq_some_iff.mp
    (show (List.foldlM WakeRun.step {} (untilHibernating ++ [.annotateWake false, .deliverAgent,
        .begin { idleReading with degradedReasons := ["HibernationNotAllowed"] }, .act,
        .deliverAgent, .begin idleReading, .act])).map
        (fun w ↦ (w.cluster.agent.current.status.phase, w.cluster.agent.current.wake, w.lost))
      = some (.degraded, false, true) by decide +kernel)
  simp only [Prod.mk.injEq] at hview
  exact ⟨w, hw, hview⟩

end Kaalm.Agent
