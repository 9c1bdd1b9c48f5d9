import Kaalm.Agent.Reconcile

/-!
# The status writes of a pass

What a pass can write to the status, said once: a pass that ends before the Pod step writes at most
one status, one of those of `EarlyWrite`; and a pass that reaches the Pod step has changed nothing
but the phase of a new Agent.
-/

namespace Kaalm.Agent

open AgentStatus

/-- The statuses that a pass writes when it ends before the Pod step. -/
inductive EarlyWrite (a : AgentObject) (r : Reading) : AgentStatus → Prop
  | unchanged : EarlyWrite a r (started a r)
  | terminating :
    EarlyWrite a r { a.status.setPhase .terminating r.now with preDegradedPhase := .unset }
  | woken : EarlyWrite a r (wakeStatus (started a r) r)
  | notReady (reason : String) : EarlyWrite a r ((started a r).setReady false reason)
  | degraded (reason : String) : EarlyWrite a r (enterOrStayDegraded (started a r) r reason)
  | recovered (h : a.status.phase = .degraded) : EarlyWrite a r (leaveDegraded a.status r)
  | hibernated : EarlyWrite a r (hibernatedStatus (started a r) r)
  | certificate : EarlyWrite a r ((started a r).waitForCertificateWithoutPod r.now)

/-- The calls write at most one status, an early one. -/
def WritesEarly (a : AgentObject) (r : Reading) (actions : List Action) : Prop :=
  ∃ c₀, EarlyWrite a r c₀ ∧ ∀ c, .writeStatus c ∈ actions → c = c₀

variable {a : AgentObject} {s c : AgentStatus} {pods : List Pod} {r : Reading}
  {actions : List Action}

theorem mem_updateStatusIfChanged (h : .writeStatus c ∈ updateStatusIfChanged a s r) : c = s := by
  rw [updateStatusIfChanged] at h
  split_ifs at h
  · exact Action.writeStatus.inj (List.mem_singleton.mp h)
  · cases h

private theorem writesEarly_of_not_mem (h : ∀ c, .writeStatus c ∉ actions) :
    WritesEarly a r actions :=
  ⟨_, .unchanged, fun c hc ↦ absurd hc (h c)⟩

private theorem writesEarly_singleton (h : EarlyWrite a r s) : WritesEarly a r [.writeStatus s] :=
  ⟨s, h, fun _ hc ↦ Action.writeStatus.inj (List.mem_singleton.mp hc)⟩

private theorem writesEarly_updateStatusIfChanged (h : EarlyWrite a r s) :
    WritesEarly a r (updateStatusIfChanged a s r) :=
  ⟨s, h, fun _ ↦ mem_updateStatusIfChanged⟩

private theorem writesEarly_reconcileDelete :
    WritesEarly a r (reconcileDelete a a.status pods r) := by
  obtain ⟨rest, hrest, heq⟩ := exists_reconcileDelete a a.status pods r
  have hrest : ∀ c, Action.writeStatus c ∉ rest := by
    rcases hrest with rfl | ⟨uid, rfl⟩ | rfl <;> simp
  rw [heq]
  split_ifs
  · exact writesEarly_of_not_mem hrest
  · exact ⟨_, .terminating, fun c hc ↦ Action.writeStatus.inj
      (List.mem_singleton.mp ((List.mem_append.mp hc).resolve_right (hrest c)))⟩
  · exact writesEarly_of_not_mem fun _ ↦ List.not_mem_nil

private theorem writesEarly_reconcileWakeAnnotations
    (h : reconcileWakeAnnotations a (started a r) r = some actions) : WritesEarly a r actions := by
  rw [reconcileWakeAnnotations, handleWake] at h
  split_ifs at h
  · obtain rfl := Option.some.inj h
    exact ⟨_, .woken, fun c hc ↦ by simpa using hc⟩
  · obtain rfl := Option.some.inj h
    exact writesEarly_of_not_mem (by simp)
  · obtain rfl := Option.some.inj h
    exact writesEarly_of_not_mem (by simp)

private theorem started_of_degraded (h : (started a r).phase = .degraded) :
    started a r = a.status := by
  rw [started] at h ⊢
  split_ifs at h ⊢ with hunset
  · rw [phase_setPhase] at h
    cases h
  · rfl

private theorem writesEarly_reconcileDegraded
    (h : reconcileDegraded (started a r) r = some actions) :
    WritesEarly a r actions := by
  rw [reconcileDegraded] at h
  split at h
  · obtain rfl := Option.some.inj h
    exact writesEarly_singleton (.degraded _)
  · split_ifs at h with hphase
    obtain rfl := Option.some.inj h
    have hstarted := started_of_degraded hphase
    rw [hstarted] at hphase ⊢
    exact writesEarly_singleton (.recovered hphase)

private theorem writesEarly_driveHibernating :
    WritesEarly a r (driveHibernating (started a r) pods r) := by
  rw [driveHibernating]
  split
  · refine ⟨_, .unchanged, fun c hc ↦ ?_⟩
    rcases List.mem_append.mp hc with hc | hc
    · split_ifs at hc <;> simp at hc
    · exact Action.writeStatus.inj (List.mem_singleton.mp hc)
  · exact writesEarly_singleton .hibernated

/-- Steps 6 to 8 end the pass, or leave the status alone. -/
private theorem beforePod_cases (a : AgentObject) (r : Reading) :
    (∃ actions, beforePod a (started a r) r = .error actions ∧ WritesEarly a r actions)
      ∨ beforePod a (started a r) r = .ok (started a r) := by
  have hready : ∀ reason, WritesEarly a r
      (updateStatusIfChanged a ((started a r).setReady false reason) r) :=
    fun reason ↦ writesEarly_updateStatusIfChanged (.notReady reason)
  rw [beforePod]
  split
  · exact Or.inl ⟨_, rfl, hready _⟩
  split
  · exact Or.inl ⟨_, rfl, hready _⟩
  split
  · exact Or.inl ⟨_, rfl, writesEarly_updateStatusIfChanged .certificate⟩
  split
  · exact Or.inl ⟨_, rfl, hready _⟩
  · exact Or.inr rfl

private theorem drive_cases (a : AgentObject) (pods : List Pod) (r : Reading) :
    (∃ actions, drive a (started a r) pods r = .error actions ∧ WritesEarly a r actions)
      ∨ drive a (started a r) pods r = .ok (started a r) ∧ (started a r).phase ≠ .degraded
        ∧ (started a r).phase ≠ .hibernating := by
  rw [drive]
  split
  · next hwake => exact Or.inl ⟨_, rfl, writesEarly_reconcileWakeAnnotations hwake⟩
  split_ifs
  · exact Or.inl ⟨_, rfl, writesEarly_updateStatusIfChanged (.notReady _)⟩
  · exact Or.inl ⟨_, rfl, writesEarly_updateStatusIfChanged (.notReady _)⟩
  split
  · next hdegraded => exact Or.inl ⟨_, rfl, writesEarly_reconcileDegraded hdegraded⟩
  next hdegraded =>
    have hphase : (started a r).phase ≠ .degraded := by
      intro hphase
      rw [reconcileDegraded, if_pos hphase] at hdegraded
      split at hdegraded <;> cases hdegraded
    split
    · exact Or.inl ⟨_, rfl, writesEarly_driveHibernating⟩
    · exact Or.inl ⟨_, rfl, writesEarly_updateStatusIfChanged .unchanged⟩
    · next hhibernating _ =>
      rcases beforePod_cases a r with h | h
      · exact Or.inl h
      · exact Or.inr ⟨h, hphase, hhibernating⟩

private theorem untilPod_cases (a : AgentObject) (pods : List Pod) (r : Reading) :
    (∃ actions, untilPod a pods r = .error actions ∧ WritesEarly a r actions)
      ∨ untilPod a pods r = .ok (started a r) ∧ (started a r).phase ≠ .degraded
        ∧ (started a r).phase ≠ .hibernating := by
  rw [untilPod]
  split_ifs
  · exact Or.inl ⟨_, rfl, writesEarly_reconcileDelete⟩
  · exact Or.inl ⟨_, rfl, writesEarly_of_not_mem (by simp)⟩
  · exact drive_cases a pods r

/-- A pass that ends before the Pod step. -/
theorem writesEarly_of_untilPod (h : untilPod a pods r = .error actions) :
    WritesEarly a r actions := by
  rcases untilPod_cases a pods r with ⟨actions', herror, hwrites⟩ | ⟨hok, -⟩
  · rw [h] at herror
    rw [Except.error.inj herror]
    exact hwrites
  · rw [h] at hok
    cases hok

/-- A pass that reaches the Pod step. -/
theorem untilPod_eq_ok (h : untilPod a pods r = .ok s) :
    s = started a r ∧ s.phase ≠ .degraded ∧ s.phase ≠ .hibernating := by
  rcases untilPod_cases a pods r with ⟨actions', herror, -⟩ | ⟨hok, hphase⟩
  · rw [h] at herror
    cases herror
  · rw [h] at hok
    obtain rfl := Except.ok.inj hok
    exact ⟨rfl, hphase⟩

theorem phase_started_eq_idle : (started a r).phase = .idle ↔ a.status.phase = .idle := by
  rw [started]
  split_ifs with hunset
  · rw [phase_setPhase, hunset]
    decide
  · rfl

end Kaalm.Agent
