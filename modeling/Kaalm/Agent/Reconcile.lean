import Kaalm.Foundation.Calendar
import Mathlib.Tactic.Common

/-!
# The reconcile pass of an Agent

`reconcile` is one pass of the Agent controller as a function: from the Agent and the Pods the pass
read, and from everything else it read, to the API calls it makes, in order. A call that fails ends
the pass, so a pass that is cut short has made the first of these calls.

What the pass reads of classes, providers, Secrets, ConfigMaps, the Certificate and the gateways is
a `Reading`: the verdicts of the checks that read them. `granted` is the answer of the drift slots,
and `createRejected` says whether the API server rejects the create of a Pod.

Messages and events are left out, and so are the status fields that no decision reads.
-/

namespace Kaalm.Agent

/-! ## The Agent -/

inductive AgentPhase
  | unset
  | pending
  | provisioning
  | running
  | idle
  | hibernating
  | hibernated
  | resuming
  | degraded
  | failed
  | terminating
  deriving DecidableEq, Repr

/-- The reason of the `PodUpToDate` condition. -/
inductive PodUpToDate
  | current
  | replacementPending
  | certificateNotReady
  | replacing
  | podDisrupted
  deriving DecidableEq, Repr

structure AgentStatus where
  phase : AgentPhase := .unset
  phaseTransitionTime : Option Time := none
  preDegradedPhase : AgentPhase := .unset
  /-- The condition is absent until a Pod has been Ready or has drifted. -/
  podUpToDate : Option PodUpToDate := none
  lastActivityTime : Option Time := none
  hibernatedAt : Option Time := none
  /-- Status and reason of the `Ready` condition. -/
  ready : Option (Bool × String) := none
  deriving DecidableEq, Repr

structure AgentObject where
  status : AgentStatus := {}
  /-- The annotation `kaalm.io/wake` is `true`. -/
  wake : Bool := false
  /-- The annotation `kaalm.io/wake-trigger` is present. -/
  wakeTrigger : Bool := false
  finalizer : Bool := true
  /-- The deletion timestamp is set. -/
  deleting : Bool := false
  deriving DecidableEq, Repr

namespace AgentStatus

/-- Setting the current phase is not a transition. -/
def setPhase (s : AgentStatus) (phase : AgentPhase) (now : Time) : AgentStatus :=
  if s.phase = phase then s else { s with phase := phase, phaseTransitionTime := some now }

def setReady (s : AgentStatus) (ok : Bool) (reason : String) : AgentStatus :=
  { s with ready := some (ok, reason) }

def setPodUpToDate (s : AgentStatus) (reason : PodUpToDate) : AgentStatus :=
  { s with podUpToDate := some reason }

/-- A woken Agent stays Resuming until its Pod is Ready. -/
def podPendingPhase (s : AgentStatus) : AgentPhase :=
  if s.phase = .resuming then .resuming else .provisioning

/-- The reason marks a replacement whose Pod gets a full idle timeout. -/
def floorsActivityAtReady (s : AgentStatus) : Bool :=
  s.podUpToDate = some .replacing || s.podUpToDate = some .podDisrupted

/-- Whether `markDisrupted` changes the reason. -/
def marksDisrupted (s : AgentStatus) : Bool :=
  match s.podUpToDate with
  | none | some .replacing | some .podDisrupted => false
  | _ => true

def markDisrupted (s : AgentStatus) : AgentStatus :=
  if s.marksDisrupted then s.setPodUpToDate .podDisrupted else s

def waitForCertificateWithoutPod (s : AgentStatus) (now : Time) : AgentStatus :=
  (s.setPhase s.podPendingPhase now).setReady false "CertificateNotReady"

/-- Times lose their fractions of a second on the way through the API server. -/
def truncateTime (t : Time) : Time := t / Calendar.second * Calendar.second

def stored (s : AgentStatus) : AgentStatus :=
  { s with
    phaseTransitionTime := s.phaseTransitionTime.map truncateTime
    lastActivityTime := s.lastActivityTime.map truncateTime
    hibernatedAt := s.hibernatedAt.map truncateTime }

variable {s : AgentStatus} {now : Time}

@[simp] theorem lastActivityTime_setPhase (phase : AgentPhase) :
    (s.setPhase phase now).lastActivityTime = s.lastActivityTime := by
  rw [setPhase]
  split_ifs <;> rfl

@[simp] theorem phase_setPhase (phase : AgentPhase) : (s.setPhase phase now).phase = phase := by
  rw [setPhase]
  split_ifs with h
  · exact h
  · rfl

@[simp] theorem lastActivityTime_markDisrupted :
    s.markDisrupted.lastActivityTime = s.lastActivityTime := by
  rw [markDisrupted]
  split_ifs <;> rfl

@[simp] theorem phase_markDisrupted : s.markDisrupted.phase = s.phase := by
  rw [markDisrupted]
  split_ifs <;> rfl

end AgentStatus

/-! ## Pods -/

/-- Why a container waits, and how often it has been restarted. -/
structure ContainerStatus where
  waiting : Option String := none
  restartCount : ℕ := 0
  deriving DecidableEq, Repr

structure Pod where
  uid : ℕ
  /-- The annotation with the hash of the spec the Pod was created from. -/
  specHash : String := ""
  /-- The Secret the TLS volume names. -/
  tlsSecret : String := ""
  deleting : Bool := false
  /-- The phase is Succeeded or Failed. -/
  terminal : Bool := false
  containers : List ContainerStatus := []
  ready : Bool := false
  deriving DecidableEq, Repr

def crashLoopThreshold : ℕ := 5

/-- The reason of a persistent back-off. -/
def ContainerStatus.backOff (c : ContainerStatus) : Option String :=
  c.waiting.filter fun reason ↦
    reason = "CrashLoopBackOff" && crashLoopThreshold ≤ c.restartCount
      || reason = "ImagePullBackOff"

def Pod.backOff (p : Pod) : Option String := p.containers.findSome? ContainerStatus.backOff

/-- The first Pod that is not being deleted, or else the last one. -/
def ownedPod (pods : List Pod) : Option Pod :=
  (pods.find? fun p ↦ !p.deleting).or pods.getLast?

/-! ## What a pass reads -/

/-- The activity one gateway replica reports for the Agent. -/
structure ReplicaActivity where
  startedAt : Time
  gatewayTraffic : Option Time := none
  heartbeat : Option Time := none
  deriving DecidableEq, Repr

inductive ActivitySource
  | gatewayTraffic
  | agentHeartbeat
  | both
  deriving DecidableEq, Repr

structure Reading where
  now : Time := 0
  /-- The Agent is in the namespace of the operator. -/
  inOperatorNamespace : Bool := false
  classFound : Bool := true
  /-- The reasons of the cross-checks between class and spec. -/
  degradedReasons : List String := []
  /-- The reason of the first check that holds Pod creation, or of a child it could not converge. -/
  podCreationBlocked : Option String := none
  /-- The reason of a failed `ensureCertificate`. -/
  certificateBlocked : Option String := none
  certReady : Bool := true
  tlsSecret : String := ""
  /-- Whether the wait for the Certificate found a Pod. -/
  podAtCertificate : Bool := true
  /-- The reason of a failed `ensureChildren`. -/
  childrenBlocked : Option String := none
  specHash : String := ""
  granted : Bool := false
  createRejected : Bool := false
  idleTimeout : Time := 0
  hibernationEnabled : Bool := false
  hibernationDelay : ℕ := 0
  /-- The reachable replicas; `none` without an activity client. -/
  replicas : Option (List ReplicaActivity) := none
  activitySource : ActivitySource := .gatewayTraffic
  creationTimestamp : Time := 0
  /-- A status field that is left out here has changed. -/
  otherChanges : Bool := false
  deriving DecidableEq, Repr

/-- The API calls of a pass. -/
inductive Action
  /-- Write the metadata of the Agent. -/
  | update (wake wakeTrigger finalizer : Bool)
  | writeStatus (s : AgentStatus)
  | createPod (specHash tlsSecret : String)
  | deletePod (uid : ℕ) (ignoreNotFound : Bool)
  deriving DecidableEq, Repr

/-! ## The steps -/

section Steps

variable (a : AgentObject) (s : AgentStatus) (pods : List Pod) (pod : Pod) (r : Reading)
  (certHeld : Bool)

/-- Write the status only when the pass changed it. -/
def updateStatusIfChanged : List Action :=
  if r.otherChanges || s ≠ a.status then [.writeStatus s] else []

/-- The status write that commits a wake. -/
def wakeStatus : AgentStatus :=
  ({ s.setPhase .resuming r.now with
    hibernatedAt := none
    lastActivityTime := some r.now }).setReady false "Woken"

def handleWake : List Action :=
  if s.phase = .hibernated then
    [.writeStatus (wakeStatus s r), .update false false a.finalizer]
  else [.update false false a.finalizer]

def reconcileWakeAnnotations : Option (List Action) :=
  if a.wake && s.phase ≠ .hibernating then some (handleWake a s r)
  else if a.wakeTrigger && !a.wake then some [.update a.wake false a.finalizer]
  else none

def enterOrStayDegraded (reason : String) : AgentStatus :=
  if s.phase = .degraded then s.setReady false reason
  else ({ s with preDegradedPhase := s.phase }.setPhase .degraded r.now).setReady false reason

/-- Every check has cleared: the phase before is restored. -/
def leaveDegraded : AgentStatus :=
  let restored := if s.preDegradedPhase = .unset then .pending else s.preDegradedPhase
  { s.setPhase restored r.now with preDegradedPhase := .unset }

def reconcileDegraded : Option (List Action) :=
  match r.degradedReasons with
  | reason :: _ => some [.writeStatus (enterOrStayDegraded s r reason)]
  | [] => if s.phase = .degraded then some [.writeStatus (leaveDegraded s r)] else none

def hibernatedStatus : AgentStatus :=
  ({ s.setPhase .hibernated r.now with
    podUpToDate := none
    hibernatedAt := some r.now }).setReady false "Hibernated"

def driveHibernating : List Action :=
  match ownedPod pods with
  | some pod =>
    (if pod.deleting then [] else [.deletePod pod.uid true]) ++ [.writeStatus s]
  | none => [.writeStatus (hibernatedStatus s r)]

/-- The Pod no longer matches the Agent. -/
def podDrifted : Bool :=
  pod.specHash ≠ r.specHash
    || pod.tlsSecret ≠ "" && r.tlsSecret ≠ "" && pod.tlsSecret ≠ r.tlsSecret

/-- The status of a granted replacement. -/
def replacingStatus : AgentStatus :=
  ((s.setPodUpToDate .replacing).setPhase s.podPendingPhase r.now).setReady false "SpecDrift"

/-- An Agent that already has a drift slot keeps it; any other Agent asks for one. -/
def admitsDriftReplacement : Bool := s.podUpToDate = some .replacing || r.granted

/-- While the Certificate is held, `Ready` is always False with `CertificateNotReady`. -/
def setPodReady (ok : Bool) (reason : String) : AgentStatus :=
  if certHeld then s.setReady false "CertificateNotReady" else s.setReady ok reason

def createAgentPod : List Action × AgentStatus :=
  let marked := s.markDisrupted
  let marker : List Action := if s.marksDisrupted then [.writeStatus marked] else []
  let pending := marked.setPhase marked.podPendingPhase r.now
  if r.createRejected then (marker, pending.setReady false "PodCreateRejected")
  else (marker ++ [.createPod r.specHash r.tlsSecret], pending.setReady false "PodProvisioning")

/-- The replacement of a drifted Pod waits for a slot or for the Certificate. -/
def driftWaiting : AgentStatus :=
  if podDrifted pod r then
    if certHeld then
      if s.floorsActivityAtReady && !pod.ready then s else s.setPodUpToDate .certificateNotReady
    else s.setPodUpToDate .replacementPending
  else s

/-- What the pass makes of a Pod that keeps running; `before` is the status before the drift
check. -/
def readPod (before : AgentStatus) : AgentStatus :=
  match pod.backOff with
  | some reason => setPodReady (s.setPhase .failed r.now) certHeld false reason
  | none =>
    if pod.ready then
      let floored :=
        if s.phase ≠ .running && (s.phase = .resuming || before.floorsActivityAtReady) then
          { s with lastActivityTime := some r.now }
        else s
      let running := if s.phase = .idle then s else floored.setPhase .running r.now
      let served := setPodReady running certHeld true "PodRunning"
      if podDrifted pod r then served else served.setPodUpToDate .current
    else setPodReady (s.setPhase s.podPendingPhase r.now) certHeld false "PodNotReady"

def convergePod : List Action × AgentStatus :=
  match ownedPod pods with
  | none => if certHeld then ([], s.waitForCertificateWithoutPod r.now) else createAgentPod s r
  | some pod =>
    if pod.deleting then
      let marked := s.markDisrupted
      ([], setPodReady (marked.setPhase marked.podPendingPhase r.now) certHeld false
        "PodProvisioning")
    else if pod.terminal then
      let marked := s.markDisrupted
      ([.deletePod pod.uid false],
        setPodReady (marked.setPhase marked.podPendingPhase r.now) certHeld false "PodDisrupted")
    else if podDrifted pod r && !certHeld && admitsDriftReplacement s r then
      ([.writeStatus (replacingStatus s r), .deletePod pod.uid false], replacingStatus s r)
    else ([], readPod (driftWaiting s pod r certHeld) pod r certHeld s)

/-- The newest recorded activity of the Agent. -/
def mergedActivity (replicas : List ReplicaActivity) : Option Time :=
  let newer : Option Time → Option Time → Option Time
    | current, none => current
    | none, some candidate => some candidate
    | some current, some candidate => some (if current < candidate then candidate else current)
  let traffic := replicas.foldl (fun t replica ↦ newer t replica.gatewayTraffic) none
  let heartbeat := replicas.foldl (fun t replica ↦ newer t replica.heartbeat) none
  let picked :=
    match r.activitySource with
    | .agentHeartbeat => heartbeat
    | .both => newer traffic heartbeat
    | .gatewayTraffic => traffic
  picked.filter fun t ↦ r.creationTimestamp ≤ t

/-- The activity that the silence is measured from, and whether it is synthetic: with no record, the
time of the last transition counts if some replica has been up for the idle timeout. -/
def activityMarker (replicas : List ReplicaActivity) : Option (Time × Bool) :=
  match mergedActivity r replicas with
  | some last => some (last, false)
  | none =>
    if replicas.any fun replica ↦ r.idleTimeout ≤ r.now - replica.startedAt then
      s.phaseTransitionTime.map fun t ↦ (t, true)
    else none

/-- The later of two times, of which the second may be missing. -/
def laterOf (t : Time) : Option Time → Time
  | none => t
  | some floor => if t < floor then floor else t

/-- Running with no activity for the idle timeout becomes Idle. -/
def evaluateRunning (last : Time) : AgentStatus :=
  let marker := laterOf last s.lastActivityTime
  if r.idleTimeout < r.now - marker then
    { s.setPhase .idle r.now with lastActivityTime := some marker }
  else s

/-- Idle goes back to Running on recorded activity, and on to Hibernating after the delay. -/
def evaluateIdle (last : Time) (synthetic hibernationHeld : Bool) : AgentStatus :=
  if !synthetic && s.lastActivityTime.any (· < AgentStatus.truncateTime last) then
    { s.setPhase .running r.now with lastActivityTime := some last }
  else
    let silenceStart := if synthetic then s.lastActivityTime.getD last
      else laterOf last s.lastActivityTime
    if r.hibernationEnabled && !hibernationHeld
        && r.idleTimeout + r.hibernationDelay < r.now - silenceStart then
      s.setPhase .hibernating r.now
    else s

def evaluateActivity (replicas : List ReplicaActivity) (hibernationHeld : Bool) : AgentStatus :=
  match activityMarker s r replicas with
  | none => s
  | some (last, synthetic) =>
    match s.phase with
    | .running => evaluateRunning s r last
    | .idle => evaluateIdle s r last synthetic hibernationHeld
    | _ => s

/-- The activity step, for Running and Idle Agents with an idle timeout. -/
def activityStep (hibernationHeld : Bool) : AgentStatus :=
  match r.replicas with
  | some (replica :: replicas) =>
    if 0 < r.idleTimeout then evaluateActivity s r (replica :: replicas) hibernationHeld else s
  | _ => s

def reconcileDelete : List Action :=
  if a.finalizer then
    (if s.phase = .terminating then []
      else [.writeStatus { s.setPhase .terminating r.now with preDegradedPhase := .unset }])
    ++ match ownedPod pods with
      | some pod => if pod.deleting then [] else [.deletePod pod.uid true]
      | none => [.update a.wake a.wakeTrigger false]
  else []

/-- After the write of the phase the owned Pod is deleted, or else the finalizer is taken away. -/
theorem exists_reconcileDelete : ∃ rest : List Action,
    (rest = [] ∨ (∃ uid, rest = [.deletePod uid true])
      ∨ rest = [.update a.wake a.wakeTrigger false])
    ∧ reconcileDelete a s pods r = if a.finalizer then
        (if s.phase = .terminating then []
          else [.writeStatus { s.setPhase .terminating r.now with preDegradedPhase := .unset }])
        ++ rest
      else [] := by
  cases howned : ownedPod pods with
  | none => exact ⟨_, Or.inr (Or.inr rfl), by rw [reconcileDelete, howned]⟩
  | some pod =>
    by_cases hdeleting : pod.deleting = true
    · exact ⟨_, Or.inl rfl, by simp only [reconcileDelete, howned, if_pos hdeleting]⟩
    · exact ⟨_, Or.inr (Or.inl ⟨pod.uid, rfl⟩),
        by simp only [reconcileDelete, howned, if_neg hdeleting]⟩

/-- Steps 6 to 8: the checks that hold Pod creation, the Certificate and the children. A step ends
the pass with its API calls, or goes on with a status. -/
def beforePod : Except (List Action) AgentStatus :=
  match r.podCreationBlocked with
  | some reason => .error (updateStatusIfChanged a (s.setReady false reason) r)
  | none =>
    match r.certificateBlocked with
    | some reason => .error (updateStatusIfChanged a (s.setReady false reason) r)
    | none =>
      if !r.certReady && !r.podAtCertificate then
        .error (updateStatusIfChanged a (s.waitForCertificateWithoutPod r.now) r)
      else
        match r.childrenBlocked with
        | some reason => .error (updateStatusIfChanged a (s.setReady false reason) r)
        | none => .ok s

/-- The status a pass starts from: a new Agent is Pending. -/
def started : AgentStatus :=
  if a.status.phase = .unset then a.status.setPhase .pending r.now else a.status

/-- Steps 1 to 8 on an Agent that has its finalizer and is not being deleted. -/
def drive : Except (List Action) AgentStatus :=
  match reconcileWakeAnnotations a s r with
  | some actions => .error actions
  | none =>
    if r.inOperatorNamespace then
      .error (updateStatusIfChanged a (s.setReady false "SystemNamespaceForbidden") r)
    else if !r.classFound then
      .error (updateStatusIfChanged a (s.setReady false "InvalidReference") r)
    else
      match reconcileDegraded s r with
      | some actions => .error actions
      | none =>
        match s.phase with
        | .hibernating => .error (driveHibernating s pods r)
        | .hibernated => .error (updateStatusIfChanged a s r)
        | _ => beforePod a s r

/-- Everything before the Pod step. -/
def untilPod : Except (List Action) AgentStatus :=
  if a.deleting then .error (reconcileDelete a a.status pods r)
  else if !a.finalizer then .error [.update a.wake a.wakeTrigger true]
  else drive a (started a r) pods r

/-- Steps 9 to 11: the Pod, the activity, and the status write at the end. -/
def podStep : List Action :=
  let (actions, converged) := convergePod s pods r !r.certReady
  actions ++ updateStatusIfChanged a (activityStep converged r !r.certReady) r

/-- One pass. -/
def reconcile : List Action :=
  match untilPod a pods r with
  | .error actions => actions
  | .ok s => podStep a s pods r

/-- The Pod that the pass finds Ready. -/
def seesReady : Option Pod :=
  match untilPod a pods r, ownedPod pods with
  | .ok s, some pod =>
    if pod.deleting || pod.terminal
        || podDrifted pod r && r.certReady && admitsDriftReplacement s r then none
    else if pod.backOff.isNone && pod.ready then some pod
    else none
  | _, _ => none

end Steps

end Kaalm.Agent
