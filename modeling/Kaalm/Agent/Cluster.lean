import Kaalm.Agent.Reconcile
import Kaalm.Foundation.Run
import Kaalm.Foundation.Watched

/-!
# One Agent in a cluster

The API server with an Agent and the Pods it controls, the caches of the controller, and the pass
that is under way: an Agent never has two passes at once. A pass reads the caches, which may lag
behind the API server and behind each other, and then makes its API calls one by one. Writes to the
Agent are refused if it has changed since the version the pass read. A call may also fail for any
other reason, and the controller may stop; either way the rest of the pass is dropped.
-/

namespace Kaalm.Agent

/-- A pass that is under way. -/
structure Pass where
  /-- The version of the Agent that the pass has: the one it read, or the last one it wrote. -/
  base : ℕ
  /-- The Agent in that version. -/
  copy : AgentObject
  /-- What the pass read. -/
  read : AgentObject
  pods : List Pod
  reading : Reading
  todo : List Action
  deriving DecidableEq

structure Cluster where
  agent : Watched AgentObject
  pods : Watched (List Pod) := { current := [] }
  /-- The number of Pods created so far; the next one gets it as its UID. -/
  created : ℕ := 0
  pass : Option Pass := none
  clock : Time := 0
  deriving DecidableEq

/-- What happens to a Pod outside the controller. -/
inductive PodEvent
  | ready (ok : Bool)
  | containers (cs : List ContainerStatus)
  | terminal
  | deleting
  deriving DecidableEq

def PodEvent.apply (p : Pod) : PodEvent → Pod
  | .ready ok => { p with ready := ok }
  | .containers cs => { p with containers := cs }
  | .terminal => { p with terminal := true, ready := false }
  | .deleting => { p with deleting := true }

inductive Op
  /-- The activator or a user asks for a wake. -/
  | annotateWake (trigger : Bool)
  /-- Another write to the Agent, such as an edit of its spec. -/
  | edit
  | deleteAgent
  | podEvent (uid : ℕ) (e : PodEvent)
  /-- A Pod is gone from the API server. -/
  | podGone (uid : ℕ)
  | deliverAgent
  | deliverPods
  | tick (d : ℕ)
  | begin (r : Reading)
  /-- The next API call of the pass succeeds. -/
  | act
  /-- The next API call fails, or the controller stops. -/
  | drop
  deriving DecidableEq

/-- The Agent that a call writes, if it writes the Agent. -/
def Action.written (a : AgentObject) : Action → Option AgentObject
  | .update wake wakeTrigger finalizer =>
    some { a with wake := wake, wakeTrigger := wakeTrigger, finalizer := finalizer }
  | .writeStatus s => some { a with status := s.stored }
  | .createPod _ _ | .deletePod _ _ => none

/-- Neither terminal nor being deleted. -/
def Pod.live (p : Pod) : Bool := !p.terminal && !p.deleting

def updatePod (uid : ℕ) (f : Pod → Pod) (pods : List Pod) : List Pod :=
  pods.map fun p ↦ if p.uid = uid then f p else p

namespace Cluster

/-- A new Agent. -/
def init : Cluster := { agent := { current := { finalizer := false } } }

/-- What a new pass has read. -/
def newPass (c : Cluster) (r : Reading) : Pass :=
  let reading := { r with now := c.clock }
  { base := c.agent.cachedVersion
    copy := c.agent.cached
    read := c.agent.cached
    pods := c.pods.cached
    reading := reading
    todo := reconcile c.agent.cached c.pods.cached reading }

/-- The pass goes on after an API call. -/
def proceed (c : Cluster) (p : Pass) (todo : List Action) : Cluster :=
  { c with pass := if todo = [] then none else some { p with todo := todo } }

/-- A call that creates or deletes a Pod. -/
def callPods (c : Cluster) : Action → Option Cluster
  | .createPod specHash tlsSecret =>
    let pod : Pod := { uid := c.created, specHash := specHash, tlsSecret := tlsSecret }
    some { c with pods := c.pods.write (c.pods.current ++ [pod]), created := c.created + 1 }
  | .deletePod uid ignoreNotFound =>
    if c.pods.current.any fun pod ↦ pod.uid = uid then
      let pods := updatePod uid (fun pod ↦ { pod with deleting := true }) c.pods.current
      some { c with pods := c.pods.write pods }
    else if ignoreNotFound then some c
    else none
  | _ => none

def act (c : Cluster) (p : Pass) : List Action → Option Cluster
  | [] => none
  | call :: todo =>
    match call.written p.copy with
    | some a =>
      if p.base = c.agent.version then
        some ({ c with agent := c.agent.write a }.proceed
          { p with base := c.agent.version + 1, copy := a } todo)
      else none
    | none => (c.callPods call).map fun c ↦ c.proceed p todo

def step (c : Cluster) : Op → Option Cluster
  | .annotateWake trigger => some { c with agent := c.agent.write { c.agent.current with
      wake := true, wakeTrigger := trigger } }
  | .edit => some { c with agent := c.agent.write c.agent.current }
  | .deleteAgent => some { c with agent := c.agent.write { c.agent.current with deleting := true } }
  | .podEvent uid e => some { c with pods := c.pods.write (updatePod uid e.apply c.pods.current) }
  | .podGone uid => some { c with pods := c.pods.write (c.pods.current.filter fun p ↦ p.uid ≠ uid) }
  | .deliverAgent => some { c with agent := c.agent.deliver }
  | .deliverPods => some { c with pods := c.pods.deliver }
  | .tick d => some { c with clock := c.clock + d }
  | .begin r =>
    if c.pass = none then
      let p := c.newPass r
      some (c.proceed p p.todo)
    else none
  | .act =>
    match c.pass with
    | some p => c.act p p.todo
    | none => none
  | .drop => if c.pass = none then none else some { c with pass := none }

/-- If the pass has the newest version of the Agent, it has the Agent as it is. -/
def Synced (c : Cluster) : Prop :=
  ∀ p ∈ c.pass, p.base ≤ c.agent.version ∧ (p.base = c.agent.version → p.copy = c.agent.current)

variable {c c' : Cluster} {p : Pass} {op : Op}

theorem mem_pass_proceed {todo : List Action} {q : Pass} (hq : q ∈ (c.proceed p todo).pass) :
    q = { p with todo := todo } := by
  rw [proceed] at hq
  split_ifs at hq
  · cases hq
  · exact (Option.some.inj hq).symm

/-- A call of the pass writes the Agent, which must not have changed, or it calls on the Pods. -/
theorem act_cases {todo : List Action} (h : c.act p todo = some c') :
    (∃ call rest a, todo = call :: rest ∧ call.written p.copy = some a ∧ p.base = c.agent.version
        ∧ c' = { c with agent := c.agent.write a }.proceed
            { p with base := c.agent.version + 1, copy := a } rest)
      ∨ ∃ call rest c₁, todo = call :: rest ∧ call.written p.copy = none ∧ c.callPods call = some c₁
        ∧ c' = c₁.proceed p rest := by
  cases todo with
  | nil => cases h
  | cons call rest =>
    rw [act] at h
    cases hwritten : call.written p.copy with
    | some a =>
      rw [hwritten] at h
      simp only at h
      split_ifs at h with hbase
      exact Or.inl ⟨call, rest, a, rfl, hwritten, hbase, (Option.some.inj h).symm⟩
    | none =>
      rw [hwritten] at h
      obtain ⟨c₁, hc₁, hc'⟩ := Option.map_eq_some_iff.mp h
      exact Or.inr ⟨call, rest, c₁, rfl, hwritten, hc₁, hc'.symm⟩

/-- A call on the Pods leaves everything else alone. -/
theorem callPods_eq_some {call : Action} (h : c.callPods call = some c') :
    c'.agent = c.agent ∧ c'.pass = c.pass ∧ c'.clock = c.clock := by
  cases call with
  | update wake trigger finalizer => cases h
  | writeStatus s => cases h
  | createPod specHash tlsSecret =>
    obtain rfl := Option.some.inj h
    exact ⟨rfl, rfl, rfl⟩
  | deletePod uid ignoreNotFound =>
    rw [callPods] at h
    split_ifs at h
    · obtain rfl := Option.some.inj h
      exact ⟨rfl, rfl, rfl⟩
    · obtain rfl := Option.some.inj h
      exact ⟨rfl, rfl, rfl⟩

theorem begin_eq_some {r : Reading} (h : c.step (.begin r) = some c') :
    c.pass = none ∧ c' = c.proceed (c.newPass r) (c.newPass r).todo := by
  rw [step] at h
  split_ifs at h with hpass
  exact ⟨hpass, (Option.some.inj h).symm⟩

theorem act_eq_some (h : c.step .act = some c') : ∃ p ∈ c.pass, c.act p p.todo = some c' := by
  rw [step] at h
  cases hpass : c.pass with
  | none =>
    rw [hpass] at h
    cases h
  | some p =>
    rw [hpass] at h
    exact ⟨p, rfl, h⟩

/-- A new pass that has the newest version of the Agent has the Agent as it is. -/
theorem newPass_synced {r : Reading} (h : (c.newPass r).base = c.agent.version) :
    (c.newPass r).copy = c.agent.current :=
  c.agent.cached_of_version h

/-- Someone else writes the Agent: the pass no longer has the newest version. -/
theorem Synced.write (h : c.Synced) (a : AgentObject) :
    Synced { c with agent := c.agent.write a } := by
  intro p hp
  have hlt : p.base < c.agent.version + 1 := Nat.lt_succ_of_le (h p hp).1
  exact ⟨Nat.le_of_lt hlt, fun heq ↦ absurd heq (Nat.ne_of_lt hlt)⟩

theorem Synced.step (h : c.Synced) (hstep : c.step op = some c') : c'.Synced := by
  cases op with
  | annotateWake trigger =>
    obtain rfl := Option.some.inj hstep
    exact h.write _
  | edit =>
    obtain rfl := Option.some.inj hstep
    exact h.write _
  | deleteAgent =>
    obtain rfl := Option.some.inj hstep
    exact h.write _
  | podEvent uid e =>
    obtain rfl := Option.some.inj hstep
    exact h
  | podGone uid =>
    obtain rfl := Option.some.inj hstep
    exact h
  | deliverAgent =>
    obtain rfl := Option.some.inj hstep
    exact h
  | deliverPods =>
    obtain rfl := Option.some.inj hstep
    exact h
  | tick d =>
    obtain rfl := Option.some.inj hstep
    exact h
  | begin r =>
    obtain ⟨-, rfl⟩ := begin_eq_some hstep
    intro p hp
    rw [mem_pass_proceed hp]
    exact ⟨c.agent.cachedVersion_le, newPass_synced⟩
  | act =>
    obtain ⟨p, hp, hact⟩ := act_eq_some hstep
    rcases act_cases hact with ⟨call, rest, a, -, -, hbase, rfl⟩ | ⟨call, rest, c₁, -, -, hc₁, rfl⟩
    · intro q hq
      rw [mem_pass_proceed hq]
      exact ⟨Nat.le_refl _, fun _ ↦ rfl⟩
    · intro q hq
      rw [mem_pass_proceed hq]
      have hagent := (callPods_eq_some hc₁).1
      have hsynced := h p hp
      rw [← hagent] at hsynced
      exact hsynced
  | drop =>
    rw [Cluster.step] at hstep
    split_ifs at hstep
    obtain rfl := Option.some.inj hstep
    intro p hp
    cases hp

end Cluster

end Kaalm.Agent
