import Kaalm.Foundation.Run
import Mathlib.Logic.Function.Basic

/-!
# The status writes of a provider reconciler

A pass of the ModelProvider or ToolProvider reconciler reads the provider from the informer's
cache, derives its status, and writes it if the cache shows another one. The write raises an update
event, and `ownWrites` drops it: the pass has acted on all that the event would tell.

The record of the write is about one version of the provider. Meanwhile other clients write it, the
cache lags behind the API server and the event handler behind the cache, and what a pass reads
besides the provider changes. Still no pass is missed (`status_settled`).
-/

namespace Kaalm.Reconciler

open Run

variable {σ τ ε : Type}

/-- A provider: the spec with the metadata, and the status. -/
structure Stored (σ τ : Type) where
  spec : σ
  status : τ

/-- How far a pass has got, with the version that it has read. -/
inductive Pass (τ : Type)
  | read (v : ℕ)
  /-- `readStale` has been called. -/
  | checked (v : ℕ)
  | derived (v : ℕ) (status : τ)
  /-- The API server has accepted the status as this version; `record` has not been called. -/
  | wrote (v : ℕ)

/-- A provider with its reconciler. A version is a position in the history of the provider. -/
structure Loop (σ τ ε : Type) where
  version : ℕ := 0
  object : ℕ → Stored σ τ
  /-- The version that the cache shows. -/
  cache : ℕ := 0
  /-- The update events that the handler has not seen, by the version of the new object. -/
  events : List ℕ := []
  /-- The work queue has the provider. -/
  queued : Bool := true
  /-- The record of `ownWrites` for the provider. -/
  ownWrite : Option ℕ := none
  pass : Option (Pass τ) := none
  /-- What a pass reads besides the provider, as its caches show it. -/
  inputs : ε
  /-- There is an event for the inputs that the handler has not seen. -/
  inputEvent : Bool := false

/-- A record of another version than the one that a pass has read is dropped. -/
def readStale (record : Option ℕ) (v : ℕ) : Option ℕ := record.filter fun w ↦ w = v

/-- Whether an update event is admitted, and the record after it. -/
def skipOwn (record : Option ℕ) (v : ℕ) : Bool × Option ℕ :=
  if record = some v then (false, none) else (true, record)

inductive LoopStep (σ τ ε : Type)
  /-- Another client writes the provider. -/
  | write (o : Stored σ τ)
  | change (inputs : ε)
  /-- The handler sees an event for the inputs, a resync, or a requeue that is due. -/
  | enqueue
  /-- The cache goes on to a version. A relist passes over the versions between. -/
  | deliver (v : ℕ)
  | handle
  | start
  | readStale
  | derive
  /-- The pass ends. If it writes, the answer of the API server may get lost. -/
  | finish (lost : Bool)
  /-- The pass adds or takes away the finalizer, and ends. -/
  | update (spec : σ)
  | record
  | fail
  | restart

namespace Loop

variable (s : Loop σ τ ε)

def current : Stored σ τ := s.object s.version

def put (o : Stored σ τ) : Loop σ τ ε :=
  { s with version := s.version + 1, object := Function.update s.object (s.version + 1) o }

/-- The pass ends with an error, which queues the provider again. -/
def requeue : Loop σ τ ε := { s with queued := true, pass := none }

variable (derive : ε → Stored σ τ → τ)

def step [DecidableEq τ] : LoopStep σ τ ε → Option (Loop σ τ ε)
  | .write o => some (s.put o)
  | .change inputs => some { s with inputs, inputEvent := true }
  | .enqueue => some { s with inputEvent := false, queued := true }
  | .deliver v =>
    if s.cache < v ∧ v ≤ s.version then some { s with cache := v, events := s.events ++ [v] }
    else none
  | .handle =>
    match s.events with
    | [] => none
    | v :: events => some
      { s with
        events, ownWrite := (skipOwn s.ownWrite v).2
        queued := s.queued || (skipOwn s.ownWrite v).1 }
  | .start =>
    if s.queued = true ∧ s.pass.isNone = true then
      some { s with queued := false, pass := some (.read s.cache) }
    else none
  | .readStale =>
    match s.pass with
    | some (.read v) =>
      some { s with ownWrite := Reconciler.readStale s.ownWrite v, pass := some (.checked v) }
    | _ => none
  | .derive =>
    match s.pass with
    | some (.checked v) => some { s with pass := some (.derived v (derive s.inputs (s.object v))) }
    | _ => none
  | .finish lost =>
    match s.pass with
    | some (.derived v status) =>
      -- The status is compared with the cache as it is now, and written over the version read.
      if (s.object s.cache).status = status then some { s with pass := none }
      else if s.version ≠ v then some s.requeue
      else if lost then some (s.put { s.object v with status }).requeue
      else some { s.put { s.object v with status } with pass := some (.wrote (v + 1)) }
    | _ => none
  | .update spec =>
    match s.pass with
    | some (.checked v) =>
      if s.version ≠ v then some s.requeue
      else some { s.put { s.object v with spec } with pass := none }
    | _ => none
  | .record =>
    match s.pass with
    | some (.wrote v) => some { s with ownWrite := some v, pass := none }
    | _ => none
  | .fail =>
    match s.pass with
    | some (.wrote _) | none => none
    | _ => some s.requeue
  | .restart => some
      { s with
        cache := s.version, events := [], queued := true, ownWrite := none, pass := none
        inputEvent := false }

/-- Nothing is left to do. -/
def Quiet : Prop :=
  s.pass.isNone = true ∧ s.queued = false ∧ s.inputEvent = false ∧ s.events = []
    ∧ s.cache = s.version

variable {s} {t : Loop σ τ ε}

/-! ## The invariant -/

/-- The version is a status written over the version before it, which a pass has read. -/
def IsStatusWrite (s : Loop σ τ ε) (w : ℕ) : Prop :=
  ∃ v, w = v + 1 ∧ v ≤ s.cache ∧ v < s.version ∧ (s.object w).spec = (s.object v).spec

/-- What is always true of the pass that runs. -/
def InPass (s : Loop σ τ ε) : Pass τ → Prop
  | .read v | .checked v | .derived v _ => v ≤ s.cache
  | .wrote w => s.IsStatusWrite w

/-- A pass has derived the status from this spec and these inputs. -/
def Settled (inputs : ε) (o : Stored σ τ) : Prop :=
  ∃ old : Stored σ τ, old.spec = o.spec ∧ o.status = derive inputs old

/-- There is an event to come that the handler admits. -/
def Due (s : Loop σ τ ε) : Prop :=
  (∃ v ∈ s.events, s.ownWrite ≠ some v) ∨ (s.cache < s.version ∧ s.ownWrite ≠ some s.version)

/-- What the cache shows has the spec that the pass has read, or the handler will see it. -/
def Follows (s : Loop σ τ ε) (v : ℕ) : Prop :=
  (s.object s.cache).spec = (s.object v).spec ∨ s.cache ∈ s.events

/-- What holds while the provider is not queued, and no event for the inputs is to come. -/
def Calm (s : Loop σ τ ε) : Option (Pass τ) → Prop
  | none => s.Due ∨ Settled derive s.inputs s.current
  | some (.read v) => s.Follows v ∧ ∀ w, s.ownWrite = some w → w ≤ v + 1
  | some (.checked v) => s.Follows v ∧ ∀ w, s.ownWrite = some w → w = v
  | some (.derived v status) =>
    s.Follows v ∧ (∀ w, s.ownWrite = some w → w = v) ∧ status = derive s.inputs (s.object v)
  | some (.wrote w) => (∀ x, s.ownWrite = some x → x < w)
    ∧ (s.version = w ∧ Settled derive s.inputs s.current
      ∨ w < s.version ∧ (s.cache < s.version ∨ s.version ∈ s.events))

structure Inv (s : Loop σ τ ε) : Prop where
  cache_le : s.cache ≤ s.version
  own : ∀ w, s.ownWrite = some w → s.IsStatusWrite w
  inPass : ∀ p, s.pass = some p → s.InPass p
  calm : s.queued = false → s.inputEvent = false → s.Calm derive s.pass

variable {derive}

theorem put_object (o : Stored σ τ) (v : ℕ) :
    (s.put o).object v = if v = s.version + 1 then o else s.object v :=
  Function.update_apply _ _ _ _

/-- The handler sees a write of another client, since no record is about it. -/
theorem Inv.put (h : s.Inv derive) (o : Stored σ τ) : (s.put o).Inv derive := by
  obtain ⟨hcache, hown, hin, hcalm⟩ := h
  have hobject := put_object (s := s) o
  refine ⟨Nat.le_succ_of_le hcache, ?_, fun p hp ↦ ?_, fun hq hi ↦ ?_⟩
  · grind -linarith [IsStatusWrite, Loop.put]
  · have := hin p hp
    cases p <;> grind -linarith [InPass, IsStatusWrite, Loop.put]
  · have := hcalm hq hi
    rcases hp : s.pass with _ | (v | v | v | v) <;>
      grind -linarith [Calm, Follows, Due, InPass, IsStatusWrite, Loop.put]

theorem Inv.deliver (h : s.Inv derive) {v : ℕ} (hlt : s.cache < v) (hle : v ≤ s.version) :
    Inv derive { s with cache := v, events := s.events ++ [v] } := by
  obtain ⟨-, hown, hin, hcalm⟩ := h
  refine ⟨hle, ?_, fun p hp ↦ ?_, fun hq hi ↦ ?_⟩
  · grind -linarith [IsStatusWrite]
  · have := hin p hp
    cases p <;> grind -linarith [InPass, IsStatusWrite]
  · have := hcalm hq hi
    rcases hp : s.pass with _ | (v | v | v | v) <;> grind -linarith [Calm, Follows, Due, current]

/-- The handler drops the event of a recorded write. A pass that runs has read the version before
it at the earliest, and the write has kept the spec. -/
theorem Inv.drop (h : s.Inv derive) {v : ℕ} {events : List ℕ} (hevents : s.events = v :: events)
    (hown : s.ownWrite = some v) : Inv derive { s with events, ownWrite := none } := by
  obtain ⟨hcache, hown, hin, hcalm⟩ := h
  refine ⟨hcache, by simp, hin, fun hq hi ↦ ?_⟩
  have := hcalm hq hi
  rcases hp : s.pass with _ | (v | v | v | v) <;>
    grind -linarith [Calm, Follows, Due, InPass, IsStatusWrite, current]

/-- The pass finds its status in the cache. If that is of a later spec, the event is still to come,
and no record is about it since `readStale`. -/
theorem Inv.skip (h : s.Inv derive) {v : ℕ} {status : τ} (hpass : s.pass = some (.derived v status))
    (hstatus : (s.object s.cache).status = status) : Inv derive { s with pass := none } := by
  obtain ⟨hcache, hown, hin, hcalm⟩ := h
  refine ⟨hcache, hown, by simp, fun hq hi ↦ ?_⟩
  have := hcalm hq hi
  grind -linarith [Calm, Follows, Due, InPass, Settled, current]

/-- The API server accepts the status over the version read. -/
theorem Inv.wrote (h : s.Inv derive) {v : ℕ} {status : τ}
    (hpass : s.pass = some (.derived v status)) (hversion : s.version = v) :
    Inv derive { s.put { s.object v with status } with pass := some (.wrote (v + 1)) } := by
  have hput := h.put { s.object v with status }
  obtain ⟨hcache, hown, hin, hcalm⟩ := h
  have hobject := put_object (s := s) { s.object v with status }
  refine ⟨hput.cache_le, hput.own, fun p hp ↦ ?_, fun hq hi ↦ ?_⟩
  · grind -linarith [InPass, IsStatusWrite, Loop.put]
  · have := hcalm hq hi
    grind -linarith [Calm, Settled, current, Loop.put]

theorem Inv.record (h : s.Inv derive) {w : ℕ} (hpass : s.pass = some (.wrote w)) :
    Inv derive { s with ownWrite := some w, pass := none } := by
  obtain ⟨hcache, hown, hin, hcalm⟩ := h
  refine ⟨hcache, ?_, by simp, fun hq hi ↦ ?_⟩
  · grind -linarith [InPass, IsStatusWrite]
  · have := hcalm hq hi
    grind -linarith [Calm, Due, current]

theorem Inv.requeue (h : s.Inv derive) : s.requeue.Inv derive :=
  ⟨h.cache_le, h.own, by simp [Loop.requeue], by simp [Loop.requeue]⟩

theorem Inv.step [DecidableEq τ] {a : LoopStep σ τ ε} (h : s.Inv derive)
    (hstep : s.step derive a = some t) : t.Inv derive := by
  cases a with
  | write o =>
    cases hstep
    exact h.put o
  | change inputs =>
    cases hstep
    exact ⟨h.cache_le, h.own, h.inPass, by simp⟩
  | enqueue =>
    cases hstep
    exact ⟨h.cache_le, h.own, h.inPass, by simp⟩
  | deliver v =>
    rw [Loop.step] at hstep
    split_ifs at hstep with hv
    cases hstep
    exact h.deliver hv.1 hv.2
  | handle =>
    rw [Loop.step] at hstep
    split at hstep
    · cases hstep
    next v events hevents =>
      cases hstep
      by_cases hown : s.ownWrite = some v
      · simp only [skipOwn, if_pos hown, Bool.or_false]
        exact h.drop hevents hown
      · simp only [skipOwn, if_neg hown, Bool.or_true]
        exact ⟨h.cache_le, h.own, h.inPass, by simp⟩
  | start =>
    rw [Loop.step] at hstep
    split_ifs at hstep
    cases hstep
    have hown := h.own
    refine ⟨h.cache_le, h.own, by simp [InPass], fun _ _ ↦ ⟨Or.inl rfl, ?_⟩⟩
    grind -linarith [IsStatusWrite]
  | readStale =>
    rw [Loop.step] at hstep
    split at hstep
    next v hpass =>
      cases hstep
      obtain ⟨hcache, hown, hin, hcalm⟩ := h
      constructor <;> grind -linarith [Calm, InPass, Follows, IsStatusWrite, Reconciler.readStale,
        Option.filter_eq_some_iff]
    · cases hstep
  | derive =>
    rw [Loop.step] at hstep
    split at hstep
    next v hpass =>
      cases hstep
      obtain ⟨hcache, hown, hin, hcalm⟩ := h
      constructor <;> grind -linarith [Calm, InPass, Follows, IsStatusWrite]
    · cases hstep
  | finish lost =>
    rw [Loop.step] at hstep
    split at hstep
    next v status hpass =>
      split_ifs at hstep with hstatus hversion hlost <;> cases hstep
      · exact h.skip hpass hstatus
      · exact h.requeue
      · exact (h.put _).requeue
      · exact h.wrote hpass (not_not.mp hversion)
    · cases hstep
  | update spec =>
    rw [Loop.step] at hstep
    split at hstep
    next v hpass =>
      split_ifs at hstep <;> cases hstep
      · exact h.requeue
      · have hput := h.put { s.object v with spec }
        have hown := h.own
        have := h.cache_le
        refine ⟨hput.cache_le, hput.own, by simp, fun _ _ ↦ Or.inl (Or.inr ?_)⟩
        grind -linarith [Loop.put, IsStatusWrite]
    · cases hstep
  | record =>
    rw [Loop.step] at hstep
    split at hstep
    next w hpass =>
      cases hstep
      exact h.record hpass
    · cases hstep
  | fail =>
    rw [Loop.step] at hstep
    split at hstep <;> cases hstep
    exact h.requeue
  | restart =>
    cases hstep
    exact ⟨Nat.le_refl _, by simp, by simp, by simp⟩

end Loop

/-- The status of a provider is never left behind. When nothing is left to do, a pass has derived
the stored status from the stored spec and from the inputs as they are. -/
theorem status_settled [DecidableEq τ] (derive : ε → Stored σ τ → τ) (o : Stored σ τ) (inputs : ε)
    (as : List (LoopStep σ τ ε)) {s : Loop σ τ ε}
    (hrun : Runs (fun s a ↦ s.step derive a) { object := fun _ ↦ o, inputs } as s)
    (hquiet : s.Quiet) :
    ∃ old : Stored σ τ, old.spec = s.current.spec ∧ s.current.status = derive s.inputs old := by
  have hinv : s.Inv derive := hrun.invariant (fun _ _ _ h hstep ↦ h.step hstep)
    ⟨Nat.le_refl 0, by simp, by simp, by simp⟩
  obtain ⟨hpass, hqueued, hinput, hevents, hcache⟩ := hquiet
  have hcalm := hinv.calm hqueued hinput
  rw [Option.isNone_iff_eq_none.mp hpass] at hcalm
  rcases hcalm with (⟨v, hv, -⟩ | ⟨hlt, -⟩) | hsettled
  · rw [hevents] at hv
    cases hv
  · exact absurd hcache (Nat.ne_of_lt hlt)
  · exact hsettled

/-- The second pass reads the provider from before the write of the first one, and the inputs have
changed back for it. It finds the status that it derives in the stale cache. -/
def staleRead : List (LoopStep ℕ ℕ ℕ) :=
  [.start, .readStale, .derive, .finish false, .record, .change 1, .enqueue, .start, .readStale,
    .derive, .finish false, .deliver 1, .handle, .start, .readStale, .derive, .finish false,
    .record, .deliver 2, .handle]

theorem status_settled_staleRead :
    ∃ s : Loop ℕ ℕ ℕ, Runs (fun s a ↦ s.step (fun i o ↦ if i = 0 then o.spec else 0) a)
        { object := fun _ ↦ ⟨1, 0⟩, inputs := 0 } staleRead s
      ∧ s.Quiet ∧ s.version = 2 ∧ ∃ old : Stored ℕ ℕ, old.spec = s.current.spec
        ∧ s.current.status = if s.inputs = 0 then old.spec else 0 :=
  ⟨_, rfl, ⟨rfl, rfl, rfl, rfl, rfl⟩, rfl,
    status_settled (fun i o ↦ if i = 0 then o.spec else 0) ⟨1, 0⟩ 0 staleRead rfl
      ⟨rfl, rfl, rfl, rfl, rfl⟩⟩

end Kaalm.Reconciler
