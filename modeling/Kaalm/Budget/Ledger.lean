import Kaalm.Budget.Provider
import Kaalm.Foundation.GoMap
import Mathlib.Data.Finset.Insert

/-!
# The budget ledger

A gateway replica's in-memory spend counters with the folded view of its peers, one
`ProviderLedger` per provider name. Every method runs under the ledger mutex, so each is one
atomic function of the state; the clock reading it makes is an argument.

## Pointers

The source's `ledgerFor` returns a pointer. For a live provider it points into the `providers` map
and writes through it are kept; for a superseded UID it points to a detached ledger that nobody
else sees. `ledgerFor` here returns the ledger with a flag for the first case, and `withLedger`
runs a critical section on it and stores the result exactly when the flag is set.

`liveLedger` names the ledger a critical section of a live provider starts from: the stored one
rolled over to the current period, or a fresh one. `withLedger_of_superseded`,
`lookup_withLedger_self` and `lookup_withLedger_of_ne` say what a critical section does to the
map, and callers use nothing else about `ledgerFor`.
-/

namespace Kaalm

open Calendar Decimal

/-! ## State -/

/-- The ledger of one provider incarnation. Zero times are `none`. -/
structure ProviderLedger where
  /-- The UID of the provider this ledger counts for. -/
  uid : String
  period : String
  own : GoMap String ℚ := ∅
  peers : GoMap String ℚ := ∅
  /-- Per-workload spend, keyed `namespace/workload`. -/
  ownW : GoMap String ℚ := ∅
  peersW : GoMap String ℚ := ∅
  /-- The settle token of the holder of each admission slot; an absent key is a free slot. The
  source counts tokens in a `uint64`, one per boundary admission. -/
  adm : GoMap String ℕ := ∅
  nextToken : ℕ := 0
  /-- Running maximum settled cost of one call. -/
  maxCostPerCall : ℚ := 0
  rateBucketStart : Option Time := none
  rateBucketSum : ℚ := 0
  peakRatePerSec : ℚ := 0
  /-- The oldest settle not yet published. -/
  dirtySince : Option Time := none
  /-- The last successful peer-view refresh. -/
  lastFoldOK : Option Time := none
  marginRaised : Bool := false
  deriving DecidableEq

/-- The publish interval, three of which make the staleness window. -/
def defaultPublishInterval : Time := 10 * second

/-- The observed-spend-rate bucket. -/
def rateBucketWidth : Time := 10 * second

/-- The slot key of the provider-wide slot. Namespaces cannot be empty. -/
def clusterSlotKey : String := ""

/-- The ledger of a gateway replica. -/
structure BudgetLedger where
  /-- The answer of the replica counter; `none` where none is injected. -/
  replicas : Option ℤ := none
  stalenessWindow : Time := 3 * defaultPublishInterval
  providers : GoMap String ProviderLedger := ∅
  /-- The UIDs of providers whose name now belongs to a newer provider. -/
  superseded : Finset String := ∅
  deriving DecidableEq

/-- `NewBudgetLedger`. -/
def newBudgetLedger : BudgetLedger := {}

def newProviderLedger (period uid : String) : ProviderLedger := { uid := uid, period := period }

/-! ## Looking up a provider's ledger -/

/-- Enter a period. Counters, slots and the traffic tracker reset when the period changes; the
token counter and the two staleness signals stay. -/
def ProviderLedger.rollover (l : ProviderLedger) (period : String) : ProviderLedger :=
  if l.period ≠ period then
    { l with
      period := period
      own := ∅
      peers := ∅
      ownW := ∅
      peersW := ∅
      adm := ∅
      maxCostPerCall := 0
      rateBucketStart := none
      rateBucketSum := 0
      peakRatePerSec := 0
      marginRaised := false }
  else l

/-- The provider's ledger, and whether it is the stored one. -/
def BudgetLedger.ledgerFor (b : BudgetLedger) (now : Time) (providerName uid : String)
    (scheme : BudgetPeriod) : BudgetLedger × ProviderLedger × Bool :=
  let period := periodKey scheme now
  let fresh := newProviderLedger period uid
  if uid ∈ b.superseded then (b, fresh, false)
  else match b.providers.lookup providerName with
    | some l =>
      if l.uid ≠ uid then
        ({ b with
            superseded := insert l.uid b.superseded
            providers := b.providers.insert providerName fresh }, fresh, true)
      else
        let l := l.rollover period
        ({ b with providers := b.providers.insert providerName l }, l, true)
    | none => ({ b with providers := b.providers.insert providerName fresh }, fresh, true)

/-- A critical section on the ledger `ledgerFor` returns. -/
def BudgetLedger.withLedger {α : Type} (b : BudgetLedger) (now : Time) (providerName uid : String)
    (scheme : BudgetPeriod) (f : ProviderLedger → ProviderLedger × α) : BudgetLedger × α :=
  let (b, l, stored) := b.ledgerFor now providerName uid scheme
  let (l, a) := f l
  (if stored then { b with providers := b.providers.insert providerName l } else b, a)

/-- The stored ledger under a name, only when it counts for the given UID. -/
def BudgetLedger.boundTo (b : BudgetLedger) (name uid : String) : Option ProviderLedger :=
  (b.providers.lookup name).filter fun l ↦ l.uid = uid

/-- The stored ledger of a provider, only when it counts for that provider's UID. -/
def BudgetLedger.boundLedger (b : BudgetLedger) (provider : ModelProvider) :
    Option ProviderLedger :=
  b.boundTo provider.name provider.uid

/-! ## Recording spend -/

/-- Feed the observed-traffic tracker with a settled cost. -/
def ProviderLedger.trackLocked (l : ProviderLedger) (now : Time) (cost : ℚ) : ProviderLedger :=
  if cost ≤ 0 then l
  else
    let l := if l.maxCostPerCall < cost then { l with maxCostPerCall := cost } else l
    let l := match l.rateBucketStart with
      | none => { l with rateBucketStart := some now, rateBucketSum := 0 }
      | some start =>
        if rateBucketWidth ≤ now - start then
          let r := l.rateBucketSum / 10
          { l with
            peakRatePerSec := if l.peakRatePerSec < r then r else l.peakRatePerSec
            rateBucketStart := some now
            rateBucketSum := 0 }
        else l
    { l with rateBucketSum := l.rateBucketSum + cost }

/-- A cost lands: both counters, the tracker and the write-path signal. -/
def ProviderLedger.land (l : ProviderLedger) (now : Time) (ns workload : String) (cost : ℚ) :
    ProviderLedger :=
  let l := { l with
    own := l.own.bump ns cost
    ownW := l.ownW.bump (ns ++ "/" ++ workload) cost }
  let l := l.trackLocked now cost
  { l with dirtySince := some (l.dirtySince.getD now) }

/-- Record spend for a namespace and its attested workload after a call completes. -/
def BudgetLedger.add (b : BudgetLedger) (now : Time) (provider : ModelProvider)
    (ns workload : String) (cost : ℚ) : BudgetLedger :=
  if periodKey provider.budget.period now = "" ∨ cost = 0 then b
  else (b.withLedger now provider.name provider.uid provider.budget.period fun l ↦
    (l.land now ns workload cost, ())).1

/-! ## Folding peers -/

/-- Replace the peer view of a provider. -/
def BudgetLedger.foldPeers (b : BudgetLedger) (now : Time) (provider : ModelProvider)
    (peers : GoMap String ℚ) : BudgetLedger :=
  (b.withLedger now provider.name provider.uid provider.budget.period fun l ↦
    ({ l with peers := peers, lastFoldOK := some now }, ())).1

/-- Seed the peer view from the reconciler's roll-up at startup. -/
def BudgetLedger.initCanonical (b : BudgetLedger) (now : Time) (provider : ModelProvider)
    (canonical : GoMap String ℚ) : BudgetLedger :=
  b.foldPeers now provider canonical

/-- Replace the per-workload peer view. It leaves `lastFoldOK` alone: workload spend is never an
enforcement input. -/
def BudgetLedger.foldWorkloadPeers (b : BudgetLedger) (now : Time) (provider : ModelProvider)
    (peers : GoMap String ℚ) : BudgetLedger :=
  (b.withLedger now provider.name provider.uid provider.budget.period fun l ↦
    ({ l with peersW := peers }, ())).1

/-! ## Publishing -/

/-- The counters for publishing: period, amounts as decimal texts, and the margin flag. -/
def BudgetLedger.ownPartial (b : BudgetLedger) (provider : ModelProvider) :
    Option (String × GoMap String String × Bool) :=
  match b.boundLedger provider with
  | none => none
  | some l => if l.own = ∅ then none else some (l.period, l.own.mapVal formatFixed, l.marginRaised)

/-- The per-workload counters for publishing. -/
def BudgetLedger.ownWorkloadPartial (b : BudgetLedger) (provider : ModelProvider) :
    Option (String × GoMap String String) :=
  match b.boundLedger provider with
  | none => none
  | some l => if l.ownW = ∅ then none else some (l.period, l.ownW.mapVal formatFixed)

/-- Clear the write-path signal unless it is newer than the snapshot. -/
def ProviderLedger.published (l : ProviderLedger) (snapshot : Time) : ProviderLedger :=
  if l.dirtySince.any fun d ↦ d ≤ snapshot then { l with dirtySince := none } else l

/-- Record a successful publish whose ledger snapshot was taken at `snapshot`. -/
def BudgetLedger.markPublished (b : BudgetLedger) (provider : ModelProvider) (snapshot : Time) :
    BudgetLedger :=
  match b.boundLedger provider with
  | none => b
  | some l => { b with providers := b.providers.insert provider.name (l.published snapshot) }

/-- `strings.CutPrefix`. -/
def cutPrefix (key pre : String) : Option String :=
  if pre.toList.isPrefixOf key.toList then some (String.ofList (key.toList.drop pre.length))
    else none

/-- One provider's per-workload view for a namespace. -/
structure WorkloadProviderSpend where
  period : String
  workloads : GoMap String String
  deriving DecidableEq

/-- The per-workload rows of one ledger for a namespace: own counters plus peers. -/
def ProviderLedger.workloadRows (l : ProviderLedger) (ns : String) : GoMap String ℚ :=
  let rows (sums : GoMap String ℚ) (m : GoMap String ℚ) : GoMap String ℚ :=
    m.entries.foldl (fun sums e ↦
      match cutPrefix e.1 (ns ++ "/") with
      | some workload => sums.bump workload e.2
      | none => sums) sums
  rows (rows ∅ l.ownW) l.peersW

/-- Every provider's per-workload spend rows for one namespace. -/
def BudgetLedger.workloadSpend (b : BudgetLedger) (ns : String) :
    GoMap String WorkloadProviderSpend :=
  b.providers.entries.foldl (fun out e ↦
    let sums := e.2.workloadRows ns
    if sums = ∅ then out else out.insert e.1 ⟨e.2.period, sums.mapVal formatFixed⟩) ∅

/-! ## Enforcement -/

/-- The enforcement view: own live counter plus peer partials. -/
def ProviderLedger.spent (l : ProviderLedger) (ns : String) : ℚ := l.own.get ns + l.peers.get ns

def ProviderLedger.clusterSpent (l : ProviderLedger) : ℚ := l.own.total + l.peers.total

def utilizationLocked (budget : ModelProviderBudget) (l : ProviderLedger) (ns : String) :
    Utilization :=
  utilizationOf budget (l.spent ns) l.clusterSpent

/-- Evaluate the policies for a namespace; the soft-mode entry point. The utilization is `read` from
the ledger. -/
def BudgetLedger.enforce (b : BudgetLedger) (now : Time) (provider : ModelProvider) (ns : String)
    (read : ProviderLedger → Utilization := fun l ↦ utilizationLocked provider.budget l ns) :
    BudgetLedger × BudgetDecision :=
  let budget := provider.budget
  if periodKey budget.period now = "" ∨ budget.policies = [] then (b, {})
  else
    let (b, u) := b.withLedger now provider.name provider.uid budget.period fun l ↦ (l, read l)
    (b, budget.decide now u)

/-! ## What a critical section does to the map -/

namespace ProviderLedger

variable (l : ProviderLedger) (period : String)

@[simp] theorem rollover_uid : (l.rollover period).uid = l.uid := by
  rw [rollover]
  split_ifs <;> rfl

@[simp] theorem rollover_period : (l.rollover period).period = period := by
  rw [rollover]
  split_ifs with h
  · rfl
  · exact not_not.mp h

@[simp] theorem rollover_nextToken : (l.rollover period).nextToken = l.nextToken := by
  rw [rollover]
  split_ifs <;> rfl

@[simp] theorem rollover_dirtySince : (l.rollover period).dirtySince = l.dirtySince := by
  rw [rollover]
  split_ifs <;> rfl

@[simp] theorem rollover_lastFoldOK : (l.rollover period).lastFoldOK = l.lastFoldOK := by
  rw [rollover]
  split_ifs <;> rfl

variable {l period}

theorem rollover_of_eq (h : l.period = period) : l.rollover period = l := by
  rw [rollover, if_neg (not_not.mpr h)]

theorem rollover_own_of_ne (h : l.period ≠ period) : (l.rollover period).own = ∅ := by
  rw [rollover, if_pos h]

theorem rollover_adm_of_ne (h : l.period ≠ period) : (l.rollover period).adm = ∅ := by
  rw [rollover, if_pos h]

end ProviderLedger

namespace BudgetLedger

variable (b : BudgetLedger) (now : Time) (name uid : String) (scheme : BudgetPeriod)

/-- The ledger a critical section of a live provider starts from. -/
def liveLedger : ProviderLedger :=
  match b.boundTo name uid with
  | some l => l.rollover (periodKey scheme now)
  | none => newProviderLedger (periodKey scheme now) uid

/-- The superseded UIDs once `name` is bound to `uid`. -/
def supersededBy : Finset String :=
  match b.providers.lookup name with
  | some l => if l.uid ≠ uid then insert l.uid b.superseded else b.superseded
  | none => b.superseded

variable {b now name uid scheme}

theorem boundTo_eq_some {l : ProviderLedger} :
    b.boundTo name uid = some l ↔ b.providers.lookup name = some l ∧ l.uid = uid := by
  rw [boundTo, Option.filter_eq_some_iff, decide_eq_true_iff]

theorem boundLedger_eq_some {provider : ModelProvider} {l : ProviderLedger} :
    b.boundLedger provider = some l ↔
      b.providers.lookup provider.name = some l ∧ l.uid = provider.uid :=
  boundTo_eq_some

theorem liveLedger_of_bound {l : ProviderLedger} (h : b.boundTo name uid = some l) :
    b.liveLedger now name uid scheme = l.rollover (periodKey scheme now) := by
  rw [liveLedger, h]

theorem liveLedger_of_unbound (h : b.boundTo name uid = none) :
    b.liveLedger now name uid scheme = newProviderLedger (periodKey scheme now) uid := by
  rw [liveLedger, h]

@[simp] theorem liveLedger_uid : (b.liveLedger now name uid scheme).uid = uid := by
  rw [liveLedger]
  cases h : b.boundTo name uid with
  | none => rfl
  | some l => exact (ProviderLedger.rollover_uid l _).trans (boundTo_eq_some.mp h).2

@[simp] theorem liveLedger_period :
    (b.liveLedger now name uid scheme).period = periodKey scheme now := by
  rw [liveLedger]
  cases b.boundTo name uid with
  | none => rfl
  | some l => exact ProviderLedger.rollover_period l _

/-- The two staleness signals outlive a rollover, and a fresh ledger has neither. -/
theorem liveLedger_signals :
    (b.liveLedger now name uid scheme).dirtySince = (b.boundTo name uid).bind (·.dirtySince)
      ∧ (b.liveLedger now name uid scheme).lastFoldOK
        = (b.boundTo name uid).bind (·.lastFoldOK) := by
  rw [liveLedger]
  cases b.boundTo name uid with
  | none => exact ⟨rfl, rfl⟩
  | some l => exact ⟨l.rollover_dirtySince _, l.rollover_lastFoldOK _⟩

variable {α : Type} {f : ProviderLedger → ProviderLedger × α}

/-- A call for a superseded UID works on a detached ledger and leaves the state as it is. -/
theorem withLedger_of_superseded (h : uid ∈ b.superseded) :
    b.withLedger now name uid scheme f
      = (b, (f (newProviderLedger (periodKey scheme now) uid)).2) := by
  rw [withLedger, ledgerFor]
  simp only [if_pos h]
  rfl

/-- Any other call binds the name to its UID and stores the result of its critical section. -/
theorem withLedger_of_live (h : uid ∉ b.superseded) :
    b.withLedger now name uid scheme f =
      ({ b with
          superseded := b.supersededBy name uid
          providers := b.providers.insert name (f (b.liveLedger now name uid scheme)).1 },
        (f (b.liveLedger now name uid scheme)).2) := by
  rw [withLedger, ledgerFor, supersededBy, liveLedger, boundTo]
  simp only [if_neg h]
  cases b.providers.lookup name with
  | none => simp
  | some l =>
    by_cases hl : l.uid = uid
    · simp [hl, Option.filter]
    · simp [hl, Option.filter]

theorem lookup_withLedger_self (h : uid ∉ b.superseded) :
    (b.withLedger now name uid scheme f).1.providers.lookup name
      = some (f (b.liveLedger now name uid scheme)).1 := by
  rw [withLedger_of_live h]
  exact AList.lookup_insert _

/-- What a critical section returns does not matter for the state it leaves. -/
theorem withLedger_fst :
    (b.withLedger now name uid scheme f).1
      = (b.withLedger now name uid scheme fun l ↦ ((f l).1, ())).1 := rfl

/-- The frame: a critical section touches no other name. -/
theorem lookup_withLedger_of_ne {n : String} (hn : n ≠ name) :
    (b.withLedger now name uid scheme f).1.providers.lookup n = b.providers.lookup n := by
  by_cases h : uid ∈ b.superseded
  · rw [withLedger_of_superseded h]
  · rw [withLedger_of_live h]
    exact AList.lookup_insert_ne hn

@[simp] theorem stalenessWindow_withLedger :
    (b.withLedger now name uid scheme f).1.stalenessWindow = b.stalenessWindow := by
  by_cases h : uid ∈ b.superseded
  · rw [withLedger_of_superseded h]
  · rw [withLedger_of_live h]

theorem mem_supersededBy {u : String} :
    u ∈ b.supersededBy name uid ↔
      u ∈ b.superseded ∨ ∃ l, b.providers.lookup name = some l ∧ l.uid = u ∧ u ≠ uid := by
  rw [supersededBy]
  cases b.providers.lookup name with
  | none => simp
  | some l =>
    by_cases hl : l.uid = uid
    · simp only [hl, ne_eq, not_true_eq_false, if_false, Option.some.injEq]
      constructor
      · exact Or.inl
      · rintro (h | ⟨l', rfl, hu, hne⟩)
        · exact h
        · exact absurd (hu.symm.trans hl) hne
    · simp only [ne_eq, hl, not_false_eq_true, if_true, Finset.mem_insert, Option.some.injEq]
      constructor
      · rintro (rfl | h)
        · exact Or.inr ⟨l, rfl, rfl, hl⟩
        · exact Or.inl h
      · rintro (h | ⟨l', rfl, hu, -⟩)
        · exact Or.inr h
        · exact Or.inl hu.symm

/-- A critical section supersedes only the UID its name was bound to. -/
theorem mem_superseded_withLedger {u : String}
    (h : u = uid ∨ ∀ l, b.providers.lookup name = some l → l.uid ≠ u) :
    u ∈ (b.withLedger now name uid scheme f).1.superseded ↔ u ∈ b.superseded := by
  by_cases hlive : uid ∈ b.superseded
  · rw [withLedger_of_superseded hlive]
  rw [withLedger_of_live hlive, mem_supersededBy, or_iff_left]
  rintro ⟨l, hl, hu, hne⟩
  rcases h with h | h
  · exact hne h
  · exact h l hl hu

end BudgetLedger

/-! ## Landing a cost -/

namespace ProviderLedger

/-- Marking writes the write-path signal only. -/
theorem published_frame (l : ProviderLedger) (snapshot : Time) :
    (l.published snapshot).uid = l.uid ∧ (l.published snapshot).period = l.period
      ∧ (l.published snapshot).own = l.own ∧ (l.published snapshot).peers = l.peers := by
  rw [published]
  split_ifs <;> exact ⟨rfl, rfl, rfl, rfl⟩

variable (l : ProviderLedger) (now : Time) (ns workload : String) (cost : ℚ)

/-- The tracker writes only its own fields. -/
theorem trackLocked_frame :
    (l.trackLocked now cost).uid = l.uid ∧ (l.trackLocked now cost).period = l.period
      ∧ (l.trackLocked now cost).own = l.own ∧ (l.trackLocked now cost).adm = l.adm
      ∧ (l.trackLocked now cost).nextToken = l.nextToken
      ∧ (l.trackLocked now cost).dirtySince = l.dirtySince
      ∧ (l.trackLocked now cost).lastFoldOK = l.lastFoldOK
      ∧ (l.trackLocked now cost).peers = l.peers := by
  rw [trackLocked]
  split_ifs with hcost hmax
  · simp
  · simp only
    cases l.rateBucketStart with
    | none => simp
    | some start =>
      simp only
      split_ifs <;> simp
  · simp only
    cases l.rateBucketStart with
    | none => simp
    | some start =>
      simp only
      split_ifs <;> simp

@[simp] theorem land_uid : (l.land now ns workload cost).uid = l.uid :=
  (trackLocked_frame _ now cost).1

@[simp] theorem land_period : (l.land now ns workload cost).period = l.period :=
  (trackLocked_frame _ now cost).2.1

@[simp] theorem land_own : (l.land now ns workload cost).own = l.own.bump ns cost :=
  (trackLocked_frame _ now cost).2.2.1

@[simp] theorem land_adm : (l.land now ns workload cost).adm = l.adm :=
  (trackLocked_frame _ now cost).2.2.2.1

@[simp] theorem land_nextToken : (l.land now ns workload cost).nextToken = l.nextToken :=
  (trackLocked_frame _ now cost).2.2.2.2.1

@[simp] theorem land_dirtySince :
    (l.land now ns workload cost).dirtySince = some (l.dirtySince.getD now) := by
  rw [land]
  simp only [(trackLocked_frame _ now cost).2.2.2.2.2.1]

@[simp] theorem land_peers : (l.land now ns workload cost).peers = l.peers :=
  (trackLocked_frame _ now cost).2.2.2.2.2.2.2

end ProviderLedger

end Kaalm
