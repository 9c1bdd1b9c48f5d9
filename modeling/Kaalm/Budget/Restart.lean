import Kaalm.Budget.Exchange
import Kaalm.Budget.Publisher

/-!
# In-place restarts

One gateway Pod through one period: its process counts, publishes, folds and may restart in place,
with a new empty ledger, the same Pod name and a peer view seeded from `_canonical`. Around it other
replicas publish and reducer passes run that keep the Pod live. The other replicas are taken to keep
the law that is the subject here: their keys do not go backwards.

## The invariant

What is stored under the Pod's key is at most what a publish under way carries, and that is at most
what the process counts (`PodInv.stored`, `PodInv.pending`). The roll-up is at most what the
ConfigMap counts for (`PodInv.canonical`).

## What a restart loses

The seed goes into the peer view. The own counters start again at zero, and the next publish
overwrites the key of the Pod from them. Only a restart that finds no key of the Pod's own keeps the
invariant (`GatewayPod.Kept`).
-/

namespace Kaalm

open Decimal

/-- `SeedFromCanonical` for one provider. -/
def BudgetLedger.seedFromCanonical (b : BudgetLedger) (now : Time) (cm : Option ConfigMap)
    (provider : ModelProvider) : BudgetLedger :=
  match ((dataOf cm).lookup canonicalKey).bind parseAmounts with
  | none => b
  | some canonical => b.initCanonical now provider canonical

/-! ## The Pod and the ConfigMap -/

structure GatewayPod where
  sys : System
  /-- The partial of a publish whose apply has not returned. -/
  pending : Option BudgetPartial := none
  cm : Option ConfigMap := none

inductive PodOp
  | call (op : Op)
  | ownPartial
  | applyOK
  | applyFailed
  | fold (agentSpend : Option ConfigMap)
  | restart
  | seed
  | reconcile (live : Finset String)
  | peer (pod : String) (own : GoMap String ℚ) (marginRaised : Bool)

namespace GatewayPod

variable (codec : ArchiveCodec) (p : ModelProvider) (podName : String)

def init (window start : Time) : GatewayPod := { sys := System.init window start }

def period (s : GatewayPod) : String := periodKey p.budget.period s.sys.now

/-- The amount stored under a key. -/
def storedAt (s : GatewayPod) (k ns : String) : ℚ :=
  (ownContribution (s.period p) p.uid (dataOf s.cm) k).get ns

/-- The amount in the stored roll-up. -/
def canonicalAt (s : GatewayPod) (ns : String) : ℚ :=
  (((dataOf s.cm).lookup canonicalKey).bind parseAmounts).elim 0 (·.get ns)

/-- Another replica's publish that takes nothing back. -/
def peerGrows (s : GatewayPod) (pod : String) (own : GoMap String ℚ) (marginRaised : Bool) : Bool :=
  pod ≠ podName ∧ ¬ isFlag pod
    ∧ (∀ ns ∈ own.keys, (ns ≠ "period" ∧ ¬ isFlag ns) ∧ 0 ≤ own.get ns)
    ∧ ∀ ns ∈ (ownContribution (s.period p) p.uid (dataOf s.cm) pod).keys,
        s.storedAt p pod ns ≤ (replicaPartial (s.period p) own marginRaised p.uid).amountOf ns

/-- The step function: calls of one provider with one spec inside one period. -/
def step (s : GatewayPod) : PodOp → Option GatewayPod
  | .call op =>
    if op.incarnation.all (fun i ↦ i = (p.name, p.uid))
        ∧ (∀ scheme ∈ s.sys.reaches op, scheme = p.budget.period)
        ∧ ∀ ns ∈ op.charges, ¬ isFlag ns then
      ((s.sys.exec op).filter fun r ↦ periodKey p.budget.period r.1.now = s.period p).map
        fun r ↦ { s with sys := r.1 }
    else none
  | .ownPartial =>
    if s.pending.isSome then none
    else (s.sys.ledger.ownPartial p).map fun (period, spend, marginRaised) ↦
      { s with pending := some ⟨period, spend, marginRaised, p.uid⟩ }
  | .applyOK => s.pending.map fun q ↦
      { s with pending := none, cm := some (applyPartial s.cm podName q.marshalJSON) }
  | .applyFailed => s.pending.map fun _ ↦ { s with pending := none }
  | .fold agentSpend =>
    let read name := if name = budgetConfigMapName p.name then s.cm else agentSpend
    some { s with sys := s.sys.update (s.sys.ledger.fold s.sys.now podName read p) }
  | .restart =>
    some { s with sys := System.init s.sys.ledger.stalenessWindow s.sys.now, pending := none }
  | .seed => some { s with sys := s.sys.update (s.sys.ledger.seedFromCanonical s.sys.now s.cm p) }
  | .reconcile live =>
    let pass cm := (reconcileBudget codec cm (fun k ↦ k ∈ live) (s.period p) p.uid).getD cm
    if podName ∈ live then some { s with cm := s.cm.map pass } else none
  | .peer pod own marginRaised =>
    let raw := (replicaPartial (s.period p) own marginRaised p.uid).marshalJSON
    if s.peerGrows p podName pod own marginRaised then
      some { s with cm := applyPartial s.cm pod raw }
    else none

/-- Costs are not negative and not for a namespace `period`, and the process restarts only while the
Pod has no key. -/
def Kept (s : GatewayPod) : PodOp → Prop
  | .call op => 0 ≤ op.cost ∧ op.charges ≠ some "period"
  | .restart => podName ∉ dataOf s.cm
  | _ => True

instance (s : GatewayPod) : ∀ op, Decidable (s.Kept podName op)
  | .call op => inferInstanceAs (Decidable (0 ≤ op.cost ∧ op.charges ≠ some "period"))
  | .restart => inferInstanceAs (Decidable (podName ∉ dataOf s.cm))
  | .ownPartial | .applyOK | .applyFailed | .fold _ | .seed | .reconcile _ | .peer _ _ _ =>
    isTrue trivial

end GatewayPod

/-! ## The process's own counters -/

/-- What the process counts for a namespace. -/
def BudgetLedger.ownSpend (b : BudgetLedger) (name ns : String) : ℚ :=
  (b.providers.lookup name).elim 0 (·.own.get ns)

/-- The ledger counts for one UID in one period, and what it counts can be published. -/
structure Counting (p : ModelProvider) (period : String) (b : BudgetLedger) : Prop where
  sole : b.Sole p.name p.uid
  period_eq : ∀ l, b.providers.lookup p.name = some l → l.period = period
  names : ∀ l, b.providers.lookup p.name = some l → ∀ ns ∈ l.own, ns ≠ "period" ∧ ¬ isFlag ns
  nonneg : ∀ l, b.providers.lookup p.name = some l → ∀ ns, 0 ≤ l.own.get ns

namespace Counting

variable {p : ModelProvider} {period : String} {b : BudgetLedger} {s t : System} {op : Op}
  {out : Output}

theorem init (p : ModelProvider) (period : String) (window start : Time) :
    Counting p period (System.init window start).ledger :=
  ⟨.init _ _ window start, fun _ h ↦ absurd h AList.lookup_empty_ne,
    fun _ h ↦ absurd h AList.lookup_empty_ne, fun _ h ↦ absurd h AList.lookup_empty_ne⟩

theorem ownSpend_nonneg (h : Counting p period b) (ns : String) : 0 ≤ b.ownSpend p.name ns := by
  rw [BudgetLedger.ownSpend]
  cases hl : b.providers.lookup p.name with
  | none => exact le_rfl
  | some l => exact h.nonneg l hl ns

/-- A call in the period starts from the stored counters. -/
theorem liveLedger_own (h : Counting p period s.ledger)
    (hperiod : periodKey p.budget.period s.now = period) :
    (s.ledger.liveLedger s.now p.name p.uid p.budget.period).own
      = ((s.ledger.providers.lookup p.name).map (·.own)).getD ∅ := by
  rw [BudgetLedger.liveLedger, h.sole.boundTo]
  cases hl : s.ledger.providers.lookup p.name with
  | none => rfl
  | some l =>
    simp only
    rw [ProviderLedger.rollover_of_eq ((h.period_eq l hl).trans hperiod.symm)]
    rfl

theorem get_liveLedger_own (h : Counting p period s.ledger)
    (hperiod : periodKey p.budget.period s.now = period) (ns : String) :
    (s.ledger.liveLedger s.now p.name p.uid p.budget.period).own.get ns
      = s.ledger.ownSpend p.name ns := by
  rw [h.liveLedger_own hperiod, BudgetLedger.ownSpend]
  cases s.ledger.providers.lookup p.name <;> rfl

/-- A call with no negative cost takes nothing back. -/
theorem exec (h : Counting p period s.ledger) (hexec : s.exec op = some (t, out))
    (hperiod : periodKey p.budget.period s.now = period)
    (hop : op.incarnation.all fun i ↦ i = (p.name, p.uid))
    (hscheme : ∀ scheme ∈ s.reaches op, scheme = p.budget.period)
    (hnames : ∀ ns ∈ op.charges, ns ≠ "period" ∧ ¬ isFlag ns) (hcost : 0 ≤ op.cost) :
    Counting p period t.ledger
      ∧ ∀ ns, s.ledger.ownSpend p.name ns ≤ t.ledger.ownSpend p.name ns := by
  obtain ⟨hsole, heffect⟩ := h.sole.exec hop hexec
  suffices hfound : (∀ l, t.ledger.providers.lookup p.name = some l → l.period = period
        ∧ ∀ ns ∈ l.own, ns ≠ "period" ∧ ¬ isFlag ns)
      ∧ ∀ ns, s.ledger.ownSpend p.name ns ≤ t.ledger.ownSpend p.name ns by
    refine ⟨⟨hsole, fun l hl ↦ (hfound.1 l hl).1, fun l hl ↦ (hfound.1 l hl).2, fun l hl ns ↦ ?_⟩,
      hfound.2⟩
    have hown : t.ledger.ownSpend p.name ns = l.own.get ns := by
      rw [BudgetLedger.ownSpend, hl, Option.elim_some]
    exact hown ▸ (h.ownSpend_nonneg ns).trans (hfound.2 ns)
  have hspend : ∀ ns, t.ledger.ownSpend p.name ns
      = (t.ledger.providers.lookup p.name).elim 0 (·.own.get ns) := fun _ ↦ rfl
  simp only [hspend]
  generalize t.ledger.providers.lookup p.name = found at heffect ⊢
  cases heffect with
  | same hreach => exact ⟨fun l hl ↦ ⟨h.period_eq l hl, h.names l hl⟩, fun ns ↦ le_rfl⟩
  | critical scheme _ hreach =>
    obtain rfl := hscheme scheme hreach
    constructor
    · rintro l ⟨⟩
      refine ⟨by rw [Op.write_period, BudgetLedger.liveLedger_period, hperiod], fun ns hns ↦ ?_⟩
      rcases Op.mem_write_own _ _ _ hns with hold | hcharged
      · rw [h.liveLedger_own hperiod] at hold
        cases hl : s.ledger.providers.lookup p.name with
        | none =>
          rw [hl] at hold
          exact absurd hold (AList.notMem_empty ns)
        | some l =>
          rw [hl] at hold
          exact h.names l hl ns hold
      · exact hnames ns hcharged
    · intro ns
      rw [Option.elim_some, Op.get_write_own, h.get_liveLedger_own hperiod]
      exact le_add_of_nonneg_right (Op.landed_nonneg hcost ns)
  | published p' snapshot l _ _ hl =>
    obtain ⟨-, hframe, hown, -⟩ := l.published_frame snapshot
    constructor
    · rintro _ ⟨⟩
      rw [hframe, hown]
      exact ⟨h.period_eq l hl, h.names l hl⟩
    · intro ns
      rw [BudgetLedger.ownSpend, hl, Option.elim_some, Option.elim_some, hown]

/-- A fold of the provider leaves the counters alone. -/
theorem foldPeers (h : Counting p period s.ledger)
    (hperiod : periodKey p.budget.period s.now = period) (peers : GoMap String ℚ) :
    Counting p period (s.ledger.foldPeers s.now p peers)
      ∧ ∀ ns, s.ledger.ownSpend p.name ns
        ≤ (s.ledger.foldPeers s.now p peers).ownSpend p.name ns :=
  h.exec (show s.exec (.foldPeers p peers) = some (_, .nothing) from rfl) hperiod
    (by simp [Op.incarnation]) (by simp [System.reaches]) nofun le_rfl

theorem foldWorkloadPeers (h : Counting p period s.ledger)
    (hperiod : periodKey p.budget.period s.now = period) (peers : GoMap String ℚ) :
    Counting p period (s.ledger.foldWorkloadPeers s.now p peers)
      ∧ ∀ ns, s.ledger.ownSpend p.name ns
        ≤ (s.ledger.foldWorkloadPeers s.now p peers).ownSpend p.name ns :=
  h.exec (show s.exec (.foldWorkloadPeers p peers) = some (_, .nothing) from rfl) hperiod
    (by simp [Op.incarnation]) (by simp [System.reaches]) nofun le_rfl

theorem fold (h : Counting p period s.ledger) (hperiod : periodKey p.budget.period s.now = period)
    (podName : String) (read : String → Option ConfigMap) :
    Counting p period (s.ledger.fold s.now podName read p)
      ∧ ∀ ns, s.ledger.ownSpend p.name ns
        ≤ (s.ledger.fold s.now podName read p).ownSpend p.name ns := by
  rw [BudgetLedger.fold]
  cases read (budgetConfigMapName p.name) with
  | none => exact h.foldPeers hperiod ∅
  | some cm =>
    obtain ⟨h₁, hle₁⟩ := h.foldPeers hperiod
      (foldPartials cm.data podName (periodKey p.budget.period s.now) p.uid)
    have hworkloads := fun peersW ↦ Counting.foldWorkloadPeers (s := s.update _) h₁ hperiod peersW
    simp only
    rw [BudgetLedger.foldWorkloads]
    cases read (agentSpendConfigMapName p.name) with
    | none => exact ⟨(hworkloads ∅).1, fun ns ↦ (hle₁ ns).trans ((hworkloads ∅).2 ns)⟩
    | some cm' => exact ⟨(hworkloads _).1, fun ns ↦ (hle₁ ns).trans ((hworkloads _).2 ns)⟩

theorem seedFromCanonical (h : Counting p period s.ledger)
    (hperiod : periodKey p.budget.period s.now = period) (cm : Option ConfigMap) :
    Counting p period (s.ledger.seedFromCanonical s.now cm p)
      ∧ ∀ ns, s.ledger.ownSpend p.name ns
        ≤ (s.ledger.seedFromCanonical s.now cm p).ownSpend p.name ns := by
  rw [BudgetLedger.seedFromCanonical]
  cases ((dataOf cm).lookup canonicalKey).bind parseAmounts with
  | none => exact ⟨h, fun ns ↦ le_rfl⟩
  | some canonical => exact h.foldPeers hperiod canonical

end Counting

/-! ## The Pod's key -/

structure PodInv (p : ModelProvider) (podName period : String) (s : GatewayPod) : Prop where
  clock : s.period p = period
  counting : Counting p period s.sys.ledger
  cents : AmountsInCents (dataOf s.cm)
  counts : ∀ raw, (dataOf s.cm).lookup podName = some raw →
    ∃ q : BudgetPartial, q.marshalJSON = raw ∧ q.Counts period p.uid
  stored : ∀ ns, s.storedAt p podName ns ≤ roundCents (s.sys.ledger.ownSpend p.name ns)
  pending : ∀ q, s.pending = some q → q.Counts period p.uid ∧ InCents q.marshalJSON
    ∧ ∀ ns, s.storedAt p podName ns ≤ q.amountOf ns
      ∧ q.amountOf ns ≤ roundCents (s.sys.ledger.ownSpend p.name ns)
  canonical : ∀ ns, s.canonicalAt ns ≤ (countedSpend period p.uid (dataOf s.cm)).get ns

/-- A step keeps the invariant, and neither the Pod's key nor the roll-up goes backwards. -/
structure PodStep (p : ModelProvider) (podName period : String) (s t : GatewayPod) : Prop where
  inv : PodInv p podName period t
  stored_le : ∀ ns, s.storedAt p podName ns ≤ t.storedAt p podName ns
  canonical_le : ∀ ns, s.canonicalAt ns ≤ t.canonicalAt ns

namespace PodInv

variable {codec : ArchiveCodec} {p : ModelProvider} {podName period : String} {s t : GatewayPod}

theorem init (p : ModelProvider) (podName : String) (window start : Time) :
    PodInv p podName (periodKey p.budget.period start) (GatewayPod.init window start) where
  clock := rfl
  counting := .init p _ window start
  cents := amountsInCents_empty
  counts := nofun
  stored _ := roundCents_zero.ge
  pending := nofun
  canonical _ := le_rfl

theorem storedAt_eq (hinv : PodInv p podName period s) (k ns : String) :
    s.storedAt p k ns = (ownContribution period p.uid (dataOf s.cm) k).get ns := by
  rw [GatewayPod.storedAt, hinv.clock]

/-- A step of the process, which keeps the ConfigMap. -/
theorem process (hinv : PodInv p podName period s) {sys : System}
    (hclock : periodKey p.budget.period sys.now = period)
    (hstep : Counting p period sys.ledger
      ∧ ∀ ns, s.sys.ledger.ownSpend p.name ns ≤ sys.ledger.ownSpend p.name ns) :
    PodStep p podName period s { s with sys := sys } := by
  obtain ⟨hcounting, hle⟩ := hstep
  have hstored : ∀ k ns, GatewayPod.storedAt p { s with sys := sys } k ns = s.storedAt p k ns := by
    intro k ns
    rw [hinv.storedAt_eq, GatewayPod.storedAt, GatewayPod.period, hclock]
  have hround : ∀ ns, roundCents (s.sys.ledger.ownSpend p.name ns)
      ≤ roundCents (sys.ledger.ownSpend p.name ns) := fun ns ↦
    roundCents_mono (hinv.counting.ownSpend_nonneg ns) (hle ns)
  refine ⟨⟨hclock, hcounting, hinv.cents, hinv.counts, fun ns ↦ ?_, fun q hq ↦ ?_, hinv.canonical⟩,
    fun ns ↦ (hstored podName ns).ge, fun ns ↦ le_rfl⟩
  · rw [hstored]
    exact (hinv.stored ns).trans (hround ns)
  · obtain ⟨hcounts, hcents, hbounds⟩ := hinv.pending q hq
    refine ⟨hcounts, hcents, fun ns ↦ ⟨?_, (hbounds ns).2.trans (hround ns)⟩⟩
    rw [hstored]
    exact (hbounds ns).1

/-- A write of the ConfigMap by somebody else, which keeps the Pod's key. -/
theorem written (hinv : PodInv p podName period s) {cm : Option ConfigMap}
    (hcents : AmountsInCents (dataOf cm))
    (hkey : (dataOf cm).lookup podName = (dataOf s.cm).lookup podName)
    (hcanonical : ∀ ns, s.canonicalAt ns ≤ GatewayPod.canonicalAt { s with cm := cm } ns
      ∧ GatewayPod.canonicalAt { s with cm := cm } ns
        ≤ (countedSpend period p.uid (dataOf cm)).get ns) :
    PodStep p podName period s { s with cm := cm } := by
  have hstored : ∀ ns, GatewayPod.storedAt p { s with cm := cm } podName ns
      = s.storedAt p podName ns := by
    intro ns
    rw [GatewayPod.storedAt, GatewayPod.storedAt, ownContribution, ownContribution, hkey]
    rfl
  refine ⟨⟨hinv.clock, hinv.counting, hcents, fun raw hraw ↦ hinv.counts raw (hkey ▸ hraw),
    fun ns ↦ ?_, fun q hq ↦ ?_, fun ns ↦ (hcanonical ns).2⟩, fun ns ↦ (hstored ns).ge,
    fun ns ↦ (hcanonical ns).1⟩
  · rw [hstored]
    exact hinv.stored ns
  · simp only [hstored]
    exact hinv.pending q hq

/-- A publish that takes nothing back from a key. -/
theorem countedSpend_le_insert (data : GoMap String String) {k : String} (hk : ¬ isFlag k)
    {q : BudgetPartial} (hq : q.Counts period p.uid) {ns : String}
    (hle : (ownContribution period p.uid data k).get ns ≤ q.amountOf ns) :
    (countedSpend period p.uid data).get ns
      ≤ (countedSpend period p.uid (data.insert k q.marshalJSON)).get ns := by
  have hcounted : (countedSpend period p.uid (data.insert k q.marshalJSON)).get ns
        + (ownContribution period p.uid data k).get ns
      = (countedSpend period p.uid data).get ns
        + (contribution period p.uid q.marshalJSON).get ns := get_countedSpend_insert hk ns
  rw [hq.get_contribution] at hcounted
  linarith

/-- The roll-up stands under a key that no replica has. -/
theorem canonicalAt_applyPartial {k raw : String} (hk : ¬ isFlag k) (s : GatewayPod) (ns : String) :
    GatewayPod.canonicalAt { s with cm := some (applyPartial s.cm k raw) } ns
      = s.canonicalAt ns := by
  have hlookup : (dataOf (some (applyPartial s.cm k raw))).lookup canonicalKey
      = (dataOf s.cm).lookup canonicalKey :=
    AList.lookup_insert_ne (not_reserved_of_not_isFlag hk).1.symm
  rw [GatewayPod.canonicalAt, GatewayPod.canonicalAt, hlookup]

theorem call (hinv : PodInv p podName period s) {op : Op} (hkept : s.Kept podName (.call op))
    (h : s.step codec p podName (.call op) = some t) : PodStep p podName period s t := by
  rw [GatewayPod.step] at h
  split_ifs at h with hguard
  obtain ⟨hop, hscheme, hflags⟩ := hguard
  obtain ⟨⟨sys, out⟩, hexec, rfl⟩ := Option.map_eq_some_iff.mp h
  obtain ⟨hexec, hclock⟩ := Option.filter_eq_some_iff.mp hexec
  refine hinv.process ((of_decide_eq_true hclock).trans hinv.clock)
    (hinv.counting.exec hexec hinv.clock
    hop hscheme (fun ns hns ↦ ⟨?_, hflags ns hns⟩) hkept.1)
  rintro rfl
  exact hkept.2 hns

theorem ownPartial (hinv : PodInv p podName period s)
    (h : s.step codec p podName .ownPartial = some t) : PodStep p podName period s t := by
  rw [GatewayPod.step] at h
  split_ifs at h
  obtain ⟨⟨q, spend, marginRaised⟩, hout, rfl⟩ := Option.map_eq_some_iff.mp h
  rw [BudgetLedger.ownPartial] at hout
  cases hl : s.sys.ledger.boundLedger p with
  | none =>
    rw [hl] at hout
    cases hout
  | some l =>
    rw [hl] at hout
    simp only at hout
    split_ifs at hout
    obtain ⟨rfl, rfl, rfl⟩ := by simpa only [Option.some.injEq, Prod.mk.injEq] using hout
    have hlookup := (BudgetLedger.boundLedger_eq_some.mp hl).1
    have hown : ∀ ns, s.sys.ledger.ownSpend p.name ns = l.own.get ns := fun ns ↦ by
      rw [BudgetLedger.ownSpend, hlookup, Option.elim_some]
    have hcounts : (replicaPartial l.period l.own l.marginRaised p.uid).Counts period p.uid := by
      rw [hinv.counting.period_eq l hlookup]
      exact counts_replicaPartial (hinv.counting.names l hlookup) _
    refine ⟨⟨hinv.clock, hinv.counting, hinv.cents, hinv.counts, hinv.stored, ?_, hinv.canonical⟩,
      fun ns ↦ le_rfl, fun ns ↦ le_rfl⟩
    rintro _ ⟨⟩
    refine ⟨hcounts, hcounts.inCents rfl, fun ns ↦ ?_⟩
    have hamount :
      BudgetPartial.amountOf ⟨l.period, l.own.mapVal formatFixed, l.marginRaised, p.uid⟩ ns
        = roundCents (s.sys.ledger.ownSpend p.name ns) :=
      (amountOf_replicaPartial l.period l.own l.marginRaised p.uid ns).trans (by rw [hown])
    rw [hamount]
    exact ⟨hinv.stored ns, le_rfl⟩

theorem applyOK (hinv : PodInv p podName period s) (hname : ¬ isFlag podName)
    (h : s.step codec p podName .applyOK = some t) : PodStep p podName period s t := by
  obtain ⟨q, hq, rfl⟩ := Option.map_eq_some_iff.mp h
  obtain ⟨hcounts, hcents, hbounds⟩ := hinv.pending q hq
  have hkey : (dataOf (some (applyPartial s.cm podName q.marshalJSON))).lookup podName
      = some q.marshalJSON := AList.lookup_insert _
  have hstored : ∀ ns, GatewayPod.storedAt p
      { s with pending := none, cm := some (applyPartial s.cm podName q.marshalJSON) } podName ns
        = q.amountOf ns := by
    intro ns
    have hperiod : GatewayPod.period p { s with
        pending := none, cm := some (applyPartial s.cm podName q.marshalJSON) } = period :=
          hinv.clock
    rw [GatewayPod.storedAt, hperiod, ownContribution, hkey, Option.elim_some,
      hcounts.get_contribution]
  have hcanonical : ∀ ns, GatewayPod.canonicalAt
      { s with pending := none, cm := some (applyPartial s.cm podName q.marshalJSON) } ns
        = s.canonicalAt ns := fun ns ↦ canonicalAt_applyPartial hname s ns
  refine ⟨⟨hinv.clock, hinv.counting, hinv.cents.insert hcents, fun raw hraw ↦ ?_, fun ns ↦ ?_,
    (fun _ hq ↦ by cases hq), fun ns ↦ ?_⟩, fun ns ↦ ?_, fun ns ↦ (hcanonical ns).ge⟩
  · rw [hkey, Option.some.injEq] at hraw
    exact ⟨q, hraw, hcounts⟩
  · rw [hstored]
    exact (hbounds ns).2
  · rw [hcanonical]
    refine (hinv.canonical ns).trans (countedSpend_le_insert _ hname hcounts ?_)
    rw [← hinv.storedAt_eq]
    exact (hbounds ns).1
  · rw [hstored]
    exact (hbounds ns).1

theorem restart (hinv : PodInv p podName period s) (hkept : s.Kept podName .restart)
    (h : s.step codec p podName .restart = some t) : PodStep p podName period s t := by
  cases h
  refine ⟨⟨hinv.clock, .init p _ _ _, hinv.cents, hinv.counts, fun ns ↦ ?_, nofun, hinv.canonical⟩,
    fun ns ↦ le_rfl, fun ns ↦ le_rfl⟩
  rw [GatewayPod.storedAt, ownContribution, AList.lookup_eq_none.mpr hkept]
  exact (roundCents_zero).ge

theorem reconcile (hinv : PodInv p podName period s) (hname : ¬ isFlag podName)
    {live : Finset String}
    (h : s.step codec p podName (.reconcile live) = some t) : PodStep p podName period s t := by
  rw [GatewayPod.step] at h
  split_ifs at h with hlive
  cases h
  rw [hinv.clock]
  by_cases hperiod : period = ""
  · -- An unbudgeted provider has no pass.
    have hnone : ∀ cm, reconcileBudget codec cm (fun k ↦ k ∈ live) period p.uid = none :=
      fun cm ↦ if_pos hperiod
    have hsame : s.cm.map (fun cm ↦
        (reconcileBudget codec cm (fun k ↦ k ∈ live) period p.uid).getD cm) = s.cm := by
      simp only [hnone, Option.getD_none, Option.map_id']
    rw [hsame]
    exact hinv.written hinv.cents rfl fun ns ↦ ⟨le_rfl, hinv.canonical ns⟩
  cases hcm : s.cm with
  | none =>
    refine hinv.written amountsInCents_empty (by rw [hcm]; rfl) fun ns ↦ ⟨?_, le_rfl⟩
    rw [GatewayPod.canonicalAt, hcm]
    exact le_rfl
  | some cm =>
    have hold : dataOf s.cm = cm.data := by rw [hcm]; rfl
    have hcents : AmountsInCents cm.data := hold ▸ hinv.cents
    set cm' := (reconcileBudget codec cm (fun k ↦ k ∈ live) period p.uid).getD cm with hcm'
    have hnew : dataOf (some cm')
        = (reducedData codec cm (fun k ↦ k ∈ live) period p.uid).1 :=
      data_reconcileBudget codec cm hperiod
    have hwrites : ∀ ns, GatewayPod.canonicalAt { s with cm := some cm' } ns
        = (countedSpend period p.uid (dataOf s.cm)).get ns := by
      intro ns
      obtain ⟨canonical, hparse, hamount⟩ := canonical_reducedData codec hcents
      rw [GatewayPod.canonicalAt, hnew, hparse, Option.elim_some, hold]
      exact AList.get_eq_of_amount (hamount ns)
    refine hinv.written ?_ ?_ fun ns ↦ ?_
    · rw [Option.map_some, hnew]
      exact amountsInCents_reducedData hcents
    · rw [Option.map_some, hnew, hold]
      exact lookup_reducedData_of_counts hname (decide_eq_true hlive) fun raw hraw ↦
        hinv.counts raw (hold ▸ hraw)
    · rw [Option.map_some, hwrites, hnew, hold,
        AList.get_eq_of_amount (amount_countedSpend_reducedData codec hcents ns), ← hold]
      exact ⟨hinv.canonical ns, le_rfl⟩

theorem peer (hinv : PodInv p podName period s) {pod : String} {own : GoMap String ℚ}
    {marginRaised : Bool} (h : s.step codec p podName (.peer pod own marginRaised) = some t) :
    PodStep p podName period s t := by
  rw [GatewayPod.step] at h
  split_ifs at h with hgrows
  cases h
  rw [hinv.clock]
  obtain ⟨hpod, hname, hown, hstored⟩ := of_decide_eq_true hgrows
  set q := replicaPartial period own marginRaised p.uid with hqdef
  have hq : q.Counts period p.uid :=
    counts_replicaPartial (fun ns hns ↦ (hown ns (AList.mem_keys.mp hns)).1) _
  refine hinv.written (hinv.cents.insert (hq.inCents rfl)) (AList.lookup_insert_ne hpod.symm)
    fun ns ↦ ?_
  have hcanonical :
    GatewayPod.canonicalAt { s with cm := some (applyPartial s.cm pod q.marshalJSON) }
      ns = s.canonicalAt ns := canonicalAt_applyPartial hname s ns
  have hle : (ownContribution period p.uid (dataOf s.cm) pod).get ns ≤ q.amountOf ns := by
    by_cases hmem : ns ∈ (ownContribution period p.uid (dataOf s.cm) pod).keys
    · have := hstored ns (by rw [hinv.clock]; exact hmem)
      rwa [hinv.storedAt_eq, hinv.clock] at this
    · rw [AList.get_of_not_mem fun h ↦ hmem (AList.mem_keys.mp h), hqdef, amountOf_replicaPartial,
        ← roundCents_zero]
      refine roundCents_mono le_rfl ?_
      by_cases hns : ns ∈ own
      · exact (hown ns (AList.mem_keys.mp hns)).2
      · rw [AList.get_of_not_mem hns]
  exact ⟨hcanonical.ge, hcanonical.le.trans ((hinv.canonical ns).trans
    (countedSpend_le_insert _ hname hq hle))⟩

theorem step (hinv : PodInv p podName period s) (hname : ¬ isFlag podName) {op : PodOp}
    (hkept : s.Kept podName op) (h : s.step codec p podName op = some t) :
    PodStep p podName period s t := by
  cases op with
  | call op => exact hinv.call hkept h
  | ownPartial => exact hinv.ownPartial h
  | applyOK => exact hinv.applyOK hname h
  | applyFailed =>
    obtain ⟨q, -, rfl⟩ := Option.map_eq_some_iff.mp h
    exact ⟨⟨hinv.clock, hinv.counting, hinv.cents, hinv.counts, hinv.stored, nofun, hinv.canonical⟩,
      fun ns ↦ le_rfl, fun ns ↦ le_rfl⟩
  | fold agentSpend =>
    cases h
    exact hinv.process hinv.clock (hinv.counting.fold hinv.clock podName fun name ↦
      if name = budgetConfigMapName p.name then s.cm else agentSpend)
  | restart => exact hinv.restart hkept h
  | seed =>
    cases h
    exact hinv.process hinv.clock (hinv.counting.seedFromCanonical hinv.clock s.cm)
  | reconcile live => exact hinv.reconcile hname h
  | peer pod own marginRaised => exact hinv.peer h

end PodInv

/-- **A replica's own key does not go backwards** as long as its process restarts only while the Pod
has no key: between any two states of a run of one Pod in one period, in which costs are not
negative and not for a namespace `period`, neither the amount stored per namespace under the Pod's
key nor the one in the roll-up has decreased. -/
theorem ownKey_mono_of_kept (codec : ArchiveCodec) (p : ModelProvider) (podName : String)
    (hname : ¬ isFlag podName) (window start : Time) (ops ops' : List PodOp) (s t : GatewayPod)
    (hrun : Run.Runs (GatewayPod.step codec p podName) (GatewayPod.init window start) ops s)
    (hkept : Run.AllSteps (GatewayPod.step codec p podName) (GatewayPod.Kept podName)
      (GatewayPod.init window start) ops)
    (hrun' : Run.Runs (GatewayPod.step codec p podName) s ops' t)
    (hkept' : Run.AllSteps (GatewayPod.step codec p podName) (GatewayPod.Kept podName) s ops') :
    ∀ ns, s.storedAt p podName ns ≤ t.storedAt p podName ns
      ∧ s.canonicalAt ns ≤ t.canonicalAt ns := by
  have hinv : PodInv p podName (periodKey p.budget.period start) s :=
    hrun.invariant_of_allSteps (fun _ _ _ hinv hkept h ↦ (PodInv.step hinv hname hkept h).inv) hkept
      (PodInv.init p podName window start)
  have hstep : PodStep p podName (periodKey p.budget.period start) s t := by
    refine hrun'.invariant_of_allSteps (fun u op v hsu hkept h ↦ ?_) hkept'
      ⟨hinv, fun ns ↦ le_rfl, fun ns ↦ le_rfl⟩
    have huv := PodInv.step hsu.inv hname hkept h
    exact ⟨huv.inv, fun ns ↦ (hsu.stored_le ns).trans (huv.stored_le ns),
      fun ns ↦ (hsu.canonical_le ns).trans (huv.canonical_le ns)⟩
  exact fun ns ↦ ⟨hstep.stored_le ns, hstep.canonical_le ns⟩

/-- The process restarts before its first publish, and from then on its key and the roll-up grow. -/
theorem ownKey_mono_of_early_restart :
    ∃ s t, Run.Runs (GatewayPod.step noArchive hardProvider "gw-1") (GatewayPod.init 0 0)
        [.call (.add hardProvider "team-a" "agent/x" 10), .restart, .seed,
          .call (.add hardProvider "team-a" "agent/x" 4), .ownPartial, .applyOK,
          .peer "gw-2" (teamSpend 7) false, .reconcile {"gw-1", "gw-2"}] s
      ∧ Run.Runs (GatewayPod.step noArchive hardProvider "gw-1") s
        [.call (.add hardProvider "team-a" "agent/x" 3), .ownPartial, .applyOK, .fold none,
          .reconcile {"gw-1"}] t
      ∧ t.storedAt hardProvider "gw-1" "team-a" = 7 ∧ t.canonicalAt "team-a" = 14
      ∧ ∀ ns, s.storedAt hardProvider "gw-1" ns ≤ t.storedAt hardProvider "gw-1" ns
        ∧ s.canonicalAt ns ≤ t.canonicalAt ns := by
  obtain ⟨⟨s, t⟩, hst, hview⟩ := Option.map_eq_some_iff.mp (show
    ((List.foldlM (GatewayPod.step noArchive hardProvider "gw-1") (GatewayPod.init 0 0)
      [.call (.add hardProvider "team-a" "agent/x" 10), .restart, .seed,
        .call (.add hardProvider "team-a" "agent/x" 4), .ownPartial, .applyOK,
        .peer "gw-2" (teamSpend 7) false, .reconcile {"gw-1", "gw-2"}]).bind fun s ↦
      (List.foldlM (GatewayPod.step noArchive hardProvider "gw-1") s
        [.call (.add hardProvider "team-a" "agent/x" 3), .ownPartial, .applyOK, .fold none,
          .reconcile {"gw-1"}]).map fun t ↦ (s, t)).map (fun r ↦
        (r.2.storedAt hardProvider "gw-1" "team-a", r.2.canonicalAt "team-a",
          decide (Run.AllSteps (GatewayPod.step noArchive hardProvider "gw-1")
            (GatewayPod.Kept "gw-1")
            r.1 [.call (.add hardProvider "team-a" "agent/x" 3), .ownPartial, .applyOK, .fold none,
              .reconcile {"gw-1"}]))) = some (7, 14, true) by decide +kernel)
  obtain ⟨hstored, hcanonical, hkept⟩ := by simpa only [Prod.mk.injEq] using hview
  obtain ⟨s', hs, ht⟩ := Option.bind_eq_some_iff.mp hst
  obtain ⟨t', ht, heq⟩ := Option.map_eq_some_iff.mp ht
  cases heq
  exact ⟨s, t, hs, ht, hstored, hcanonical, ownKey_mono_of_kept noArchive hardProvider "gw-1"
    (by decide) 0 0 _ _ s t hs (by decide +kernel) ht (of_decide_eq_true hkept)⟩

/-- The process restarts after it has published 10 USD. It seeds, folds, spends 1 USD and publishes:
its key drops to 1 USD, and so does the roll-up. -/
theorem restart_overwrites_published_spend :
    ∃ s t, Run.Runs (GatewayPod.step noArchive hardProvider "gw-1") (GatewayPod.init 0 0)
        [.call (.add hardProvider "team-a" "agent/x" 10), .ownPartial, .applyOK,
          .reconcile {"gw-1"}] s
      ∧ Run.Runs (GatewayPod.step noArchive hardProvider "gw-1") s
        [.restart, .seed, .fold none, .call (.add hardProvider "team-a" "agent/x" 1), .ownPartial,
          .applyOK, .reconcile {"gw-1"}] t
      ∧ (s.storedAt hardProvider "gw-1" "team-a", s.canonicalAt "team-a") = (10, 10)
      ∧ (t.storedAt hardProvider "gw-1" "team-a", t.canonicalAt "team-a") = (1, 1) := by
  obtain ⟨⟨s, t⟩, hst, hview⟩ := Option.map_eq_some_iff.mp (show
    ((List.foldlM (GatewayPod.step noArchive hardProvider "gw-1") (GatewayPod.init 0 0)
      [.call (.add hardProvider "team-a" "agent/x" 10), .ownPartial, .applyOK,
        .reconcile {"gw-1"}]).bind fun s ↦
      (List.foldlM (GatewayPod.step noArchive hardProvider "gw-1") s
        [.restart, .seed, .fold none, .call (.add hardProvider "team-a" "agent/x" 1), .ownPartial,
          .applyOK, .reconcile {"gw-1"}]).map fun t ↦ (s, t)).map (fun r ↦
        ((r.1.storedAt hardProvider "gw-1" "team-a", r.1.canonicalAt "team-a"),
          (r.2.storedAt hardProvider "gw-1" "team-a", r.2.canonicalAt "team-a")))
      = some ((10, 10), (1, 1)) by decide +kernel)
  obtain ⟨hbefore, hafter⟩ := Prod.mk.inj hview
  obtain ⟨s', hs, ht⟩ := Option.bind_eq_some_iff.mp hst
  obtain ⟨t', ht, heq⟩ := Option.map_eq_some_iff.mp ht
  cases heq
  exact ⟨s, t, hs, ht, hbefore, hafter⟩

end Kaalm
