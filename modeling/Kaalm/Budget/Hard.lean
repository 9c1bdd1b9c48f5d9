import Kaalm.Budget.Ledger

/-!
# Hard enforcement

Inside the boundary region below a block threshold, admission serializes to one in-flight request
per governed ceiling. `admitRequest` try-acquires the governed slots and hands the caller a settle
callback; `settle` lands the request's cost and frees its slots in one critical section. Outside
every boundary region, and for soft providers, `admitRequest` is the plain decision with no
callback.

A callback is the record of the variables the source's closure captures. The `sync.Once` around it
belongs to the caller's state, where a run can invoke it any number of times.

## Reading `admitLocked`

An admission either returns no callback and changes nothing (`admitLocked_none`), or takes free
slots under a fresh token (`admitLocked_some`). `admitLocked_passed` adds what a request that was
let through without a callback tells about the ledger.
-/

namespace Kaalm

open Calendar Decimal

/-- The variables a settle callback captures when its request is admitted. -/
structure Settle where
  providerName : String
  uid : String
  scheme : BudgetPeriod
  capturedPeriod : String
  ns : String
  workload : String
  keys : List String
  token : ℕ
  deriving DecidableEq

def BudgetLedger.replicasCount (b : BudgetLedger) : ℤ :=
  match b.replicas with
  | none => 1
  | some r => if 1 < r then r else 1

/-- The margin below a ceiling in percent: the configured floor, or what observed traffic needs
when that is more. -/
def BudgetLedger.effectiveMarginPctLocked (b : BudgetLedger) (l : ProviderLedger)
    (ceilingUSD configured : ℚ) : ℚ :=
  if ceilingUSD ≤ 0 then configured
  else
    let reps : ℚ := b.replicasCount
    let marginUSD := reps * l.maxCostPerCall
      + (reps - 1) * l.peakRatePerSec * ((b.stalenessWindow : ℚ) / second)
    let pct := 100 * marginUSD / ceilingUSD
    if configured < pct then pct else configured

/-- Settled spend older than the window is still unpublished. -/
def ProviderLedger.writePathStale (l : ProviderLedger) (now window : Time) : Bool :=
  l.dirtySince.any fun d ↦ window < now - d

/-- The peer view was never refreshed, or not within the window. -/
def ProviderLedger.readPathStale (l : ProviderLedger) (now window : Time) : Bool :=
  l.lastFoldOK.all fun t ↦ window < now - t

/-- Which ceilings a request finds in their boundary region. -/
structure Boundary where
  inNS : Bool
  inCL : Bool
  /-- Observed traffic widened a margin that applies. -/
  widened : Bool

def BudgetLedger.boundaryOf (b : BudgetLedger) (budget : ModelProviderBudget) (l : ProviderLedger)
    (u : Utilization) : Boundary :=
  let blockAt := minBlockAt budget
  let configured := configuredMarginPercent budget
  let effNS := b.effectiveMarginPctLocked l u.nsUSD configured
  let effCL := b.effectiveMarginPctLocked l u.clUSD configured
  let inNS : Bool := 0 < u.nsUSD ∧ blockAt - effNS ≤ u.nsPct
  let inCL : Bool := 0 < u.clUSD ∧ blockAt - effCL ≤ u.clPct
  { inNS := inNS
    inCL := inCL
    widened := (inNS ∧ configured < effNS) ∨ (inCL ∧ configured < effCL) }

/-- The slots a request in the boundary takes. -/
def Boundary.keys (bd : Boundary) (ns : String) : List String :=
  (if bd.inNS then [ns] else []) ++ (if bd.inCL then [clusterSlotKey] else [])

/-- Take slots under a fresh token. -/
def ProviderLedger.grant (l : ProviderLedger) (keys : List String) (widened : Bool) :
    ProviderLedger :=
  { l with
    marginRaised := l.marginRaised || widened
    nextToken := l.nextToken + 1
    adm := keys.foldl (fun adm k ↦ adm.insert k (l.nextToken + 1)) l.adm }

/-- The critical section of `admitRequest`. -/
def BudgetLedger.admitLocked (b : BudgetLedger) (now : Time) (provider : ModelProvider)
    (ns workload : String) (l : ProviderLedger)
    (read : ProviderLedger → Utilization := fun l ↦ utilizationLocked provider.budget l ns) :
    ProviderLedger × BudgetDecision × Option Settle :=
  let budget := provider.budget
  let u := read l
  let d := budget.decide now u
  let bd := b.boundaryOf budget l u
  if !hardActive provider ∨ d.action = some .block then (l, d, none)
  -- A held slot throttles even when a fold has dropped utilization below the boundary.
  else if ns ∈ l.adm then (l, { d with throttled := true }, none)
  else if clusterSlotKey ∈ l.adm ∧ 0 < u.clUSD then (l, { d with throttled := true }, none)
  else if !bd.inNS ∧ !bd.inCL then (l, d, none)
  -- Fail closed, but only where the guarantee is live.
  else if l.writePathStale now b.stalenessWindow ∨ l.readPathStale now b.stalenessWindow then
    (l, { d with unavailable := true }, none)
  else
    (l.grant (bd.keys ns) bd.widened,
      { d with boundaryEngaged := true, marginRaisedNow := bd.widened && !l.marginRaised },
      some
        { providerName := provider.name
          uid := provider.uid
          scheme := budget.period
          capturedPeriod := l.period
          ns := ns
          workload := workload
          keys := bd.keys ns
          token := l.nextToken + 1 })

/-- The enforcement entry point for both modes. -/
def BudgetLedger.admitRequest (b : BudgetLedger) (now : Time) (provider : ModelProvider)
    (ns workload : String)
    (read : ProviderLedger → Utilization := fun l ↦ utilizationLocked provider.budget l ns) :
    BudgetLedger × BudgetDecision × Option Settle :=
  let budget := provider.budget
  if periodKey budget.period now = "" ∨ budget.policies = [] then (b, {}, none)
  else b.withLedger now provider.name provider.uid budget.period fun l ↦
    b.admitLocked now provider ns workload l read

/-- Free the slots a request still holds. -/
def ProviderLedger.release (l : ProviderLedger) (keys : List String) (token : ℕ) :
    ProviderLedger :=
  { l with adm := keys.foldl (fun adm k ↦ if adm.get k = token then adm.erase k else adm) l.adm }

/-- The critical section of `settle`. -/
def Settle.settleLocked (c : Settle) (now : Time) (cost : ℚ) (l : ProviderLedger) :
    ProviderLedger :=
  let l := if l.period = c.capturedPeriod then l.release c.keys c.token else l
  if cost ≠ 0 then l.land now c.ns c.workload cost else l

/-- Land an admitted request's cost and free its slots. The second component is the provider name
sent on the kick channel. -/
def BudgetLedger.settle (b : BudgetLedger) (now : Time) (c : Settle) (cost : ℚ) :
    BudgetLedger × Option String :=
  let (b, _) := b.withLedger now c.providerName c.uid c.scheme fun l ↦
    (c.settleLocked now cost l, ())
  (b, if cost ≠ 0 then some c.providerName else none)

theorem settle_fst (b : BudgetLedger) (now : Time) (c : Settle) (cost : ℚ) :
    (b.settle now c cost).1 = (b.withLedger now c.providerName c.uid c.scheme fun l ↦
      (c.settleLocked now cost l, ())).1 := rfl

/-- The request may not go ahead. -/
def BudgetDecision.refused (d : BudgetDecision) : Bool :=
  d.action = some .block ∨ d.throttled ∨ d.unavailable

/-- A hard provider with 100 USD per namespace and month, blocked at 100 percent. Concrete runs use
it. -/
def hardProvider : ModelProvider :=
  { name := "openai"
    uid := "uid-1"
    budget :=
      { period := .monthly
        perNamespaceUSD := "100"
        policies := [{ atPercent := 100, action := .block }]
        clusterUSD := none
        enforcement := .hard
        hard := none } }

/-- The configured margin is a floor. -/
theorem BudgetLedger.configured_le_effectiveMarginPctLocked (b : BudgetLedger) (l : ProviderLedger)
    (ceilingUSD configured : ℚ) :
    configured ≤ b.effectiveMarginPctLocked l ceilingUSD configured := by
  simp only [effectiveMarginPctLocked]
  split_ifs with hceiling hwider
  · exact le_rfl
  · exact hwider.le
  · exact le_rfl

/-! ## Slots -/

theorem lookup_foldl_insert_const (keys : List String) (adm : GoMap String ℕ) (t : ℕ) (k : String) :
    (keys.foldl (fun adm k ↦ adm.insert k t) adm).lookup k
      = if k ∈ keys then some t else adm.lookup k := by
  induction keys generalizing adm with
  | nil => simp
  | cons j keys ih =>
    rw [List.foldl_cons, ih, AList.lookup_insert_ite]
    by_cases hk : k ∈ keys
    · rw [if_pos hk, if_pos (List.mem_cons_of_mem _ hk)]
    · rw [if_neg hk]
      by_cases hj : k = j
      · rw [if_pos hj, if_pos (hj ▸ List.mem_cons_self)]
      · rw [if_neg hj, if_neg (by simp [hj, hk])]

namespace ProviderLedger

variable (l : ProviderLedger) (keys : List String) (widened : Bool) (token : ℕ)

@[simp] theorem grant_uid : (l.grant keys widened).uid = l.uid := rfl
@[simp] theorem grant_period : (l.grant keys widened).period = l.period := rfl
@[simp] theorem grant_own : (l.grant keys widened).own = l.own := rfl
@[simp] theorem grant_nextToken : (l.grant keys widened).nextToken = l.nextToken + 1 := rfl
@[simp] theorem grant_dirtySince : (l.grant keys widened).dirtySince = l.dirtySince := rfl
@[simp] theorem grant_lastFoldOK : (l.grant keys widened).lastFoldOK = l.lastFoldOK := rfl

theorem lookup_grant_adm (k : String) :
    (l.grant keys widened).adm.lookup k
      = if k ∈ keys then some (l.nextToken + 1) else l.adm.lookup k :=
  lookup_foldl_insert_const keys l.adm _ k

@[simp] theorem release_uid : (l.release keys token).uid = l.uid := rfl
@[simp] theorem release_period : (l.release keys token).period = l.period := rfl
@[simp] theorem release_own : (l.release keys token).own = l.own := rfl
@[simp] theorem release_peers : (l.release keys token).peers = l.peers := rfl
@[simp] theorem release_nextToken : (l.release keys token).nextToken = l.nextToken := rfl
@[simp] theorem release_dirtySince : (l.release keys token).dirtySince = l.dirtySince := rfl
@[simp] theorem release_lastFoldOK : (l.release keys token).lastFoldOK = l.lastFoldOK := rfl

/-- A release frees exactly the keys that still map to its token. -/
theorem lookup_release_adm (htoken : token ≠ 0) (k : String) :
    (l.release keys token).adm.lookup k
      = if k ∈ keys ∧ l.adm.lookup k = some token then none else l.adm.lookup k := by
  rw [release]
  simp only
  generalize l.adm = adm
  induction keys generalizing adm with
  | nil => simp
  | cons j keys ih =>
    rw [List.foldl_cons, ih]
    by_cases hj : adm.get j = token
    · have hlookup : adm.lookup j = some token := by
        rw [AList.get] at hj
        cases h : adm.lookup j with
        | none => rw [h, Option.getD_none] at hj; exact absurd hj.symm htoken
        | some t => rw [h, Option.getD_some] at hj; rw [hj]
      rw [if_pos hj, AList.lookup_erase_ite]
      by_cases hk : k = j
      · subst hk
        simp [hlookup]
      · simp [hk]
    · rw [if_neg hj]
      have hne : adm.lookup j ≠ some token := fun h ↦ hj (AList.get_of_lookup h)
      by_cases hk : k = j
      · subst hk
        simp [hne]
      · simp [hk]

end ProviderLedger

/-! ## What a settle keeps -/

section Settle

variable (c : Settle) (now : Time) (cost : ℚ) (l : ProviderLedger)

@[simp] theorem settleLocked_uid : (c.settleLocked now cost l).uid = l.uid := by
  rw [Settle.settleLocked]
  split_ifs <;> simp

@[simp] theorem settleLocked_period : (c.settleLocked now cost l).period = l.period := by
  rw [Settle.settleLocked]
  split_ifs <;> simp

@[simp] theorem settleLocked_nextToken : (c.settleLocked now cost l).nextToken = l.nextToken := by
  rw [Settle.settleLocked]
  split_ifs <;> simp

@[simp] theorem settleLocked_peers : (c.settleLocked now cost l).peers = l.peers := by
  rw [Settle.settleLocked]
  split_ifs <;> simp

theorem settleLocked_dirtySince : (c.settleLocked now cost l).dirtySince
    = if cost = 0 then l.dirtySince else some (l.dirtySince.getD now) := by
  rw [Settle.settleLocked]
  by_cases hcost : cost = 0
  · simp only [hcost, ne_eq, not_true_eq_false, if_false, if_true]
    split_ifs <;> rfl
  · simp only [hcost, ne_eq, not_false_eq_true, if_true, if_false, ProviderLedger.land_dirtySince]
    split_ifs <;> rfl

/-- The cost lands in the namespace's counter, and nowhere else. -/
theorem settleLocked_own : (c.settleLocked now cost l).own
    = if cost = 0 then l.own else l.own.bump c.ns cost := by
  rw [Settle.settleLocked]
  by_cases hcost : cost = 0
  · simp only [hcost, ne_eq, not_true_eq_false, if_false, if_true]
    split_ifs <;> rfl
  · simp only [hcost, ne_eq, not_false_eq_true, if_true, if_false, ProviderLedger.land_own]
    split_ifs <;> rfl

theorem get_settleLocked_own (ns : String) :
    (c.settleLocked now cost l).own.get ns = l.own.get ns + if ns = c.ns then cost else 0 := by
  rw [settleLocked_own]
  split_ifs with hcost hns hns
  · rw [hcost, add_zero]
  · rw [add_zero]
  · rw [AList.get_bump, if_pos hns]
  · rw [AList.get_bump, if_neg hns]

end Settle

/-! ## What one admission can do -/

section Admit

variable {b : BudgetLedger} {now : Time} {provider : ModelProvider} {ns workload : String}
  {l l' : ProviderLedger} {d : BudgetDecision} {c : Settle}

theorem Boundary.mem_keys {bd : Boundary} {k : String} :
    k ∈ bd.keys ns ↔ (bd.inNS ∧ k = ns) ∨ (bd.inCL ∧ k = clusterSlotKey) := by
  rw [Boundary.keys]
  cases bd.inNS <;> cases bd.inCL <;> simp

/-- What a request sees when neither a block policy nor a held slot stops it. -/
structure Unobstructed (now : Time) (provider : ModelProvider) (ns : String) (l : ProviderLedger) :
    Prop where
  not_blocked :
    (provider.budget.decide now (utilizationLocked provider.budget l ns)).action ≠ some .block
  ns_free : ns ∉ l.adm
  cluster_free :
    0 < (utilizationLocked provider.budget l ns).clUSD → clusterSlotKey ∉ l.adm

/-- Without a callback, an admission leaves the ledger as it is. -/
theorem admitLocked_none (h : b.admitLocked now provider ns workload l = (l', d, none)) :
    l' = l := by
  simp only [BudgetLedger.admitLocked] at h
  split_ifs at h <;> first | exact (Prod.mk.inj h).1.symm | simp at h

/-- A callback is handed out only for an unobstructed request in a boundary region, against a
peer view that was refreshed at least once. -/
theorem admitLocked_some (h : b.admitLocked now provider ns workload l = (l', d, some c)) :
    ∃ bd, bd = b.boundaryOf provider.budget l (utilizationLocked provider.budget l ns)
      ∧ (bd.inNS ∨ bd.inCL)
      ∧ Unobstructed now provider ns l ∧ l.lastFoldOK ≠ none
      ∧ l' = l.grant (bd.keys ns) bd.widened
      ∧ c = ⟨provider.name, provider.uid, provider.budget.period, l.period, ns, workload,
          bd.keys ns, l.nextToken + 1⟩
      ∧ d.refused = false := by
  simp only [BudgetLedger.admitLocked] at h
  split_ifs at h with hsoft hns hcl hout hstale
  · simp at h
  · simp at h
  · simp at h
  · simp at h
  · simp at h
  · obtain ⟨rfl, hd, hc⟩ := by simpa only [Prod.mk.injEq, Option.some.injEq] using h
    rw [not_or] at hsoft hstale
    refine ⟨_, rfl, ?_, ⟨hsoft.2, hns, fun hpos hmem ↦ hcl ⟨hmem, hpos⟩⟩, ?_, rfl, hc.symm, ?_⟩
    · by_contra hnone
      rw [not_or] at hnone
      exact hout (by simpa using hnone)
    · intro hnone
      exact hstale.2 (by rw [ProviderLedger.readPathStale, hnone]; rfl)
    · rw [← hd, BudgetDecision.refused]
      have hd' := decide_flags provider.budget now (utilizationLocked provider.budget l ns)
      simp [hsoft.2, hd'.1, hd'.2]

variable (b now provider ns workload l) in
/-- An admission writes slots, tokens and the margin flag only. -/
theorem admitLocked_frame :
    (b.admitLocked now provider ns workload l).1.uid = l.uid
      ∧ (b.admitLocked now provider ns workload l).1.period = l.period
      ∧ (b.admitLocked now provider ns workload l).1.own = l.own
      ∧ (b.admitLocked now provider ns workload l).1.peers = l.peers
      ∧ (b.admitLocked now provider ns workload l).1.dirtySince = l.dirtySince
      ∧ (b.admitLocked now provider ns workload l).1.lastFoldOK = l.lastFoldOK := by
  obtain ⟨l', d, c, hx⟩ : ∃ l' d c, b.admitLocked now provider ns workload l = (l', d, c) :=
    ⟨_, _, _, rfl⟩
  rw [hx]
  cases c with
  | none =>
    rw [admitLocked_none hx]
    exact ⟨rfl, rfl, rfl, rfl, rfl, rfl⟩
  | some c =>
    obtain ⟨bd, -, -, -, -, rfl, -⟩ := admitLocked_some hx
    exact ⟨rfl, rfl, rfl, rfl, rfl, rfl⟩

/-- A request of a hard provider that goes ahead without a callback found both boundary regions
out of reach. -/
theorem admitLocked_passed (hhard : hardActive provider)
    (h : b.admitLocked now provider ns workload l = (l', d, none)) (hd : d.refused = false) :
    Unobstructed now provider ns l
      ∧ (b.boundaryOf provider.budget l (utilizationLocked provider.budget l ns)).inNS = false := by
  simp only [BudgetLedger.admitLocked] at h
  split_ifs at h with hsoft hns hcl hout hstale
  · -- A hard provider takes this branch only when the ladder blocks.
    rcases hsoft with hsoft | hblock
    · rw [hhard] at hsoft
      simp at hsoft
    · obtain ⟨-, rfl, -⟩ := by simpa only [Prod.mk.injEq] using h
      simp [BudgetDecision.refused, hblock] at hd
  · obtain ⟨-, rfl, -⟩ := by simpa only [Prod.mk.injEq] using h
    simp [BudgetDecision.refused] at hd
  · obtain ⟨-, rfl, -⟩ := by simpa only [Prod.mk.injEq] using h
    simp [BudgetDecision.refused] at hd
  · rw [not_or] at hsoft
    refine ⟨⟨hsoft.2, hns, fun hpos hmem ↦ hcl ⟨hmem, hpos⟩⟩, ?_⟩
    simpa using hout.1
  · obtain ⟨-, rfl, -⟩ := by simpa only [Prod.mk.injEq] using h
    simp [BudgetDecision.refused] at hd
  · simp at h

/-- A request is refused for lack of verified budget state only when one of the two paths is
stale. -/
theorem admitLocked_unavailable
    (h : (b.admitLocked now provider ns workload l).2.1.unavailable = true) :
    l.writePathStale now b.stalenessWindow ∨ l.readPathStale now b.stalenessWindow := by
  have hd := (decide_flags provider.budget now (utilizationLocked provider.budget l ns)).2
  simp only [BudgetLedger.admitLocked] at h
  split_ifs at h with hsoft hns hcl hout hstale
  · rw [hd] at h
    cases h
  · rw [hd] at h
    cases h
  · rw [hd] at h
    cases h
  · rw [hd] at h
    cases h
  · exact hstale
  · rw [hd] at h
    cases h

end Admit

/-! ## Calls for a superseded UID -/

namespace BudgetLedger

variable {b : BudgetLedger} {now : Time} {p : ModelProvider}

/-- A superseded provider's admission leaves the ledger alone and hands out no callback: its
detached ledger was never folded. -/
theorem admit_of_superseded (now : Time) (h : p.uid ∈ b.superseded) (ns workload : String) :
    (b.admitRequest now p ns workload).1 = b ∧ (b.admitRequest now p ns workload).2.2 = none := by
  rw [admitRequest]
  by_cases hskip : periodKey p.budget.period now = "" ∨ p.budget.policies = []
  · rw [if_pos hskip]
    exact ⟨rfl, rfl⟩
  rw [if_neg hskip, withLedger_of_superseded h]
  refine ⟨rfl, ?_⟩
  obtain ⟨l', d, c, hx⟩ : ∃ l' d c, b.admitLocked now p ns workload
      (newProviderLedger (periodKey p.budget.period now) p.uid) = (l', d, c) := ⟨_, _, _, rfl⟩
  cases c with
  | none => rw [hx]
  | some c =>
    obtain ⟨-, -, -, -, hfold, -⟩ := admitLocked_some hx
    exact absurd rfl hfold

theorem settle_of_superseded {c : Settle} (h : c.uid ∈ b.superseded) (cost : ℚ) :
    (b.settle now c cost).1 = b := by
  rw [settle_fst, withLedger_of_superseded h]

theorem add_of_superseded (h : p.uid ∈ b.superseded) (ns workload : String) (cost : ℚ) :
    b.add now p ns workload cost = b := by
  rw [add]
  split_ifs
  · rfl
  · rw [withLedger_of_superseded h]

theorem enforce_of_superseded (h : p.uid ∈ b.superseded) (ns : String) :
    (b.enforce now p ns).1 = b := by
  rw [enforce]
  simp only
  split_ifs
  · rfl
  · rw [withLedger_of_superseded h]

theorem foldPeers_of_superseded (h : p.uid ∈ b.superseded) (peers : GoMap String ℚ) :
    b.foldPeers now p peers = b := by
  rw [foldPeers, withLedger_of_superseded h]

theorem foldWorkloadPeers_of_superseded (h : p.uid ∈ b.superseded) (peers : GoMap String ℚ) :
    b.foldWorkloadPeers now p peers = b := by
  rw [foldWorkloadPeers, withLedger_of_superseded h]

end BudgetLedger

end Kaalm
