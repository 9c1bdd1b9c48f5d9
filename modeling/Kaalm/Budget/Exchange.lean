import Kaalm.Budget.ReducerView

/-!
# What publishes and passes do to the budget ConfigMap

Two kinds of writers change the ConfigMap. A replica applies its partial under its own key, which
replaces what that key counted for and nothing else (`get_countedSpend_insert`). A reducer pass
changes no amount that is counted (`amount_countedSpend_reducedData`) and keeps the keys of live
replicas (`lookup_reducedData_of_counts`). Both leave amounts in cents, so that the next pass is
exact again.
-/

namespace Kaalm

open Decimal

/-! ## Publishing -/

/-- The partial a replica publishes for its own counters. -/
def replicaPartial (period : String) (own : GoMap String ℚ) (marginRaised : Bool)
    (providerUID : String) : BudgetPartial :=
  { period := period
    spend := own.mapVal formatFixed
    marginExceeded := marginRaised
    providerUID := providerUID }

/-- What a partial says was spent in a namespace. -/
def BudgetPartial.amountOf (p : BudgetPartial) (ns : String) : ℚ :=
  ((p.spend.lookup ns).bind parseFloat).getD 0

/-- The data of a ConfigMap that may not exist. -/
def dataOf (cm : Option ConfigMap) : GoMap String String := (cm.map ConfigMap.data).getD ∅

/-- The server-side apply of a replica's key. It creates the ConfigMap when there is none. -/
def applyPartial (cm : Option ConfigMap) (podName raw : String) : ConfigMap :=
  { data := (dataOf cm).insert podName raw
    label := spendLabelBudget }

/-- The stored ConfigMap is what the apply would write. -/
def alreadyStored (cm : Option ConfigMap) (podName raw : String) : Bool :=
  cm.any fun cm ↦ cm.data.lookup podName = some raw ∧ cm.label = spendLabelBudget

theorem lookup_of_alreadyStored {cm : Option ConfigMap} {podName raw : String}
    (h : alreadyStored cm podName raw) : (dataOf cm).lookup podName = some raw := by
  obtain ⟨cm, rfl, h⟩ := (Option.any_eq_true _ _).mp h
  exact (of_decide_eq_true h).1

theorem counts_replicaPartial {period providerUID : String} {own : GoMap String ℚ}
    (hnames : ∀ ns ∈ own, ns ≠ "period" ∧ ¬ isFlag ns) (marginRaised : Bool) :
    (replicaPartial period own marginRaised providerUID).Counts period providerUID :=
  ⟨rfl, rfl, fun ns hns ↦ hnames ns (AList.mem_mapVal.mp hns)⟩

/-- What a partial counts for is what it says. -/
theorem BudgetPartial.Counts.get_contribution {period providerUID : String} {p : BudgetPartial}
    (h : p.Counts period providerUID) (ns : String) :
    (contribution period providerUID p.marshalJSON).get ns = p.amountOf ns := by
  rw [AList.get, h.lookup_contribution, BudgetPartial.amountOf]

theorem amountOf_replicaPartial (period : String) (own : GoMap String ℚ) (marginRaised : Bool)
    (providerUID ns : String) :
    (replicaPartial period own marginRaised providerUID).amountOf ns = roundCents (own.get ns) := by
  rw [BudgetPartial.amountOf, replicaPartial, AList.lookup_mapVal, AList.get]
  cases own.lookup ns with
  | none => rw [Option.getD_none, roundCents_zero]; rfl
  | some v => rw [Option.map_some, Option.bind_some, parseFloat_formatFixed]; rfl

/-! ## The counted spend -/

section Counted

variable {currentPeriod providerUID : String} {data : GoMap String String} {k raw : String}

/-- A replica's view of the others does not see its own key. -/
theorem amount_foldPartials_insert_own (ns : String) :
    (foldPartials (data.insert k raw) k currentPeriod providerUID).amount ns
      = (foldPartials data k currentPeriod providerUID).amount ns := by
  have hkeys : ∀ j ∈ data.insert k raw, j ∈ (k :: data.keys).toFinset := by
    intro j hj
    rw [List.mem_toFinset, List.mem_cons]
    exact (AList.mem_insert _).mp hj
  have hkeys' : ∀ j ∈ data, j ∈ (k :: data.keys).toFinset := fun j hj ↦
    List.mem_toFinset.mpr (List.mem_cons_of_mem _ hj)
  rw [amount_foldPartials _ _ _ k ns hkeys, amount_foldPartials _ _ _ k ns hkeys']
  refine Finset.sum_congr rfl fun j _ ↦ ?_
  split_ifs with hskip
  · rfl
  · exact contributionAt_congr (AList.lookup_insert_ne fun h ↦ hskip (Or.inl h))

/-- An apply replaces what the key counted for by what it now says. -/
theorem get_countedSpend_insert (hk : ¬ isFlag k) (ns : String) :
    (countedSpend currentPeriod providerUID (data.insert k raw)).get ns
        + (ownContribution currentPeriod providerUID data k).get ns
      = (countedSpend currentPeriod providerUID data).get ns
        + (contribution currentPeriod providerUID raw).get ns := by
  obtain ⟨hcan, hprev, -⟩ := not_reserved_of_not_isFlag hk
  have hbefore : (countedSpend currentPeriod providerUID data).get ns
      = (ownContribution currentPeriod providerUID data k).get ns
        + (foldPartials data k currentPeriod providerUID).get ns := by
    apply AList.get_eq_add_of_amount
    rw [amount_countedSpend data ns hcan hprev, amount_ownContribution]
  have hafter : (countedSpend currentPeriod providerUID (data.insert k raw)).get ns
      = (contribution currentPeriod providerUID raw).get ns
        + (foldPartials data k currentPeriod providerUID).get ns := by
    apply AList.get_eq_add_of_amount
    rw [amount_countedSpend _ ns hcan hprev, amount_foldPartials_insert_own, contributionAt,
      AList.lookup_insert]
    rfl
  rw [hbefore, hafter]
  ring

end Counted

/-! ## Amounts in cents -/

/-- Every amount of a stored value has at most two fraction digits. -/
def InCents (raw : String) : Prop :=
  ∀ q, parseBudgetPartial raw = some q → ∀ ns v, q.spend.lookup ns = some v → IsCents v

theorem amountsInCents_iff {data : GoMap String String} :
    AmountsInCents data ↔ ∀ k raw, data.lookup k = some raw → k ≠ canonicalKey → k ≠ previousKey →
      InCents raw := by
  constructor
  · intro h k raw hraw hcan hprev q hq ns v hv
    exact h ⟨k, raw⟩ (AList.mem_lookup_iff.mp hraw) (not_or.mpr ⟨hcan, hprev⟩) q hq ⟨ns, v⟩
      (AList.mem_lookup_iff.mp hv)
  · rintro h ⟨k, raw⟩ he hkey q hq ⟨ns, v⟩ hv
    obtain ⟨hcan, hprev⟩ := not_or.mp hkey
    exact h k raw (AList.mem_lookup_iff.mpr he) hcan hprev q hq ns v (AList.mem_lookup_iff.mpr hv)

theorem amountsInCents_empty : AmountsInCents ∅ := nofun

theorem AmountsInCents.insert {data : GoMap String String} (h : AmountsInCents data)
    {k raw : String}
    (hraw : InCents raw) : AmountsInCents (data.insert k raw) := by
  rw [amountsInCents_iff] at h ⊢
  intro j raw' hj hcan hprev
  rw [AList.lookup_insert_ite] at hj
  split_ifs at hj with hjk
  · cases hj
    exact hraw
  · exact h j raw' hj hcan hprev

/-- Formatted amounts are in cents. -/
theorem BudgetPartial.Counts.inCents {period providerUID : String} {p : BudgetPartial}
    (h : p.Counts period providerUID) {m : GoMap String ℚ}
    (hspend : p.spend = m.mapVal formatFixed) :
    InCents p.marshalJSON := by
  obtain ⟨q, hq, -, -, hlookup⟩ := h.parse
  intro q' hq' ns v hv
  rw [hq, Option.some.injEq] at hq'
  rw [← hq', hlookup, hspend, AList.lookup_mapVal] at hv
  cases hm : m.lookup ns with
  | none =>
    rw [hm] at hv
    cases hv
  | some w =>
    rw [hm, Option.map_some, Option.bind_some, parseFloat_formatFixed, Option.some.injEq] at hv
    exact hv ▸ isCents_roundCents w

section Pass

variable {codec : ArchiveCodec} {cm : ConfigMap} {liveGateways : String → Bool}
  {currentPeriod providerUID : String}

theorem amountsInCents_reducedData (hcents : AmountsInCents cm.data) :
    AmountsInCents (reducedData codec cm liveGateways currentPeriod providerUID).1 := by
  have hstored := amountsInCents_iff.mp hcents
  rw [amountsInCents_iff]
  intro k raw hraw hcan hprev
  rw [lookup_reducedData codec cm hprev, if_neg hcan, BudgetFold.writeRetired,
    AList.lookup_ite_insert] at hraw
  split_ifs at hraw with hretired
  · cases hraw
    exact (counts_retiredPartial (wired_retired hcents)).inCents rfl
  · rw [lookup_foldBudgetKeys_data, Option.filter_eq_some_iff] at hraw
    exact hstored k raw hraw.1 hcan hprev

/-- A pass keeps what a live replica published in this period for this provider. -/
theorem lookup_reducedData_of_counts {k : String} (hk : ¬ isFlag k) (hlive : liveGateways k)
    (hcounts : ∀ raw, cm.data.lookup k = some raw →
      ∃ p : BudgetPartial, p.marshalJSON = raw ∧ p.Counts currentPeriod providerUID) :
    (reducedData codec cm liveGateways currentPeriod providerUID).1.lookup k
      = cm.data.lookup k := by
  obtain ⟨hcan, hprev, hret⟩ := not_reserved_of_not_isFlag hk
  rw [lookup_reducedData_replica codec hcan hprev hret]
  cases hraw : cm.data.lookup k with
  | none => rfl
  | some raw =>
    obtain ⟨p, rfl, hp⟩ := hcounts raw hraw
    obtain ⟨q, hq, hperiod, huid, -⟩ := hp.parse
    rw [Option.filter_some, if_pos]
    simp [deletes, hcan, hprev, hq, hperiod, huid, hlive]

end Pass

/-! ## Values for concrete runs -/

/-- The codec of a ConfigMap that never has an archive. -/
def noArchive : ArchiveCodec := ⟨fun _ ↦ "", fun _ ↦ none⟩

/-- Own counters with spend in one namespace. -/
def teamSpend (cost : ℚ) : GoMap String ℚ := (∅ : GoMap String ℚ).insert "team-a" cost

end Kaalm
