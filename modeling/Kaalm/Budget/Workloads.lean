import Kaalm.Budget.System

/-!
# Spend per workload

Beside the counter of a namespace the ledger has one per workload, under the key
`namespace/workload`. Every cost lands on both, so the rows of a namespace add up to its counter in
every reachable state (`balanced_run`). What is published are the two views rounded to the cent,
each row for itself: they still add up if the rows are whole numbers of cents, and need not
otherwise (`published_fractions`).
-/

namespace Kaalm

open Decimal

/-- A namespace name has no slash. -/
def isNamespace (ns : String) : Bool := '/' ∉ ns.toList

/-- The key of a workload of the namespace. -/
def inNamespace (ns key : String) : Bool := (cutPrefix key (ns ++ "/")).isSome

/-- The sum of the amounts under the keys that meet a condition. -/
def sumWhere (c : String → Bool) (m : GoMap String ℚ) : ℚ :=
  (m.entries.map fun e ↦ if c e.1 then e.2 else 0).sum

/-- The sum of the amounts that texts stand for, under the keys that meet a condition. -/
def textsWhere (c : String → Bool) (m : GoMap String String) : ℚ :=
  (m.entries.map fun e ↦ if c e.1 then (parseFloat e.2).getD 0 else 0).sum

/-! ## Published amounts -/

/-- The amount that is published for a namespace; one that is not listed has none. -/
def namespaceAmount (out : Option (String × GoMap String String × Bool)) (ns : String) : ℚ :=
  ((out.bind fun o ↦ o.2.1.lookup ns).bind parseFloat).getD 0

/-- The sum of the amounts that are published for the workloads of a namespace. -/
def workloadAmount (out : Option (String × GoMap String String)) (ns : String) : ℚ :=
  out.elim 0 fun o ↦ textsWhere (inNamespace ns) o.2

/-- The sum of the rows of a provider. -/
def spendAmount (out : GoMap String WorkloadProviderSpend) (providerName : String) : ℚ :=
  (out.lookup providerName).elim 0 fun w ↦ textsWhere (fun _ ↦ true) w.workloads

/-! ## Both views get every cost -/

theorem inNamespace_iff {ns key : String} :
    inNamespace ns key ↔ (ns ++ "/").toList <+: key.toList := by
  rw [inNamespace, cutPrefix, Option.isSome_ite, List.isPrefixOf_iff_prefix]

/-- The names before the first slash are the same. -/
private theorem eq_of_append_slash {a b c : List Char} (ha : '/' ∉ a) (hb : '/' ∉ b)
    (h : a ++ ['/'] <+: b ++ '/' :: c) : a = b := by
  induction a generalizing b with
  | nil =>
    cases b with
    | nil => rfl
    | cons x b =>
      obtain ⟨hx, -⟩ := List.cons_prefix_cons.mp h
      exact absurd (hx ▸ List.mem_cons_self) hb
  | cons y a ih =>
    cases b with
    | nil =>
      obtain ⟨hy, -⟩ := List.cons_prefix_cons.mp h
      exact absurd (hy ▸ List.mem_cons_self) ha
    | cons x b =>
      obtain ⟨hy, hrest⟩ := List.cons_prefix_cons.mp h
      rw [hy, ih (fun hmem ↦ ha (List.mem_cons_of_mem _ hmem))
        (fun hmem ↦ hb (List.mem_cons_of_mem _ hmem)) hrest]

theorem inNamespace_workload {ns ns' : String} (hns : isNamespace ns) (hns' : isNamespace ns')
    (workload : String) : inNamespace ns (ns' ++ "/" ++ workload) ↔ ns = ns' := by
  rw [inNamespace_iff]
  have hkey : (ns' ++ "/" ++ workload).toList = ns'.toList ++ '/' :: workload.toList := by simp
  have hpre : (ns ++ "/").toList = ns.toList ++ ['/'] := by simp
  rw [hkey, hpre]
  constructor
  · intro h
    exact String.toList_inj.mp
      (eq_of_append_slash (of_decide_eq_true hns) (of_decide_eq_true hns') h)
  · rintro rfl
    exact ⟨workload.toList, by simp⟩

theorem sumWhere_bump (c : String → Bool) (m : GoMap String ℚ) (k : String) (v : ℚ) :
    sumWhere c (m.bump k v) = sumWhere c m + if c k then v else 0 := by
  have hkeys : ∀ j ∈ m.bump k v, j ∈ (k :: m.keys).toFinset := fun j hj ↦
    List.mem_toFinset.mpr (List.mem_cons.mpr (AList.mem_bump.mp hj))
  have hkeys' : ∀ j ∈ m, j ∈ (k :: m.keys).toFinset := fun j hj ↦
    List.mem_toFinset.mpr (List.mem_cons_of_mem _ hj)
  have hterm : ∀ (m : GoMap String ℚ) j, (m.lookup j).elim 0 (fun v ↦ if c j then v else 0)
      = if c j then m.get j else 0 := by
    intro m j
    rw [AList.get]
    cases m.lookup j with
    | none => rw [Option.elim_none, Option.getD_none, ite_self]
    | some v => rfl
  have hstep : ∀ j, ((m.bump k v).lookup j).elim 0 (fun v ↦ if c j then v else 0)
      = (m.lookup j).elim 0 (fun v ↦ if c j then v else 0)
        + if j = k then (if c k then v else 0) else 0 := by
    intro j
    rw [hterm, hterm, AList.get_bump]
    by_cases hj : j = k
    · subst hj
      rw [if_pos rfl, if_pos rfl]
      split_ifs
      · rfl
      · exact (add_zero 0).symm
    · rw [if_neg hj, if_neg hj, add_zero, add_zero]
  have hk : k ∈ (k :: m.keys).toFinset := List.mem_toFinset.mpr List.mem_cons_self
  rw [sumWhere, sumWhere, (m.bump k v).sum_entries hkeys fun j v ↦ if c j then v else 0,
    m.sum_entries hkeys' fun j v ↦ if c j then v else 0, Finset.sum_congr rfl fun j _ ↦ hstep j,
    Finset.sum_add_distrib, Finset.sum_ite_eq' _ k, if_pos hk]

/-- The rows of every namespace add up to its counter. -/
def ProviderLedger.Balanced (l : ProviderLedger) : Prop :=
  ∀ ns, isNamespace ns → sumWhere (inNamespace ns) l.ownW = l.own.get ns

namespace ProviderLedger

variable {l : ProviderLedger}

theorem balanced_of_empty (hown : l.own = ∅) (hownW : l.ownW = ∅) : l.Balanced := by
  intro ns _
  rw [hown, hownW]
  rfl

theorem Balanced.rollover (h : l.Balanced) (period : String) : (l.rollover period).Balanced := by
  by_cases hsame : l.period = period
  · rwa [rollover_of_eq hsame]
  · rw [ProviderLedger.rollover, if_pos hsame]
    exact balanced_of_empty rfl rfl

/-- The tracker leaves the rows alone. -/
theorem trackLocked_ownW (now : Time) (cost : ℚ) : (l.trackLocked now cost).ownW = l.ownW := by
  rw [trackLocked]
  split_ifs
  · rfl
  all_goals
    simp only
    cases l.rateBucketStart with
    | none => rfl
    | some start =>
      simp only
      split_ifs <;> rfl

theorem land_ownW (now : Time) (ns workload : String) (cost : ℚ) :
    (l.land now ns workload cost).ownW = l.ownW.bump (ns ++ "/" ++ workload) cost :=
  trackLocked_ownW now cost

theorem Balanced.congr {l' : ProviderLedger} (h : l.Balanced) (hown : l'.own = l.own)
    (hownW : l'.ownW = l.ownW) : l'.Balanced := by
  intro ns hns
  rw [hown, hownW]
  exact h ns hns

theorem Balanced.land (h : l.Balanced) {ns : String} (hns : isNamespace ns) (now : Time)
    (workload : String) (cost : ℚ) : (l.land now ns workload cost).Balanced := by
  intro ns' hns'
  rw [land_ownW, land_own, sumWhere_bump, AList.get_bump, h ns' hns',
    if_congr (inNamespace_workload hns' hns workload) rfl rfl]

end ProviderLedger

/-! ## Runs -/

/-- What a call writes keeps the balance. -/
theorem ProviderLedger.Balanced.write {l : ProviderLedger} (h : l.Balanced) (s : System) {op : Op}
    (hop : op.charges.all isNamespace) : (op.write s l).Balanced := by
  cases op with
  | admitRequest p ns workload =>
    obtain ⟨l', d, c, hx⟩ : ∃ l' d c, s.ledger.admitLocked s.now p ns workload l = (l', d, c) :=
      ⟨_, _, _, rfl⟩
    rw [Op.write, hx]
    cases c with
    | none => exact admitLocked_none hx ▸ h
    | some c =>
      obtain ⟨bd, -, -, -, -, rfl, -⟩ := admitLocked_some hx
      exact h.congr rfl rfl
  | settle c cost =>
    rw [Op.write, Settle.settleLocked]
    have hreleased :
        (if l.period = c.capturedPeriod then l.release c.keys c.token else l).Balanced := by
      split_ifs
      · exact h.congr rfl rfl
      · exact h
    generalize (if l.period = c.capturedPeriod then l.release c.keys c.token else l)
      = l' at hreleased
    split_ifs
    · exact hreleased.land hop s.now c.workload cost
    · exact hreleased
  | add p ns workload cost => exact h.land hop s.now workload cost
  | foldPeers p peers => exact h.congr rfl rfl
  | foldWorkloadPeers p peers => exact h.congr rfl rfl
  | _ => exact h

/-- Every ledger is balanced. -/
def BudgetLedger.Balanced (b : BudgetLedger) : Prop :=
  ∀ name l, b.providers.lookup name = some l → l.Balanced

theorem BudgetLedger.Balanced.liveLedger {b : BudgetLedger} (h : b.Balanced) (now : Time)
    (name uid : String) (scheme : BudgetPeriod) : (b.liveLedger now name uid scheme).Balanced := by
  cases hbound : b.boundTo name uid with
  | none =>
    rw [liveLedger_of_unbound hbound]
    exact ProviderLedger.balanced_of_empty rfl rfl
  | some l =>
    rw [liveLedger_of_bound hbound]
    exact (h name l (boundTo_eq_some.mp hbound).1).rollover _

theorem System.balanced_exec {s t : System} {op : Op} {out : Output} (h : s.ledger.Balanced)
    (hop : op.charges.all isNamespace) (hexec : s.exec op = some (t, out)) : t.ledger.Balanced := by
  generalize t.ledger = b, System.exec_effect hexec = heffect
  cases heffect with
  | same => exact h
  | critical name uid scheme =>
    by_cases hsuperseded : uid ∈ s.ledger.superseded
    · rw [BudgetLedger.withLedger_of_superseded hsuperseded]
      exact h
    · intro n l hl
      by_cases hn : n = name
      · rw [hn, BudgetLedger.lookup_withLedger_self hsuperseded] at hl
        rw [← Option.some.inj hl]
        exact (h.liveLedger s.now name uid scheme).write s hop
      · rw [BudgetLedger.lookup_withLedger_of_ne hn] at hl
        exact h n l hl
  | published p snapshot l _ hbound =>
    intro n l' hl'
    rw [BudgetLedger.lookup_store] at hl'
    split_ifs at hl' with hn
    · rw [← Option.some.inj hl', ProviderLedger.published]
      have hl := h p.name l (BudgetLedger.boundLedger_eq_some.mp hbound).1
      split_ifs
      · exact hl.congr rfl rfl
      · exact hl
    · exact h n l' hl'
  | replicas count => exact h

/-- In every reachable state the rows of a namespace add up to its counter. -/
theorem balanced_run {nameOf : String → String} {window start : Time} {ops : List Op} {s : System}
    (hrun : Run.Runs (System.step nameOf) (System.init window start) ops s)
    (hops : ∀ op ∈ ops, op.charges.all isNamespace) : s.ledger.Balanced := by
  refine hrun.invariant_of_allSteps (I := fun s ↦ s.ledger.Balanced) (fun s op s' h hop hstep ↦ ?_)
    (Run.allSteps_of_forall hops) fun name l hl ↦ nomatch hl
  obtain ⟨-, out, hexec⟩ := System.step_eq_some.mp hstep
  exact System.balanced_exec h hop hexec

/-! ## Rounding -/

/-- Texts of whole cents add up as the amounts do. -/
theorem textsWhere_mapVal {m : GoMap String ℚ} {c : String → Bool}
    (h : ∀ k v, m.lookup k = some v → c k → IsCents v) :
    textsWhere c (m.mapVal formatFixed) = sumWhere c m ∧ IsCents (sumWhere c m) := by
  have hentries : ∀ e ∈ m.entries, c e.1 → IsCents e.2 := fun e he ↦
    h e.1 e.2 (AList.mem_lookup_iff.mpr he)
  rw [textsWhere, sumWhere, AList.entries_mapVal, List.map_map]
  clear h
  generalize m.entries = l at hentries
  induction l with
  | nil => exact ⟨rfl, 0, by simp⟩
  | cons e l ih =>
    obtain ⟨hsum, hcents⟩ := ih fun e' he' ↦ hentries e' (List.mem_cons_of_mem _ he')
    simp only [List.map_cons, List.sum_cons, Function.comp_apply]
    by_cases hc : c e.1
    · have he := hentries e List.mem_cons_self hc
      rw [if_pos hc, if_pos hc, hsum, parseFloat_formatFixed, Option.getD_some,
        roundCents_of_isCents he]
      exact ⟨rfl, he.add hcents⟩
    · rw [if_neg hc, if_neg hc, hsum, zero_add]
      exact ⟨rfl, hcents⟩

section Published

variable {b : BudgetLedger} {p : ModelProvider} {l : ProviderLedger} {ns : String}

theorem namespaceAmount_ownPartial (h : b.boundLedger p = some l) :
    namespaceAmount (b.ownPartial p) ns = roundCents (l.own.get ns) := by
  rw [namespaceAmount, BudgetLedger.ownPartial, h]
  simp only
  split_ifs with hempty
  · rw [hempty, AList.get_empty, roundCents_zero]
    rfl
  · rw [Option.bind_some, AList.lookup_mapVal, AList.get]
    cases l.own.lookup ns with
    | none => exact roundCents_zero.symm
    | some v => rw [Option.map_some, Option.bind_some, parseFloat_formatFixed]; rfl

theorem workloadAmount_ownWorkloadPartial (h : b.boundLedger p = some l) :
    workloadAmount (b.ownWorkloadPartial p) ns
      = textsWhere (inNamespace ns) (l.ownW.mapVal formatFixed) := by
  rw [workloadAmount, BudgetLedger.ownWorkloadPartial, h]
  simp only
  split_ifs with hempty
  · rw [hempty]
    rfl
  · rfl

/-! ### The rows of a read -/

private theorem lookup_foldl_store {V W : Type} (f : V → Option W)
    {es : List (Sigma fun _ : String ↦ V)}
    (h : es.NodupKeys) (m : GoMap String W) (k : String) :
    (es.foldl (fun out e ↦ (f e.2).elim out (out.insert e.1)) m).lookup k
      = ((es.dlookup k).bind f).or (m.lookup k) := by
  induction es generalizing m with
  | nil => rfl
  | cons e es ih =>
    obtain ⟨j, v⟩ := e
    rw [List.nodupKeys_cons] at h
    rw [List.foldl_cons, ih h.2]
    by_cases hk : k = j
    · subst hk
      rw [List.dlookup_cons_eq, List.dlookup_eq_none.mpr h.1, Option.bind_none, Option.none_or,
        Option.bind_some]
      cases f v with
      | none => rfl
      | some w => exact AList.lookup_insert _
    · rw [List.dlookup_cons_ne _ _ hk]
      cases f v with
      | none => rfl
      | some w => rw [Option.elim_some, AList.lookup_insert_ne hk]

theorem lookup_workloadSpend (h : b.providers.lookup p.name = some l) :
    (b.workloadSpend ns).lookup p.name = if l.workloadRows ns = ∅ then none
      else some ⟨l.period, (l.workloadRows ns).mapVal formatFixed⟩ := by
  have hfold := lookup_foldl_store (fun l : ProviderLedger ↦ if l.workloadRows ns = ∅ then none
    else some (WorkloadProviderSpend.mk l.period ((l.workloadRows ns).mapVal formatFixed)))
    b.providers.nodupKeys ∅ p.name
  have hlookup : b.providers.entries.dlookup p.name = some l := h
  rw [AList.lookup_empty, Option.or_none, hlookup, Option.bind_some] at hfold
  rw [← hfold, BudgetLedger.workloadSpend]
  congr 2
  funext out e
  simp only
  split_ifs <;> rfl

/-- Cutting the namespace off the keys keeps sums and cents. -/
private theorem foldl_cutPrefix (es : List (Sigma fun _ : String ↦ ℚ))
    (h : ∀ e ∈ es, inNamespace ns e.1 → IsCents e.2) (sums : GoMap String ℚ)
    (hsums : ∀ k v, sums.lookup k = some v → IsCents v) :
    let rows := es.foldl (fun sums e ↦ match cutPrefix e.1 (ns ++ "/") with
      | some workload => sums.bump workload e.2
      | none => sums) sums
    sumWhere (fun _ ↦ true) rows = sumWhere (fun _ ↦ true) sums
        + (es.map fun e ↦ if inNamespace ns e.1 then e.2 else 0).sum
      ∧ ∀ k v, rows.lookup k = some v → IsCents v := by
  induction es generalizing sums with
  | nil => exact ⟨(add_zero _).symm, hsums⟩
  | cons e es ih =>
    have hes : ∀ e' ∈ es, inNamespace ns e'.1 → IsCents e'.2 := fun e' he' ↦
      h e' (List.mem_cons_of_mem _ he')
    simp only [List.foldl_cons, List.map_cons, List.sum_cons]
    cases hcut : cutPrefix e.1 (ns ++ "/") with
    | none =>
      have hout : inNamespace ns e.1 = false := by rw [inNamespace, hcut]; rfl
      rw [hout, if_neg Bool.false_ne_true, zero_add]
      exact ih hes sums hsums
    | some workload =>
      have hin : inNamespace ns e.1 = true := by rw [inNamespace, hcut]; rfl
      have hbumped : ∀ k v, (sums.bump workload e.2).lookup k = some v → IsCents v := by
        intro k v hv
        rw [AList.bump, AList.lookup_insert_ite] at hv
        split_ifs at hv
        · rw [← Option.some.inj hv]
          refine IsCents.add ?_ (h e List.mem_cons_self hin)
          rw [AList.get]
          cases hold : sums.lookup workload with
          | none => exact ⟨0, by simp⟩
          | some w => exact hsums workload w hold
        · exact hsums k v hv
      obtain ⟨hsum, hcents⟩ := ih hes (sums.bump workload e.2) hbumped
      rw [hin, if_pos rfl]
      refine ⟨hsum.trans ?_, hcents⟩
      rw [sumWhere_bump, if_pos rfl, add_assoc]

theorem spendAmount_workloadSpend (h : b.boundLedger p = some l) (hpeers : l.peersW = ∅)
    (hcents : ∀ k v, l.ownW.lookup k = some v → inNamespace ns k → IsCents v) :
    spendAmount (b.workloadSpend ns) p.name = sumWhere (inNamespace ns) l.ownW := by
  have hentries : ∀ e ∈ l.ownW.entries, inNamespace ns e.1 → IsCents e.2 := fun e he ↦
    hcents e.1 e.2 (AList.mem_lookup_iff.mpr he)
  obtain ⟨hsum, hrows⟩ := foldl_cutPrefix l.ownW.entries hentries ∅ fun k v hv ↦ nomatch hv
  have hempty : sumWhere (fun _ ↦ true) ∅ = 0 := rfl
  have hworkload : l.workloadRows ns = l.ownW.entries.foldl (fun sums e ↦
      match cutPrefix e.1 (ns ++ "/") with
      | some workload => sums.bump workload e.2
      | none => sums) ∅ := by
    rw [ProviderLedger.workloadRows, hpeers]
    rfl
  rw [hempty, zero_add, ← hworkload] at hsum
  rw [← hworkload] at hrows
  rw [spendAmount, lookup_workloadSpend (BudgetLedger.boundLedger_eq_some.mp h).1]
  split_ifs with hnone
  · rw [hnone] at hsum
    exact hsum
  · exact (textsWhere_mapVal fun k v hv _ ↦ hrows k v hv).1.trans hsum

end Published

/-- The rows of a namespace that are published add up to its published figure, if each of them is a
whole number of cents. -/
theorem workloads_sum {nameOf : String → String} {window start : Time} {ops : List Op} {s : System}
    (hrun : Run.Runs (System.step nameOf) (System.init window start) ops s)
    (hops : ∀ op ∈ ops, op.charges.all isNamespace) (p : ModelProvider) {ns : String}
    (hns : isNamespace ns) (hcents : ∀ l, s.ledger.boundLedger p = some l →
      ∀ k v, l.ownW.lookup k = some v → inNamespace ns k → IsCents v) :
    workloadAmount (s.ledger.ownWorkloadPartial p) ns = namespaceAmount (s.ledger.ownPartial p) ns
      ∧ ∀ l, s.ledger.boundLedger p = some l → l.peersW = ∅ →
        spendAmount (s.ledger.workloadSpend ns) p.name
          = namespaceAmount (s.ledger.ownPartial p) ns := by
  have hbalanced := balanced_run hrun hops
  have hamount : ∀ l, s.ledger.boundLedger p = some l →
      namespaceAmount (s.ledger.ownPartial p) ns = sumWhere (inNamespace ns) l.ownW := by
    intro l hl
    rw [namespaceAmount_ownPartial hl,
      ← hbalanced p.name l (BudgetLedger.boundLedger_eq_some.mp hl).1 ns hns]
    exact roundCents_of_isCents (textsWhere_mapVal (hcents l hl)).2
  constructor
  · cases hl : s.ledger.boundLedger p with
    | none =>
      rw [workloadAmount, namespaceAmount, BudgetLedger.ownWorkloadPartial, BudgetLedger.ownPartial,
        hl]
      rfl
    | some l =>
      rw [hamount l hl, workloadAmount_ownWorkloadPartial hl]
      exact (textsWhere_mapVal (hcents l hl)).1
  · intro l hl hpeers
    rw [hamount l hl]
    exact spendAmount_workloadSpend hl hpeers (hcents l hl)

/-- Two workloads spend the same amount. -/
def twoWorkloads (cost : ℚ) : List Op :=
  [.add hardProvider "team-a" "agent/a" cost, .add hardProvider "team-a" "agent/b" cost]

/-- The state after that. -/
def afterTwoWorkloads (cost : ℚ) : System :=
  ((twoWorkloads cost).foldlM (System.step fun _ ↦ "openai") (System.init 0 0)).getD
    (System.init 0 0)

theorem workloads_sum_cents :
    workloadAmount ((afterTwoWorkloads (1 / 100)).ledger.ownWorkloadPartial hardProvider) "team-a"
        = namespaceAmount ((afterTwoWorkloads (1 / 100)).ledger.ownPartial hardProvider) "team-a"
      ∧ namespaceAmount ((afterTwoWorkloads (1 / 100)).ledger.ownPartial hardProvider) "team-a"
        = 2 / 100 := by
  have hrun : Run.Runs (System.step fun _ ↦ "openai") (System.init 0 0) (twoWorkloads (1 / 100))
      (afterTwoWorkloads (1 / 100)) := by
    decide +kernel
  have hcents : ∀ l, (afterTwoWorkloads (1 / 100)).ledger.boundLedger hardProvider = some l →
      ∀ e ∈ l.ownW.entries, IsCents e.2 := by
    decide +kernel
  refine ⟨(workloads_sum hrun (by decide) hardProvider (by decide) fun l hl k v hv _ ↦ ?_).1,
    by decide +kernel⟩
  exact hcents l hl ⟨k, v⟩ (AList.mem_lookup_iff.mp hv)

/-- Two workloads that spend two fifths of a cent each: both rows are rounded down to nothing, and
their sum is rounded up to a cent. -/
theorem published_fractions :
    Run.Runs (System.step fun _ ↦ "openai") (System.init 0 0) (twoWorkloads (4 / 1000))
        (afterTwoWorkloads (4 / 1000))
      ∧ workloadAmount ((afterTwoWorkloads (4 / 1000)).ledger.ownWorkloadPartial hardProvider)
        "team-a"
        = 0
      ∧ spendAmount ((afterTwoWorkloads (4 / 1000)).ledger.workloadSpend "team-a") "openai" = 0
      ∧ namespaceAmount ((afterTwoWorkloads (4 / 1000)).ledger.ownPartial hardProvider) "team-a"
        = 1 / 100 := by
  refine ⟨?_, ?_, ?_, ?_⟩
  · decide +kernel
  · decide +kernel
  · decide +kernel
  · decide +kernel

end Kaalm
