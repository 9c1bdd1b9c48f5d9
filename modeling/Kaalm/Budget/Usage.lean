import Kaalm.Budget.Ladder
import Kaalm.Budget.Reducer
import Kaalm.Foundation.Message

/-!
# The reported budget state

The reconciler renders the spend it has reduced into `status.budgetUsage`, one entry per namespace
of the spend map, with the state the gateway's own ladder gives at the gateway's own utilization.
The Agent reconciler reads these entries back into the `Degraded` condition of every Agent that
references the provider.

A namespace without spend of its own has no entry. The gateway still blocks it when the cluster
ceiling is used up by others, so the two disagree there. They also add up the cluster-wide spend in
`float64` over different maps, each in an order of its own, and can disagree where the two sums lie
on different sides of a threshold. `Matches` leaves out these two cases and no other.
-/

namespace Kaalm

open Calendar Decimal GoJson Message

/-! ## Status entries -/

/-- The state of a namespace in `status.budgetUsage`. -/
inductive BudgetState
  | normal
  | throttled
  | blocked
  deriving DecidableEq, Repr

/-- An entry of `status.budgetUsage`. -/
structure ModelProviderBudgetUsage where
  ns : String
  period : String
  spentUSD : String
  percentUsed : ℤ
  state : BudgetState
  deriving DecidableEq, Repr

/-- The state a selected policy stands for. -/
def BudgetState.ofPolicy : Option ModelProviderBudgetPolicy → BudgetState
  | some p =>
    match p.action with
    | .block => .blocked
    | .degrade => .throttled
    | .warn => .normal
  | Option.none => .normal

section

-- What `strconv.ParseFloat` makes of a text.
variable (parse : String → Option ℚ)

/-- The entry of one namespace. -/
def usageEntry (budget : ModelProviderBudget) (spend : GoMap String ℚ) (period ns : String) :
    ModelProviderBudgetUsage :=
  let percent := (utilization64 parse budget (spend.get ns) (sum64 0 spend)).worst
  { ns := ns
    period := period
    spentUSD := formatFixed (spend.get ns)
    percentUsed := percent.num.tdiv percent.den
    state := .ofPolicy (budgetPolicyAt budget percent) }

/-- Per-namespace spend as status entries, sorted by namespace. -/
def budgetUsageEntries (budget : ModelProviderBudget) (spend : GoMap String ℚ) (period : String) :
    List ModelProviderBudgetUsage :=
  (spend.keys.insertionSort (· ≤ ·)).map (usageEntry parse budget spend period)

/-- The archived period's entries. They are always in state `Normal`. -/
def previousUsageEntries (budget : ModelProviderBudget) (spend : GoMap String ℚ)
    (period : String) : List ModelProviderBudgetUsage :=
  (budgetUsageEntries parse budget spend period).map fun u ↦ { u with state := .normal }

/-- The archive summed per namespace over its sources. -/
def BudgetArchive.totals (a : BudgetArchive) : GoMap String ℚ :=
  a.sources.entries.foldl (fun out source ↦
    source.2.entries.foldl (fun out e ↦
      match parse e.2 with
      | some f => out.insert e.1 (Float64.add (out.get e.1) f)
      | Option.none => out) out) ∅

/-- The `status.budgetUsage` a reducer pass leaves. Without a period it is cleared. -/
def reportedUsage (provider : ModelProvider) (now : Time) (spend : GoMap String ℚ)
    (archive : Option BudgetArchive) : List ModelProviderBudgetUsage :=
  if periodKey provider.budget.period now = "" then []
  else budgetUsageEntries parse provider.budget spend (periodKey provider.budget.period now)
    ++ archive.elim [] fun a ↦ previousUsageEntries parse provider.budget (a.totals parse) a.period

end

/-- Some entry reports the namespace blocked. -/
def ReportsBlocked (usage : List ModelProviderBudgetUsage) (ns : String) : Prop :=
  ∃ u ∈ usage, u.ns = ns ∧ u.state = .blocked

instance (usage : List ModelProviderBudgetUsage) (ns : String) :
    Decidable (ReportsBlocked usage ns) :=
  inferInstanceAs (Decidable (∃ u ∈ usage, u.ns = ns ∧ u.state = .blocked))

/-! ## The condition of an Agent -/

/-- What the Agent reconciler reads of a `ModelProvider`. -/
structure ProviderStatus where
  name : String
  budgetUsage : List ModelProviderBudgetUsage
  deriving DecidableEq

/-- The `Degraded` condition an Agent carries for an exhausted budget. -/
structure BudgetExhausted where
  message : String
  observedGeneration : ℤ
  deriving DecidableEq

/-- The providers of an Agent that report its namespace blocked, and the last of them. A provider
that cannot be read is skipped. -/
def blockingProviders (ns : String) (refs : List String) (get : String → Option ProviderStatus) :
    EntryList × Option String :=
  refs.foldl (fun acc ref ↦
    match get ref with
    | some mp =>
      if ReportsBlocked mp.budgetUsage ns then (acc.1.add mp.name mp.name, some mp.name) else acc
    | none => acc) ({}, none)

/-- Mirror the budget state of the providers onto the Agent: the condition, and the Warning event
of the transition into it with the one provider it is about. -/
def reconcileBudgetCondition (ns : String) (generation : ℤ) (refs : List String)
    (get : String → Option ProviderStatus) (before : Option BudgetExhausted) :
    Option BudgetExhausted × Option (String × Option String) :=
  let blocking := blockingProviders ns refs get
  if blocking.1.listed = [] then (none, none)
  else
    let names := blocking.1.messages "1 more provider, not listed"
      fun n ↦ toString n ++ " more providers, not listed"
    let msg := "namespace \"" ++ ns ++ "\" budget exhausted on provider "
      ++ String.intercalate ", " names
    let related := if 1 < blocking.1.listed.length ∨ 0 < blocking.1.more then none else blocking.2
    (some ⟨msg, generation⟩, if before = none then some (msg, related) else none)

/-! ## What is reported -/

theorem ofPolicy_eq_blocked {winner : Option ModelProviderBudgetPolicy} :
    BudgetState.ofPolicy winner = .blocked ↔ winner.map (·.action) = some .block := by
  cases winner with
  | none => simp [BudgetState.ofPolicy]
  | some p => cases h : p.action <;> simp [BudgetState.ofPolicy, h]

variable {parse : String → Option ℚ}

theorem not_reportsBlocked_previous (budget : ModelProviderBudget) (spend : GoMap String ℚ)
    (period ns : String) :
    ¬ ReportsBlocked (previousUsageEntries parse budget spend period) ns := by
  rintro ⟨u, hu, -, hblocked⟩
  obtain ⟨u', -, rfl⟩ := List.mem_map.mp hu
  exact nomatch hblocked

/-- The current entries report a namespace blocked when it has spend of its own and the ladder
blocks at its utilization. -/
theorem reportsBlocked_budgetUsageEntries {budget : ModelProviderBudget} {spend : GoMap String ℚ}
    {period ns : String} :
    ReportsBlocked (budgetUsageEntries parse budget spend period) ns ↔
      ns ∈ spend ∧
        LadderBlocks budget (utilization64 parse budget (spend.get ns) (sum64 0 spend)).worst := by
  rw [← @decide_eq_block_iff budget 0, decide_action, ← ofPolicy_eq_blocked]
  constructor
  · rintro ⟨u, hu, rfl, hblocked⟩
    obtain ⟨k, hk, rfl⟩ := List.mem_map.mp hu
    exact ⟨(List.mem_insertionSort _).mp hk, hblocked⟩
  · rintro ⟨hmem, hblocked⟩
    exact ⟨_, List.mem_map.mpr ⟨ns, (List.mem_insertionSort _).mpr hmem, rfl⟩, rfl, hblocked⟩

theorem reportsBlocked_reportedUsage {provider : ModelProvider} {now : Time}
    {spend : GoMap String ℚ} {archive : Option BudgetArchive} {ns : String} :
    ReportsBlocked (reportedUsage parse provider now spend archive) ns ↔
      provider.budget.period ≠ .none
        ∧ ReportsBlocked (budgetUsageEntries parse provider.budget spend
        (periodKey provider.budget.period now)) ns := by
  rw [reportedUsage, ne_eq, ← @periodKey_eq_empty_iff _ now]
  by_cases hperiod : periodKey provider.budget.period now = ""
  · simp [hperiod, ReportsBlocked]
  rw [if_neg hperiod, and_iff_right hperiod]
  constructor
  · rintro ⟨u, hu, hns, hblocked⟩
    rcases List.mem_append.mp hu with hu | hu
    · exact ⟨u, hu, hns, hblocked⟩
    · cases archive with
      | none => exact absurd hu List.not_mem_nil
      | some a => exact absurd ⟨u, hu, hns, hblocked⟩ (not_reportsBlocked_previous _ _ _ _)
  · rintro ⟨u, hu, h⟩
    exact ⟨u, List.mem_append_left _ hu, h⟩

/-! ## Reported against enforced -/

/-- A spend map has the namespaces of a ledger, each with the gateway's own and peer spend. -/
def Counts (l : ProviderLedger) (spend : GoMap String ℚ) : Prop :=
  ∀ ns, (ns ∈ spend ↔ ns ∈ l.own ∨ ns ∈ l.peers)
    ∧ spend.get ns = Float64.add (l.own.get ns) (l.peers.get ns)

/-- The ladder comes to the same result at the gateway's cluster-wide sum as at the reconciler's if
the namespace has spend of its own, and otherwise does not block at the gateway's. -/
def Matches (parse : String → Option ℚ) (budget : ModelProviderBudget) (l : ProviderLedger)
    (spend : GoMap String ℚ) (ns : String) : Prop :=
  let blocksAt cluster :=
    LadderBlocks budget (utilization64 parse budget (spend.get ns) cluster).worst
  if ns ∈ spend then blocksAt (sum64 (sum64 0 l.own) l.peers) ↔ blocksAt (sum64 0 spend)
  else ¬ blocksAt (sum64 (sum64 0 l.own) l.peers)

/-- With spend of its own, a namespace can only be affected by the roundings of the two sums. -/
theorem matches_of_sums {budget : ModelProviderBudget} {l : ProviderLedger} {spend : GoMap String ℚ}
    {ns : String} (hmem : ns ∈ spend) (hsums : sum64 (sum64 0 l.own) l.peers = sum64 0 spend) :
    Matches parse budget l spend ns := by
  rw [Matches, if_pos hmem, hsums]

section

variable {b : BudgetLedger} {now : Time} {provider : ModelProvider} {spend : GoMap String ℚ}
  {archive : Option BudgetArchive} {ns : String}

/-- The two states agree exactly where they match; a budget without a period neither blocks nor
reports. -/
theorem enforced_iff_reportsBlocked_iff (hcounts : Counts (b.heldLedger now provider) spend) :
    ((b.enforce now provider ns (ledgerUtilization64 parse provider.budget ns)).2.action
        = some .block ↔ ReportsBlocked (reportedUsage parse provider now spend archive) ns)
      ↔ provider.budget.period = .none
        ∨ Matches parse provider.budget (b.heldLedger now provider) spend ns := by
  rw [b.enforce_eq_block_iff, reportsBlocked_reportedUsage, reportsBlocked_budgetUsageEntries,
    ledgerUtilization64, ← (hcounts ns).2, Matches]
  by_cases hperiod : provider.budget.period = .none
  · simp [hperiod]
  · by_cases hmem : ns ∈ spend <;> simp [hperiod, hmem]

end

/-! ## The Agent's condition -/

/-- The loop lists a provider exactly when one that can be read reports the namespace blocked. -/
theorem listed_blockingProviders (ns : String) (refs : List String)
    (get : String → Option ProviderStatus) :
    (blockingProviders ns refs get).1.listed ≠ [] ↔
      ∃ ref ∈ refs, ∃ mp, get ref = some mp ∧ ReportsBlocked mp.budgetUsage ns := by
  suffices h : ((∀ k ∈ (blockingProviders ns refs get).1.seen,
      (blockingProviders ns refs get).1.listed ≠ [])) ∧
      ((blockingProviders ns refs get).1.listed ≠ [] ↔
        ∃ ref ∈ refs, ∃ mp, get ref = some mp ∧ ReportsBlocked mp.budgetUsage ns) from h.2
  rw [blockingProviders]
  induction refs using List.reverseRecOn with
  | nil => simp
  | append_singleton refs ref ih =>
    rw [List.foldl_append, List.foldl_cons, List.foldl_nil]
    generalize refs.foldl _ _ = acc at ih ⊢
    obtain ⟨hseen, hlisted⟩ := ih
    -- The last reference adds an entry when it is readable and blocks, and nothing otherwise.
    cases hget : get ref with
    | none =>
      refine ⟨hseen, hlisted.trans ?_⟩
      simp only [List.mem_append, List.mem_singleton, or_and_right, exists_or, exists_eq_left, hget,
        reduceCtorEq, false_and, exists_false, or_false]
    | some mp =>
      show (∀ k ∈ (ite _ _ _ : EntryList × Option String).1.seen, _) ∧ _
      by_cases hblocked : ReportsBlocked mp.budgetUsage ns
      · simp only [if_pos hblocked]
        have hne := acc.1.listed_add_ne_nil hseen mp.name mp.name
        exact ⟨fun _ _ ↦ hne, fun _ ↦ ⟨ref, by simp, mp, hget, hblocked⟩, fun _ ↦ hne⟩
      · simp only [if_neg hblocked]
        refine ⟨hseen, hlisted.trans ?_⟩
        simp only [List.mem_append, List.mem_singleton, or_and_right, exists_or, exists_eq_left,
          hget, Option.some_inj, exists_eq_left', hblocked, or_false]

theorem isSome_reconcileBudgetCondition (ns : String) (generation : ℤ) (refs : List String)
    (get : String → Option ProviderStatus) (before : Option BudgetExhausted) :
    (reconcileBudgetCondition ns generation refs get before).1.isSome ↔
      ∃ ref ∈ refs, ∃ mp, get ref = some mp ∧ ReportsBlocked mp.budgetUsage ns := by
  rw [← listed_blockingProviders, reconcileBudgetCondition]
  by_cases hnone : (blockingProviders ns refs get).1.listed = []
  · simp [hnone]
  · simp [hnone]

/-- For every provider whose gateway ledger adds up to the reduced spend, the gateway blocks the
namespace exactly when the provider's status reports it blocked, if and only if the two match; and
an Agent of a namespace for which all the providers it references match carries the condition
exactly when the gateway blocks it on one of them. -/
theorem enforced_iff_reported (b : BudgetLedger) (now : Time) (ns : String)
    (parse : String → Option ℚ) (spend : String → GoMap String ℚ)
    (archive : String → Option BudgetArchive) :
    (∀ provider, Counts (b.heldLedger now provider) (spend provider.name) →
      (((b.enforce now provider ns (ledgerUtilization64 parse provider.budget ns)).2.action
          = some .block ↔ ReportsBlocked (reportedUsage parse provider now (spend provider.name)
            (archive provider.name)) ns)
        ↔ provider.budget.period = .none
          ∨ Matches parse provider.budget (b.heldLedger now provider) (spend provider.name) ns))
    ∧ ∀ (refs : List String) (get : String → Option ModelProvider) (generation : ℤ)
        (before : Option BudgetExhausted),
      (∀ ref ∈ refs, ∀ provider, get ref = some provider →
        Counts (b.heldLedger now provider) (spend provider.name)
          ∧ (provider.budget.period = .none
            ∨ Matches parse provider.budget (b.heldLedger now provider) (spend provider.name) ns)) →
      ((reconcileBudgetCondition ns generation refs (fun ref ↦ (get ref).map fun provider ↦
          ⟨provider.name, reportedUsage parse provider now (spend provider.name)
            (archive provider.name)⟩) before).1.isSome ↔
        ∃ ref ∈ refs, ∃ provider, get ref = some provider
          ∧ (b.enforce now provider ns (ledgerUtilization64 parse provider.budget ns)).2.action
            = some .block) := by
  refine ⟨fun provider hcounts ↦ enforced_iff_reportsBlocked_iff hcounts, ?_⟩
  intro refs get generation before hrefs
  rw [isSome_reconcileBudgetCondition]
  constructor
  · rintro ⟨ref, href, mp, hmp, hreports⟩
    obtain ⟨provider, hget, rfl⟩ := Option.map_eq_some_iff.mp hmp
    obtain ⟨hcounts, hmatches⟩ := hrefs ref href provider hget
    exact ⟨ref, href, provider, hget,
      ((enforced_iff_reportsBlocked_iff hcounts).mpr hmatches).mpr hreports⟩
  · rintro ⟨ref, href, provider, hget, hblocked⟩
    obtain ⟨hcounts, hmatches⟩ := hrefs ref href provider hget
    exact ⟨ref, href, _, Option.map_eq_some_iff.mpr ⟨provider, hget, rfl⟩,
      ((enforced_iff_reportsBlocked_iff hcounts).mpr hmatches).mp hblocked⟩

/-- A budget with a cluster ceiling of 100 USD that blocks when it is used up. -/
def clusterCapped : ModelProvider :=
  { hardProvider with
    budget := { hardProvider.budget with clusterUSD := some "100", enforcement := .soft } }

/-- The ledger of a replica through which one namespace has spent the cluster ceiling. -/
def spentByOther : BudgetLedger := newBudgetLedger.add 0 clusterCapped "team-a" "w" 100

theorem held_spentByOther :
    (spentByOther.heldLedger 1 clusterCapped).own = AList.insert "team-a" 100 ∅
      ∧ (spentByOther.heldLedger 1 clusterCapped).peers = ∅ := by decide +kernel

theorem counts_spentByOther :
    Counts (spentByOther.heldLedger 1 clusterCapped) (AList.insert "team-a" 100 ∅) := by
  intro ns
  rw [held_spentByOther.1, held_spentByOther.2]
  have hpeers : AList.get (∅ : GoMap String ℚ) ns = 0 :=
    AList.get_of_not_mem (AList.notMem_empty ns)
  refine ⟨by simp, ?_⟩
  rw [hpeers, AList.get, AList.lookup_insert_ite, AList.lookup_empty]
  split_ifs <;> decide +kernel

theorem enforced_iff_reported_for_spender :
    ((spentByOther.enforce 1 clusterCapped "team-a"
        (ledgerUtilization64 parseFloat clusterCapped.budget "team-a")).2.action = some .block ↔
      ReportsBlocked (reportedUsage parseFloat clusterCapped 1 (AList.insert "team-a" 100 ∅) none)
        "team-a") := by
  refine ((enforced_iff_reported spentByOther 1 "team-a" parseFloat
    (fun _ ↦ AList.insert "team-a" 100 ∅) fun _ ↦ none).1 clusterCapped counts_spentByOther).mpr ?_
  refine Or.inr (matches_of_sums (by decide +kernel) ?_)
  rw [held_spentByOther.1, held_spentByOther.2]
  rfl

/-- Once one namespace has spent the cluster ceiling, the gateway blocks a namespace that has not
spent anything, while the status has no entry for it and its Agents show no condition. -/
theorem silent_namespace_is_blocked :
    Counts (spentByOther.heldLedger 1 clusterCapped) (AList.insert "team-a" 100 ∅)
      ∧ (spentByOther.enforce 1 clusterCapped "team-b"
        (ledgerUtilization64 parseFloat clusterCapped.budget "team-b")).2.action = some .block
      ∧ ¬ ReportsBlocked (reportedUsage parseFloat clusterCapped 1 (AList.insert "team-a" 100 ∅)
        none) "team-b"
      ∧ (reconcileBudgetCondition "team-b" 1 ["openai"] (fun _ ↦ some ⟨"openai",
          reportedUsage parseFloat clusterCapped 1 (AList.insert "team-a" 100 ∅) none⟩) none).1
            = none :=
  ⟨counts_spentByOther, by decide +kernel, by decide +kernel, by decide +kernel⟩

end Kaalm
