import Kaalm.Foundation.Calendar
import Kaalm.Foundation.Decimal

/-!
# Model providers and their budgets

The part of a `ModelProvider` object that budget enforcement reads, the accounting periods, and
the pure arithmetic from spend to a policy decision. Amounts are exact rationals unless the
arithmetic is given; a ceiling that is unset, unparsable or not positive is not enforced.

## The ladder

`budgetPolicyAt` selects the highest threshold at or below the utilization, the first one in list
order on a tie. An advisory policy above a block policy therefore takes over once utilization
reaches it. `AlwaysBlocks at` names the thresholds from which upward only block policies are
selected. A block policy's threshold is one as soon as no advisory policy stands at or above it
(`alwaysBlocks_of_mem`), so the highest threshold is one when it belongs to a block policy only.
-/

namespace Kaalm

open Calendar Decimal

/-! ## The API object -/

/-- `spec.budget.period`. -/
inductive BudgetPeriod
  | monthly
  | weekly
  | daily
  | none
  deriving DecidableEq, Repr

inductive BudgetAction
  | block
  | warn
  | degrade
  deriving DecidableEq, Repr

inductive BudgetEnforcement
  | soft
  | hard
  deriving DecidableEq, Repr

/-- A threshold action. -/
structure ModelProviderBudgetPolicy where
  atPercent : ℤ
  action : BudgetAction
  degradeTo : Option String := Option.none
  deriving DecidableEq, Repr

/-- The tuning of the boundary region under hard enforcement. -/
structure ModelProviderBudgetHard where
  boundaryMarginPercent : ℤ
  deriving DecidableEq, Repr

/-- `spec.budget`. The two ceilings are decimal texts. -/
structure ModelProviderBudget where
  period : BudgetPeriod
  perNamespaceUSD : String
  policies : List ModelProviderBudgetPolicy
  clusterUSD : Option String
  enforcement : BudgetEnforcement
  hard : Option ModelProviderBudgetHard
  deriving DecidableEq, Repr

/-- One version of a `ModelProvider` object. -/
structure ModelProvider where
  name : String
  uid : String
  budget : ModelProviderBudget
  deriving DecidableEq, Repr

/-! ## Accounting periods -/

/-- The budget period identifier of a scheme at an instant. Scheme `none` gives the empty key and
disables budget tracking. -/
def periodKey (scheme : BudgetPeriod) (t : Time) : String :=
  let date := civil (dayNumber t)
  match scheme with
  | .monthly => padded 4 date.year ++ "-" ++ padded 2 date.month
  | .weekly =>
    let (year, week) := isoWeek (dayNumber t)
    padded 0 year ++ "-W" ++ padded 2 week
  | .daily => padded 4 date.year ++ "-" ++ padded 2 date.month ++ "-" ++ padded 2 date.day
  | .none => ""

/-- When the current period rolls over, for `Retry-After`. -/
def nextPeriodStart (scheme : BudgetPeriod) (t : Time) : Time :=
  let day := dayNumber t
  let date := civil day
  match scheme with
  | .monthly =>
    midnight (daysFromCivil (if date.month = 12 then ⟨date.year + 1, 1, 1⟩
      else ⟨date.year, date.month + 1, 1⟩))
  | .weekly =>
    let daysUntilMonday := (8 - weekday day) % 7
    midnight (day + if daysUntilMonday = 0 then 7 else daysUntilMonday)
  | _ => midnight (day + 1)

/-- Only scheme `none` has the empty key, so the early returns on an empty key depend on the
scheme alone. -/
theorem periodKey_eq_empty_iff {scheme : BudgetPeriod} {t : Time} :
    periodKey scheme t = "" ↔ scheme = .none := by
  constructor
  · intro h
    cases scheme with
    | none => rfl
    | _ => simp [periodKey] at h
  · rintro rfl
    rfl

/-! ## Utilization -/

/-- A ceiling that is enforced: parsable and positive. -/
def ceilingOf (text : String) : Option ℚ := (parseFloat text).filter fun c ↦ 0 < c

/-- The per-ceiling view the enforcement decision reads. -/
structure Utilization where
  nsPct : ℚ := 0
  clPct : ℚ := 0
  nsUSD : ℚ := 0
  clUSD : ℚ := 0
  worst : ℚ := 0
  worstIsCluster : Bool := false
  deriving DecidableEq, Repr

/-- The namespace half of `utilizationOf`. -/
def namespaceUtilization (budget : ModelProviderBudget) (nsSpent : ℚ)
    (ceilingOf : String → Option ℚ := ceilingOf)
    (percent : ℚ → ℚ → ℚ := fun spent ceiling ↦ spent / ceiling * 100) : Utilization :=
  match ceilingOf budget.perNamespaceUSD with
  | some ceiling =>
    let pct := percent nsSpent ceiling
    { nsUSD := ceiling, nsPct := pct, worst := pct }
  | Option.none => {}

/-- Both ceiling ratios, from a namespace's spend and the provider's cluster-wide spend. -/
def utilizationOf (budget : ModelProviderBudget) (nsSpent clusterSpent : ℚ)
    (ceilingOf : String → Option ℚ := ceilingOf)
    (percent : ℚ → ℚ → ℚ := fun spent ceiling ↦ spent / ceiling * 100) : Utilization :=
  let u := namespaceUtilization budget nsSpent ceilingOf percent
  match budget.clusterUSD.bind ceilingOf with
  | some ceiling =>
    let pct := percent clusterSpent ceiling
    { u with
      clUSD := ceiling
      clPct := pct
      worst := if u.worst < pct then pct else u.worst
      worstIsCluster := if u.worst < pct then true else u.worstIsCluster }
  | Option.none => u

theorem ceilingOf_pos {text : String} {c : ℚ} (h : ceilingOf text = some c) : 0 < c := by
  rw [ceilingOf, Option.filter_eq_some_iff] at h
  exact of_decide_eq_true h.2

section Utilization

variable (budget : ModelProviderBudget) (nsSpent clusterSpent : ℚ)

/-- The cluster half touches neither the namespace ceiling nor its ratio. -/
theorem utilizationOf_ns :
    (utilizationOf budget nsSpent clusterSpent).nsUSD = (namespaceUtilization budget nsSpent).nsUSD
      ∧ (utilizationOf budget nsSpent clusterSpent).nsPct
        = (namespaceUtilization budget nsSpent).nsPct := by
  rw [utilizationOf]
  cases budget.clusterUSD.bind ceilingOf with
  | none => exact ⟨rfl, rfl⟩
  | some ceiling => exact ⟨rfl, rfl⟩

theorem namespaceUtilization_worst :
    (namespaceUtilization budget nsSpent).worst = (namespaceUtilization budget nsSpent).nsPct := by
  rw [namespaceUtilization]
  cases ceilingOf budget.perNamespaceUSD with
  | none => rfl
  | some ceiling => rfl

/-- The worse ratio is at least the namespace's. -/
theorem nsPct_le_worst :
    (utilizationOf budget nsSpent clusterSpent).nsPct
      ≤ (utilizationOf budget nsSpent clusterSpent).worst := by
  rw [(utilizationOf_ns budget nsSpent clusterSpent).2, ← namespaceUtilization_worst, utilizationOf]
  cases budget.clusterUSD.bind ceilingOf with
  | none => exact le_rfl
  | some ceiling =>
    simp only
    split_ifs with h
    · exact h.le
    · exact le_rfl

variable {budget}

theorem utilizationOf_nsPct {ceiling : ℚ} (h : ceilingOf budget.perNamespaceUSD = some ceiling) :
    (utilizationOf budget nsSpent clusterSpent).nsPct = nsSpent / ceiling * 100 := by
  rw [(utilizationOf_ns budget nsSpent clusterSpent).2, namespaceUtilization, h]

theorem utilizationOf_nsUSD {ceiling : ℚ} (h : ceilingOf budget.perNamespaceUSD = some ceiling) :
    (utilizationOf budget nsSpent clusterSpent).nsUSD = ceiling := by
  rw [(utilizationOf_ns budget nsSpent clusterSpent).1, namespaceUtilization, h]

/-- The cluster ceiling does not depend on the spend. -/
theorem utilizationOf_clUSD :
    (utilizationOf budget nsSpent clusterSpent).clUSD
      = (budget.clusterUSD.bind ceilingOf).getD 0 := by
  rw [utilizationOf]
  cases budget.clusterUSD.bind ceilingOf with
  | none =>
    rw [namespaceUtilization]
    cases ceilingOf budget.perNamespaceUSD <;> rfl
  | some ceiling => rfl

end Utilization

/-! ## The policy ladder -/

/-- The policy the ladder selects at a utilization: the highest threshold at or below it. -/
def budgetPolicyAt (budget : ModelProviderBudget) (percent : ℚ) :
    Option ModelProviderBudgetPolicy :=
  budget.policies.foldl (fun winner p ↦
    if (p.atPercent : ℚ) ≤ percent ∧ winner.all (fun w ↦ w.atPercent < p.atPercent) then some p
    else winner) Option.none

/-- The lowest block threshold; `101` without a block policy, which no boundary reaches. -/
def minBlockAt (budget : ModelProviderBudget) : ℚ :=
  budget.policies.foldl (fun at' p ↦
    if p.action = .block ∧ (p.atPercent : ℚ) < at' then p.atPercent else at') 101

/-- From `at` upward the ladder selects a block policy. -/
def AlwaysBlocks (budget : ModelProviderBudget) (at' : ℚ) : Prop :=
  ∀ percent, at' ≤ percent →
    ∃ p, budgetPolicyAt budget percent = some p ∧ p.action = .block

/-- The rule-34 floor of the boundary margin, 5 when the hard block is absent. -/
def configuredMarginPercent (budget : ModelProviderBudget) : ℚ :=
  match budget.hard with
  | some hard => hard.boundaryMarginPercent
  | Option.none => 5

/-- Hard enforcement governs the provider's block policies. -/
def hardActive (provider : ModelProvider) : Bool :=
  provider.budget.enforcement = .hard
    && provider.budget.policies.any fun p ↦ p.action = .block

/-- Which ceiling a utilization is attributed to. -/
inductive Ceiling
  | perNamespace
  | cluster
  deriving DecidableEq, Repr

/-- The pre-call enforcement outcome. -/
structure BudgetDecision where
  action : Option BudgetAction := Option.none
  degradeTo : Option String := Option.none
  retryAfter : ℤ := 0
  percent : ℤ := 0
  ceiling : Option Ceiling := Option.none
  throttled : Bool := false
  unavailable : Bool := false
  boundaryEngaged : Bool := false
  marginRaisedNow : Bool := false
  deriving DecidableEq, Repr

/-- The policy ladder applied to a utilization. -/
def ModelProviderBudget.decide (budget : ModelProviderBudget) (now : Time) (u : Utilization) :
    BudgetDecision :=
  let d : BudgetDecision :=
    { percent := u.worst.num.tdiv u.worst.den
      ceiling := some (if u.worstIsCluster then .cluster else .perNamespace) }
  match budgetPolicyAt budget u.worst with
  | Option.none => d
  | some winner =>
    { d with
      action := some winner.action
      degradeTo := if winner.action = .degrade then winner.degradeTo else Option.none
      retryAfter := if winner.action = .block then
        (nextPeriodStart budget.period now - now).tdiv second + 1 else 0 }

/-- The ladder selects a policy that is reached, and none that is reached stands higher. -/
theorem budgetPolicyAt_spec (budget : ModelProviderBudget) (percent : ℚ) :
    (∀ w ∈ budgetPolicyAt budget percent, w ∈ budget.policies ∧ (w.atPercent : ℚ) ≤ percent) ∧
    ∀ p ∈ budget.policies, (p.atPercent : ℚ) ≤ percent →
      ∃ w ∈ budgetPolicyAt budget percent, p.atPercent ≤ w.atPercent := by
  rw [budgetPolicyAt]
  induction budget.policies using List.reverseRecOn with
  | nil => exact ⟨nofun, nofun⟩
  | append_singleton l p ih =>
    obtain ⟨hmem, hhighest⟩ := ih
    rw [List.foldl_append, List.foldl_cons, List.foldl_nil]
    generalize l.foldl _ Option.none = winner at hmem hhighest ⊢
    split_ifs with hwins
    · obtain ⟨hreached, hbeats⟩ := hwins
      refine ⟨?_, fun p' hp' hp'reached ↦ ⟨p, rfl, ?_⟩⟩
      · rintro w ⟨⟩
        exact ⟨List.mem_append_right _ List.mem_cons_self, hreached⟩
      · rcases List.mem_append.mp hp' with hp' | hp'
        · obtain ⟨w, hw, hle⟩ := hhighest p' hp' hp'reached
          rw [Option.mem_def.mp hw, Option.all_some, decide_eq_true_iff] at hbeats
          exact hle.trans hbeats.le
        · rw [List.mem_singleton.mp hp']
    · refine ⟨fun w hw ↦ ⟨List.mem_append_left _ (hmem w hw).1, (hmem w hw).2⟩, ?_⟩
      intro p' hp' hp'reached
      rcases List.mem_append.mp hp' with hp' | hp'
      · exact hhighest p' hp' hp'reached
      · rw [List.mem_singleton] at hp'
        subst hp'
        -- The last policy is reached and does not win, so an earlier one is as high.
        cases winner with
        | none => exact absurd ⟨hp'reached, rfl⟩ hwins
        | some w =>
          refine ⟨w, rfl, not_lt.mp fun hlt ↦ hwins ⟨hp'reached, ?_⟩⟩
          rw [Option.all_some, decide_eq_true_iff]
          exact hlt

/-- A block policy at or above which every policy blocks. -/
theorem alwaysBlocks_of_mem {budget : ModelProviderBudget} {q : ModelProviderBudgetPolicy}
    (hq : q ∈ budget.policies)
    (habove : ∀ p ∈ budget.policies, q.atPercent ≤ p.atPercent → p.action = .block) :
    AlwaysBlocks budget q.atPercent := by
  intro percent hpercent
  obtain ⟨hmem, hhighest⟩ := budgetPolicyAt_spec budget percent
  obtain ⟨w, hw, hle⟩ := hhighest q hq hpercent
  exact ⟨w, hw, habove w (hmem w hw).1 hle⟩

theorem decide_action (budget : ModelProviderBudget) (now : Time) (u : Utilization) :
    (budget.decide now u).action = (budgetPolicyAt budget u.worst).map (·.action) := by
  rw [ModelProviderBudget.decide]
  cases budgetPolicyAt budget u.worst <;> rfl

/-- The ladder itself never throttles and never fails closed. -/
theorem decide_flags (budget : ModelProviderBudget) (now : Time) (u : Utilization) :
    (budget.decide now u).throttled = false ∧ (budget.decide now u).unavailable = false := by
  rw [ModelProviderBudget.decide]
  cases budgetPolicyAt budget u.worst <;> exact ⟨rfl, rfl⟩

theorem AlwaysBlocks.decide_action_eq {budget : ModelProviderBudget} {at' : ℚ}
    (h : AlwaysBlocks budget at') {now : Time} {u : Utilization} (hu : at' ≤ u.worst) :
    (budget.decide now u).action = some .block := by
  obtain ⟨p, hp, hblock⟩ := h u.worst hu
  rw [decide_action, hp, Option.map_some, hblock]

end Kaalm
