import Kaalm.Budget.Hard
import Kaalm.Foundation.Float64

/-!
# Where the policy ladder blocks

The ladder selects the highest threshold that is reached, whatever its action, and among equal
thresholds the first in the list. A `warn` or `degrade` policy that is reached and stands above a
block policy therefore takes over from it. `Leads` names the policies that no such policy overtakes;
the ladder blocks exactly when a block policy that is reached is one of them
(`decide_eq_block_iff`).

Enforcement adds nothing to the action of the ladder. `heldLedger` is the ledger a call for a
provider reads, and both entry points return the action at its utilization, so further spend
unblocks a namespace exactly when no block policy leads at the utilization it brings. The
utilization is the one in `float64` (`ledgerUtilization64`): every operation rounds, and the
cluster-wide sum depends on the order in which the loops visit the two spend maps.
-/

namespace Kaalm

open Calendar Decimal GoJson

/-! ## Overtaking -/

/-- At a utilization of `percent`, no advisory policy wins against `q`: none with a higher threshold
is reached, and none with the same threshold stands before it in the list. -/
def Leads (budget : ModelProviderBudget) (percent : ℚ) (q : ModelProviderBudgetPolicy) : Prop :=
  ∃ before after, budget.policies = before ++ q :: after
    ∧ (∀ p ∈ before, (p.atPercent : ℚ) ≤ percent → q.atPercent ≤ p.atPercent → p.action = .block)
    ∧ ∀ p ∈ after, (p.atPercent : ℚ) ≤ percent → q.atPercent < p.atPercent → p.action = .block

/-- A block policy is reached that no advisory policy overtakes. -/
def LadderBlocks (budget : ModelProviderBudget) (percent : ℚ) : Prop :=
  ∃ q ∈ budget.policies, q.action = .block ∧ (q.atPercent : ℚ) ≤ percent ∧ Leads budget percent q

/-- One policy of the ladder's loop. -/
def ladderStep (percent : ℚ) (winner : Option ModelProviderBudgetPolicy)
    (p : ModelProviderBudgetPolicy) : Option ModelProviderBudgetPolicy :=
  if (p.atPercent : ℚ) ≤ percent ∧ winner.all (fun w ↦ w.atPercent < p.atPercent) then some p
  else winner

theorem budgetPolicyAt_eq (budget : ModelProviderBudget) (percent : ℚ) :
    budgetPolicyAt budget percent = budget.policies.foldl (ladderStep percent) Option.none := rfl

/-- A policy of the list that is reached leaves a winner at least as high. -/
theorem exists_foldl_ladderStep {percent : ℚ} {l : List ModelProviderBudgetPolicy}
    {p : ModelProviderBudgetPolicy} (hp : p ∈ l) (hreached : (p.atPercent : ℚ) ≤ percent) :
    ∃ w, l.foldl (ladderStep percent) Option.none = some w ∧ p.atPercent ≤ w.atPercent :=
  (budgetPolicyAt_spec ⟨.none, "", l, Option.none, .soft, Option.none⟩ percent).2 p hp hreached

/-- The winner of a stretch of the list either was the winner before it or stands in it, and then
beats the winner before it. -/
theorem foldl_ladderStep_cases (percent : ℚ) (winner : Option ModelProviderBudgetPolicy)
    (l : List ModelProviderBudgetPolicy) :
    l.foldl (ladderStep percent) winner = winner
      ∨ ∃ p ∈ l, l.foldl (ladderStep percent) winner = some p ∧ (p.atPercent : ℚ) ≤ percent
        ∧ ∀ w ∈ winner, w.atPercent < p.atPercent := by
  induction l generalizing winner with
  | nil => exact Or.inl rfl
  | cons p l ih =>
    rw [List.foldl_cons]
    by_cases hwins : (p.atPercent : ℚ) ≤ percent
        ∧ winner.all (fun w ↦ w.atPercent < p.atPercent) = true
    · have hstep : ladderStep percent winner p = some p := if_pos hwins
      have hbeats : ∀ w ∈ winner, w.atPercent < p.atPercent := by
        intro w hw
        have hall := hwins.2
        rw [Option.mem_def.mp hw, Option.all_some, decide_eq_true_iff] at hall
        exact hall
      rw [hstep]
      refine Or.inr ?_
      rcases ih (some p) with hsame | ⟨p', hp', hwinner, hreached, hp'beats⟩
      · exact ⟨p, List.mem_cons_self, hsame, hwins.1, hbeats⟩
      · exact ⟨p', List.mem_cons_of_mem _ hp', hwinner, hreached,
          fun w hw ↦ (hbeats w hw).trans (hp'beats p rfl)⟩
    · have hstep : ladderStep percent winner p = winner := if_neg hwins
      rw [hstep]
      rcases ih winner with hsame | ⟨p', hp', h⟩
      · exact Or.inl hsame
      · exact Or.inr ⟨p', List.mem_cons_of_mem _ hp', h⟩

/-- A block policy that is reached and not overtaken makes the ladder block. -/
theorem budgetPolicyAt_of_leads {budget : ModelProviderBudget} {percent : ℚ}
    {q : ModelProviderBudgetPolicy} (hblock : q.action = .block)
    (hreached : (q.atPercent : ℚ) ≤ percent) (hleads : Leads budget percent q) :
    ∃ w ∈ budgetPolicyAt budget percent, w.action = .block := by
  obtain ⟨before, after, hpolicies, hbefore, hafter⟩ := hleads
  rw [budgetPolicyAt_eq, hpolicies, List.foldl_append, List.foldl_cons]
  -- The winner once `q` has been visited blocks and stands at least as high as `q`.
  obtain ⟨w, hw, hwblock, hwhigh⟩ : ∃ w,
      ladderStep percent (before.foldl (ladderStep percent) Option.none) q = some w
        ∧ w.action = .block ∧ q.atPercent ≤ w.atPercent := by
    rcases foldl_ladderStep_cases percent Option.none before with hnone | ⟨p, hp, hwinner, hp', -⟩
    · rw [hnone]
      exact ⟨q, if_pos ⟨hreached, rfl⟩, hblock, le_rfl⟩
    · rw [hwinner]
      by_cases hlt : p.atPercent < q.atPercent
      · exact ⟨q, if_pos ⟨hreached, by simpa using hlt⟩, hblock, le_rfl⟩
      · refine ⟨p, if_neg (by simpa using fun _ ↦ not_lt.mp hlt), ?_, not_lt.mp hlt⟩
        exact hbefore p hp hp' (not_lt.mp hlt)
  rw [hw]
  rcases foldl_ladderStep_cases percent (some w) after with hsame | ⟨p, hp, hwinner, hp', hbeats⟩
  · exact ⟨w, hsame, hwblock⟩
  · exact ⟨p, hwinner, hafter p hp hp' (hwhigh.trans_lt (hbeats w rfl))⟩

/-- The winner stands at a place of the list before which everything reached is lower, and after
which nothing reached is higher. -/
theorem foldl_ladderStep_eq_some {percent : ℚ} {l : List ModelProviderBudgetPolicy}
    {w : ModelProviderBudgetPolicy} (h : l.foldl (ladderStep percent) Option.none = some w) :
    (w.atPercent : ℚ) ≤ percent ∧ ∃ before after, l = before ++ w :: after
      ∧ (∀ p ∈ before, (p.atPercent : ℚ) ≤ percent → p.atPercent < w.atPercent)
      ∧ ∀ p ∈ after, (p.atPercent : ℚ) ≤ percent → p.atPercent ≤ w.atPercent := by
  induction l using List.reverseRecOn generalizing w with
  | nil => exact nomatch h
  | append_singleton l p ih =>
    rw [List.foldl_append, List.foldl_cons, List.foldl_nil, ladderStep] at h
    split_ifs at h with hwins
    · rw [Option.some_inj] at h
      subst h
      refine ⟨hwins.1, l, [], rfl, ?_, nofun⟩
      intro p' hp' hreached
      obtain ⟨v, hv, hle⟩ := exists_foldl_ladderStep hp' hreached
      have hbeats := hwins.2
      rw [hv, Option.all_some, decide_eq_true_iff] at hbeats
      exact hle.trans_lt hbeats
    · obtain ⟨hreached, before, after, rfl, hbefore, hafter⟩ := ih h
      refine ⟨hreached, before, after ++ [p], by simp, hbefore, ?_⟩
      intro p' hp' hp'reached
      rcases List.mem_append.mp hp' with hp' | hp'
      · exact hafter p' hp' hp'reached
      · rw [List.mem_singleton] at hp'
        subst hp'
        refine not_lt.mp fun hlt ↦ hwins ⟨hp'reached, ?_⟩
        rw [h, Option.all_some, decide_eq_true_iff]
        exact hlt

/-- The winner of the ladder is never overtaken. -/
theorem leads_of_budgetPolicyAt {budget : ModelProviderBudget} {percent : ℚ}
    {w : ModelProviderBudgetPolicy} (h : budgetPolicyAt budget percent = some w) :
    (w.atPercent : ℚ) ≤ percent ∧ Leads budget percent w := by
  obtain ⟨hreached, before, after, hpolicies, hbefore, hafter⟩ := foldl_ladderStep_eq_some h
  exact ⟨hreached, before, after, hpolicies,
    fun p hp hp' hhigh ↦ absurd (hbefore p hp hp') (not_lt.mpr hhigh),
    fun p hp hp' hhigh ↦ absurd (hafter p hp hp') (not_le.mpr hhigh)⟩

/-- The ladder blocks exactly when a block policy is reached that no advisory policy overtakes. -/
theorem decide_eq_block_iff {budget : ModelProviderBudget} {now : Time} {u : Utilization} :
    (budget.decide now u).action = some .block ↔ LadderBlocks budget u.worst := by
  rw [decide_action, Option.map_eq_some_iff]
  constructor
  · rintro ⟨w, hw, hblock⟩
    obtain ⟨hreached, hleads⟩ := leads_of_budgetPolicyAt hw
    exact ⟨w, ((budgetPolicyAt_spec budget u.worst).1 w hw).1, hblock, hreached, hleads⟩
  · rintro ⟨q, -, hblock, hreached, hleads⟩
    exact budgetPolicyAt_of_leads hblock hreached hleads

/-! ## The utilization in machine numbers -/

/-- The percent of a ceiling that is used. -/
def percent64 (spent ceiling : ℚ) : ℚ := Float64.mul (Float64.div spent ceiling) 100

/-- A loop that adds the amounts of a map to a sum. -/
def sum64 (total : ℚ) (m : GoMap String ℚ) : ℚ :=
  m.entries.foldl (fun total e ↦ Float64.add total e.2) total

/-- `utilizationOf` in `float64`, where `parse` is what `strconv.ParseFloat` makes of a ceiling. -/
def utilization64 (parse : String → Option ℚ) (budget : ModelProviderBudget)
    (nsSpent clusterSpent : ℚ) : Utilization :=
  utilizationOf budget nsSpent clusterSpent (fun text ↦ (parse text).filter (0 < ·)) percent64

/-- `utilizationLocked` in `float64`. -/
def ledgerUtilization64 (parse : String → Option ℚ) (budget : ModelProviderBudget) (ns : String)
    (l : ProviderLedger) : Utilization :=
  utilization64 parse budget (Float64.add (l.own.get ns) (l.peers.get ns))
    (sum64 (sum64 0 l.own) l.peers)

/-! ## The two entry points -/

namespace BudgetLedger

/-- The ledger a call for a provider reads: the live one, or a detached fresh one when the
provider's UID is superseded. -/
def heldLedger (b : BudgetLedger) (now : Time) (provider : ModelProvider) : ProviderLedger :=
  if provider.uid ∈ b.superseded then
    newProviderLedger (periodKey provider.budget.period now) provider.uid
  else b.liveLedger now provider.name provider.uid provider.budget.period

variable (b : BudgetLedger) (now : Time) {provider : ModelProvider}

theorem withLedger_snd {α : Type} (f : ProviderLedger → ProviderLedger × α) :
    (b.withLedger now provider.name provider.uid provider.budget.period f).2
      = (f (b.heldLedger now provider)).2 := by
  rw [heldLedger]
  split_ifs with hsup
  · rw [withLedger_of_superseded hsup]
  · rw [withLedger_of_live hsup]

/-- What makes the entry points return early: the ladder does not block there. -/
theorem ladderBlocks_iff_not_skipped {percent : ℚ} :
    provider.budget.period ≠ .none ∧ LadderBlocks provider.budget percent ↔
      ¬ (periodKey provider.budget.period now = "" ∨ provider.budget.policies = [])
        ∧ LadderBlocks provider.budget percent := by
  rw [periodKey_eq_empty_iff, not_or, and_assoc]
  refine and_congr_right fun _ ↦ (and_iff_right_of_imp ?_).symm
  rintro ⟨q, hq, -⟩
  exact List.ne_nil_of_mem hq

variable (ns workload : String) (read : ProviderLedger → Utilization)

theorem enforce_eq_block_iff :
    (b.enforce now provider ns read).2.action = some .block ↔
      provider.budget.period ≠ .none
        ∧ LadderBlocks provider.budget (read (b.heldLedger now provider)).worst := by
  rw [ladderBlocks_iff_not_skipped now, enforce]
  by_cases hskip : periodKey provider.budget.period now = "" ∨ provider.budget.policies = []
  · simp [hskip]
  · rw [if_neg hskip]
    show (provider.budget.decide now (b.withLedger now provider.name provider.uid
      provider.budget.period fun l ↦ (l, read l)).2).action = _ ↔ _
    rw [withLedger_snd, decide_eq_block_iff, and_iff_right hskip]

/-- The critical section of an admission returns the ladder's action. -/
theorem admitLocked_action (l : ProviderLedger) :
    (b.admitLocked now provider ns workload l read).2.1.action
      = (provider.budget.decide now (read l)).action := by
  simp only [admitLocked]
  split_ifs <;> rfl

theorem admitRequest_eq_block_iff :
    (b.admitRequest now provider ns workload read).2.1.action = some .block ↔
      provider.budget.period ≠ .none
        ∧ LadderBlocks provider.budget (read (b.heldLedger now provider)).worst := by
  rw [ladderBlocks_iff_not_skipped now, admitRequest]
  by_cases hskip : periodKey provider.budget.period now = "" ∨ provider.budget.policies = []
  · simp [hskip]
  · rw [if_neg hskip, withLedger_snd, admitLocked_action, decide_eq_block_iff, and_iff_right hskip]

end BudgetLedger

/-! ## Where a namespace is blocked -/

/-- The ladder blocks at a utilization exactly when a block policy that is reached is not overtaken
there, and on a tracked budget both entry points do so at the utilization of the ledger they read,
whatever that ledger holds and whatever the ceilings parse to. -/
theorem blocks_iff_leads (provider : ModelProvider) (now : Time) :
    (∀ u, (provider.budget.decide now u).action = some .block ↔
      LadderBlocks provider.budget u.worst)
    ∧ ∀ (b : BudgetLedger) (ns workload : String) (parse : String → Option ℚ),
      let read := ledgerUtilization64 parse provider.budget ns
      let blocks := provider.budget.period ≠ .none
        ∧ LadderBlocks provider.budget (read (b.heldLedger now provider)).worst
      ((b.enforce now provider ns read).2.action = some .block ↔ blocks)
        ∧ ((b.admitRequest now provider ns workload read).2.1.action = some .block ↔ blocks) :=
  ⟨fun _ ↦ decide_eq_block_iff, fun b ns workload _ ↦
    ⟨b.enforce_eq_block_iff now ns _, b.admitRequest_eq_block_iff now ns workload _⟩⟩

/-- A budget with a block policy at 80 percent and a warning at 90 percent. -/
def warnAboveBlock : ModelProvider :=
  { hardProvider with
    budget :=
      { hardProvider.budget with
        policies := [{ atPercent := 80, action := .block }, { atPercent := 90, action := .warn }]
        enforcement := .soft } }

/-- What the gateway reads for `team-a` of this budget. -/
def warnRead : ProviderLedger → Utilization :=
  ledgerUtilization64 parseFloat warnAboveBlock.budget "team-a"

/-- At 85 USD of 100 the namespace is blocked. Ten more, of a request in flight, bring it to 95
percent: the block policy at 80 percent is reached, and every further request passes with a
warning. -/
theorem warning_unblocks :
    let before := newBudgetLedger.add 0 warnAboveBlock "team-a" "w" 85
    let after := before.add 2 warnAboveBlock "team-a" "w" 10
    (before.enforce 1 warnAboveBlock "team-a" warnRead).2.action = some .block
      ∧ (∃ q ∈ warnAboveBlock.budget.policies, q.action = .block
        ∧ (q.atPercent : ℚ) ≤ (warnRead (after.heldLedger 3 warnAboveBlock)).worst)
      ∧ (after.enforce 3 warnAboveBlock "team-a" warnRead).2.action = some .warn
      ∧ (after.admitRequest 3 warnAboveBlock "team-a" "w" warnRead).2.1.action = some .warn := by
  decide +kernel

end Kaalm
