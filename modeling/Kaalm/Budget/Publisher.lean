import Kaalm.Budget.Reducer
import Kaalm.Budget.Slots

/-!
# The publisher tick

Every tick lists the spend ConfigMaps once, and then publishes and folds each budgeted provider. A
publish that succeeds clears the write-path signal, a fold that succeeds stamps the read path. The
tick modelled here is one in which every API call succeeds and no other call on the ledger
interleaves; all its clock readings are one instant.

## What a publish skips

`publish` returns before `MarkPublished` when there is nothing to publish. A rollover empties the
own counters and keeps `dirtySince`, so a ledger that rolls over before its spend is published has a
raised signal and nothing to publish: no tick clears it. `tick_recovers_iff` says that this is the
only state of a provider's ledger from which a tick does not recover.
-/

namespace Kaalm

open Calendar

def budgetConfigMapName (providerName : String) : String := "kaalm-budget-" ++ providerName

def agentSpendConfigMapName (providerName : String) : String := "kaalm-agentspend-" ++ providerName

namespace BudgetLedger

/-- `publish`, where the apply succeeds or the partial is found stored already. -/
def publish (b : BudgetLedger) (now : Time) (provider : ModelProvider) : BudgetLedger :=
  match b.ownPartial provider with
  | none => b
  | some _ => b.markPublished provider now

/-- `foldWorkloads`, on what the read of each ConfigMap returned. -/
def foldWorkloads (b : BudgetLedger) (now : Time) (podName : String)
    (read : String → Option ConfigMap) (provider : ModelProvider) : BudgetLedger :=
  match read (agentSpendConfigMapName provider.name) with
  | none => b.foldWorkloadPeers now provider ∅
  | some cm => b.foldWorkloadPeers now provider
      (foldPartials cm.data podName (periodKey provider.budget.period now) provider.uid)

/-- `fold`, on what the read of each ConfigMap returned. -/
def fold (b : BudgetLedger) (now : Time) (podName : String) (read : String → Option ConfigMap)
    (provider : ModelProvider) : BudgetLedger :=
  match read (budgetConfigMapName provider.name) with
  | none => b.foldPeers now provider ∅
  | some cm => (b.foldPeers now provider
      (foldPartials cm.data podName
        (periodKey provider.budget.period now) provider.uid)).foldWorkloads
        now podName read provider

/-- The part of a tick for one provider. -/
def tickProvider (now : Time) (podName : String) (read : String → Option ConfigMap)
    (b : BudgetLedger) (provider : ModelProvider) : BudgetLedger :=
  if periodKey provider.budget.period now = "" then b
  else (b.publish now provider).fold now podName read provider

/-- A tick over the providers the API lists. -/
def tick (b : BudgetLedger) (now : Time) (podName : String) (read : String → Option ConfigMap)
    (providers : List ModelProvider) : BudgetLedger :=
  providers.foldl (tickProvider now podName read) b

end BudgetLedger

/-- The provider's ledger is clean and fresh, and no admission within the staleness window is
refused for lack of verified budget state. -/
structure Recovered (p : ModelProvider) (now : Time) (b : BudgetLedger) : Prop where
  signals : ∃ l, b.boundLedger p = some l ∧ l.dirtySince = none ∧ l.lastFoldOK = some now
  admits : ∀ t ns workload, t - now ≤ b.stalenessWindow →
    (b.admitRequest t p ns workload).2.1.unavailable = false

/-- The provider's ledger has a raised signal and nothing to publish. -/
def BudgetLedger.Stuck (b : BudgetLedger) (p : ModelProvider) : Prop :=
  ∃ l, b.boundLedger p = some l ∧ l.dirtySince ≠ none ∧ l.own = ∅

instance (b : BudgetLedger) (p : ModelProvider) : Decidable (b.Stuck p) :=
  decidable_of_iff ((b.boundLedger p).any fun l ↦ l.dirtySince ≠ none ∧ l.own = ∅) (by
    simp only [Option.any_eq_true, decide_eq_true_eq, BudgetLedger.Stuck])

/-! ## The signal is never in the future -/

/-- The time of the oldest unpublished cost has passed. -/
def System.SignalsPast (s : System) : Prop :=
  ∀ n l, s.ledger.providers.lookup n = some l → ∀ d ∈ l.dirtySince, d ≤ s.now

theorem System.now_le_exec {s t : System} {op : Op} {out : Output} (h : s.exec op = some (t, out)) :
    s.now ≤ t.now := by
  by_cases hclock : ∃ nanos, op = .advance nanos
  · obtain ⟨nanos, rfl⟩ := hclock
    cases h
    exact le_add_of_nonneg_right (Int.natCast_nonneg nanos)
  · exact (System.exec_now (not_exists.mp hclock) h).ge

namespace System.SignalsPast

variable {s t : System} {op : Op} {out : Output}

theorem init (window start : Time) : (System.init window start).SignalsPast := nofun

theorem exec (hpast : s.SignalsPast) (h : s.exec op = some (t, out)) : t.SignalsPast := by
  have hnow := System.now_le_exec h
  intro n l hl d hd
  refine le_trans ?_ hnow
  have heffect := System.exec_effect h
  generalize t.ledger = b at heffect hl
  cases heffect with
  | same hreach => exact hpast n l hl d hd
  | critical name uid scheme hop hreach =>
    by_cases hlive : uid ∈ s.ledger.superseded
    · rw [BudgetLedger.withLedger_of_superseded hlive] at hl
      exact hpast n l hl d hd
    by_cases hn : n = name
    · subst hn
      rw [BudgetLedger.lookup_withLedger_self hlive, Option.some.injEq] at hl
      rw [← hl, Op.write_dirtySince _ hreach] at hd
      have hstart : ∀ d ∈ (s.ledger.liveLedger s.now n uid scheme).dirtySince, d ≤ s.now := by
        intro d hd
        rw [BudgetLedger.liveLedger_signals.1] at hd
        obtain ⟨l', hl', hd⟩ := Option.bind_eq_some_iff.mp hd
        exact hpast n l' (BudgetLedger.boundTo_eq_some.mp hl').1 d hd
      split_ifs at hd with hcost
      · exact hstart d hd
      · rw [Option.mem_some_iff] at hd
        rw [← hd]
        cases hdirty : (s.ledger.liveLedger s.now n uid scheme).dirtySince with
        | none => exact le_rfl
        | some d' => exact hstart d' hdirty
    · rw [BudgetLedger.lookup_withLedger_of_ne hn] at hl
      exact hpast n l hl d hd
  | published p snapshot l' hop hbound =>
    rw [BudgetLedger.lookup_store] at hl
    by_cases hn : n = p.name
    · rw [if_pos hn, Option.some.injEq] at hl
      rw [← hl, ProviderLedger.published] at hd
      split_ifs at hd
      · cases hd
      · exact hpast n l' (hn ▸ (BudgetLedger.boundLedger_eq_some.mp hbound).1) d hd
    · rw [if_neg hn] at hl
      exact hpast n l hl d hd
  | replicas count hop => exact hpast n l hl d hd

end System.SignalsPast

/-! ## One provider's part of a tick -/

section Tick

variable {nameOf : String → String} {s : System} {p p' : ModelProvider}

/-- A state that carries the ledger a part of the tick leaves, with what that part does to the
ledger of `p`: nothing under another name, and `p` is superseded afterwards if it was before. -/
structure TickFrame (nameOf : String → String) (p : ModelProvider) (same : Prop) (s t : System) :
    Prop where
  slots : SlotInv nameOf t
  now : t.now = s.now
  window : t.ledger.stalenessWindow = s.ledger.stalenessWindow
  superseded : p.uid ∈ t.ledger.superseded ↔ p.uid ∈ s.ledger.superseded
  lookup : ¬ same → t.ledger.providers.lookup p.name = s.ledger.providers.lookup p.name

theorem TickFrame.refl (hinv : SlotInv nameOf s) (same : Prop) : TickFrame nameOf p same s s :=
  ⟨hinv, rfl, rfl, Iff.rfl, fun _ ↦ rfl⟩

theorem TickFrame.trans {same : Prop} {t u : System} (h : TickFrame nameOf p same s t)
    (h' : TickFrame nameOf p same t u) : TickFrame nameOf p same s u :=
  ⟨h'.slots, h'.now.trans h.now, h'.window.trans h.window, h'.superseded.trans h.superseded,
    fun hne ↦ (h'.lookup hne).trans (h.lookup hne)⟩

/-- A fold of `p'`. -/
theorem TickFrame.withLedger {f : ProviderLedger → ProviderLedger × Unit} (hinv : SlotInv nameOf s)
    (hname : nameOf p.uid = p.name) (hname' : nameOf p'.uid = p'.name)
    (hsame : p'.name = p.name → p' = p)
    (hf : ∀ l : ProviderLedger, l.SlotsKept (f l).1) :
    TickFrame nameOf p (p' = p) s
      (s.update (s.ledger.withLedger s.now p'.name p'.uid p'.budget.period f).1) := by
  refine ⟨hinv.withLedger hname' hf, rfl, BudgetLedger.stalenessWindow_withLedger, ?_, fun hne ↦ ?_⟩
  · refine BudgetLedger.mem_superseded_withLedger ?_
    by_cases hpp : p' = p
    · exact Or.inl (by rw [hpp])
    · refine Or.inr fun l hl huid ↦ hpp (hsame ?_)
      rw [← hinv.bound_name _ l hl, huid, hname]
  · exact BudgetLedger.lookup_withLedger_of_ne fun h ↦ hne (hsame h.symm)

theorem TickFrame.markPublished (hinv : SlotInv nameOf s) (hsame : p'.name = p.name → p' = p)
    (snapshot : Time) :
    TickFrame nameOf p (p' = p) s (s.update (s.ledger.markPublished p' snapshot)) := by
  refine ⟨hinv.markPublished p' snapshot, rfl, ?_, ?_, fun hne ↦ ?_⟩
  · simp only [System.update, BudgetLedger.markPublished]
    split <;> rfl
  · simp only [System.update, BudgetLedger.markPublished]
    split <;> rfl
  · simp only [System.update, BudgetLedger.markPublished]
    split
    · rfl
    · exact AList.lookup_insert_ne fun h ↦ hne (hsame h.symm)

/-- The part of a tick for `p'`. -/
theorem TickFrame.tickProvider (podName : String) (read : String → Option ConfigMap)
    (hinv : SlotInv nameOf s) (hname : nameOf p.uid = p.name) (hname' : nameOf p'.uid = p'.name)
    (hsame : p'.name = p.name → p' = p) :
    ∃ t, TickFrame nameOf p (p' = p) s t
      ∧ t.ledger = BudgetLedger.tickProvider s.now podName read s.ledger p' := by
  rw [BudgetLedger.tickProvider]
  by_cases hskip : periodKey p'.budget.period s.now = ""
  · exact ⟨s, .refl hinv _, (if_pos hskip).symm⟩
  rw [if_neg hskip]
  obtain ⟨t₁, h₁, hledger₁⟩ : ∃ t, TickFrame nameOf p (p' = p) s t
      ∧ t.ledger = s.ledger.publish s.now p' := by
    rw [BudgetLedger.publish]
    cases s.ledger.ownPartial p' with
    | none => exact ⟨s, .refl hinv _, rfl⟩
    | some out => exact ⟨_, .markPublished hinv hsame s.now, rfl⟩
  have hpeers : ∀ peers, TickFrame nameOf p (p' = p) s
      (t₁.update (t₁.ledger.foldPeers s.now p' peers)) := by
    intro peers
    rw [← h₁.now]
    exact h₁.trans (.withLedger h₁.slots hname hname' hsame fun l ↦ ⟨rfl, rfl, rfl, rfl⟩)
  rw [← hledger₁, BudgetLedger.fold]
  cases read (budgetConfigMapName p'.name) with
  | none => exact ⟨_, hpeers ∅, rfl⟩
  | some cm =>
    simp only
    set peers := foldPartials cm.data podName (periodKey p'.budget.period s.now) p'.uid
    have hworkloads : ∀ peersW, TickFrame nameOf p (p' = p) s
        ((t₁.update (t₁.ledger.foldPeers s.now p' peers)).update
          ((t₁.ledger.foldPeers s.now p' peers).foldWorkloadPeers s.now p' peersW)) := by
      intro peersW
      have hnow : (t₁.update (t₁.ledger.foldPeers s.now p' peers)).now = s.now := (hpeers peers).now
      nth_rewrite 3 [← hnow]
      exact (hpeers peers).trans
        (.withLedger (hpeers peers).slots hname hname' hsame fun l ↦ ⟨rfl, rfl, rfl, rfl⟩)
    rw [BudgetLedger.foldWorkloads]
    cases read (agentSpendConfigMapName p'.name) with
    | none => exact ⟨_, hworkloads ∅, rfl⟩
    | some cm' => exact ⟨_, hworkloads _, rfl⟩

/-- The parts of a tick for other providers. -/
theorem TickFrame.tick (podName : String) (read : String → Option ConfigMap)
    {providers : List ModelProvider} (hinv : SlotInv nameOf s) (hname : nameOf p.uid = p.name)
    (hothers : ∀ p' ∈ providers, nameOf p'.uid = p'.name ∧ p'.name ≠ p.name) :
    ∃ t, TickFrame nameOf p False s t
      ∧ t.ledger = s.ledger.tick s.now podName read providers := by
  induction providers generalizing s with
  | nil => exact ⟨s, .refl hinv _, rfl⟩
  | cons p' providers ih =>
    obtain ⟨hname', hne⟩ := hothers p' List.mem_cons_self
    obtain ⟨t, ht, hledger⟩ := TickFrame.tickProvider podName read hinv hname
      hname' fun h ↦ absurd h hne
    obtain ⟨u, hu, hledger'⟩ := ih ht.slots fun q hq ↦ hothers q (List.mem_cons_of_mem _ hq)
    have hpp : p' ≠ p := fun h ↦ hne (by rw [h])
    refine ⟨u, .trans ⟨ht.slots, ht.now, ht.window, ht.superseded, fun _ ↦ ht.lookup hpp⟩ hu, ?_⟩
    rw [hledger', hledger, ht.now, BudgetLedger.tick, BudgetLedger.tick, List.foldl_cons]

end Tick

/-! ## The two signals after a tick -/

namespace BudgetLedger

variable {b : BudgetLedger} {now : Time} {p : ModelProvider} {podName : String}
  {read : String → Option ConfigMap}

theorem boundLedger_congr {b' : BudgetLedger}
    (h : b'.providers.lookup p.name = b.providers.lookup p.name) :
    b'.boundLedger p = b.boundLedger p := by
  simp only [boundLedger, boundTo, h]

theorem superseded_publish : (b.publish now p).superseded = b.superseded := by
  rw [publish]
  cases b.ownPartial p with
  | none => rfl
  | some out =>
    simp only [markPublished]
    split <;> rfl

theorem boundLedger_withLedger {f : ProviderLedger → ProviderLedger × Unit}
    (hlive : p.uid ∉ b.superseded) (hf : ∀ l, (f l).1.uid = l.uid) :
    (b.withLedger now p.name p.uid p.budget.period f).1.boundLedger p
      = some (f (b.liveLedger now p.name p.uid p.budget.period)).1 :=
  boundLedger_eq_some.mpr ⟨lookup_withLedger_self hlive, (hf _).trans liveLedger_uid⟩

/-- A fold leaves the write-path signal as it is and stamps the read path. -/
theorem boundLedger_fold (hlive : p.uid ∉ b.superseded) :
    ∃ l, (b.fold now podName read p).boundLedger p = some l
      ∧ l.dirtySince = (b.boundLedger p).bind (·.dirtySince) ∧ l.lastFoldOK = some now := by
  have hpeers : ∀ peers, ∃ l, (b.foldPeers now p peers).boundLedger p = some l
      ∧ l.dirtySince = (b.boundLedger p).bind (·.dirtySince) ∧ l.lastFoldOK = some now :=
    fun peers ↦ ⟨_, boundLedger_withLedger hlive fun _ ↦ rfl, liveLedger_signals.1, rfl⟩
  rw [fold]
  cases read (budgetConfigMapName p.name) with
  | none => exact hpeers ∅
  | some cm =>
    simp only
    obtain ⟨l, hl, hdirty, hfold⟩ :=
      hpeers (foldPartials cm.data podName (periodKey p.budget.period now) p.uid)
    set b' := b.foldPeers now p (foldPartials cm.data podName (periodKey p.budget.period now) p.uid)
      with hb'
    have hlive' : p.uid ∉ b'.superseded := by
      rw [hb', foldPeers, mem_superseded_withLedger (Or.inl rfl)]
      exact hlive
    have hworkloads : ∀ peersW, ∃ l, (b'.foldWorkloadPeers now p peersW).boundLedger p = some l
        ∧ l.dirtySince = (b.boundLedger p).bind (·.dirtySince) ∧ l.lastFoldOK = some now := by
      intro peersW
      have hl' : b'.boundTo p.name p.uid = some l := hl
      refine ⟨_, boundLedger_withLedger hlive' fun _ ↦ rfl, ?_, ?_⟩
      · rw [← hdirty]
        exact (liveLedger_signals.1).trans (by rw [hl']; rfl)
      · exact (liveLedger_signals.2).trans (by rw [hl']; exact hfold)
    rw [foldWorkloads]
    cases read (agentSpendConfigMapName p.name) with
    | none => exact hworkloads ∅
    | some cm' => exact hworkloads _

/-- A publish that succeeds clears the signal, unless there was nothing to publish. -/
theorem dirtySince_publish (hpast : ∀ l, b.boundLedger p = some l → ∀ d ∈ l.dirtySince, d ≤ now) :
    ((b.publish now p).boundLedger p).bind (·.dirtySince) = none ↔ ¬ b.Stuck p := by
  rw [publish, ownPartial]
  cases hl : b.boundLedger p with
  | none =>
    simp only [hl, Option.bind_none, true_iff]
    rintro ⟨l, hl', -⟩
    rw [hl] at hl'
    cases hl'
  | some l =>
    simp only
    by_cases hown : l.own = ∅
    · simp only [if_pos hown, hl, Option.bind_some]
      constructor
      · rintro hclean ⟨l', hl', hdirty, -⟩
        rw [hl, Option.some.injEq] at hl'
        exact hdirty (hl' ▸ hclean)
      · intro hstuck
        by_contra hdirty
        exact hstuck ⟨l, hl, hdirty, hown⟩
    · have hmarked : (b.markPublished p now).boundLedger p = some (l.published now) := by
        rw [markPublished, hl]
        exact boundLedger_eq_some.mpr ⟨AList.lookup_insert _,
          (l.published_frame now).1.trans (boundLedger_eq_some.mp hl).2⟩
      simp only [if_neg hown, hmarked, Option.bind_some]
      constructor
      · rintro - ⟨l', hl', -, hempty⟩
        rw [hl, Option.some.injEq] at hl'
        exact hown (hl' ▸ hempty)
      · intro _
        rw [ProviderLedger.published]
        cases hdirty : l.dirtySince with
        | none =>
          split_ifs
          · rfl
          · exact hdirty
        | some d => rw [Option.any_some, if_pos (decide_eq_true (hpast l hl d hdirty))]

end BudgetLedger

/-- Clean and fresh signals keep admission open for the staleness window. -/
theorem recovered_of_signals {p : ModelProvider} {now : Time} {b : BudgetLedger}
    {l : ProviderLedger}
    (hlive : p.uid ∉ b.superseded) (hl : b.boundLedger p = some l) (hclean : l.dirtySince = none)
    (hfresh : l.lastFoldOK = some now) : Recovered p now b := by
  refine ⟨⟨l, hl, hclean, hfresh⟩, fun t ns workload hwindow ↦ ?_⟩
  rw [BudgetLedger.admitRequest]
  by_cases hskip : periodKey p.budget.period t = "" ∨ p.budget.policies = []
  · rw [if_pos hskip]
  rw [if_neg hskip, BudgetLedger.withLedger_of_live hlive, ← Bool.not_eq_true]
  intro hunavailable
  have hl' : b.boundTo p.name p.uid = some l := hl
  rcases admitLocked_unavailable hunavailable with hwrite | hread
  · rw [ProviderLedger.writePathStale, BudgetLedger.liveLedger_signals.1, hl', Option.bind_some,
      hclean] at hwrite
    cases hwrite
  · rw [ProviderLedger.readPathStale, BudgetLedger.liveLedger_signals.2, hl', Option.bind_some,
      hfresh, Option.all_some, decide_eq_true_iff] at hread
    exact absurd hread (not_lt.mpr hwindow)

theorem System.SignalsPast.runs {nameOf : String → String} {s s' : System} {ops : List Op}
    (hrun : Run.Runs (System.step nameOf) s ops s') (hpast : s.SignalsPast) : s'.SignalsPast :=
  hrun.invariant (fun _ _ _ hpast hs ↦
    have ⟨_, _, hexec⟩ := System.step_eq_some.mp hs
    hpast.exec hexec) hpast

/-- **When a tick recovers.** From every reachable state and for every budgeted provider the API
lists: one tick in which every API call succeeds leaves the write-path signal clear, the read path
stamped and admission open, exactly when the provider's incarnation is not superseded and its ledger
is not stuck, that is when a raised signal comes with spend to publish. -/
theorem tick_recovers_iff (nameOf : String → String) (window start : Time) (ops : List Op)
    (s : System) (hrun : Run.Runs (System.step nameOf) (System.init window start) ops s)
    (podName : String) (read : String → Option ConfigMap) (providers : List ModelProvider)
    (hnames : (providers.map (·.name)).Nodup) (hlisted : ∀ q ∈ providers, nameOf q.uid = q.name)
    (p : ModelProvider) (hp : p ∈ providers) (hbudget : p.budget.period ≠ .none) :
    Recovered p s.now (s.ledger.tick s.now podName read providers)
      ↔ p.uid ∉ s.ledger.superseded ∧ ¬ s.ledger.Stuck p := by
  have hinv := SlotInv.runs hrun (SlotInv.init window start)
  have hpast := System.SignalsPast.runs hrun (System.SignalsPast.init window start)
  have hname := hlisted p hp
  obtain ⟨before, after, rfl⟩ := List.append_of_mem hp
  obtain ⟨hbefore, hafter⟩ :
      (∀ q ∈ before, q.name ≠ p.name) ∧ ∀ q ∈ after, q.name ≠ p.name := by
    rw [List.map_append, List.map_cons, List.nodup_append, List.nodup_cons] at hnames
    refine ⟨fun q hq ↦ hnames.2.2 _ (List.mem_map_of_mem hq) _ List.mem_cons_self, fun q hq h ↦ ?_⟩
    exact hnames.2.1.1 (h ▸ List.mem_map_of_mem hq)
  -- The tick is the providers listed before `p`, `p` itself, and the ones after it.
  obtain ⟨s₁, h₁, hledger₁⟩ := TickFrame.tick podName read hinv hname
    fun q hq ↦ ⟨hlisted q (List.mem_append_left _ hq), hbefore q hq⟩
  obtain ⟨s₂, h₂, hledger₂⟩ := TickFrame.tickProvider podName read h₁.slots
    hname hname fun _ ↦ rfl
  obtain ⟨s₃, h₃, hledger₃⟩ := TickFrame.tick podName read h₂.slots hname
    fun q hq ↦ ⟨hlisted q (List.mem_append_right _ (List.mem_cons_of_mem _ hq)), hafter q hq⟩
  have hledger : s₃.ledger = s.ledger.tick s.now podName read (before ++ p :: after) := by
    rw [hledger₃, hledger₂, h₂.now, hledger₁, h₁.now, BudgetLedger.tick, BudgetLedger.tick,
      BudgetLedger.tick, List.foldl_append, List.foldl_cons]
  rw [← hledger]
  have hsup : p.uid ∈ s₃.ledger.superseded ↔ p.uid ∈ s.ledger.superseded :=
    h₃.superseded.trans (h₂.superseded.trans h₁.superseded)
  by_cases hlive : p.uid ∈ s.ledger.superseded
  · -- No ledger is bound to a superseded incarnation.
    refine iff_of_false (fun hrec ↦ ?_) fun h ↦ h.1 hlive
    obtain ⟨l, hl, -⟩ := hrec.signals
    obtain ⟨hlookup, huid⟩ := BudgetLedger.boundLedger_eq_some.mp hl
    exact h₃.slots.bound_live _ l hlookup (huid ▸ hsup.mpr hlive)
  have hbound₁ : s₁.ledger.boundLedger p = s.ledger.boundLedger p :=
    BudgetLedger.boundLedger_congr (h₁.lookup not_false)
  have hbound₃ : s₃.ledger.boundLedger p = s₂.ledger.boundLedger p :=
    BudgetLedger.boundLedger_congr (h₃.lookup not_false)
  have hpublish : ((s₁.ledger.publish s₁.now p).boundLedger p).bind (·.dirtySince) = none
      ↔ ¬ s.ledger.Stuck p := by
    rw [BudgetLedger.dirtySince_publish, BudgetLedger.Stuck, BudgetLedger.Stuck, hbound₁]
    intro l hl d hd
    rw [hbound₁] at hl
    rw [h₁.now]
    exact hpast _ l (BudgetLedger.boundLedger_eq_some.mp hl).1 d hd
  obtain ⟨l, hl, hdirty, hfold⟩ : ∃ l, s₃.ledger.boundLedger p = some l
      ∧ l.dirtySince = ((s₁.ledger.publish s₁.now p).boundLedger p).bind (·.dirtySince)
      ∧ l.lastFoldOK = some s.now := by
    rw [hbound₃, hledger₂, BudgetLedger.tickProvider,
      if_neg (periodKey_eq_empty_iff.not.mpr hbudget), ← h₁.now]
    refine BudgetLedger.boundLedger_fold ?_
    rw [BudgetLedger.superseded_publish, h₁.superseded]
    exact hlive
  constructor
  · intro hrec
    obtain ⟨l', hl', hclean, -⟩ := hrec.signals
    rw [hl, Option.some.injEq] at hl'
    exact ⟨hlive, hpublish.mp (hdirty ▸ hl' ▸ hclean)⟩
  · rintro ⟨-, hstuck⟩
    exact recovered_of_signals (hsup.not.mpr hlive) hl (hdirty.trans (hpublish.mpr hstuck)) hfold

/-- Spend of this month is published, and the provider recovers. -/
theorem tick_recovers_unpublished_spend :
    ∃ s, Run.Runs (System.step fun _ ↦ "openai") (System.init (30 * second) 0)
        [.add hardProvider "team-a" "agent/x" 70, .advance 60000000000] s
      ∧ Recovered hardProvider s.now
        (s.ledger.tick s.now "gw-1" (fun _ ↦ none) [hardProvider]) := by
  obtain ⟨s, hs, hview⟩ := Option.map_eq_some_iff.mp (show
    (List.foldlM (System.step fun _ ↦ "openai") (System.init (30 * second) 0)
      [.add hardProvider "team-a" "agent/x" 70, .advance 60000000000]).map (fun s ↦
        decide ("uid-1" ∉ s.ledger.superseded ∧ ¬ s.ledger.Stuck hardProvider)) = some true
    by decide +kernel)
  exact ⟨s, hs, (tick_recovers_iff (fun _ ↦ "openai") _ _ _ s hs "gw-1" (fun _ ↦ none)
    [hardProvider] (by decide) (by decide) hardProvider (by decide) (by decide)).mpr
      (of_decide_eq_true hview)⟩

/-- A peer has published 96 USD in the second month. -/
def februarySpend (name : String) : Option ConfigMap :=
  if name = "kaalm-budget-openai" then some
    { data := AList.ofEntries
        [⟨"gw-2", "\x7b\"period\":\"1970-02\",\"team-a\":\"96.00\"\x7d"⟩]
      label := "budget" }
  else none

/-- Spend of January is not published before a call in February rolls the ledger over. A tick finds
nothing to publish, so the signal of January stays, and with a peer's 96 USD in the new month every
boundary admission is refused although the tick has just succeeded. -/
theorem tick_keeps_signal_after_rollover :
    ∃ s, Run.Runs (System.step fun _ ↦ "openai") (System.init (30 * second) 0)
        [.add hardProvider "team-a" "agent/x" 70, .advance (31 * 86400000000000),
          .enforce hardProvider "team-a"] s
      ∧ let ticked := s.ledger.tick s.now "gw-1" februarySpend [hardProvider]
        (ticked.boundLedger hardProvider).map (fun l ↦ (l.dirtySince, l.lastFoldOK))
            = some (some 0, some s.now)
          ∧ (ticked.admitRequest s.now hardProvider "team-a" "agent/x").2.1.unavailable = true := by
  obtain ⟨s, hs, hview⟩ := Option.map_eq_some_iff.mp (show
    (List.foldlM (System.step fun _ ↦ "openai") (System.init (30 * second) 0)
      [.add hardProvider "team-a" "agent/x" 70, .advance (31 * 86400000000000),
        .enforce hardProvider "team-a"]).map (fun s ↦
          let ticked := s.ledger.tick s.now "gw-1" februarySpend [hardProvider]
          decide ((ticked.boundLedger hardProvider).map (fun l ↦ (l.dirtySince, l.lastFoldOK))
              = some (some 0, some s.now)
            ∧ (ticked.admitRequest s.now hardProvider "team-a" "agent/x").2.1.unavailable = true))
      = some true by decide +kernel)
  exact ⟨s, hs, of_decide_eq_true hview⟩

end Kaalm
