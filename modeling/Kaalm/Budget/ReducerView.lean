import Kaalm.Budget.Reducer

/-!
# A reducer pass preserves the enforcement view

The gateway's fold and the reducer's fold were written apart and classify the same keys by period,
liveness, UID tag and parse success. A pass deletes keys, merges others into `_retired` and rewrites
the reconciler's own, yet no live replica sees a difference, and the roll-up it writes is what each
of them counts.

## The argument

Everything is a sum of contributions over keys. At every key that is not reserved a pass leaves the
contribution of a live replica and nothing for any other (`contributionAt_foldBudgetKeys_data`); at
`_retired` it leaves the whole retired sum (`contributionAt_reducedData_retired`), through a rewrite
that is exact because the amounts have at most two fraction digits.
-/

namespace Kaalm

open Decimal

/-- Every amount a fold can read has at most two fraction digits. -/
def AmountsInCents (data : GoMap String String) : Prop :=
  ∀ e ∈ data.entries, ¬ (e.1 = canonicalKey ∨ e.1 = previousKey) →
    ∀ q ∈ parseBudgetPartial e.2, ∀ a ∈ q.spend.entries, IsCents a.2

instance (data : GoMap String String) : Decidable (AmountsInCents data) :=
  inferInstanceAs (Decidable (∀ e ∈ data.entries, ¬ (e.1 = canonicalKey ∨ e.1 = previousKey) →
    ∀ q ∈ parseBudgetPartial e.2, ∀ a ∈ q.spend.entries, IsCents a.2))

/-- Read a roll-up; texts that are no amounts are skipped. -/
def parseAmounts (raw : String) : Option (GoMap String ℚ) :=
  (Json.unmarshal raw).map fun flat ↦ flat.entries.foldl (fun (m : GoMap String ℚ) e ↦
    match parseFloat e.2 with
    | some f => m.insert e.1 f
    | none => m) ∅

/-- The current-period partial of one replica. -/
def ownContribution (currentPeriod providerUID : String) (data : GoMap String String)
    (podName : String) : GoMap String ℚ :=
  (data.lookup podName).elim ∅ (contribution currentPeriod providerUID)

/-- What the ConfigMap counts for: the view that leaves out no replica. -/
def countedSpend (currentPeriod providerUID : String) (data : GoMap String String) :
    GoMap String ℚ :=
  foldPartials data canonicalKey currentPeriod providerUID

theorem amount_ownContribution (currentPeriod providerUID : String) (data : GoMap String String)
    (podName ns : String) :
    (ownContribution currentPeriod providerUID data podName).amount ns
      = contributionAt currentPeriod providerUID data ns podName := by
  rw [ownContribution, contributionAt]
  cases data.lookup podName <;> rfl

/-- A replica's key is none of the reconciler's. -/
theorem not_reserved_of_not_isFlag {k : String} (h : ¬ isFlag k) :
    k ≠ canonicalKey ∧ k ≠ previousKey ∧ k ≠ retiredKey := by
  refine ⟨?_, ?_, ?_⟩ <;> rintro rfl <;> exact h (by decide)

/-! ## Amount maps that survive the wire -/

/-- A map of namespaces to amounts that the codec keeps. -/
def Wired (m : GoMap String ℚ) : Prop :=
  ∀ ns v, m.lookup ns = some v → ns ≠ "period" ∧ ¬ isFlag ns ∧ IsCents v

theorem wired_empty : Wired ∅ := by
  intro ns v h
  cases h

theorem Wired.addAll {a b : GoMap String ℚ} (ha : Wired a) (hb : Wired b) : Wired (a.addAll b) := by
  intro ns v h
  have hsum : (a.addAll b).amount ns = a.amount ns + b.amount ns := AList.amount_addAll a b ns
  rw [AList.amount, AList.amount, AList.amount, h] at hsum
  cases hla : a.lookup ns with
  | none =>
    cases hlb : b.lookup ns with
    | none =>
      rw [hla, hlb] at hsum
      cases hsum
    | some w =>
      rw [hla, hlb] at hsum
      obtain rfl : v = w := by
        cases hsum
        rfl
      exact hb ns v hlb
  | some u =>
    cases hlb : b.lookup ns with
    | none =>
      rw [hla, hlb] at hsum
      obtain rfl : v = u := by
        cases hsum
        rfl
      exact ha ns v hla
    | some w =>
      rw [hla, hlb] at hsum
      obtain rfl : v = u + w := by
        cases hsum
        rfl
      exact ⟨(ha ns u hla).1, (ha ns u hla).2.1, (ha ns u hla).2.2.add (hb ns w hlb).2.2⟩

/-- Parsed spend has neither flags nor the period among its names. -/
theorem lookup_spend_of_parse {raw : String} {q : ParsedPartial}
    (h : parseBudgetPartial raw = some q) {ns : String} {v : ℚ} (hv : q.spend.lookup ns = some v) :
    ns ≠ "period" ∧ ¬ isFlag ns := by
  obtain ⟨flat, -, rfl⟩ := Option.map_eq_some_iff.mp h
  rw [(ParsedPartial.reads_foldl_field flat).spend] at hv
  split_ifs at hv with hns
  exact not_or.mp hns

theorem wired_ite_contribution {currentPeriod providerUID : String} {data : GoMap String String}
    (hcents : AmountsInCents data) {e : Sigma fun _ : String ↦ String} (he : e ∈ data.entries)
    {skip : Prop} [Decidable skip] (hreserved : e.1 = canonicalKey ∨ e.1 = previousKey → skip) :
    Wired (if skip then ∅ else contribution currentPeriod providerUID e.2) := by
  by_cases hskip : skip
  · rw [if_pos hskip]
    exact wired_empty
  rw [if_neg hskip]
  cases hq : parseBudgetPartial e.2 with
  | none =>
    rw [contribution_of_none hq]
    exact wired_empty
  | some q =>
    rw [contribution_of_some hq]
    split_ifs
    · exact wired_empty
    · intro ns v hv
      obtain ⟨hperiod, hflag⟩ := lookup_spend_of_parse hq hv
      exact ⟨hperiod, hflag, hcents e he (fun h ↦ hskip (hreserved h)) q hq ⟨ns, v⟩
        (AList.mem_lookup_iff.mp hv)⟩

theorem Wired.foldl_addAll {ι : Type} (l : List ι) (f : ι → GoMap String ℚ)
    (hf : ∀ i ∈ l, Wired (f i)) : Wired (l.foldl (fun acc i ↦ acc.addAll (f i)) ∅) := by
  induction l using List.reverseRecOn with
  | nil => exact wired_empty
  | append_singleton l i ih =>
    rw [List.foldl_append]
    exact (ih fun j hj ↦ hf j (List.mem_append_left _ hj)).addAll
      (hf i (List.mem_append_right _ List.mem_cons_self))

/-- Formatting to two digits and parsing back is exact on cents. -/
theorem bind_parseFloat_mapVal {m : GoMap String ℚ} (hm : Wired m) (ns : String) :
    ((m.mapVal formatFixed).lookup ns).bind parseFloat = m.lookup ns := by
  rw [AList.lookup_mapVal]
  cases hv : m.lookup ns with
  | none => rfl
  | some v =>
    rw [Option.map_some, Option.bind_some, parseFloat_formatFixed,
      roundCents_of_isCents (hm ns v hv).2.2]

/-- A partial of this period and provider that the folds count in full. -/
structure BudgetPartial.Counts (currentPeriod providerUID : String) (p : BudgetPartial) : Prop where
  period : p.period = currentPeriod
  tag : p.providerUID = providerUID
  names : ∀ ns ∈ p.spend, ns ≠ "period" ∧ ¬ isFlag ns

namespace BudgetPartial.Counts

variable {currentPeriod providerUID : String} {p : BudgetPartial}

theorem parse (h : p.Counts currentPeriod providerUID) :
    ∃ q, parseBudgetPartial p.marshalJSON = some q ∧ q.period = currentPeriod
      ∧ q.providerUID = providerUID
        ∧ ∀ ns, q.spend.lookup ns = (p.spend.lookup ns).bind parseFloat := by
  have hperiod : p.spend.lookup "period" = none :=
    AList.lookup_eq_none.mpr fun hmem ↦ (h.names "period" hmem).1 rfl
  obtain ⟨q, hq, hqperiod, -, hquid, hqspend⟩ :=
    parseBudgetPartial_marshalJSON p fun k hk ↦ (h.names k hk).2
  refine ⟨q, hq, ?_, hquid.trans h.tag, fun ns ↦ ?_⟩
  · rw [hqperiod, hperiod, Option.getD_none, h.period]
  · rw [hqspend]
    split_ifs with hns
    · rw [hns, hperiod, Option.bind_none]
    · rfl

theorem lookup_contribution (h : p.Counts currentPeriod providerUID) (ns : String) :
    (contribution currentPeriod providerUID p.marshalJSON).lookup ns
      = (p.spend.lookup ns).bind parseFloat := by
  obtain ⟨q, hq, hperiod, huid, hspend⟩ := h.parse
  rw [contribution_of_some hq, if_neg, hspend]
  rintro (h | ⟨-, h⟩)
  exacts [h hperiod, h huid]

end BudgetPartial.Counts

theorem counts_retiredPartial {currentPeriod providerUID : String} {m : GoMap String ℚ}
    (hm : Wired m) :
    (retiredPartial currentPeriod m providerUID).Counts currentPeriod providerUID := by
  refine ⟨rfl, rfl, fun ns hns ↦ ?_⟩
  obtain ⟨v, hv⟩ := AList.exists_lookup_of_mem (AList.mem_mapVal.mp hns)
  exact ⟨(hm ns v hv).1, (hm ns v hv).2.1⟩

/-- Reading back a roll-up gives its amounts. -/
theorem parseAmounts_marshalAmounts {m : GoMap String ℚ} (hm : Wired m) :
    ∃ m', parseAmounts (marshalAmounts m) = some m' ∧ ∀ ns, m'.lookup ns = m.lookup ns := by
  obtain ⟨flat, hflat, hlookup⟩ := Json.unmarshal_marshal (m.mapVal formatFixed)
  have hloop : ∀ (l : List (Sigma fun _ : String ↦ String)) (acc : GoMap String ℚ) (ns : String),
      l.NodupKeys → (l.foldl (fun (m : GoMap String ℚ) e ↦
        match parseFloat e.2 with
        | some f => m.insert e.1 f
        | none => m) acc).lookup ns = ((l.dlookup ns).bind parseFloat).or (acc.lookup ns) := by
    intro l
    induction l with
    | nil => exact fun _ _ _ ↦ rfl
    | cons e l ih =>
      intro acc ns h
      obtain ⟨k, v⟩ := e
      rw [List.nodupKeys_cons] at h
      rw [List.foldl_cons, ih _ _ h.2]
      by_cases hk : ns = k
      · subst hk
        rw [List.dlookup_cons_eq, List.dlookup_eq_none.mpr h.1]
        cases hf : parseFloat v with
        | none => simp [hf]
        | some f => simp [hf]
      · rw [List.dlookup_cons_ne _ _ hk]
        cases parseFloat v with
        | none => rfl
        | some f => rw [AList.lookup_insert_ne hk]
  refine ⟨_, by rw [parseAmounts, marshalAmounts, hflat, Option.map_some], fun ns ↦ ?_⟩
  rw [hloop _ _ _ flat.nodupKeys, AList.lookup_empty, Option.or_none]
  exact (congrArg (Option.bind · parseFloat) (hlookup ns)).trans (bind_parseFloat_mapVal hm ns)

/-! ## What a pass leaves at each key -/

section Pass

variable {liveGateways : String → Bool} {currentPeriod providerUID : String}

/-- The walk leaves `_retired` and the keys of live replicas what they count for, and takes
everything from the others. -/
theorem contributionAt_foldBudgetKeys_data (data : GoMap String String) (ns : String) {k : String}
    (hcan : k ≠ canonicalKey) (hprev : k ≠ previousKey) :
    contributionAt currentPeriod providerUID
        (foldBudgetKeys data liveGateways currentPeriod providerUID).data ns k
      = if k ≠ retiredKey ∧ liveGateways k = false then 0
        else contributionAt currentPeriod providerUID data ns k := by
  rw [contributionAt, contributionAt, lookup_foldBudgetKeys_data]
  cases data.lookup k with
  | none => split_ifs <;> rfl
  | some raw =>
    cases hq : parseBudgetPartial raw with
    | none =>
      have hzero : (contribution currentPeriod providerUID raw).amount ns = 0 := by
        rw [contribution_of_none hq, AList.amount_empty]
      cases hdel : deletes liveGateways currentPeriod providerUID k raw <;>
        simp [Option.filter, hdel, hzero]
    | some q =>
      have hdel : deletes liveGateways currentPeriod providerUID k raw
          = decide ((q.period ≠ currentPeriod ∨ (q.providerUID ≠ "" ∧ q.providerUID ≠ providerUID))
            ∨ (k ≠ retiredKey ∧ liveGateways k = false)) := by
        simp [deletes, hcan, hprev, hq, Bool.or_comm]
      by_cases hforeign : q.period ≠ currentPeriod
          ∨ (q.providerUID ≠ "" ∧ q.providerUID ≠ providerUID)
      · have hzero : (contribution currentPeriod providerUID raw).amount ns = 0 := by
          rw [contribution_of_some hq, if_pos hforeign, AList.amount_empty]
        simp [Option.filter, hdel, hforeign, hzero]
      · by_cases hgone : k ≠ retiredKey ∧ liveGateways k = false
        · simp [Option.filter, hdel, hgone]
        · simp [Option.filter, hdel, hforeign, hgone]

/-- A key without a live replica whose spend does not move into `_retired` counts for nothing. -/
theorem contributionAt_of_not_retires (data : GoMap String String) (ns : String) {k : String}
    (hcan : k ≠ canonicalKey) (hprev : k ≠ previousKey) (hret : k ≠ retiredKey)
    (hlive : liveGateways k = false)
    (h : ∀ raw, data.lookup k = some raw →
      retires liveGateways currentPeriod providerUID k raw = false) :
    contributionAt currentPeriod providerUID data ns k = 0 := by
  rw [contributionAt]
  cases hraw : data.lookup k with
  | none => rfl
  | some raw =>
    have hmoves := h raw hraw
    rw [Option.elim_some]
    cases hq : parseBudgetPartial raw with
    | none => rw [contribution_of_none hq, AList.amount_empty]
    | some q =>
      have hforeign : q.period ≠ currentPeriod
          ∨ (q.providerUID ≠ "" ∧ q.providerUID ≠ providerUID) := by
        by_contra hown
        obtain ⟨hperiod, huid⟩ := not_or.mp hown
        simp [retires, hcan, hprev, hret, hlive, hq, not_not.mp hperiod] at hmoves
        exact huid hmoves
      rw [contribution_of_some hq, if_pos hforeign, AList.amount_empty]

/-! ## What a pass writes -/

theorem lookup_writeCanonical (data : GoMap String String) (current : GoMap String ℚ) (k : String) :
    (writeCanonical data current).1.lookup k
      = if k = canonicalKey then some (marshalAmounts current) else data.lookup k := by
  rw [writeCanonical]
  by_cases hsame : data.lookup canonicalKey = some (marshalAmounts current)
  · rw [if_neg (not_not.mpr hsame)]
    split_ifs with hk
    · rw [hk, hsame]
    · rfl
  · rw [if_pos hsame]
    exact AList.lookup_insert_ite _ _ _ _

theorem writeCanonical_of_not_changed {data : GoMap String String} {current : GoMap String ℚ}
    (h : (writeCanonical data current).2 = false) : (writeCanonical data current).1 = data := by
  rw [writeCanonical] at h ⊢
  split_ifs at h ⊢
  rfl

theorem lookup_writeArchive (codec : ArchiveCodec) (data : GoMap String String)
    (stale : GoMap String StalePartial) {k : String} (hprev : k ≠ previousKey) :
    (writeArchive codec data stale currentPeriod providerUID).1.lookup k = data.lookup k := by
  rw [writeArchive]
  split_ifs
  · split
    · exact AList.lookup_erase_ne hprev
    · exact AList.lookup_insert_ne hprev
  · rfl

theorem writeArchive_of_not_changed {codec : ArchiveCodec} {data : GoMap String String}
    {stale : GoMap String StalePartial}
    (h : (writeArchive codec data stale currentPeriod providerUID).2 = false) :
    (writeArchive codec data stale currentPeriod providerUID).1 = data := by
  rw [writeArchive] at h ⊢
  split_ifs at h ⊢
  · split at h <;> cases h
  · rfl

variable (codec : ArchiveCodec) (cm : ConfigMap)

/-- Outside the archive a pass leaves what the walk left, but for its own two writes. -/
theorem lookup_reducedData {k : String} (hprev : k ≠ previousKey) :
    (reducedData codec cm liveGateways currentPeriod providerUID).1.lookup k
      = if k = canonicalKey then
          some (marshalAmounts
            (foldBudgetKeys cm.data liveGateways currentPeriod providerUID).rollUp)
        else ((foldBudgetKeys cm.data liveGateways currentPeriod providerUID).writeRetired
          currentPeriod providerUID).lookup k := by
  rw [reducedData, lookup_writeArchive codec _ _ hprev, lookup_writeCanonical]

/-- A pass that reports no change would write what is stored already. -/
theorem reducedData_of_not_changed
    (h : (reducedData codec cm liveGateways currentPeriod providerUID).2 = false) :
    (reducedData codec cm liveGateways currentPeriod providerUID).1 = cm.data := by
  rw [reducedData] at h ⊢
  dsimp only at h ⊢
  rw [Bool.or_eq_false_iff, Bool.or_eq_false_iff, Bool.or_eq_false_iff] at h
  obtain ⟨⟨⟨hwalk, hretired⟩, hcanonical⟩, harchive⟩ := h
  rw [writeArchive_of_not_changed harchive, writeCanonical_of_not_changed hcanonical,
    BudgetFold.writeRetired, hretired]
  exact foldBudgetKeys_data_of_not_changed _ _ _ _ hwalk

/-- What the ConfigMap holds after a pass, whether or not it sent an update. -/
theorem data_reconcileBudget (hperiod : currentPeriod ≠ "") :
    ((reconcileBudget codec cm liveGateways currentPeriod providerUID).getD cm).data
      = (reducedData codec cm liveGateways currentPeriod providerUID).1 := by
  rw [reconcileBudget, if_neg hperiod]
  dsimp only
  split_ifs with hchanged
  · rfl
  · rw [Bool.not_eq_true, Bool.or_eq_false_iff] at hchanged
    exact (reducedData_of_not_changed codec cm hchanged.1).symm

variable {cm}

theorem wired_retired (hcents : AmountsInCents cm.data) :
    Wired (foldBudgetKeys cm.data liveGateways currentPeriod providerUID).retired := by
  rw [foldBudgetKeys_retired]
  exact Wired.foldl_addAll _ _ fun e he ↦ wired_ite_contribution hcents he (by tauto)

theorem wired_rollUp (hcents : AmountsInCents cm.data) :
    Wired (foldBudgetKeys cm.data liveGateways currentPeriod providerUID).rollUp := by
  refine Wired.addAll ?_ (wired_retired hcents)
  rw [foldBudgetKeys_current]
  exact Wired.foldl_addAll _ _ fun e he ↦ wired_ite_contribution hcents he (by tauto)

/-- After a pass `_retired` counts for the whole retired sum: it was rewritten, or nothing had to
move into it. -/
theorem contributionAt_writeRetired (hcents : AmountsInCents cm.data) (ns : String) :
    contributionAt currentPeriod providerUID
        ((foldBudgetKeys cm.data liveGateways currentPeriod providerUID).writeRetired
          currentPeriod providerUID) ns retiredKey
      = (foldBudgetKeys cm.data liveGateways currentPeriod providerUID).retired.amount ns := by
  have hcan : retiredKey ≠ canonicalKey := by decide
  have hprev : retiredKey ≠ previousKey := by decide
  rw [BudgetFold.writeRetired]
  split_ifs with hchanged
  · rw [contributionAt, AList.lookup_insert, Option.elim_some, AList.amount,
      (counts_retiredPartial (wired_retired hcents)).lookup_contribution ns]
    exact bind_parseFloat_mapVal (wired_retired hcents) ns
  · rw [contributionAt_foldBudgetKeys_data cm.data ns hcan hprev, if_neg fun h ↦ h.1 rfl]
    have hkeys : ∀ k ∈ cm.data, k ∈ (retiredKey :: cm.data.keys).toFinset := fun k hk ↦
      List.mem_toFinset.mpr (List.mem_cons_of_mem _ hk)
    have hstays : ∀ k raw, cm.data.lookup k = some raw →
        retires liveGateways currentPeriod providerUID k raw = false := by
      intro k raw hraw
      rw [foldBudgetKeys_retiredChanged, List.any_eq_true] at hchanged
      rw [← Bool.not_eq_true]
      exact fun hret ↦ hchanged ⟨⟨k, raw⟩, AList.mem_lookup_iff.mp hraw, hret⟩
    rw [amount_foldBudgetKeys_retired _ _ _ _ ns hkeys,
      Finset.sum_eq_single_of_mem retiredKey (List.mem_toFinset.mpr List.mem_cons_self)]
    · rw [if_neg (by simp [hcan, hprev])]
    · intro k _ hk
      split_ifs with hskip
      · rfl
      · simp only [not_or, not_and, Bool.not_eq_true] at hskip
        exact contributionAt_of_not_retires cm.data ns hskip.1 hskip.2.1 hk (hskip.2.2 hk)
          (hstays k)

/-- A pass keeps the partials of replicas that the walk does not delete. -/
theorem lookup_reducedData_replica {k : String} (hcan : k ≠ canonicalKey) (hprev : k ≠ previousKey)
    (hret : k ≠ retiredKey) :
    (reducedData codec cm liveGateways currentPeriod providerUID).1.lookup k
      = (cm.data.lookup k).filter fun raw ↦
        !deletes liveGateways currentPeriod providerUID k raw := by
  rw [lookup_reducedData codec cm hprev, if_neg hcan, BudgetFold.writeRetired,
    AList.lookup_ite_insert, if_neg fun h ↦ hret h.1, lookup_foldBudgetKeys_data]

/-- What a pass leaves at each key on the enforcement path. -/
theorem contributionAt_reducedData (hcents : AmountsInCents cm.data) (ns : String) {k : String}
    (hcan : k ≠ canonicalKey) (hprev : k ≠ previousKey) :
    contributionAt currentPeriod providerUID
        (reducedData codec cm liveGateways currentPeriod providerUID).1 ns k
      = if k = retiredKey then
          (foldBudgetKeys cm.data liveGateways currentPeriod providerUID).retired.amount ns
        else if liveGateways k = false then 0
        else contributionAt currentPeriod providerUID cm.data ns k := by
  by_cases hret : k = retiredKey
  · have hwrites : (reducedData codec cm liveGateways currentPeriod providerUID).1.lookup k
        = ((foldBudgetKeys cm.data liveGateways currentPeriod providerUID).writeRetired
            currentPeriod providerUID).lookup k := by
      rw [lookup_reducedData codec cm hprev, if_neg hcan]
    rw [contributionAt_congr hwrites, if_pos hret, hret]
    exact contributionAt_writeRetired hcents ns
  · have hwalk : (reducedData codec cm liveGateways currentPeriod providerUID).1.lookup k
        = (foldBudgetKeys cm.data liveGateways currentPeriod providerUID).data.lookup k := by
      rw [lookup_reducedData_replica codec hcan hprev hret, lookup_foldBudgetKeys_data]
    rw [if_neg hret, contributionAt_congr hwalk,
      contributionAt_foldBudgetKeys_data cm.data ns hcan hprev]
    simp only [hret, ne_eq, not_false_eq_true, true_and]

/-- The counted spend is any replica's own partial and its view of the others. -/
theorem amount_countedSpend (data : GoMap String String) (ns : String) {p : String}
    (hcan : p ≠ canonicalKey) (hprev : p ≠ previousKey) :
    (countedSpend currentPeriod providerUID data).amount ns
      = contributionAt currentPeriod providerUID data ns p
        + (foldPartials data p currentPeriod providerUID).amount ns := by
  have hkeys : ∀ k ∈ data, k ∈ (p :: data.keys).toFinset := fun k hk ↦
    List.mem_toFinset.mpr (List.mem_cons_of_mem _ hk)
  have hown : contributionAt currentPeriod providerUID data ns p
      = ∑ k ∈ (p :: data.keys).toFinset,
        if k = p then contributionAt currentPeriod providerUID data ns k else 0 := by
    rw [Finset.sum_ite_eq', if_pos (List.mem_toFinset.mpr List.mem_cons_self)]
  rw [countedSpend, hown, amount_foldPartials _ _ _ _ ns hkeys,
    amount_foldPartials _ _ _ p ns hkeys, ← Finset.sum_add_distrib]
  refine Finset.sum_congr rfl fun k _ ↦ ?_
  grind [add_zero, zero_add]

/-- The roll-up is the counted spend. -/
theorem amount_rollUp (ns : String) :
    (foldBudgetKeys cm.data liveGateways currentPeriod providerUID).rollUp.amount ns
      = (countedSpend currentPeriod providerUID cm.data).amount ns := by
  have hkeys : ∀ k ∈ cm.data, k ∈ cm.data.keys.toFinset := fun k hk ↦ List.mem_toFinset.mpr hk
  rw [BudgetFold.rollUp, AList.amount_addAll, amount_foldBudgetKeys_current _ _ _ _ ns hkeys,
    amount_foldBudgetKeys_retired _ _ _ _ ns hkeys, countedSpend,
    amount_foldPartials _ _ _ _ ns hkeys, ← Finset.sum_add_distrib]
  refine Finset.sum_congr rfl fun k _ ↦ ?_
  -- Each key stands on both sides once: a live replica's, a retired one, or none.
  grind [add_zero, zero_add]

/-- A pass moves spend between the keys of a live replica's view without changing its sum. The same
holds for the counted spend, which leaves out a key that the folds skip anyway. -/
theorem amount_foldPartials_reducedData (hcents : AmountsInCents cm.data) (ns : String) {p : String}
    (hlive : liveGateways p ∨ p = canonicalKey) (hret : p ≠ retiredKey) :
    (foldPartials (reducedData codec cm liveGateways currentPeriod providerUID).1 p currentPeriod
        providerUID).amount ns
      = (foldPartials cm.data p currentPeriod providerUID).amount ns := by
  set after := (reducedData codec cm liveGateways currentPeriod providerUID).1
  set R := (foldBudgetKeys cm.data liveGateways currentPeriod providerUID).retired.amount ns with hR
  set S := (retiredKey :: (cm.data.keys ++ after.keys)).toFinset
  have hkeys : ∀ k ∈ cm.data, k ∈ S := fun k hk ↦
    List.mem_toFinset.mpr (List.mem_cons_of_mem _ (List.mem_append_left _ hk))
  have hkeys' : ∀ k ∈ after, k ∈ S := fun k hk ↦
    List.mem_toFinset.mpr (List.mem_cons_of_mem _ (List.mem_append_right _ hk))
  have hterm : ∀ k, (if k = p ∨ k = canonicalKey ∨ k = previousKey then 0
        else contributionAt currentPeriod providerUID after ns k)
      = (if k = retiredKey then R else 0)
        + if k = p ∨ k = canonicalKey ∨ k = previousKey ∨ k = retiredKey ∨ liveGateways k = false
          then 0 else contributionAt currentPeriod providerUID cm.data ns k := by
    intro k
    have hcan : retiredKey ≠ canonicalKey := by decide
    have hprev : retiredKey ≠ previousKey := by decide
    have hleft : k ≠ canonicalKey → k ≠ previousKey →
        contributionAt currentPeriod providerUID after ns k = if k = retiredKey then R
          else if liveGateways k = false then 0
          else contributionAt currentPeriod providerUID cm.data ns k :=
      fun hkc hkv ↦ contributionAt_reducedData codec hcents ns hkc hkv
    grind [add_zero, zero_add]
  calc (foldPartials after p currentPeriod providerUID).amount ns
      = ∑ k ∈ S, ((if k = retiredKey then R else 0)
          + if k = p ∨ k = canonicalKey ∨ k = previousKey ∨ k = retiredKey ∨ liveGateways k = false
            then 0 else contributionAt currentPeriod providerUID cm.data ns k) := by
        rw [amount_foldPartials _ _ after p ns hkeys']
        exact Finset.sum_congr rfl fun k _ ↦ hterm k
    _ = R + ∑ k ∈ S,
          if k = p ∨ k = canonicalKey ∨ k = previousKey ∨ k = retiredKey ∨ liveGateways k = false
            then 0 else contributionAt currentPeriod providerUID cm.data ns k := by
        rw [Finset.sum_add_distrib, Finset.sum_ite_eq',
          if_pos (List.mem_toFinset.mpr List.mem_cons_self)]
    _ = (foldPartials cm.data p currentPeriod providerUID).amount ns := by
        rw [hR, amount_foldBudgetKeys_retired _ _ _ _ ns hkeys, ← Finset.sum_add_distrib,
          amount_foldPartials _ _ cm.data p ns hkeys]
        refine Finset.sum_congr rfl fun k _ ↦ ?_
        grind [add_zero, zero_add]

theorem amount_countedSpend_reducedData (hcents : AmountsInCents cm.data) (ns : String) :
    (countedSpend currentPeriod providerUID
        (reducedData codec cm liveGateways currentPeriod providerUID).1).amount ns
      = (countedSpend currentPeriod providerUID cm.data).amount ns :=
  amount_foldPartials_reducedData codec hcents ns (Or.inr rfl) (by decide)

/-- The roll-up a pass writes reads back as the counted spend. -/
theorem canonical_reducedData (hcents : AmountsInCents cm.data) :
    ∃ canonical,
      ((reducedData codec cm liveGateways currentPeriod providerUID).1.lookup canonicalKey).bind
        parseAmounts = some canonical ∧
      ∀ ns, canonical.amount ns = (countedSpend currentPeriod providerUID cm.data).amount ns := by
  have hwired : Wired (foldBudgetKeys cm.data liveGateways currentPeriod providerUID).rollUp :=
    wired_rollUp hcents
  obtain ⟨canonical, hparse, hlookup⟩ := parseAmounts_marshalAmounts hwired
  refine ⟨canonical, ?_, fun ns ↦ (hlookup ns).trans (amount_rollUp ns)⟩
  rw [lookup_reducedData codec cm (by decide), if_pos rfl, Option.bind_some]
  exact hparse

end Pass

/-- A reducer pass over any ConfigMap of amounts in cents leaves every live replica its enforcement
view, and the roll-up it leaves is, per namespace, the replica's own current-period partial plus
that view. -/
theorem reconcileBudget_preserves_view (codec : ArchiveCodec) (cm : ConfigMap)
    (liveGateways : String → Bool) (currentPeriod providerUID : String)
    (hcents : AmountsInCents cm.data) {p : String} (hlive : liveGateways p) (hname : ¬ isFlag p) :
    let after := (reconcileBudget codec cm liveGateways currentPeriod providerUID).getD cm
    (∀ ns, (foldPartials after.data p currentPeriod providerUID).lookup ns
      = (foldPartials cm.data p currentPeriod providerUID).lookup ns) ∧
    (currentPeriod ≠ "" → ∃ canonical,
      (after.data.lookup canonicalKey).bind parseAmounts = some canonical ∧
      ∀ ns, canonical.get ns = (ownContribution currentPeriod providerUID cm.data p).get ns
        + (foldPartials cm.data p currentPeriod providerUID).get ns) := by
  intro after
  obtain ⟨hcan, hprev, hret⟩ := not_reserved_of_not_isFlag hname
  by_cases hperiod : currentPeriod = ""
  · -- An unbudgeted provider has no pass.
    have hnone : reconcileBudget codec cm liveGateways currentPeriod providerUID = none :=
      if_pos hperiod
    refine ⟨fun ns ↦ ?_, fun h ↦ absurd hperiod h⟩
    simp only [after, hnone, Option.getD_none]
  have hdata : after.data = (reducedData codec cm liveGateways currentPeriod providerUID).1 :=
    data_reconcileBudget codec cm hperiod
  rw [hdata]
  refine ⟨fun ns ↦ amount_foldPartials_reducedData codec hcents ns (Or.inl hlive) hret, fun _ ↦ ?_⟩
  obtain ⟨canonical, hparse, hamount⟩ := canonical_reducedData codec hcents
  refine ⟨canonical, hparse, fun ns ↦ AList.get_eq_add_of_amount ?_⟩
  rw [hamount, amount_countedSpend _ ns hcan hprev, amount_ownContribution]

/-- A live replica `gw-1`, a live peer with spend of the last period, and a replica that is gone:
`gw-1` keeps counting the 7.25 USD of the gone replica and the 2 USD retired before it. -/
theorem reconcileBudget_preserves_view_of_gone_peer :
    let cm : ConfigMap :=
      { data := AList.ofEntries
          [⟨"gw-1", "\x7b\"period\":\"2026-03\",\"team-a\":\"40.50\"\x7d"⟩,
            ⟨"gw-2", "\x7b\"period\":\"2026-02\",\"team-a\":\"9.00\"\x7d"⟩,
            ⟨"gw-0", "\x7b\"period\":\"2026-03\",\"team-a\":\"7.25\"\x7d"⟩,
            ⟨"_retired", "\x7b\"period\":\"2026-03\",\"team-a\":\"2.00\"\x7d"⟩]
        label := "budget" }
    let live : String → Bool := fun k ↦ k = "gw-1" ∨ k = "gw-2"
    let after := (reconcileBudget ⟨fun _ ↦ "", fun _ ↦ none⟩ cm live "2026-03" "uid-1").getD cm
    (foldPartials after.data "gw-1" "2026-03" "uid-1").lookup "team-a" = some (37 / 4) ∧
    ∃ canonical, (after.data.lookup canonicalKey).bind parseAmounts = some canonical ∧
      canonical.get "team-a" = 199 / 4 := by
  intro cm live after
  obtain ⟨hview, hcanonical⟩ := reconcileBudget_preserves_view ⟨fun _ ↦ "", fun _ ↦ none⟩ cm live
    "2026-03" "uid-1" (by decide +kernel) (p := "gw-1") (by decide) (by decide)
  obtain ⟨canonical, hparse, hget⟩ := hcanonical (by decide)
  refine ⟨(hview "team-a").trans (by decide +kernel), canonical, hparse, ?_⟩
  rw [hget]
  decide +kernel

end Kaalm
