import Kaalm.Foundation.Run
import Kaalm.Budget.Exchange

/-!
# Replica replacement

Replicas come and go while the reducer runs. A Pod is created under a fresh name, publishes its
cumulative partial any number of times and is removed; a reconcile pass lists the gateway Pods,
reads the ConfigMap and sends an Update, which the API server accepts only if the ConfigMap has not
changed since the read. Several passes may be under way. All of this is one provider UID and one
period.

## Bookkeeping

`created` has every name ever used, `published` the last partial of every Pod that ever published,
and `updates` every accepted Update with the partials as they were at its read.

## The invariant

What the ConfigMap counts for is what was published (`Conserved.total`). A publish replaces the
partial on both sides, as long as a published key that is no longer in the ConfigMap belongs to a
Pod that is gone (`Conserved.gone`); a pass moves spend within the ConfigMap.

## The list is older than the read

A Pod that is created after a pass's list and publishes before its read looks like one that is gone:
the pass moves its partial into `_retired`, and its next publish brings the same spend again.
`Exchange.ListComplete` excludes this.
-/

namespace Kaalm

open Decimal

/-! ## The exchange -/

/-- How far a reconcile pass is. -/
inductive ReconcilePass
  | listed (live : Finset String)
  /-- The ConfigMap was read, in this version and with these partials published. -/
  | read (live : Finset String) (cm : ConfigMap) (version : ℕ)
      (published : GoMap String BudgetPartial)
  | done

structure Exchange where
  /-- The gateway Pods that exist. -/
  pods : Finset String := ∅
  created : Finset String := ∅
  cm : Option ConfigMap := none
  /-- The ConfigMap's resourceVersion. -/
  version : ℕ := 0
  passes : List ReconcilePass := []
  published : GoMap String BudgetPartial := ∅
  updates : List (ConfigMap × GoMap String BudgetPartial) := []

inductive ExchangeOp
  | createPod (pod : String)
  | publish (pod : String) (own : GoMap String ℚ) (marginRaised : Bool)
  | removePod (pod : String)
  | listPods
  | readConfigMap (i : ℕ)
  | update (i : ℕ)

namespace Exchange

variable (codec : ArchiveCodec) (period providerUID : String)

/-- A publish of the Pod's partial. An apply of what is stored already changes nothing. -/
def publish (s : Exchange) (pod : String) (q : BudgetPartial) : Exchange :=
  if alreadyStored s.cm pod q.marshalJSON then
    { s with published := s.published.insert pod q }
  else
    { s with
      cm := some (applyPartial s.cm pod q.marshalJSON)
      version := s.version + 1
      published := s.published.insert pod q }

/-- The step function. Neither Pods nor namespaces have names that start with an underscore. -/
def step (s : Exchange) : ExchangeOp → Option Exchange
  | .createPod pod =>
    if pod ∈ s.created ∨ isFlag pod then none
    else some { s with pods := insert pod s.pods, created := insert pod s.created }
  | .publish pod own marginRaised =>
    if pod ∉ s.pods ∨ own = ∅ ∨ ∃ ns ∈ own.keys, isFlag ns then none
    else some (s.publish pod (replicaPartial period own marginRaised providerUID))
  | .removePod pod => if pod ∈ s.pods then some { s with pods := s.pods.erase pod } else none
  | .listPods => some { s with passes := s.passes ++ [.listed s.pods] }
  | .readConfigMap i =>
    match s.passes[i]?, s.cm with
    | some (.listed _), none => some { s with passes := s.passes.set i .done }
    | some (.listed live), some cm =>
      some { s with passes := s.passes.set i (.read live cm s.version s.published) }
    | _, _ => none
  | .update i =>
    match s.passes[i]? with
    | some (.read live cm version published) =>
      match reconcileBudget codec cm (fun k ↦ k ∈ live) period providerUID with
      -- Nothing to send, or a conflict.
      | none => some { s with passes := s.passes.set i .done }
      | some cm' =>
        if version ≠ s.version then some { s with passes := s.passes.set i .done }
        else some { s with
          cm := some cm'
          version := s.version + 1
          passes := s.passes.set i .done
          updates := (cm', published) :: s.updates }
    | _ => none

/-- The list and the ConfigMap of a pass whose Update is going to be accepted. -/
def accepted (s : Exchange) (i : ℕ) : Option (Finset String × ConfigMap) :=
  match s.passes[i]? with
  | some (.read live cm version _) => if version = s.version then some (live, cm) else none
  | _ => none

/-- An accepted Update comes from a pass whose list had every Pod that still exists and has a key in
the ConfigMap, and no spend is published for a namespace `period`. -/
def ListComplete (s : Exchange) : ExchangeOp → Prop
  | .publish _ own _ => "period" ∉ own
  | .update i => ∀ u ∈ s.accepted i, ∀ pod ∈ s.pods, pod ∈ u.2.data → pod ∈ u.1
  | _ => True

instance (s : Exchange) : ∀ op, Decidable (s.ListComplete op)
  | .publish _ own _ => inferInstanceAs (Decidable ("period" ∉ own))
  | .update i =>
    inferInstanceAs (Decidable (∀ u ∈ s.accepted i, ∀ pod ∈ s.pods, pod ∈ u.2.data → pod ∈ u.1))
  | .createPod _ | .removePod _ | .listPods | .readConfigMap _ => isTrue trivial

end Exchange

/-- The sum of the last partials of all Pods. -/
def publishedTotal (published : GoMap String BudgetPartial) (ns : String) : ℚ :=
  (published.entries.map fun e ↦ e.2.amountOf ns).sum

/-- The roll-up in the ConfigMap is the sum of the partials. -/
def Accounted (cm : ConfigMap) (published : GoMap String BudgetPartial) : Prop :=
  ∃ canonical, (cm.data.lookup canonicalKey).bind parseAmounts = some canonical ∧
    ∀ ns, canonical.get ns = publishedTotal published ns

/-! ## Conservation -/

structure Conserved (period providerUID : String) (s : Exchange) : Prop where
  names : ∀ pod ∈ s.created, ¬ isFlag pod
  pods_created : s.pods ⊆ s.created
  published_created : ∀ pod ∈ s.published, pod ∈ s.created
  counts : ∀ pod q, s.published.lookup pod = some q → q.Counts period providerUID
  cents : AmountsInCents (dataOf s.cm)
  stored : ∀ k raw, ¬ isFlag k → (dataOf s.cm).lookup k = some raw →
    ∃ q, s.published.lookup k = some q ∧ q.marshalJSON = raw
  gone : ∀ pod ∈ s.published, pod ∉ dataOf s.cm → pod ∉ s.pods
  total : ∀ ns, (countedSpend period providerUID (dataOf s.cm)).get ns
    = publishedTotal s.published ns
  passes : ∀ live cm version published, .read live cm version published ∈ s.passes →
    version ≤ s.version ∧ (version = s.version → s.cm = some cm ∧
      ∀ ns, publishedTotal published ns = publishedTotal s.published ns)
  updates : ∀ u ∈ s.updates, Accounted u.1 u.2

namespace Conserved

variable {codec : ArchiveCodec} {period providerUID : String} {s t : Exchange}

theorem init : Conserved period providerUID {} where
  names := nofun
  pods_created := Finset.Subset.refl _
  published_created := nofun
  counts := nofun
  cents := amountsInCents_empty
  stored := nofun
  gone := nofun
  total _ := rfl
  passes := nofun
  updates := nofun

/-- What the key of a Pod that exists counts for is its last partial. -/
theorem get_ownContribution (hinv : Conserved period providerUID s) {pod : String}
    (hpod : pod ∈ s.pods) (ns : String) :
    (ownContribution period providerUID (dataOf s.cm) pod).get ns
      = (s.published.lookup pod).elim 0 (·.amountOf ns) := by
  rw [ownContribution]
  cases hraw : (dataOf s.cm).lookup pod with
  | none =>
    have hnever : s.published.lookup pod = none := by
      by_contra hsome
      exact hinv.gone pod (AList.lookup_isSome.mp (Option.isSome_iff_ne_none.mpr hsome))
        (AList.lookup_eq_none.mp hraw) hpod
    rw [hnever]
    rfl
  | some raw =>
    obtain ⟨q, hq, rfl⟩ := hinv.stored pod raw (hinv.names pod (hinv.pods_created hpod)) hraw
    rw [hq, Option.elim_some, Option.elim_some]
    exact (hinv.counts pod q hq).get_contribution ns

theorem publish (hinv : Conserved period providerUID s) {pod : String} (hpod : pod ∈ s.pods)
    {q : BudgetPartial} (hq : q.Counts period providerUID) (hcents : InCents q.marshalJSON) :
    Conserved period providerUID (s.publish pod q) := by
  have hname : ¬ isFlag pod := hinv.names pod (hinv.pods_created hpod)
  have hcreated : ∀ j ∈ s.published.insert pod q, j ∈ s.created := by
    intro j hj
    rcases (AList.mem_insert _).mp hj with rfl | hj
    · exact hinv.pods_created hpod
    · exact hinv.published_created j hj
  have hcounts : ∀ j q', (s.published.insert pod q).lookup j = some q' →
      q'.Counts period providerUID := by
    intro j q' hj
    rw [AList.lookup_insert_ite] at hj
    split_ifs at hj
    · cases hj
      exact hq
    · exact hinv.counts j q' hj
  -- Both totals change by the same amount: the new partial for the old one.
  have hpublished : ∀ ns, publishedTotal (s.published.insert pod q) ns
        + (ownContribution period providerUID (dataOf s.cm) pod).get ns
      = publishedTotal s.published ns + q.amountOf ns := by
    intro ns
    rw [hinv.get_ownContribution hpod]
    exact s.published.sum_entries_insert pod q (·.amountOf ns)
  rw [Exchange.publish]
  split_ifs with hstored
  · have hraw := lookup_of_alreadyStored hstored
    have hsame : ∀ ns, publishedTotal (s.published.insert pod q) ns
        = publishedTotal s.published ns := by
      intro ns
      have h := hpublished ns
      rw [ownContribution, hraw, Option.elim_some, hq.get_contribution] at h
      exact add_right_cancel h
    refine ⟨hinv.names, hinv.pods_created, hcreated, hcounts, hinv.cents, ?_, ?_, fun ns ↦ ?_, ?_,
      hinv.updates⟩
    · intro k raw hk hlookup
      by_cases hkp : k = pod
      · subst hkp
        rw [hraw, Option.some.injEq] at hlookup
        exact ⟨q, AList.lookup_insert _, hlookup⟩
      · obtain ⟨q', hq', hraw'⟩ := hinv.stored k raw hk hlookup
        exact ⟨q', (AList.lookup_insert_ne hkp).trans hq', hraw'⟩
    · intro j hj hdata
      rcases (AList.mem_insert _).mp hj with rfl | hj
      · exact absurd (AList.mem_of_lookup hraw) hdata
      · exact hinv.gone j hj hdata
    · rw [hsame]
      exact hinv.total ns
    · intro live cm version published hpass
      obtain ⟨hle, hcurrent⟩ := hinv.passes live cm version published hpass
      refine ⟨hle, fun hversion ↦ ⟨(hcurrent hversion).1, fun ns ↦ ?_⟩⟩
      rw [hsame]
      exact (hcurrent hversion).2 ns
  · refine ⟨hinv.names, hinv.pods_created, hcreated, hcounts, hinv.cents.insert hcents, ?_, ?_,
      fun ns ↦ ?_, ?_, hinv.updates⟩
    · intro k raw hk hlookup
      change ((dataOf s.cm).insert pod q.marshalJSON).lookup k = some raw at hlookup
      rw [AList.lookup_insert_ite] at hlookup
      split_ifs at hlookup with hkp
      · rw [Option.some.injEq] at hlookup
        exact ⟨q, hkp ▸ AList.lookup_insert _, hlookup⟩
      · obtain ⟨q', hq', hraw'⟩ := hinv.stored k raw hk hlookup
        exact ⟨q', (AList.lookup_insert_ne hkp).trans hq', hraw'⟩
    · intro j hj hdata
      have hdata' : ¬ (j = pod ∨ j ∈ dataOf s.cm) := fun h ↦ hdata ((AList.mem_insert _).mpr h)
      rw [not_or] at hdata'
      rcases (AList.mem_insert _).mp hj with h | hj
      · exact absurd h hdata'.1
      · exact hinv.gone j hj hdata'.2
    · have hcounted :
          (countedSpend period providerUID ((dataOf s.cm).insert pod q.marshalJSON)).get ns
              + (ownContribution period providerUID (dataOf s.cm) pod).get ns
            = (countedSpend period providerUID (dataOf s.cm)).get ns
              + (contribution period providerUID q.marshalJSON).get ns :=
        get_countedSpend_insert hname ns
      rw [hq.get_contribution, hinv.total] at hcounted
      exact add_right_cancel (hcounted.trans (hpublished ns).symm)
    · intro live cm version published hpass
      have hle := (hinv.passes live cm version published hpass).1
      exact ⟨hle.trans (Nat.le_succ _), fun h ↦ absurd (h ▸ hle) (Nat.not_succ_le_self _)⟩

/-- A pass that reaches its next stage. -/
theorem setPass (hinv : Conserved period providerUID s) (i : ℕ) {pass : ReconcilePass}
    (hpass : ∀ live cm version published, pass = .read live cm version published →
      version = s.version ∧ s.cm = some cm ∧ published = s.published) :
    Conserved period providerUID { s with passes := s.passes.set i pass } := by
  refine ⟨hinv.names, hinv.pods_created, hinv.published_created, hinv.counts, hinv.cents,
    hinv.stored, hinv.gone, hinv.total, ?_, hinv.updates⟩
  intro live cm version published hmem
  rcases List.mem_or_eq_of_mem_set hmem with hmem | hnew
  · exact hinv.passes live cm version published hmem
  · obtain ⟨rfl, hcm, rfl⟩ := hpass live cm version published hnew.symm
    exact ⟨le_rfl, fun _ ↦ ⟨hcm, fun _ ↦ rfl⟩⟩

/-- An accepted Update. -/
theorem update (hinv : Conserved period providerUID s) {i : ℕ} {live : Finset String}
    {cm cm' : ConfigMap} {published : GoMap String BudgetPartial}
    (hpass : s.passes[i]? = some (.read live cm s.version published))
    (hsent : reconcileBudget codec cm (fun k ↦ k ∈ live) period providerUID = some cm')
    (hlist : ∀ pod ∈ s.pods, pod ∈ cm.data → pod ∈ live) :
    Conserved period providerUID { s with
      cm := some cm'
      version := s.version + 1
      passes := s.passes.set i .done
      updates := (cm', published) :: s.updates } := by
  obtain ⟨hcm, hpublished⟩ := (hinv.passes _ _ _ _ (List.mem_of_getElem? hpass)).2 rfl
  have hold : dataOf s.cm = cm.data := by rw [hcm]; rfl
  have hnew : cm'.data
      = (reducedData codec cm (fun k ↦ k ∈ live) period providerUID).1 := by
    have hperiod : period ≠ "" := by
      rintro rfl
      cases hsent
    rw [← data_reconcileBudget codec cm hperiod, hsent, Option.getD_some]
  have hcents : AmountsInCents cm.data := hold ▸ hinv.cents
  have hcounts : ∀ k, ¬ isFlag k → ∀ raw, cm.data.lookup k = some raw →
      ∃ q : BudgetPartial, q.marshalJSON = raw ∧ q.Counts period providerUID := by
    intro k hk raw hraw
    obtain ⟨q, hq, hmarshal⟩ := hinv.stored k raw hk (hold ▸ hraw)
    exact ⟨q, hmarshal, hinv.counts k q hq⟩
  have htotal : ∀ ns, (countedSpend period providerUID cm'.data).get ns
      = publishedTotal s.published ns := by
    intro ns
    rw [← hinv.total, hold, hnew]
    exact AList.get_eq_of_amount (amount_countedSpend_reducedData codec hcents ns)
  refine ⟨hinv.names, hinv.pods_created, hinv.published_created, hinv.counts, ?_, ?_, ?_, htotal,
    ?_, ?_⟩
  · change AmountsInCents cm'.data
    rw [hnew]
    exact amountsInCents_reducedData hcents
  · intro k raw hk hraw
    obtain ⟨hcan, hprev, hret⟩ := not_reserved_of_not_isFlag hk
    change cm'.data.lookup k = some raw at hraw
    rw [hnew, lookup_reducedData_replica codec hcan hprev hret, Option.filter_eq_some_iff] at hraw
    exact hinv.stored k raw hk (hold ▸ hraw.1)
  · intro pod hpod hdata hexists
    have hk := hinv.names pod (hinv.published_created pod hpod)
    by_cases hkey : pod ∈ cm.data
    · -- The list had the Pod, so the pass kept its key.
      refine hdata ?_
      change pod ∈ cm'.data
      rw [← AList.lookup_isSome, hnew, lookup_reducedData_of_counts hk
        (decide_eq_true (hlist pod hexists hkey)) (hcounts pod hk), AList.lookup_isSome]
      exact hkey
    · exact hinv.gone pod hpod (hold ▸ hkey) hexists
  · intro live' cm'' version published' hmem
    rcases List.mem_or_eq_of_mem_set hmem with hmem | h
    · have hle := (hinv.passes live' cm'' version published' hmem).1
      exact ⟨hle.trans (Nat.le_succ _), fun h ↦ absurd (h ▸ hle) (Nat.not_succ_le_self _)⟩
    · cases h
  · intro u hu
    rcases List.mem_cons.mp hu with rfl | hu
    · obtain ⟨canonical, hparse, hamount⟩ := canonical_reducedData codec hcents
      refine ⟨canonical, by rw [hnew]; exact hparse, fun ns ↦ ?_⟩
      rw [AList.get_eq_of_amount (hamount ns), hpublished, ← hinv.total, hold]
    · exact hinv.updates u hu

theorem step (hinv : Conserved period providerUID s) {op : ExchangeOp} (hlist : s.ListComplete op)
    (h : s.step codec period providerUID op = some t) : Conserved period providerUID t := by
  cases op with
  | createPod pod =>
    rw [Exchange.step] at h
    split_ifs at h with hguard
    obtain ⟨hfresh, hname⟩ := not_or.mp hguard
    cases h
    refine ⟨?_, Finset.insert_subset_insert _ hinv.pods_created, fun j hj ↦
      Finset.mem_insert_of_mem (hinv.published_created j hj), hinv.counts, hinv.cents, hinv.stored,
      ?_, hinv.total, hinv.passes, hinv.updates⟩
    · intro j hj
      rcases Finset.mem_insert.mp hj with rfl | hj
      · exact hname
      · exact hinv.names j hj
    · intro j hj hdata hexists
      rcases Finset.mem_insert.mp hexists with rfl | hexists
      · exact hfresh (hinv.published_created j hj)
      · exact hinv.gone j hj hdata hexists
  | publish pod own marginRaised =>
    rw [Exchange.step] at h
    split_ifs at h with hguard
    rw [not_or, not_or] at hguard
    obtain ⟨hpod, -, hflags⟩ := hguard
    cases h
    have hnames : ∀ ns ∈ own, ns ≠ "period" ∧ ¬ isFlag ns := fun ns hns ↦
      ⟨fun h ↦ hlist (h ▸ hns), fun h ↦ hflags ⟨ns, AList.mem_keys.mp hns, h⟩⟩
    have hq : (replicaPartial period own marginRaised providerUID).Counts period providerUID :=
      counts_replicaPartial hnames marginRaised
    exact hinv.publish (not_not.mp hpod) hq (hq.inCents rfl)
  | removePod pod =>
    rw [Exchange.step] at h
    split_ifs at h
    cases h
    exact ⟨hinv.names, (Finset.erase_subset _ _).trans hinv.pods_created, hinv.published_created,
      hinv.counts, hinv.cents, hinv.stored, fun j hj hdata hexists ↦
        hinv.gone j hj hdata (Finset.mem_of_mem_erase hexists), hinv.total, hinv.passes,
          hinv.updates⟩
  | listPods =>
    cases h
    refine ⟨hinv.names, hinv.pods_created, hinv.published_created, hinv.counts, hinv.cents,
      hinv.stored, hinv.gone, hinv.total, ?_, hinv.updates⟩
    intro live cm version published hmem
    rcases List.mem_append.mp hmem with hmem | hmem
    · exact hinv.passes live cm version published hmem
    · cases List.mem_singleton.mp hmem
  | readConfigMap i =>
    rw [Exchange.step] at h
    split at h
    · cases h
      exact hinv.setPass i nofun
    · rename_i live cm hpass hcm
      cases h
      refine hinv.setPass i ?_
      rintro _ _ _ _ ⟨⟩
      exact ⟨rfl, hcm, rfl⟩
    · cases h
  | update i =>
    rw [Exchange.step] at h
    split at h
    · rename_i live cm version published hpass
      split at h
      · cases h
        exact hinv.setPass i nofun
      · rename_i cm' hsent
        split_ifs at h with hversion
        · cases h
          exact hinv.setPass i nofun
        · cases h
          rw [ne_eq, not_not] at hversion
          subst hversion
          refine hinv.update hpass hsent (hlist (live, cm) ?_)
          rw [Exchange.accepted, hpass]
          exact if_pos rfl
    · cases h

end Conserved

/-- **No published spend is lost or counted twice** across replica replacement, as long as every
accepted Update comes from a complete list: in every such run, the roll-up of every Update that was
accepted is, per namespace, the sum over all Pods that ever published of the last partial they had
published when the pass read the ConfigMap. -/
theorem accounted_of_listComplete (codec : ArchiveCodec) (period providerUID : String)
    (ops : List ExchangeOp) (s : Exchange)
    (hrun : Run.Runs (Exchange.step codec period providerUID) {} ops s)
    (hlist : Run.AllSteps (Exchange.step codec period providerUID) Exchange.ListComplete {} ops) :
    ∀ u ∈ s.updates, Accounted u.1 u.2 :=
  (hrun.invariant_of_allSteps (fun _ _ _ hinv hlist h ↦ Conserved.step hinv hlist h) hlist
    Conserved.init).updates

/-- `gw-2` replaces `gw-1`, whose 10 USD stay counted. -/
theorem accounted_of_replacement :
    ∃ s, Run.Runs (Exchange.step noArchive "2026-03" "uid-1") {}
        [.createPod "gw-1", .publish "gw-1" (teamSpend 10) false, .createPod "gw-2", .listPods,
          .publish "gw-2" (teamSpend 5) false, .readConfigMap 0, .update 0, .removePod "gw-1",
          .publish "gw-2" (teamSpend 8) false, .listPods, .readConfigMap 1, .update 1] s
      ∧ s.updates.map (fun u ↦ publishedTotal u.2 "team-a") = [18, 15]
      ∧ ∀ u ∈ s.updates, Accounted u.1 u.2 := by
  obtain ⟨s, hs, htotals⟩ := Option.map_eq_some_iff.mp (show
    (List.foldlM (Exchange.step noArchive "2026-03" "uid-1") {}
      [.createPod "gw-1", .publish "gw-1" (teamSpend 10) false, .createPod "gw-2", .listPods,
        .publish "gw-2" (teamSpend 5) false, .readConfigMap 0, .update 0, .removePod "gw-1",
        .publish "gw-2" (teamSpend 8) false, .listPods, .readConfigMap 1, .update 1]).map
      (fun s ↦ s.updates.map fun u ↦ publishedTotal u.2 "team-a") = some [18, 15] by decide +kernel)
  exact ⟨s, hs, htotals, accounted_of_listComplete _ _ _ _ s hs (by decide +kernel)⟩

/-- `gw-2` is created after the first pass's list and publishes 5 USD before its read. The pass
moves them into `_retired`; when `gw-2` publishes 6 USD, the next roll-up is 21 USD where 16 were
spent. -/
theorem late_replica_counted_twice :
    ∃ s, Run.Runs (Exchange.step noArchive "2026-03" "uid-1") {}
        [.createPod "gw-1", .publish "gw-1" (teamSpend 10) false, .listPods, .createPod "gw-2",
          .publish "gw-2" (teamSpend 5) false, .readConfigMap 0, .update 0,
          .publish "gw-2" (teamSpend 6) false, .listPods, .readConfigMap 1, .update 1] s
      ∧ ∃ u ∈ s.updates, ((u.1.data.lookup canonicalKey).bind parseAmounts).map (·.get "team-a")
          = some 21 ∧ publishedTotal u.2 "team-a" = 16 ∧ ¬ Accounted u.1 u.2 := by
  obtain ⟨s, hs, hview⟩ := Option.map_eq_some_iff.mp (show
    (List.foldlM (Exchange.step noArchive "2026-03" "uid-1") {}
      [.createPod "gw-1", .publish "gw-1" (teamSpend 10) false, .listPods, .createPod "gw-2",
        .publish "gw-2" (teamSpend 5) false, .readConfigMap 0, .update 0,
        .publish "gw-2" (teamSpend 6) false, .listPods, .readConfigMap 1, .update 1]).map
      (fun s ↦ s.updates.head?.map fun u ↦
        (((u.1.data.lookup canonicalKey).bind parseAmounts).map (·.get "team-a"),
          publishedTotal u.2 "team-a")) = some (some (some 21, 16)) by decide +kernel)
  obtain ⟨u, hu, hview⟩ := Option.map_eq_some_iff.mp hview
  obtain ⟨hcanonical, htotal⟩ := Prod.mk.inj hview
  refine ⟨s, hs, u, List.mem_of_head? hu, hcanonical, htotal, ?_⟩
  rintro ⟨canonical, hparse, hget⟩
  rw [hparse, Option.map_some, Option.some.injEq, hget, htotal] at hcanonical
  exact absurd hcanonical (by norm_num)

end Kaalm
