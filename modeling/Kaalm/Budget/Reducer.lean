import Kaalm.Budget.Partial

/-!
# The budget ConfigMap and its reducer

Every replica stores its partial under a key of its own; the reconciler owns three more keys. One
fold, `foldPartials`, is the enforcement view of a replica: every current-period partial but its
own. The other, `foldBudgetKeys`, is the reducer's: it sums the partials of live replicas, moves
those of replicas that are gone into `_retired`, and archives what belongs to an older period.

## Contributions

`contribution` is what one stored value counts for: its spend when it parses, has the current
period and is not tagged with another provider's UID, and nothing otherwise. Both folds are sums of
contributions over selected keys (`amount_foldPartials`, `amount_foldBudgetKeys_current`,
`amount_foldBudgetKeys_retired`), and what a pass leaves behind is described by the contribution
that remains at each key.

The `_previous` archive is JSON of a nested type. Its codec is a parameter, since no result depends
on it.
-/

namespace Kaalm

open Decimal

/-- The reconciler-owned roll-up. -/
def canonicalKey : String := "_canonical"

/-- The reconciler-owned accumulator of the replicas that are gone. -/
def retiredKey : String := "_retired"

/-- The reconciler-owned archive of the previous period. -/
def previousKey : String := "_previous"

/-! ## The enforcement view of a replica -/

/-- Sum every current-period partial except the caller's own key. -/
def foldPartials (data : GoMap String String) (ownPodName currentPeriod providerUID : String) :
    GoMap String ℚ :=
  data.entries.foldl (fun peers e ↦
    if e.1 = ownPodName ∨ e.1 = canonicalKey ∨ e.1 = previousKey then peers
    else match parseBudgetPartial e.2 with
      | none => peers
      | some q =>
        if q.period ≠ currentPeriod ∨ (q.providerUID ≠ "" ∧ q.providerUID ≠ providerUID) then peers
        else peers.addAll q.spend) ∅

/-! ## The reducer's fold -/

/-- One source's old-period spend. -/
structure StalePartial where
  period : String
  spend : GoMap String ℚ
  deriving DecidableEq

/-- The reducer's view of one pass, with the data it leaves. -/
structure BudgetFold where
  data : GoMap String String
  /-- Current-period spend of live replicas. -/
  current : GoMap String ℚ := ∅
  /-- Current-period spend of pruned replicas. -/
  retired : GoMap String ℚ := ∅
  /-- The old-period spend deleted in this pass, by source. -/
  stale : GoMap String StalePartial := ∅
  changed : Bool := false
  retiredChanged : Bool := false
  marginRaised : Bool := false
  deriving DecidableEq

namespace BudgetFold

def delete (f : BudgetFold) (k : String) : BudgetFold :=
  { f with data := f.data.erase k, changed := true }

def archive (f : BudgetFold) (source : String) (q : ParsedPartial) : BudgetFold :=
  { f with stale := f.stale.insert source ⟨q.period, q.spend⟩ }

/-- One key of the walk. -/
def key (liveGateways : String → Bool) (currentPeriod providerUID : String) (f : BudgetFold)
    (e : Sigma fun _ : String ↦ String) : BudgetFold :=
  let k := e.1
  if k = canonicalKey ∨ k = previousKey then f
  else match parseBudgetPartial e.2 with
    | none =>
      if k = retiredKey then f
      else if !liveGateways k then f.delete k
      else f
    | some q =>
      -- Written for a deleted provider of the same name: never this provider's spend.
      if q.providerUID ≠ "" ∧ q.providerUID ≠ providerUID then f.delete k
      else if k = retiredKey then
        if q.period = currentPeriod then { f with retired := f.retired.addAll q.spend }
        else (f.archive k q).delete k
      else if !liveGateways k then
        if q.period = currentPeriod then
          { f.delete k with retired := f.retired.addAll q.spend, retiredChanged := true }
        else (f.archive k q).delete k
      else if q.period = currentPeriod then
        { f with
          current := f.current.addAll q.spend
          marginRaised := f.marginRaised || q.marginExceeded }
      else (f.archive k q).delete k

end BudgetFold

/-- Walk every key of the budget ConfigMap once. -/
def foldBudgetKeys (data : GoMap String String) (liveGateways : String → Bool)
    (currentPeriod providerUID : String) : BudgetFold :=
  data.entries.foldl (BudgetFold.key liveGateways currentPeriod providerUID) { data := data }

/-! ## The archive -/

/-- The `_previous` value: the previous period's spend per source. -/
structure BudgetArchive where
  period : String
  archivedIn : String
  providerUID : String
  sources : GoMap String (GoMap String String)
  deriving DecidableEq

/-- `json.Marshal` and `json.Unmarshal` at the archive's type. Decoding an object whose `sources`
are missing or null is `none` here. -/
structure ArchiveCodec where
  marshal : BudgetArchive → String
  unmarshal : String → Option BudgetArchive

/-- Decode a `_previous` value; a missing or malformed one is `none`. -/
def parseBudgetArchive (codec : ArchiveCodec) (raw : String) : Option BudgetArchive :=
  if raw = "" then none else (codec.unmarshal raw).filter fun a ↦ a.period ≠ ""

/-- Keep the larger figure per namespace. -/
def mergeSource (dst : GoMap String String × Bool) (e : Sigma fun _ : String ↦ ℚ) :
    GoMap String String × Bool :=
  if ((dst.1.lookup e.1).bind parseFloat).any fun old ↦ e.2 ≤ old then dst
  else (dst.1.insert e.1 (formatFixed e.2), true)

/-- Fold a pass's stale keys into the stored archive, and say whether it changed. -/
def mergeBudgetArchive (stored : Option BudgetArchive) (stale : GoMap String StalePartial)
    (currentPeriod providerUID : String) : Option BudgetArchive × Bool :=
  let outdated := stored.any fun a ↦ a.archivedIn ≠ currentPeriod
    ∨ (a.providerUID ≠ "" ∧ a.providerUID ≠ providerUID)
  let archive := if outdated then none else stored
  let newest := stale.entries.foldl (fun newest e ↦
    if newest < e.2.period then e.2.period else newest) ""
  let renewed : Bool := newest ≠ "" ∧ archive.all fun a ↦ a.period < newest
  let archive := if renewed then some ⟨newest, currentPeriod, providerUID, ∅⟩ else archive
  match archive with
  | none => (none, outdated)
  | some a =>
    let (a, changed) := stale.entries.foldl (fun (acc : BudgetArchive × Bool) e ↦
      if e.2.period ≠ acc.1.period then acc
      else
        let dst := e.2.spend.entries.foldl mergeSource
          ((acc.1.sources.lookup e.1).getD ∅, acc.2)
        ({ acc.1 with sources := acc.1.sources.insert e.1 dst.1 }, dst.2)) (a, outdated || renewed)
    (some a, changed)

/-! ## A reducer pass -/

/-- The part of a ConfigMap that the exchange reads. -/
structure ConfigMap where
  data : GoMap String String
  /-- The value of the spend label. -/
  label : String
  deriving DecidableEq

def spendLabelBudget : String := "budget"

/-- The amounts of a roll-up as JSON. -/
def marshalAmounts (m : GoMap String ℚ) : String := Json.marshal (m.mapVal formatFixed)

/-- The current-period spend everyone must see: live partials and retired. -/
def BudgetFold.rollUp (f : BudgetFold) : GoMap String ℚ := f.current.addAll f.retired

/-- The `_retired` write, made when a partial moved into it. -/
def BudgetFold.writeRetired (f : BudgetFold) (currentPeriod providerUID : String) :
    GoMap String String :=
  if f.retiredChanged then
    f.data.insert retiredKey (retiredPartial currentPeriod f.retired providerUID).marshalJSON
  else f.data

/-- The `_canonical` write, and whether it changed the stored text. -/
def writeCanonical (data : GoMap String String) (current : GoMap String ℚ) :
    GoMap String String × Bool :=
  if data.lookup canonicalKey ≠ some (marshalAmounts current) then
    (data.insert canonicalKey (marshalAmounts current), true)
  else (data, false)

/-- The `_previous` write, and whether it was made. -/
def writeArchive (codec : ArchiveCodec) (data : GoMap String String)
    (stale : GoMap String StalePartial) (currentPeriod providerUID : String) :
    GoMap String String × Bool :=
  let rawArchive := data.lookup previousKey
  let stored := parseBudgetArchive codec (rawArchive.getD "")
  let merged := mergeBudgetArchive stored stale currentPeriod providerUID
  -- An unusable archive is rewritten even when the merge changed nothing.
  if merged.2 ∨ (rawArchive.isSome ∧ stored = none) then
    match merged.1 with
    | none => (data.erase previousKey, true)
    | some archive => (data.insert previousKey (codec.marshal archive), true)
  else (data, false)

/-- The data a pass leaves, in the order of its writes, and whether any of them changed it. -/
def reducedData (codec : ArchiveCodec) (cm : ConfigMap) (liveGateways : String → Bool)
    (currentPeriod providerUID : String) : GoMap String String × Bool :=
  let fold := foldBudgetKeys cm.data liveGateways currentPeriod providerUID
  let canonical := writeCanonical (fold.writeRetired currentPeriod providerUID) fold.rollUp
  let archived := writeArchive codec canonical.1 fold.stale currentPeriod providerUID
  (archived.1, fold.changed || fold.retiredChanged || canonical.2 || archived.2)

/-- `reconcileBudget` on the ConfigMap it read: the ConfigMap it sends with `Update`, or `none` when
it sends nothing. -/
def reconcileBudget (codec : ArchiveCodec) (cm : ConfigMap) (liveGateways : String → Bool)
    (currentPeriod providerUID : String) : Option ConfigMap :=
  if currentPeriod = "" then none
  else
    let (data, changed) := reducedData codec cm liveGateways currentPeriod providerUID
    let labeled : Bool := cm.label ≠ spendLabelBudget
    if changed || labeled then some { data := data, label := spendLabelBudget } else none

/-! ## Contributions -/

section Contribution

variable (currentPeriod providerUID : String)

/-- What a stored value counts for in the current period. -/
def contribution (raw : String) : GoMap String ℚ :=
  match parseBudgetPartial raw with
  | none => ∅
  | some q =>
    if q.period ≠ currentPeriod ∨ (q.providerUID ≠ "" ∧ q.providerUID ≠ providerUID) then ∅
    else q.spend

/-- What the value under a key counts for, in one namespace. -/
def contributionAt (data : GoMap String String) (ns k : String) : WithZero ℚ :=
  (data.lookup k).elim 0 fun raw ↦ (contribution currentPeriod providerUID raw).amount ns

variable {currentPeriod providerUID}

theorem contribution_of_none {raw : String} (h : parseBudgetPartial raw = none) :
    contribution currentPeriod providerUID raw = ∅ := by
  rw [contribution, h]

theorem contribution_of_some {raw : String} {q : ParsedPartial}
    (h : parseBudgetPartial raw = some q) :
    contribution currentPeriod providerUID raw =
      if q.period ≠ currentPeriod ∨ (q.providerUID ≠ "" ∧ q.providerUID ≠ providerUID) then ∅
      else q.spend := by
  rw [contribution, h]

theorem contributionAt_congr {data data' : GoMap String String} {ns k : String}
    (h : data.lookup k = data'.lookup k) :
    contributionAt currentPeriod providerUID data ns k
      = contributionAt currentPeriod providerUID data' ns k := by
  rw [contributionAt, contributionAt, h]

variable (currentPeriod providerUID)

/-- A loop that adds up the contributions of the keys outside `skip`. -/
theorem amount_foldl_contribution (data : GoMap String String) (skip : String → Prop)
    [DecidablePred skip] (ns : String) {S : Finset String} (hS : ∀ k ∈ data, k ∈ S) :
    (data.entries.foldl (fun (acc : GoMap String ℚ) e ↦ acc.addAll
        (if skip e.1 then ∅ else contribution currentPeriod providerUID e.2)) ∅).amount ns
      = ∑ k ∈ S, if skip k then 0 else contributionAt currentPeriod providerUID data ns k := by
  rw [AList.amount_foldl_addAll, AList.amount_empty, zero_add, data.sum_entries hS fun k raw ↦
    (if skip k then (∅ : GoMap String ℚ)
      else contribution currentPeriod providerUID raw).amount ns]
  refine Finset.sum_congr rfl fun k _ ↦ ?_
  rw [contributionAt]
  split_ifs with hskip
  · cases data.lookup k <;> rfl
  · rfl

/-- The fold of a replica adds up the contributions of all keys but the caller's own and the two
that are never on the enforcement path. -/
theorem foldPartials_eq_foldl_addAll (data : GoMap String String) (ownPodName : String) :
    foldPartials data ownPodName currentPeriod providerUID
      = data.entries.foldl (fun (acc : GoMap String ℚ) e ↦ acc.addAll
        (if e.1 = ownPodName ∨ e.1 = canonicalKey ∨ e.1 = previousKey then ∅
          else contribution currentPeriod providerUID e.2)) ∅ := by
  rw [foldPartials]
  congr 1
  funext peers e
  split_ifs with hskip
  · rfl
  · cases hq : parseBudgetPartial e.2 with
    | none =>
      rw [contribution_of_none hq]
      rfl
    | some q =>
      rw [contribution_of_some hq]
      simp only
      split_ifs <;> rfl

/-- The enforcement view is the sum of these contributions, namespace by namespace. -/
theorem amount_foldPartials (data : GoMap String String) (ownPodName ns : String)
    {S : Finset String} (hS : ∀ k ∈ data, k ∈ S) :
    (foldPartials data ownPodName currentPeriod providerUID).amount ns
      = ∑ k ∈ S, if k = ownPodName ∨ k = canonicalKey ∨ k = previousKey then 0
        else contributionAt currentPeriod providerUID data ns k := by
  rw [foldPartials_eq_foldl_addAll]
  exact amount_foldl_contribution currentPeriod providerUID data
    (fun k ↦ k = ownPodName ∨ k = canonicalKey ∨ k = previousKey) ns hS

end Contribution

/-! ## What the walk does with one key -/

section Walk

variable (liveGateways : String → Bool) (currentPeriod providerUID : String)

/-- The walk deletes the key. -/
def deletes (k raw : String) : Bool :=
  if k = canonicalKey ∨ k = previousKey then false
  else match parseBudgetPartial raw with
    | none => k ≠ retiredKey && !liveGateways k
    | some q => (q.providerUID ≠ "" ∧ q.providerUID ≠ providerUID) || q.period ≠ currentPeriod
        || (k ≠ retiredKey && !liveGateways k)

/-- The walk moves the key's spend into `_retired`. -/
def retires (k raw : String) : Bool :=
  if k = canonicalKey ∨ k = previousKey ∨ k = retiredKey ∨ liveGateways k then false
  else (parseBudgetPartial raw).any fun q ↦
    q.period = currentPeriod ∧ (q.providerUID = "" ∨ q.providerUID = providerUID)

/-- The step of the walk, field by field. -/
structure BudgetFold.Walked (k raw : String) (f f' : BudgetFold) : Prop where
  data : f'.data = if deletes liveGateways currentPeriod providerUID k raw then f.data.erase k
    else f.data
  changed : f'.changed = (f.changed || deletes liveGateways currentPeriod providerUID k raw)
  retiredChanged :
    f'.retiredChanged = (f.retiredChanged || retires liveGateways currentPeriod providerUID k raw)
  current : f'.current = f.current.addAll
    (if k = canonicalKey ∨ k = previousKey ∨ k = retiredKey ∨ liveGateways k = false then ∅
      else contribution currentPeriod providerUID raw)
  retired : f'.retired = f.retired.addAll
    (if k = canonicalKey ∨ k = previousKey ∨ (k ≠ retiredKey ∧ liveGateways k) then ∅
      else contribution currentPeriod providerUID raw)

theorem walked_key (f : BudgetFold) (e : Sigma fun _ : String ↦ String) :
    BudgetFold.Walked liveGateways currentPeriod providerUID e.1 e.2 f
      (f.key liveGateways currentPeriod providerUID e) := by
  obtain ⟨k, raw⟩ := e
  by_cases hskip : k = canonicalKey ∨ k = previousKey
  · have hkey : f.key liveGateways currentPeriod providerUID ⟨k, raw⟩ = f := by
      rw [BudgetFold.key]
      simp only [if_pos hskip]
    rw [hkey]
    rcases hskip with rfl | rfl <;>
      exact ⟨by simp [deletes], by simp [deletes], by simp [retires], by simp, by simp⟩
  rw [not_or] at hskip
  have hrc : retiredKey ≠ canonicalKey := by decide
  have hrp : retiredKey ≠ previousKey := by decide
  cases hq : parseBudgetPartial raw with
  | none =>
    have hnone : contribution currentPeriod providerUID raw = ∅ := contribution_of_none hq
    by_cases hret : k = retiredKey <;> cases hlive : liveGateways k <;>
      constructor <;>
      simp [BudgetFold.key, BudgetFold.delete, deletes, retires, hq, hskip, hret, hlive, hnone, hrc,
        hrp]
  | some q =>
    have hsome : contribution currentPeriod providerUID raw =
        if q.period ≠ currentPeriod ∨ (q.providerUID ≠ "" ∧ q.providerUID ≠ providerUID) then ∅
        else q.spend := contribution_of_some hq
    by_cases huid : q.providerUID = "" ∨ q.providerUID = providerUID <;>
      by_cases hperiod : q.period = currentPeriod <;>
      by_cases hret : k = retiredKey <;> cases hlive : liveGateways k <;>
      constructor <;>
      simp [BudgetFold.key, BudgetFold.delete, BudgetFold.archive, deletes, retires, hq, hskip,
        hret, hlive, hsome, huid, hperiod, hrc, hrp, ← not_or]

/-! ## What the whole walk does -/

private theorem lookup_foldl_key_data (l : List (Sigma fun _ : String ↦ String)) (h : l.NodupKeys)
    (f : BudgetFold) (k : String) :
    (l.foldl (BudgetFold.key liveGateways currentPeriod providerUID) f).data.lookup k
      = if (l.dlookup k).any (deletes liveGateways currentPeriod providerUID k) then none
        else f.data.lookup k := by
  induction l generalizing f with
  | nil => rfl
  | cons e l ih =>
    rw [List.foldl_cons, ih (List.nodupKeys_cons.mp h).2,
      (walked_key liveGateways currentPeriod providerUID f e).data]
    obtain ⟨j, raw⟩ := e
    have hj := (List.nodupKeys_cons.mp h).1
    by_cases hk : k = j
    · subst hk
      rw [List.dlookup_cons_eq, List.dlookup_eq_none.mpr hj]
      simp only [Option.any_none, Option.any_some, Bool.false_eq_true, if_false]
      split_ifs with hdel
      · exact AList.lookup_erase _ _
      · rfl
    · rw [List.dlookup_cons_ne _ _ hk]
      split_ifs
      · rfl
      · exact AList.lookup_erase_ne hk
      · rfl

variable (data : GoMap String String)

/-- The walk keeps exactly the keys it does not delete. -/
theorem lookup_foldBudgetKeys_data (k : String) :
    (foldBudgetKeys data liveGateways currentPeriod providerUID).data.lookup k
      = (data.lookup k).filter fun raw ↦ !deletes liveGateways currentPeriod providerUID k raw := by
  rw [foldBudgetKeys, lookup_foldl_key_data _ _ _ _ data.nodupKeys]
  change (if (data.lookup k).any _ then none else data.lookup k) = _
  cases data.lookup k with
  | none => rfl
  | some raw =>
    cases hdel : deletes liveGateways currentPeriod providerUID k raw <;> simp [Option.filter, hdel]

private theorem foldl_key_current (l : List (Sigma fun _ : String ↦ String)) (f : BudgetFold) :
    (l.foldl (BudgetFold.key liveGateways currentPeriod providerUID) f).current
      = l.foldl (fun acc e ↦ acc.addAll
        (if e.1 = canonicalKey ∨ e.1 = previousKey ∨ e.1 = retiredKey ∨ liveGateways e.1 = false
          then ∅ else contribution currentPeriod providerUID e.2)) f.current := by
  induction l generalizing f with
  | nil => rfl
  | cons e l ih =>
    rw [List.foldl_cons, ih, List.foldl_cons,
      (walked_key liveGateways currentPeriod providerUID f e).current]

private theorem foldl_key_retired (l : List (Sigma fun _ : String ↦ String)) (f : BudgetFold) :
    (l.foldl (BudgetFold.key liveGateways currentPeriod providerUID) f).retired
      = l.foldl (fun acc e ↦ acc.addAll
        (if e.1 = canonicalKey ∨ e.1 = previousKey ∨ (e.1 ≠ retiredKey ∧ liveGateways e.1)
          then ∅ else contribution currentPeriod providerUID e.2)) f.retired := by
  induction l generalizing f with
  | nil => rfl
  | cons e l ih =>
    rw [List.foldl_cons, ih, List.foldl_cons,
      (walked_key liveGateways currentPeriod providerUID f e).retired]

/-- The live accumulator adds up the contributions of live replicas. -/
theorem foldBudgetKeys_current :
    (foldBudgetKeys data liveGateways currentPeriod providerUID).current
      = data.entries.foldl (fun acc e ↦ acc.addAll
        (if e.1 = canonicalKey ∨ e.1 = previousKey ∨ e.1 = retiredKey ∨ liveGateways e.1 = false
          then ∅ else contribution currentPeriod providerUID e.2)) ∅ :=
  foldl_key_current _ _ _ _ _

/-- The retired accumulator adds up `_retired` and the contributions of the replicas that are
gone. -/
theorem foldBudgetKeys_retired :
    (foldBudgetKeys data liveGateways currentPeriod providerUID).retired
      = data.entries.foldl (fun acc e ↦ acc.addAll
        (if e.1 = canonicalKey ∨ e.1 = previousKey ∨ (e.1 ≠ retiredKey ∧ liveGateways e.1)
          then ∅ else contribution currentPeriod providerUID e.2)) ∅ :=
  foldl_key_retired _ _ _ _ _

theorem amount_foldBudgetKeys_current (ns : String) {S : Finset String} (hS : ∀ k ∈ data, k ∈ S) :
    (foldBudgetKeys data liveGateways currentPeriod providerUID).current.amount ns
      = ∑ k ∈ S, if k = canonicalKey ∨ k = previousKey ∨ k = retiredKey ∨ liveGateways k = false
        then 0 else contributionAt currentPeriod providerUID data ns k := by
  rw [foldBudgetKeys_current]
  exact amount_foldl_contribution currentPeriod providerUID data (fun k ↦
    k = canonicalKey ∨ k = previousKey ∨ k = retiredKey ∨ liveGateways k = false) ns hS

theorem amount_foldBudgetKeys_retired (ns : String) {S : Finset String} (hS : ∀ k ∈ data, k ∈ S) :
    (foldBudgetKeys data liveGateways currentPeriod providerUID).retired.amount ns
      = ∑ k ∈ S, if k = canonicalKey ∨ k = previousKey ∨ (k ≠ retiredKey ∧ liveGateways k)
        then 0 else contributionAt currentPeriod providerUID data ns k := by
  rw [foldBudgetKeys_retired]
  exact amount_foldl_contribution currentPeriod providerUID data (fun k ↦
    k = canonicalKey ∨ k = previousKey ∨ (k ≠ retiredKey ∧ liveGateways k)) ns hS

/-- `_retired` is rewritten exactly when some key's spend moves into it. -/
theorem foldBudgetKeys_retiredChanged :
    (foldBudgetKeys data liveGateways currentPeriod providerUID).retiredChanged
      = data.entries.any fun e ↦ retires liveGateways currentPeriod providerUID e.1 e.2 := by
  have hfold : ∀ (l : List (Sigma fun _ : String ↦ String)) (f : BudgetFold),
      (l.foldl (BudgetFold.key liveGateways currentPeriod providerUID) f).retiredChanged
        = (f.retiredChanged
          || l.any fun e ↦ retires liveGateways currentPeriod providerUID e.1 e.2) := by
    intro l
    induction l with
    | nil => simp
    | cons e l ih =>
      intro f
      rw [List.foldl_cons, ih,
        (walked_key liveGateways currentPeriod providerUID f e).retiredChanged, List.any_cons,
          Bool.or_assoc]
  rw [foldBudgetKeys, hfold]
  rfl

/-- A walk that reports no change has deleted nothing. -/
theorem foldBudgetKeys_data_of_not_changed
    (h : (foldBudgetKeys data liveGateways currentPeriod providerUID).changed = false) :
    (foldBudgetKeys data liveGateways currentPeriod providerUID).data = data := by
  have hfold : ∀ (l : List (Sigma fun _ : String ↦ String)) (f : BudgetFold),
      (l.foldl (BudgetFold.key liveGateways currentPeriod providerUID) f).changed = false →
        (l.foldl (BudgetFold.key liveGateways currentPeriod providerUID) f).data = f.data
          ∧ f.changed = false := by
    intro l
    induction l with
    | nil => exact fun f h ↦ ⟨rfl, h⟩
    | cons e l ih =>
      intro f h
      rw [List.foldl_cons] at h ⊢
      obtain ⟨hdata, hchanged⟩ := ih _ h
      have hw := walked_key liveGateways currentPeriod providerUID f e
      rw [hw.changed, Bool.or_eq_false_iff] at hchanged
      rw [hdata, hw.data, hchanged.2]
      exact ⟨rfl, hchanged.1⟩
  exact (hfold data.entries { data := data } h).1

end Walk

end Kaalm
