import Kaalm.Budget.Reducer
import Mathlib.Order.Bounds.Basic

/-!
# The archive of the previous period

The first pass after a rollover moves the old-period keys into the `_previous` archive; a replica
that publishes its old-period partial late is merged by a later pass. The stale partials of one
rollover therefore arrive in any number of passes and in any order.

`Archives` says what an archive holds of a list of deliveries, in terms that do not depend on its
order: the newest period, the sources delivered for it, and the greatest amount per source and
namespace. A pass extends the deliveries by its own (`archives_mergeBudgetArchive`), and two
archives of the same deliveries are the same Go value (`Archives.same`).
-/

namespace Kaalm

open Decimal

/-- A stale partial with the source that published it. -/
abbrev Delivery := Sigma fun _ : String ↦ StalePartial

/-- A partial of an earlier period, with amounts of at most two decimals. -/
structure IsStale (currentPeriod : String) (sp : StalePartial) : Prop where
  period_ne : sp.period ≠ ""
  earlier : sp.period < currentPeriod
  cents : ∀ ns v, sp.spend.lookup ns = some v → IsCents v

/-! ## What an archive holds -/

section Spec

variable (D : List Delivery) (period source : String)

/-- The amounts delivered for a period by a source under a namespace. -/
def delivered (ns : String) : Set ℚ :=
  {v | ∃ e ∈ D, e.1 = source ∧ e.2.period = period ∧ e.2.spend.lookup ns = some v}

/-- The figures of one source: the greatest amount delivered per namespace. -/
structure SourceHolds (dst : GoMap String String) : Prop where
  known : ∃ e ∈ D, e.1 = source ∧ e.2.period = period
  absent : ∀ ns, dst.lookup ns = none → delivered D period source ns = ∅
  present : ∀ ns text, dst.lookup ns = some text →
    ∃ v, text = formatFixed v ∧ IsGreatest (delivered D period source ns) v

/-- The figures of every source delivered for the period. -/
structure SourcesHold (sources : GoMap String (GoMap String String)) : Prop where
  unknown : ∀ s, s ∉ sources → ∀ e ∈ D, e.1 = s → e.2.period ≠ period
  holds : ∀ s dst, sources.lookup s = some dst → SourceHolds D period s dst

end Spec

/-- The archive of a list of deliveries. -/
structure Archives (currentPeriod providerUID : String) (D : List Delivery) (a : BudgetArchive) :
    Prop where
  archivedIn : a.archivedIn = currentPeriod
  providerUID : a.providerUID = providerUID
  newest : IsGreatest {p | ∃ e ∈ D, e.2.period = p} a.period
  sources : SourcesHold D a.period a.sources

/-- Two archives are the same Go value. -/
structure SameArchive (a a' : BudgetArchive) : Prop where
  period : a.period = a'.period
  archivedIn : a.archivedIn = a'.archivedIn
  providerUID : a.providerUID = a'.providerUID
  known : ∀ s, s ∈ a.sources ↔ s ∈ a'.sources
  figures : ∀ s dst dst', a.sources.lookup s = some dst → a'.sources.lookup s = some dst' →
    ∀ ns, dst.lookup ns = dst'.lookup ns

theorem delivered_congr {D D' : List Delivery} (h : ∀ e, e ∈ D ↔ e ∈ D')
    (period source ns : String) : delivered D period source ns = delivered D' period source ns := by
  ext v
  simp only [delivered, Set.mem_ofPred_eq, h]

theorem SourceHolds.lookup_eq {D D' : List Delivery} (h : ∀ e, e ∈ D ↔ e ∈ D')
    {period source : String} {dst dst' : GoMap String String}
    (hdst : SourceHolds D period source dst) (hdst' : SourceHolds D' period source dst')
    (ns : String) : dst.lookup ns = dst'.lookup ns := by
  have hsame := delivered_congr h period source ns
  cases hl : dst.lookup ns with
  | none =>
    cases hl' : dst'.lookup ns with
    | none => rfl
    | some text' =>
      obtain ⟨v, -, hv⟩ := hdst'.present ns text' hl'
      rw [← hsame, hdst.absent ns hl] at hv
      exact absurd hv.1 (Set.notMem_empty v)
  | some text =>
    obtain ⟨v, rfl, hv⟩ := hdst.present ns text hl
    cases hl' : dst'.lookup ns with
    | none =>
      rw [hsame, hdst'.absent ns hl'] at hv
      exact absurd hv.1 (Set.notMem_empty v)
    | some text' =>
      obtain ⟨v', rfl, hv'⟩ := hdst'.present ns text' hl'
      rw [← hsame] at hv'
      rw [hv.unique hv']

/-- Deliveries determine their archive, whatever their order and however often each arrives. -/
theorem Archives.same {currentPeriod providerUID : String} {D D' : List Delivery}
    {a a' : BudgetArchive} (h : ∀ e, e ∈ D ↔ e ∈ D') (ha : Archives currentPeriod providerUID D a)
    (ha' : Archives currentPeriod providerUID D' a') : SameArchive a a' := by
  have hperiod : a.period = a'.period := by
    have hset : {p | ∃ e ∈ D, e.2.period = p} = {p | ∃ e ∈ D', e.2.period = p} := by
      ext p
      simp only [Set.mem_ofPred_eq, h]
    exact (hset ▸ ha.newest).unique ha'.newest
  have hsources' : SourcesHold D' a.period a'.sources := hperiod ▸ ha'.sources
  refine ⟨hperiod, ha.archivedIn.trans ha'.archivedIn.symm,
    ha.providerUID.trans ha'.providerUID.symm, fun s ↦ ?_, ?_⟩
  · constructor
    · intro hs
      obtain ⟨dst, hdst⟩ := AList.exists_lookup_of_mem hs
      obtain ⟨e, he, hes, hep⟩ := (ha.sources.holds s dst hdst).known
      by_contra hs'
      exact hsources'.unknown s hs' e ((h e).mp he) hes hep
    · intro hs'
      obtain ⟨dst, hdst⟩ := AList.exists_lookup_of_mem hs'
      obtain ⟨e, he, hes, hep⟩ := (hsources'.holds s dst hdst).known
      by_contra hs
      exact ha.sources.unknown s hs e ((h e).mpr he) hes hep
  · intro s dst dst' hdst hdst' ns
    exact (ha.sources.holds s dst hdst).lookup_eq h (hsources'.holds s dst' hdst') ns

/-! ## The loops of the merge -/

/-- The newest period of a pass's stale keys, empty when there are none. -/
def newestOf (l : List Delivery) : String :=
  l.foldl (fun newest e ↦ if newest < e.2.period then e.2.period else newest) ""

/-- One stale key merged into the archive of its period. -/
def mergeStale (acc : BudgetArchive × Bool) (e : Delivery) : BudgetArchive × Bool :=
  if e.2.period ≠ acc.1.period then acc
  else
    let dst := e.2.spend.entries.foldl mergeSource ((acc.1.sources.lookup e.1).getD ∅, acc.2)
    ({ acc.1 with sources := acc.1.sources.insert e.1 dst.1 }, dst.2)

/-- A stored archive of an earlier rollover, or of another provider of the same name. -/
def BudgetArchive.outdated (a : BudgetArchive) (currentPeriod providerUID : String) : Bool :=
  a.archivedIn ≠ currentPeriod ∨ (a.providerUID ≠ "" ∧ a.providerUID ≠ providerUID)

theorem mergeBudgetArchive_eq (stored : Option BudgetArchive) (stale : GoMap String StalePartial)
    (currentPeriod providerUID : String) :
    mergeBudgetArchive stored stale currentPeriod providerUID =
      let outdated := stored.any (·.outdated currentPeriod providerUID)
      let archive := if outdated then none else stored
      let renewed : Bool := newestOf stale.entries ≠ ""
        ∧ archive.all fun a ↦ a.period < newestOf stale.entries
      match if renewed then some ⟨newestOf stale.entries, currentPeriod, providerUID, ∅⟩
        else archive with
      | none => (none, outdated)
      | some a =>
        (some (stale.entries.foldl mergeStale (a, outdated || renewed)).1,
          (stale.entries.foldl mergeStale (a, outdated || renewed)).2) := rfl

theorem newestOf_spec {l : List Delivery} (hne : ∀ e ∈ l, e.2.period ≠ "") :
    (l = [] ∧ newestOf l = "") ∨ IsGreatest {p | ∃ e ∈ l, e.2.period = p} (newestOf l) := by
  rw [newestOf]
  induction l using List.reverseRecOn with
  | nil => exact Or.inl ⟨rfl, rfl⟩
  | append_singleton l e ih =>
    refine Or.inr ?_
    rw [List.foldl_append, List.foldl_cons, List.foldl_nil]
    have hl := ih fun e he ↦ hne e (List.mem_append_left _ he)
    generalize l.foldl _ "" = newest at hl ⊢
    split_ifs with hlt
    · refine ⟨⟨e, by simp, rfl⟩, ?_⟩
      rintro p ⟨e', he', rfl⟩
      rcases List.mem_append.mp he' with he' | he'
      · rcases hl with ⟨rfl, -⟩ | hl
        · exact absurd he' List.not_mem_nil
        · exact (hl.2 ⟨e', he', rfl⟩).trans hlt.le
      · rw [List.mem_singleton.mp he']
    · rcases hl with ⟨rfl, rfl⟩ | hl
      · -- The empty text is below every other one.
        refine absurd (lt_of_le_of_ne ?_ (hne e (by simp)).symm) hlt
        rw [← not_lt, String.lt_iff_toList_lt]
        exact List.not_lt_nil _
      · refine ⟨?_, ?_⟩
        · obtain ⟨e', he', hp⟩ := hl.1
          exact ⟨e', List.mem_append_left _ he', hp⟩
        · rintro p ⟨e', he', rfl⟩
          rcases List.mem_append.mp he' with he' | he'
          · exact hl.2 ⟨e', he', rfl⟩
          · rw [List.mem_singleton.mp he']
            exact not_lt.mp hlt

/-! ### One source -/

/-- A figure that is at least the delivered amount. -/
def covered (old : Option String) (v : ℚ) : Bool := (old.bind parseFloat).any fun o ↦ v ≤ o

/-- A figure after an amount was delivered for it. -/
def raised (old : Option String) : Option ℚ → Option String
  | none => old
  | some v => if covered old v then old else some (formatFixed v)

theorem mergeSource_eq (dst : GoMap String String × Bool) (e : Sigma fun _ : String ↦ ℚ) :
    mergeSource dst e = if covered (dst.1.lookup e.1) e.2 then dst
      else (dst.1.insert e.1 (formatFixed e.2), true) := rfl

/-- The loop over the amounts of a partial raises each figure by its own amount. -/
theorem lookup_foldl_mergeSource {l : List (Sigma fun _ : String ↦ ℚ)} (h : l.NodupKeys)
    (dst : GoMap String String × Bool) (ns : String) :
    (l.foldl mergeSource dst).1.lookup ns = raised (dst.1.lookup ns) (l.dlookup ns) := by
  induction l generalizing dst with
  | nil => rfl
  | cons e l ih =>
    obtain ⟨k, v⟩ := e
    rw [List.nodupKeys_cons] at h
    rw [List.foldl_cons, ih h.2, mergeSource_eq]
    by_cases hk : ns = k
    · subst hk
      rw [List.dlookup_cons_eq, List.dlookup_eq_none.mpr h.1, raised, raised]
      split_ifs with hc
      · rfl
      · exact AList.lookup_insert _
    · rw [List.dlookup_cons_ne _ _ hk]
      split_ifs with hc
      · rfl
      · rw [AList.lookup_insert_ne hk]

/-- A partial whose amounts are all covered changes nothing. -/
theorem foldl_mergeSource_of_covered {l : List (Sigma fun _ : String ↦ ℚ)}
    {dst : GoMap String String × Bool} (h : ∀ e ∈ l, covered (dst.1.lookup e.1) e.2) :
    l.foldl mergeSource dst = dst := by
  induction l with
  | nil => rfl
  | cons e l ih =>
    rw [List.foldl_cons, mergeSource_eq, if_pos (h e List.mem_cons_self)]
    exact ih fun e' he' ↦ h e' (List.mem_cons_of_mem _ he')

theorem covered_formatFixed {v w : ℚ} (hv : IsCents v) :
    covered (some (formatFixed v)) w = decide (w ≤ v) := by
  rw [covered, Option.bind_some, parseFloat_formatFixed, roundCents_of_isCents hv, Option.any_some]

/-- The greatest amount stays the greatest when a further one is delivered. -/
theorem exists_raised_eq {S : Set ℚ} {old : Option String} {v : ℚ} (hS : ∀ w ∈ S, IsCents w)
    (hnone : old = none → S = ∅)
    (hsome : ∀ text, old = some text → ∃ w, text = formatFixed w ∧ IsGreatest S w) :
    ∃ w, raised old (some v) = some (formatFixed w) ∧ IsGreatest (insert v S) w := by
  rw [raised]
  cases hold : old with
  | none =>
    rw [hnone hold]
    exact ⟨v, if_neg nofun, by simp⟩
  | some text =>
    obtain ⟨w, rfl, hw⟩ := hsome text hold
    rw [covered_formatFixed (hS w hw.1)]
    by_cases hle : v ≤ w
    · refine ⟨w, if_pos (decide_eq_true hle), Set.mem_insert_of_mem _ hw.1, ?_⟩
      rintro x (rfl | hx)
      · exact hle
      · exact hw.2 hx
    · refine ⟨v, if_neg (by simpa using hle), Set.mem_insert _ _, ?_⟩
      rintro x (rfl | hx)
      · exact le_rfl
      · exact (hw.2 hx).trans (not_le.mp hle).le

/-! ### All sources -/

/-- Only the sources of an archive change in the loop. -/
theorem foldl_mergeStale_frame (l : List Delivery) (acc : BudgetArchive × Bool) :
    (l.foldl mergeStale acc).1.period = acc.1.period
      ∧ (l.foldl mergeStale acc).1.archivedIn = acc.1.archivedIn
      ∧ (l.foldl mergeStale acc).1.providerUID = acc.1.providerUID := by
  induction l generalizing acc with
  | nil => exact ⟨rfl, rfl, rfl⟩
  | cons e l ih =>
    have hstep : (mergeStale acc e).1.period = acc.1.period
        ∧ (mergeStale acc e).1.archivedIn = acc.1.archivedIn
        ∧ (mergeStale acc e).1.providerUID = acc.1.providerUID := by
      rw [mergeStale]
      split_ifs <;> exact ⟨rfl, rfl, rfl⟩
    rw [List.foldl_cons, ← hstep.1, ← hstep.2.1, ← hstep.2.2]
    exact ih (mergeStale acc e)

section Delivery

variable {D : List Delivery} {period source : String} {e : Delivery}

theorem delivered_append (ns : String) :
    delivered (D ++ [e]) period source ns = delivered D period source ns
      ∪ {v | e.1 = source ∧ e.2.period = period ∧ e.2.spend.lookup ns = some v} := by
  ext v
  simp only [delivered, List.mem_append, List.mem_singleton, or_and_right, exists_or,
    exists_eq_left, Set.mem_union, Set.mem_ofPred_eq]

/-- A delivery of another source or period leaves the figures of a source as they are. -/
theorem SourceHolds.append_of_ne {dst : GoMap String String} (h : SourceHolds D period source dst)
    (he : e.1 = source → e.2.period ≠ period) : SourceHolds (D ++ [e]) period source dst := by
  have hset : ∀ ns, delivered (D ++ [e]) period source ns = delivered D period source ns := by
    intro ns
    rw [delivered_append, Set.union_eq_left]
    rintro v ⟨hes, hep, -⟩
    exact absurd hep (he hes)
  obtain ⟨⟨e', he', hes⟩, habsent, hpresent⟩ := h
  refine ⟨⟨e', List.mem_append_left _ he', hes⟩, fun ns hns ↦ ?_, fun ns text htext ↦ ?_⟩
  · rw [hset, habsent ns hns]
  · rw [hset]
    exact hpresent ns text htext

/-- A delivery of the source for the period raises its figures. An absent source has none. -/
theorem SourcesHold.merge_self {sources : GoMap String (GoMap String String)}
    (h : SourcesHold D period sources)
    (hcents : ∀ e ∈ D, ∀ ns v, e.2.spend.lookup ns = some v → IsCents v)
    (hperiod : e.2.period = period) (flag : Bool) :
    SourceHolds (D ++ [e]) period e.1
      (e.2.spend.entries.foldl mergeSource ((sources.lookup e.1).getD ∅, flag)).1 := by
  obtain ⟨habsent, hpresent⟩ : (∀ ns, ((sources.lookup e.1).getD ∅).lookup ns = none →
        delivered D period e.1 ns = ∅)
      ∧ ∀ ns text, ((sources.lookup e.1).getD ∅).lookup ns = some text →
        ∃ v, text = formatFixed v ∧ IsGreatest (delivered D period e.1 ns) v := by
    cases hl : sources.lookup e.1 with
    | none =>
      refine ⟨fun ns _ ↦ Set.eq_empty_iff_forall_notMem.mpr ?_, fun ns text htext ↦ nomatch htext⟩
      rintro v ⟨e', he', hes, hep, -⟩
      exact h.unknown e.1 (AList.lookup_eq_none.mp hl) e' he' hes hep
    | some dst => exact ⟨(h.holds e.1 dst hl).absent, (h.holds e.1 dst hl).present⟩
  -- A namespace the delivery names gets one more amount; any other keeps its own.
  have hnamed : ∀ ns v, e.2.spend.lookup ns = some v →
      delivered (D ++ [e]) period e.1 ns = insert v (delivered D period e.1 ns) := by
    intro ns v hv
    rw [delivered_append, hv]
    ext x
    simp [hperiod, eq_comm]
  have hother : ∀ ns, e.2.spend.lookup ns = none →
      delivered (D ++ [e]) period e.1 ns = delivered D period e.1 ns := by
    intro ns hv
    rw [delivered_append, hv]
    simp
  have hlookup : ∀ ns,
      (e.2.spend.entries.foldl mergeSource ((sources.lookup e.1).getD ∅, flag)).1.lookup ns
        = raised (((sources.lookup e.1).getD ∅).lookup ns) (e.2.spend.lookup ns) :=
    fun ns ↦ lookup_foldl_mergeSource e.2.spend.nodupKeys _ ns
  have hraised : ∀ ns v, e.2.spend.lookup ns = some v →
      ∃ w, raised (((sources.lookup e.1).getD ∅).lookup ns) (some v) = some (formatFixed w)
        ∧ IsGreatest (insert v (delivered D period e.1 ns)) w := by
    intro ns v hv
    refine exists_raised_eq ?_ (habsent ns) (hpresent ns)
    rintro w ⟨e', he', -, -, hw⟩
    exact hcents e' he' ns w hw
  refine ⟨⟨e, by simp, rfl, hperiod⟩, fun ns hns ↦ ?_, fun ns text htext ↦ ?_⟩
  · rw [hlookup] at hns
    cases hv : e.2.spend.lookup ns with
    | none =>
      rw [hv, raised] at hns
      rw [hother ns hv, habsent ns hns]
    | some v =>
      obtain ⟨w, hw, -⟩ := hraised ns v hv
      rw [hv, hw] at hns
      exact nomatch hns
  · rw [hlookup] at htext
    cases hv : e.2.spend.lookup ns with
    | none =>
      rw [hv, raised] at htext
      rw [hother ns hv]
      exact hpresent ns text htext
    | some v =>
      obtain ⟨w, hw, hgreatest⟩ := hraised ns v hv
      rw [hv, hw, Option.some_inj] at htext
      rw [hnamed ns v hv]
      exact ⟨w, htext.symm, hgreatest⟩

end Delivery

/-- One delivery extends what the sources hold. -/
theorem SourcesHold.mergeStale {D : List Delivery} {acc : BudgetArchive × Bool}
    (h : SourcesHold D acc.1.period acc.1.sources)
    (hcents : ∀ e ∈ D, ∀ ns v, e.2.spend.lookup ns = some v → IsCents v) (e : Delivery) :
    SourcesHold (D ++ [e]) acc.1.period (Kaalm.mergeStale acc e).1.sources := by
  rw [Kaalm.mergeStale]
  split_ifs with hperiod
  · -- A partial of another period is left out.
    refine ⟨fun s hs e' he' hes ↦ ?_, fun s dst hdst ↦ ?_⟩
    · rcases List.mem_append.mp he' with he' | he'
      · exact h.unknown s hs e' he' hes
      · exact List.mem_singleton.mp he' ▸ hperiod
    · exact (h.holds s dst hdst).append_of_ne fun _ ↦ hperiod
  · rw [not_not] at hperiod
    refine ⟨fun s hs e' he' hes ↦ ?_, fun s dst hdst ↦ ?_⟩
    · rw [AList.mem_insert, not_or] at hs
      rcases List.mem_append.mp he' with he' | he'
      · exact h.unknown s hs.2 e' he' hes
      · exact absurd (List.mem_singleton.mp he' ▸ hes).symm hs.1
    · rw [AList.lookup_insert_ite] at hdst
      by_cases hs : s = e.1
      · rw [if_pos hs, Option.some_inj] at hdst
        rw [hs, ← hdst]
        exact h.merge_self hcents hperiod _
      · rw [if_neg hs] at hdst
        exact (h.holds s dst hdst).append_of_ne fun hes ↦ absurd hes.symm hs

/-- The deliveries of a pass extend what the sources hold. -/
theorem SourcesHold.foldl_mergeStale {D : List Delivery} {acc : BudgetArchive × Bool}
    (h : SourcesHold D acc.1.period acc.1.sources) {l : List Delivery}
    (hcents : ∀ e ∈ D ++ l, ∀ ns v, e.2.spend.lookup ns = some v → IsCents v) :
    SourcesHold (D ++ l) acc.1.period (l.foldl Kaalm.mergeStale acc).1.sources := by
  induction l generalizing D acc with
  | nil => rwa [List.append_nil, List.foldl_nil]
  | cons e l ih =>
    have hstep := h.mergeStale (fun e he ↦ hcents e (List.mem_append_left _ he)) e
    have hperiod : (Kaalm.mergeStale acc e).1.period = acc.1.period :=
      (foldl_mergeStale_frame [e] acc).1
    rw [List.append_cons] at hcents ⊢
    rw [List.foldl_cons, ← hperiod]
    exact ih (hperiod ▸ hstep) hcents

/-- Delivering again what was delivered raises no figure. -/
theorem SourcesHold.mergeStale_of_mem {D : List Delivery} {acc : BudgetArchive × Bool}
    (h : SourcesHold D acc.1.period acc.1.sources)
    (hcents : ∀ e ∈ D, ∀ ns v, e.2.spend.lookup ns = some v → IsCents v) {e : Delivery}
    (he : e ∈ D) : (Kaalm.mergeStale acc e).2 = acc.2 := by
  rw [Kaalm.mergeStale]
  split_ifs with hperiod
  · rfl
  rw [not_not] at hperiod
  have hmem : e.1 ∈ acc.1.sources := by
    by_contra hs
    exact h.unknown e.1 hs e he rfl hperiod
  obtain ⟨dst, hdst⟩ := AList.exists_lookup_of_mem hmem
  have hholds := h.holds e.1 dst hdst
  have hcovered : ∀ x ∈ e.2.spend.entries, covered (dst.lookup x.1) x.2 := by
    rintro ⟨ns, v⟩ hx
    have hv : e.2.spend.lookup ns = some v := AList.mem_lookup_iff.mpr hx
    have hdelivered : v ∈ delivered D acc.1.period e.1 ns := ⟨e, he, rfl, hperiod, hv⟩
    cases hl : dst.lookup ns with
    | none =>
      rw [hholds.absent ns hl] at hdelivered
      exact absurd hdelivered (Set.notMem_empty v)
    | some text =>
      obtain ⟨w, rfl, hw⟩ := hholds.present ns text hl
      obtain ⟨e', he', -, -, hw'⟩ := hw.1
      rw [covered_formatFixed (hcents e' he' ns w hw'), decide_eq_true_iff]
      exact hw.2 hdelivered
  show (e.2.spend.entries.foldl mergeSource ((acc.1.sources.lookup e.1).getD ∅, acc.2)).2 = acc.2
  rw [hdst, Option.getD_some, foldl_mergeSource_of_covered hcovered]

theorem SourcesHold.foldl_mergeStale_of_subset {D : List Delivery} {acc : BudgetArchive × Bool}
    (h : SourcesHold D acc.1.period acc.1.sources) {l : List Delivery}
    (hcents : ∀ e ∈ D, ∀ ns v, e.2.spend.lookup ns = some v → IsCents v) (hl : ∀ e ∈ l, e ∈ D) :
    (l.foldl Kaalm.mergeStale acc).2 = acc.2 := by
  induction l generalizing D acc with
  | nil => rfl
  | cons e l ih =>
    have he := hl e List.mem_cons_self
    have hstep := h.mergeStale hcents e
    have hperiod : (Kaalm.mergeStale acc e).1.period = acc.1.period :=
      (foldl_mergeStale_frame [e] acc).1
    have hcents' : ∀ e' ∈ D ++ [e], ∀ ns v, e'.2.spend.lookup ns = some v → IsCents v := by
      intro e' he'
      rcases List.mem_append.mp he' with he' | he'
      · exact hcents e' he'
      · exact List.mem_singleton.mp he' ▸ hcents e he
    rw [List.foldl_cons, ih (hperiod ▸ hstep) hcents' fun e' he' ↦
      List.mem_append_left _ (hl e' (List.mem_cons_of_mem _ he')), h.mergeStale_of_mem hcents he]

/-! ## A pass, and the passes of a rollover -/

/-- The archive of a list of deliveries, absent while nothing was delivered. -/
def Archived (currentPeriod providerUID : String) (D : List Delivery) (o : Option BudgetArchive) :
    Prop :=
  (D = [] ∧ o = none) ∨ ∃ a, o = some a ∧ Archives currentPeriod providerUID D a

/-- The stored archive after the passes of a rollover. -/
def mergeBudgetPasses (currentPeriod providerUID : String) (stored : Option BudgetArchive)
    (passes : List (GoMap String StalePartial)) : Option BudgetArchive :=
  passes.foldl (fun stored stale ↦ (mergeBudgetArchive stored stale currentPeriod providerUID).1)
    stored

/-- What the passes delivered. -/
def deliveries (passes : List (GoMap String StalePartial)) : List Delivery :=
  passes.flatMap (·.entries)

section Pass

variable {currentPeriod providerUID : String} {D : List Delivery}

theorem Archives.not_outdated {a : BudgetArchive} (h : Archives currentPeriod providerUID D a) :
    a.outdated currentPeriod providerUID = false := by
  rw [BudgetArchive.outdated, h.archivedIn, h.providerUID]
  simp

/-- The loop of a pass over an archive whose sources hold the deliveries so far. -/
theorem archives_foldl_mergeStale {l : List Delivery} {a : BudgetArchive} (flag : Bool)
    (hstale : ∀ e ∈ D ++ l, IsStale currentPeriod e.2)
    (harchivedIn : a.archivedIn = currentPeriod) (huid : a.providerUID = providerUID)
    (hnewest : IsGreatest {p | ∃ e ∈ D ++ l, e.2.period = p} a.period)
    (hsources : SourcesHold D a.period a.sources) :
    Archives currentPeriod providerUID (D ++ l) (l.foldl mergeStale (a, flag)).1 := by
  obtain ⟨hperiod, harchivedIn', huid'⟩ := foldl_mergeStale_frame l (a, flag)
  refine ⟨harchivedIn'.trans harchivedIn, huid'.trans huid, ?_, ?_⟩
  · rw [hperiod]
    exact hnewest
  · rw [hperiod]
    have hsources' : SourcesHold D (a, flag).1.period (a, flag).1.sources := hsources
    exact hsources'.foldl_mergeStale fun e he ↦ (hstale e he).cents

/-- A pass adds its stale keys to what the archive holds. An archive left over from before the
rollover counts as none. -/
theorem archived_mergeBudgetArchive {stored : Option BudgetArchive}
    {stale : GoMap String StalePartial}
    (h : (D = [] ∧ ∀ a ∈ stored, a.outdated currentPeriod providerUID = true)
      ∨ ∃ a, stored = some a ∧ Archives currentPeriod providerUID D a)
    (hstale : ∀ e ∈ D ++ stale.entries, IsStale currentPeriod e.2) :
    Archived currentPeriod providerUID (D ++ stale.entries)
      (mergeBudgetArchive stored stale currentPeriod providerUID).1 := by
  have hnewest := newestOf_spec (l := stale.entries) fun e he ↦
    (hstale e (List.mem_append_right _ he)).period_ne
  have hne : stale.entries ≠ [] → newestOf stale.entries ≠ "" := by
    intro hl hempty
    rcases hnewest with ⟨hnil, -⟩ | ⟨⟨e, he, hp⟩, -⟩
    · exact hl hnil
    · exact (hstale e (List.mem_append_right _ he)).period_ne (hp.trans hempty)
  rw [mergeBudgetArchive_eq]
  rcases h with ⟨rfl, hdropped⟩ | ⟨a, rfl, ha⟩
  · have hnone : (if stored.any (·.outdated currentPeriod providerUID) = true then none else stored)
        = none := by
      cases stored with
      | none => rfl
      | some a => exact if_pos (hdropped a rfl)
    simp only [hnone, Option.all_none, and_true]
    rcases hnewest with ⟨hnil, hempty⟩ | hgreatest
    · simp only [hempty, ne_eq, not_true_eq_false, decide_false, Bool.false_eq_true, if_false]
      exact Or.inl ⟨hnil, rfl⟩
    · have hl : stale.entries ≠ [] := by
        obtain ⟨e, he, -⟩ := hgreatest.1
        exact List.ne_nil_of_mem he
      simp only [hne hl, ne_eq, not_false_eq_true, decide_true, if_true]
      refine Or.inr ⟨_, rfl, archives_foldl_mergeStale _ hstale rfl rfl hgreatest ?_⟩
      exact ⟨fun _ _ e he ↦ absurd he List.not_mem_nil, fun s dst hdst ↦ nomatch hdst⟩
  · simp only [Option.any_some, ha.not_outdated, Bool.false_eq_true, if_false, Option.all_some,
      Bool.false_or]
    by_cases hlt : a.period < newestOf stale.entries
    · -- A newer period replaces the archive; nothing delivered before belongs to it.
      rcases hnewest with ⟨hnil, hempty⟩ | hgreatest
      · rw [hempty] at hlt
        exact absurd (String.lt_iff_toList_lt.mp hlt) (List.not_lt_nil _)
      have hl : stale.entries ≠ [] := by
        obtain ⟨e, he, -⟩ := hgreatest.1
        exact List.ne_nil_of_mem he
      simp only [hlt, decide_true, and_true, hne hl, ne_eq, not_false_eq_true, if_true]
      refine Or.inr ⟨_, rfl, archives_foldl_mergeStale _ hstale rfl rfl ⟨?_, ?_⟩ ⟨?_, ?_⟩⟩
      · obtain ⟨e, he, hp⟩ := hgreatest.1
        exact ⟨e, List.mem_append_right _ he, hp⟩
      · rintro p ⟨e, he, rfl⟩
        rcases List.mem_append.mp he with he | he
        · exact (ha.newest.2 ⟨e, he, rfl⟩).trans hlt.le
        · exact hgreatest.2 ⟨e, he, rfl⟩
      · intro s _ e he _ hp
        exact absurd (ha.newest.2 ⟨e, he, rfl⟩) (not_le.mpr (hp ▸ hlt))
      · exact fun s dst hdst ↦ nomatch hdst
    · simp only [hlt, decide_false, Bool.false_eq_true, and_false, if_false]
      refine Or.inr ⟨_, rfl, archives_foldl_mergeStale _ hstale ha.archivedIn ha.providerUID
        ⟨?_, ?_⟩ ha.sources⟩
      · obtain ⟨e, he, hp⟩ := ha.newest.1
        exact ⟨e, List.mem_append_left _ he, hp⟩
      · rintro p ⟨e, he, rfl⟩
        rcases List.mem_append.mp he with he | he
        · exact ha.newest.2 ⟨e, he, rfl⟩
        · rcases hnewest with ⟨hnil, -⟩ | hgreatest
          · rw [hnil] at he
            exact absurd he List.not_mem_nil
          · exact (hgreatest.2 ⟨e, he, rfl⟩).trans (not_lt.mp hlt)

theorem Archived.starts {o : Option BudgetArchive} (h : Archived currentPeriod providerUID D o) :
    (D = [] ∧ ∀ a ∈ o, a.outdated currentPeriod providerUID = true)
      ∨ ∃ a, o = some a ∧ Archives currentPeriod providerUID D a := by
  rcases h with ⟨hD, rfl⟩ | h
  · exact Or.inl ⟨hD, nofun⟩
  · exact Or.inr h

/-- The passes of a rollover archive what they delivered. -/
theorem archived_mergeBudgetPasses {stored : Option BudgetArchive}
    {passes : List (GoMap String StalePartial)}
    (h : (D = [] ∧ ∀ a ∈ stored, a.outdated currentPeriod providerUID = true)
      ∨ ∃ a, stored = some a ∧ Archives currentPeriod providerUID D a)
    (hne : passes ≠ []) (hstale : ∀ e ∈ D ++ deliveries passes, IsStale currentPeriod e.2) :
    Archived currentPeriod providerUID (D ++ deliveries passes)
      (mergeBudgetPasses currentPeriod providerUID stored passes) := by
  induction passes generalizing D stored with
  | nil => exact absurd rfl hne
  | cons pass passes ih =>
    rw [deliveries, List.flatMap_cons, ← deliveries, ← List.append_assoc] at hstale ⊢
    have hpass : Archived currentPeriod providerUID (D ++ pass.entries)
        (mergeBudgetArchive stored pass currentPeriod providerUID).1 :=
      archived_mergeBudgetArchive h fun e he ↦ hstale e (List.mem_append_left _ he)
    cases passes with
    | nil =>
      rw [deliveries, List.flatMap_nil, List.append_nil]
      exact hpass
    | cons pass' passes => exact ih hpass.starts (List.cons_ne_nil _ _) hstale

/-- A pass whose keys were all delivered before reports no change and leaves the archive. -/
theorem mergeBudgetArchive_of_subset {o : Option BudgetArchive} {stale : GoMap String StalePartial}
    (h : Archived currentPeriod providerUID D o) (hstale : ∀ e ∈ D, IsStale currentPeriod e.2)
    (hsubset : ∀ e ∈ stale.entries, e ∈ D) :
    (mergeBudgetArchive o stale currentPeriod providerUID).2 = false := by
  rw [mergeBudgetArchive_eq]
  rcases h with ⟨rfl, rfl⟩ | ⟨a, rfl, ha⟩
  · have hnil : stale.entries = [] := List.eq_nil_iff_forall_not_mem.mpr fun e he ↦
      absurd (hsubset e he) List.not_mem_nil
    rw [hnil]
    rfl
  · have hlt : ¬ a.period < newestOf stale.entries := by
      rcases newestOf_spec (l := stale.entries) fun e he ↦ (hstale e (hsubset e he)).period_ne with
        ⟨-, hempty⟩ | ⟨⟨e, he, hp⟩, -⟩
      · rw [hempty, String.lt_iff_toList_lt]
        exact List.not_lt_nil _
      · exact not_lt.mpr (hp ▸ ha.newest.2 ⟨e, hsubset e he, rfl⟩)
    simp only [Option.any_some, ha.not_outdated, Bool.false_eq_true, if_false, Option.all_some, hlt,
      decide_false, and_false, Bool.false_or]
    have hsources : SourcesHold D (a, false).1.period (a, false).1.sources := ha.sources
    exact hsources.foldl_mergeStale_of_subset (fun e he ↦ (hstale e he).cents) hsubset

end Pass

/-- Two stored archives are the same Go value. -/
def SameStored : Option BudgetArchive → Option BudgetArchive → Prop
  | none, none => True
  | some a, some a' => SameArchive a a'
  | _, _ => False

theorem Archived.same {currentPeriod providerUID : String} {D D' : List Delivery}
    {o o' : Option BudgetArchive} (h : ∀ e, e ∈ D ↔ e ∈ D')
    (ho : Archived currentPeriod providerUID D o) (ho' : Archived currentPeriod providerUID D' o') :
    SameStored o o' := by
  rcases ho with ⟨rfl, rfl⟩ | ⟨a, rfl, ha⟩
  · rcases ho' with ⟨rfl, rfl⟩ | ⟨a', rfl, ha'⟩
    · exact True.intro
    · obtain ⟨e, he, -⟩ := ha'.newest.1
      exact absurd ((h e).mpr he) List.not_mem_nil
  · rcases ho' with ⟨rfl, rfl⟩ | ⟨a', rfl, ha'⟩
    · obtain ⟨e, he, -⟩ := ha.newest.1
      exact absurd ((h e).mp he) List.not_mem_nil
    · exact ha.same h ha'

/-- The archive merge does not depend on how the stale partials of a rollover are split over passes
or in which order the passes run. The archive holds the newest period, and per source and namespace
the greatest amount delivered for it; running a pass again changes nothing. -/
theorem mergeBudgetPasses_order_independent {currentPeriod providerUID : String}
    {stored stored' : Option BudgetArchive}
    (hstored : ∀ a ∈ stored, a.outdated currentPeriod providerUID = true)
    (hstored' : ∀ a ∈ stored', a.outdated currentPeriod providerUID = true)
    {passes passes' : List (GoMap String StalePartial)} (hne : passes ≠ []) (hne' : passes' ≠ [])
    (hstale : ∀ e ∈ deliveries passes, IsStale currentPeriod e.2)
    (hperm : (deliveries passes).Perm (deliveries passes')) :
    SameStored (mergeBudgetPasses currentPeriod providerUID stored passes)
        (mergeBudgetPasses currentPeriod providerUID stored' passes')
      ∧ Archived currentPeriod providerUID (deliveries passes)
        (mergeBudgetPasses currentPeriod providerUID stored passes)
      ∧ ∀ pass ∈ passes,
        SameStored (mergeBudgetArchive (mergeBudgetPasses currentPeriod providerUID stored passes)
            pass currentPeriod providerUID).1
          (mergeBudgetPasses currentPeriod providerUID stored passes)
        ∧ (mergeBudgetArchive (mergeBudgetPasses currentPeriod providerUID stored passes)
            pass currentPeriod providerUID).2 = false := by
  have hrun : Archived currentPeriod providerUID (deliveries passes)
      (mergeBudgetPasses currentPeriod providerUID stored passes) :=
    archived_mergeBudgetPasses (D := []) (Or.inl ⟨rfl, hstored⟩) hne hstale
  have hrun' : Archived currentPeriod providerUID (deliveries passes')
      (mergeBudgetPasses currentPeriod providerUID stored' passes') :=
    archived_mergeBudgetPasses (D := []) (Or.inl ⟨rfl, hstored'⟩) hne' fun e he ↦
      hstale e (hperm.mem_iff.mpr he)
  refine ⟨hrun.same (fun e ↦ hperm.mem_iff) hrun', hrun, fun pass hpass ↦ ?_⟩
  have hsubset : ∀ e ∈ pass.entries, e ∈ deliveries passes := fun e he ↦
    List.mem_flatMap.mpr ⟨pass, hpass, he⟩
  have hagain : Archived currentPeriod providerUID (deliveries passes ++ pass.entries)
      (mergeBudgetArchive (mergeBudgetPasses currentPeriod providerUID stored passes) pass
        currentPeriod providerUID).1 := by
    refine archived_mergeBudgetArchive hrun.starts fun e he ↦ ?_
    rcases List.mem_append.mp he with he | he
    · exact hstale e he
    · exact hstale e (hsubset e he)
  refine ⟨hagain.same (fun e ↦ ?_) hrun, mergeBudgetArchive_of_subset hrun hstale hsubset⟩
  rw [List.mem_append, or_iff_left_of_imp (hsubset e)]

/-- A pass that delivers one partial. -/
def onePartial (source period : String) (v : ℚ) : GoMap String StalePartial :=
  AList.insert source ⟨period, AList.insert "team-a" v ∅⟩ ∅

theorem isStale_onePartial {source period : String} {v : ℚ} (hp : period ≠ "" ∧ period < "2026-04")
    (hv : IsCents v) : ∀ e ∈ (onePartial source period v).entries, IsStale "2026-04" e.2 := by
  intro e he
  have he' : e = ⟨source, ⟨period, AList.insert "team-a" v ∅⟩⟩ := List.mem_singleton.mp he
  subst he'
  refine ⟨hp.1, hp.2, fun ns w hw ↦ ?_⟩
  rw [AList.lookup_insert_ite] at hw
  split_ifs at hw
  · exact Option.some_inj.mp hw ▸ hv
  · exact nomatch hw

/-- The two partials of one replica and one of an older period, in the two extreme orders. -/
theorem mergeBudgetPasses_of_late_publish :
    SameStored
      (mergeBudgetPasses "2026-04" "uid-1" none [onePartial "gw-0" "2026-03" 10,
        onePartial "gw-0" "2026-03" 12, onePartial "gw-1" "2026-02" 7])
      (mergeBudgetPasses "2026-04" "uid-1" none [onePartial "gw-1" "2026-02" 7,
        onePartial "gw-0" "2026-03" 12, onePartial "gw-0" "2026-03" 10]) := by
  refine (mergeBudgetPasses_order_independent (fun a h ↦ absurd h (Option.not_mem_none a))
    (fun a h ↦ absurd h (Option.not_mem_none a)) (List.cons_ne_nil _ _) (List.cons_ne_nil _ _)
    ?_ ?_).1
  · intro e he
    obtain ⟨pass, hpass, he⟩ := List.mem_flatMap.mp he
    rcases List.mem_cons.mp hpass with rfl | hpass
    · exact isStale_onePartial (by decide) ⟨1000, by norm_num⟩ e he
    rcases List.mem_cons.mp hpass with rfl | hpass
    · exact isStale_onePartial (by decide) ⟨1200, by norm_num⟩ e he
    · rw [List.mem_singleton.mp hpass] at he
      exact isStale_onePartial (by decide) ⟨700, by norm_num⟩ e he
  · exact (List.reverse_perm _).symm

end Kaalm
