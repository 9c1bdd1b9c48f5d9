import Kaalm.Budget.Archive
import Kaalm.Budget.ReducerView

/-!
# A reducer behind its replicas

Around a rollover the clocks of the replicas and of the reducer disagree. The walk takes every
partial of another period for an old one, so a replica whose clock is ahead loses its new-period
partial to the archive (`reconcileBudget_ahead`). As long as no partial is ahead of the reducer, a
pass deletes a live replica's partial and writes an archive only for an earlier period.

Keys of one scheme have one length, which tells the schemes apart, and sort by time.
-/

namespace Kaalm

/-- A period key of the scheme of the current one that is not before it. -/
def notEarlier (currentPeriod period : String) : Bool :=
  period.length = currentPeriod.length ∧ currentPeriod ≤ period

/-- A partial that is not tagged with another provider's UID. -/
def ParsedPartial.ours (q : ParsedPartial) (providerUID : String) : Bool :=
  q.providerUID = "" ∨ q.providerUID = providerUID

/-- No partial of the provider is for a later period. -/
def noneAhead (data : GoMap String String) (currentPeriod providerUID : String) : Bool :=
  data.entries.all fun e ↦ e.1 = canonicalKey ∨ e.1 = previousKey
    ∨ (parseBudgetPartial e.2).all fun q ↦
      q.ours providerUID → notEarlier currentPeriod q.period → q.period = currentPeriod

/-! ## What is archived -/

/-- The walk archives the partial of this key. -/
def Archivable (currentPeriod providerUID : String) (e : Sigma fun _ : String ↦ String)
    (sp : StalePartial) : Prop :=
  e.1 ≠ canonicalKey ∧ e.1 ≠ previousKey ∧ ∃ q, parseBudgetPartial e.2 = some q
    ∧ q.ours providerUID ∧ q.period ≠ currentPeriod ∧ sp = ⟨q.period, q.spend⟩

section Walk

variable (liveGateways : String → Bool) (currentPeriod providerUID : String)

theorem stale_key (f : BudgetFold) (e : Sigma fun _ : String ↦ String) :
    (f.key liveGateways currentPeriod providerUID e).stale = f.stale
      ∨ ∃ sp, Archivable currentPeriod providerUID e sp
        ∧ (f.key liveGateways currentPeriod providerUID e).stale = f.stale.insert e.1 sp := by
  rw [BudgetFold.key]
  by_cases hskip : e.1 = canonicalKey ∨ e.1 = previousKey
  · exact Or.inl (by rw [if_pos hskip])
  · simp only [if_neg hskip]
    obtain ⟨hcan, hprev⟩ := not_or.mp hskip
    cases hq : parseBudgetPartial e.2 with
    | none =>
      left
      simp only
      split_ifs <;> rfl
    | some q =>
      simp only
      by_cases hforeign : q.providerUID ≠ "" ∧ q.providerUID ≠ providerUID
      · exact Or.inl (by rw [if_pos hforeign]; rfl)
      · have hours : q.ours providerUID = true := by
          rw [ParsedPartial.ours, decide_eq_true_iff]
          exact (not_and_or.mp hforeign).imp not_not.mp not_not.mp
        rw [if_neg hforeign]
        by_cases hperiod : q.period = currentPeriod
        · left
          simp only [if_pos hperiod]
          split_ifs <;> rfl
        · right
          refine ⟨⟨q.period, q.spend⟩, ⟨hcan, hprev, q, hq, hours, hperiod, rfl⟩, ?_⟩
          simp only [if_neg hperiod]
          split_ifs <;> rfl

theorem stale_foldl_key (l : List (Sigma fun _ : String ↦ String)) (f : BudgetFold)
    (source : String)
    (sp : StalePartial)
    (h : (l.foldl (BudgetFold.key liveGateways currentPeriod providerUID) f).stale.lookup source
      = some sp) :
    f.stale.lookup source = some sp
      ∨ ∃ e ∈ l, e.1 = source ∧ Archivable currentPeriod providerUID e sp := by
  induction l generalizing f with
  | nil => exact Or.inl h
  | cons e l ih =>
    rcases ih _ h with h | ⟨e', he', hsource, harchivable⟩
    · rcases stale_key liveGateways currentPeriod providerUID f e with hsame
        | ⟨sp', harchivable, hinsert⟩
      · exact Or.inl (hsame ▸ h)
      · rw [hinsert, AList.lookup_insert_ite] at h
        split_ifs at h with hsource
        · obtain rfl := Option.some.inj h
          exact Or.inr ⟨e, List.mem_cons_self, hsource.symm, harchivable⟩
        · exact Or.inl h
    · exact Or.inr ⟨e', List.mem_cons_of_mem _ he', hsource, harchivable⟩

variable {liveGateways currentPeriod providerUID}

/-- Every archived partial was stored under a key that the walk takes for an old one. -/
theorem archivable_of_stale {data : GoMap String String} {e : Delivery}
    (h : e ∈ (foldBudgetKeys data liveGateways currentPeriod providerUID).stale.entries) :
    ∃ e' ∈ data.entries, Archivable currentPeriod providerUID e' e.2 := by
  have hlookup : (foldBudgetKeys data liveGateways currentPeriod providerUID).stale.lookup e.1
      = some e.2 := AList.mem_lookup_iff.mpr h
  rcases stale_foldl_key liveGateways currentPeriod providerUID data.entries
    { data := data } e.1 e.2
    hlookup with hnone | ⟨e', he', -, h'⟩
  · exact absurd hnone AList.lookup_empty_ne
  · exact ⟨e', he', h'⟩

end Walk

/-! ## What is written -/

theorem exists_newestOf {l : List Delivery} (h : newestOf l ≠ "") :
    ∃ e ∈ l, e.2.period = newestOf l := by
  rw [newestOf] at h ⊢
  induction l using List.reverseRecOn with
  | nil => exact absurd rfl h
  | append_singleton l e ih =>
    rw [List.foldl_append, List.foldl_cons, List.foldl_nil] at h ⊢
    split_ifs at h ⊢
    · exact ⟨e, by simp, rfl⟩
    · obtain ⟨e', he', hperiod⟩ := ih h
      exact ⟨e', List.mem_append_left _ he', hperiod⟩

/-- A merge changes only figures of the archive's own period. -/
theorem exists_of_foldl_mergeStale {l : List Delivery} {a : BudgetArchive}
    (h : (l.foldl mergeStale (a, false)).2 = true) : ∃ e ∈ l, e.2.period = a.period := by
  by_contra hnone
  rw [not_exists] at hnone
  have hsame : l.foldl mergeStale (a, false) = (a, false) := by
    clear h
    induction l with
    | nil => rfl
    | cons e l ih =>
      have hne : e.2.period ≠ a.period := fun heq ↦ hnone e ⟨List.mem_cons_self, heq⟩
      rw [List.foldl_cons, mergeStale, if_pos hne]
      exact ih fun e' he' ↦ hnone e' ⟨List.mem_cons_of_mem _ he'.1, he'.2⟩
  rw [hsame] at h
  cases h

/-- An archive that is written is for a period that one of the stale partials has. -/
theorem exists_of_mergeBudgetArchive {stored : Option BudgetArchive}
    {stale : GoMap String StalePartial}
    {currentPeriod providerUID : String} {a : BudgetArchive}
    (h : (mergeBudgetArchive stored stale currentPeriod providerUID).1 = some a)
    (hwritten : (mergeBudgetArchive stored stale currentPeriod providerUID).2 = true
      ∨ stored = none) :
    ∃ e ∈ stale.entries, e.2.period = a.period := by
  rw [mergeBudgetArchive_eq] at h hwritten
  dsimp only at h hwritten
  generalize hold :
    (stored.any fun a ↦ a.outdated currentPeriod providerUID) = outdated at h hwritten
  by_cases hrenewed : newestOf stale.entries ≠ "" ∧
      (if outdated = true then none else stored).all (fun a ↦ a.period < newestOf stale.entries)
        = true
  · rw [decide_eq_true hrenewed, if_pos rfl] at h
    have hperiod : a.period = newestOf stale.entries := by
      rw [← Option.some.inj h]
      exact (foldl_mergeStale_frame stale.entries _).1
    rw [hperiod]
    exact exists_newestOf hrenewed.1
  · rw [decide_eq_false hrenewed, if_neg Bool.false_ne_true] at h hwritten
    cases hstored : stored with
    | none =>
      rw [hstored] at h
      split_ifs at h
    | some a' =>
      cases houtdated : outdated with
      | true =>
        rw [houtdated, if_pos rfl] at h
        cases h
      | false =>
        rw [houtdated, hstored, if_neg Bool.false_ne_true] at h hwritten
        have hperiod : a.period = a'.period := by
          rw [← Option.some.inj h]
          exact (foldl_mergeStale_frame stale.entries _).1
        rw [hperiod]
        exact exists_of_foldl_mergeStale (hwritten.resolve_right (Option.some_ne_none a'))

/-- A codec for concrete passes: the text of an archive is its period, and it was made in August. -/
def augustCodec : ArchiveCodec := ⟨fun a ↦ a.period, fun raw ↦ some ⟨raw, "2026-08", "uid-1", ∅⟩⟩

/-- One replica's partial beside the archive of a period. -/
def storedPartial (period archived : String) : ConfigMap where
  data := AList.ofEntries [⟨"gw-1", (BudgetPartial.mk period
    (AList.ofEntries [⟨"team-a", "1.50"⟩]) false "uid-1").marshalJSON⟩, ⟨previousKey, archived⟩]
  label := spendLabelBudget

section Pass

variable {codec : ArchiveCodec} {cm : ConfigMap} {liveGateways : String → Bool}
  {currentPeriod providerUID : String}

/-- The archive after the writes of a pass. -/
theorem lookup_writeArchive_previous {data : GoMap String String}
    {stale : GoMap String StalePartial} :
    (writeArchive codec data stale currentPeriod providerUID).1.lookup previousKey
        = data.lookup previousKey
      ∨ (writeArchive codec data stale currentPeriod providerUID).1.lookup previousKey = none
      ∨ ∃ a, (writeArchive codec data stale currentPeriod providerUID).1.lookup previousKey
          = some (codec.marshal a) ∧ ∃ e ∈ stale.entries, e.2.period = a.period := by
  rw [writeArchive]
  split_ifs with hwrite
  · right
    cases hmerged :
      (mergeBudgetArchive (parseBudgetArchive codec ((data.lookup previousKey).getD ""))
      stale currentPeriod providerUID).1 with
    | none => exact Or.inl (AList.lookup_erase _ _)
    | some a =>
      exact Or.inr ⟨a, AList.lookup_insert _,
        exists_of_mergeBudgetArchive hmerged (hwrite.imp id And.right)⟩
  · exact Or.inl rfl

variable (cm liveGateways currentPeriod providerUID) in
/-- Up to the archive a pass leaves the stored archive alone. -/
theorem lookup_written_previous :
    (writeCanonical ((foldBudgetKeys cm.data liveGateways currentPeriod providerUID).writeRetired
        currentPeriod providerUID)
        (foldBudgetKeys cm.data liveGateways currentPeriod providerUID).rollUp).1.lookup previousKey
      = cm.data.lookup previousKey := by
  rw [lookup_writeCanonical, if_neg (by decide), BudgetFold.writeRetired, AList.lookup_ite_insert,
    if_neg (fun h ↦ absurd h.1 (by decide)), lookup_foldBudgetKeys_data]
  cases cm.data.lookup previousKey with
  | none => rfl
  | some raw => rw [Option.filter_some, if_pos (by rw [deletes, if_pos (Or.inr rfl)]; rfl)]

/-- The partial of a live replica stays unless the walk takes it for an old one. -/
theorem lookup_reducedData_of_live {k raw : String} {q : ParsedPartial} (hcan : k ≠ canonicalKey)
    (hprev : k ≠ previousKey) (hret : k ≠ retiredKey) (hlive : liveGateways k = true)
    (hraw : cm.data.lookup k = some raw) (hq : parseBudgetPartial raw = some q)
    (hours : q.ours providerUID = true) (hperiod : q.period = currentPeriod) :
    (reducedData codec cm liveGateways currentPeriod providerUID).1.lookup k = some raw := by
  have hkept : deletes liveGateways currentPeriod providerUID k raw = false := by
    have hown : ¬ (q.providerUID ≠ "" ∧ q.providerUID ≠ providerUID) := fun h ↦
      (of_decide_eq_true hours).elim h.1 h.2
    rw [deletes, if_neg (not_or.mpr ⟨hcan, hprev⟩), hq]
    simp [hown, hperiod, hlive]
  rw [lookup_reducedData codec cm hprev, if_neg hcan, BudgetFold.writeRetired,
    AList.lookup_ite_insert, if_neg (fun h ↦ hret h.1), lookup_foldBudgetKeys_data, hraw,
      Option.filter_some, hkept]
  rfl

variable (codec liveGateways) in
/-- As long as no partial is ahead of the reducer, a pass deletes a live replica's partial only for
an earlier period, and an archive that it writes is for an earlier period. -/
theorem reconcileBudget_of_noneAhead (h : noneAhead cm.data currentPeriod providerUID) :
    (∀ k raw q, k ≠ canonicalKey → k ≠ previousKey → k ≠ retiredKey → liveGateways k = true →
        cm.data.lookup k = some raw → parseBudgetPartial raw = some q → q.ours providerUID →
        notEarlier currentPeriod q.period →
        ((reconcileBudget codec cm liveGateways currentPeriod providerUID).getD cm).data.lookup k
          = some raw)
      ∧ (((reconcileBudget codec cm liveGateways currentPeriod providerUID).getD cm).data.lookup
            previousKey = cm.data.lookup previousKey
        ∨ ((reconcileBudget codec cm liveGateways currentPeriod providerUID).getD cm).data.lookup
            previousKey = none
        ∨ ∃ a, ((reconcileBudget codec cm liveGateways currentPeriod providerUID).getD
          cm).data.lookup
            previousKey = some (codec.marshal a) ∧ notEarlier currentPeriod a.period = false) := by
  have hahead : ∀ e ∈ cm.data.entries, e.1 ≠ canonicalKey → e.1 ≠ previousKey → ∀ q,
      parseBudgetPartial e.2 = some q → q.ours providerUID = true →
      notEarlier currentPeriod q.period = true → q.period = currentPeriod := by
    intro e he hcan hprev q hq
    have hall := of_decide_eq_true (List.all_eq_true.mp h e he)
    rw [hq, Option.all_some, decide_eq_true_iff] at hall
    exact (hall.resolve_left hcan).resolve_left hprev
  by_cases hcurrent : currentPeriod = ""
  · have hnone : reconcileBudget codec cm liveGateways currentPeriod providerUID = none := by
      rw [reconcileBudget, if_pos hcurrent]
    rw [hnone, Option.getD_none]
    exact ⟨fun k raw q _ _ _ _ hraw _ _ _ ↦ hraw, Or.inl rfl⟩
  · rw [data_reconcileBudget codec cm hcurrent]
    refine ⟨fun k raw q hcan hprev hret hlive hraw hq hours hlate ↦ ?_, ?_⟩
    · have hperiod := hahead ⟨k, raw⟩ (AList.mem_lookup_iff.mp hraw) hcan hprev q hq hours hlate
      exact lookup_reducedData_of_live hcan hprev hret hlive hraw hq hours hperiod
    · rw [← lookup_written_previous cm liveGateways currentPeriod providerUID]
      refine lookup_writeArchive_previous.imp_right (Or.imp_right ?_)
      rintro ⟨a, ha, e, he, hperiod⟩
      refine ⟨a, ha, ?_⟩
      obtain ⟨e', he', hcan, hprev, q, hq, hours, hne, hsp⟩ := archivable_of_stale he
      rw [← hperiod, hsp]
      exact eq_false_of_ne_true fun hlate ↦ hne (hahead e' he' hcan hprev q hq hours hlate)

end Pass

/-- A late July partial, and the archive of June. -/
theorem reconcileBudget_late :
    noneAhead (storedPartial "2026-07" "2026-06").data "2026-08" "uid-1"
      ∧ ((reconcileBudget augustCodec (storedPartial "2026-07" "2026-06") (fun _ ↦ true) "2026-08"
          "uid-1").getD (storedPartial "2026-07" "2026-06")).data.lookup previousKey
            = some "2026-07"
      ∧ notEarlier "2026-08" "2026-07" = false := by
  refine ⟨by decide +kernel, by decide +kernel, ?_⟩
  have hahead : noneAhead (storedPartial "2026-07" "2026-06").data "2026-08" "uid-1" := by
    decide +kernel
  have hresult : ((reconcileBudget augustCodec (storedPartial "2026-07" "2026-06") (fun _ ↦ true)
      "2026-08" "uid-1").getD (storedPartial "2026-07" "2026-06")).data.lookup previousKey
        = some "2026-07" := by
    decide +kernel
  rcases (reconcileBudget_of_noneAhead augustCodec (fun _ ↦ true) hahead).2 with hsame | hnone
    | ⟨a, ha, hearlier⟩
  · exact absurd (hresult.symm.trans hsame) (by decide +kernel)
  · exact absurd (hresult.symm.trans hnone) (by decide +kernel)
  · rw [hresult] at ha
    rw [Option.some.inj ha]
    exact hearlier

/-- A live replica whose clock has entered September, with a reducer that is still in August: its
partial is deleted, and an archive of September takes the place of that of July. -/
theorem reconcileBudget_ahead :
    notEarlier "2026-08" "2026-09" = true
      ∧ ((reconcileBudget augustCodec (storedPartial "2026-09" "2026-07") (fun _ ↦ true) "2026-08"
          "uid-1").getD (storedPartial "2026-09" "2026-07")).data.lookup "gw-1" = none
      ∧ ((reconcileBudget augustCodec (storedPartial "2026-09" "2026-07") (fun _ ↦ true) "2026-08"
          "uid-1").getD (storedPartial "2026-09" "2026-07")).data.lookup previousKey
        = some "2026-09" := by
  refine ⟨?_, ?_, ?_⟩
  · decide +kernel
  · decide +kernel
  · decide +kernel

end Kaalm
