import Kaalm.Budget.Restart

/-!
# Where the peer view comes from

Three writers fill the peer view of a replica: the fold of a tick, the fold of a ConfigMap watch
event and the seed at startup. The first two filter the stored values by period and provider UID;
the seed takes `_canonical`, which carries neither.

## Provenance

A budget ConfigMap is modelled with the period its `_canonical` was written for, and a replica reads
any content the ConfigMap has ever had. `PeersPure` says that the peer view of a ledger is a sum of
stored values that were all written for the period of that ledger, and for its UID or without a tag.

## Two clock readings

A fold computes the current period at one reading of the clock, and `FoldPeers` looks the ledger up
at a later one. Where the period ends in between, the amounts of the old period become the peer view
of the new one. `PeerReplica.PeriodKept` excludes that, and a seed from the roll-up of another
period.
-/

namespace Kaalm

open Calendar

/-! ## Stored values -/

/-- The content of a budget ConfigMap, with the period its `_canonical` was written for. -/
structure StoredSpend where
  data : GoMap String String
  canonicalFor : String

/-- A stored value with what it was written for; the UID is empty where the value has no tag. -/
structure SpendSource where
  period : String
  uid : String
  spend : GoMap String ℚ

/-- What the value under a key counts for. The archive of the previous period is read by no
replica. -/
def StoredSpend.source (c : StoredSpend) (e : Sigma fun _ : String ↦ String) : Option SpendSource :=
  if e.1 = previousKey then none
  else if e.1 = canonicalKey then (parseAmounts e.2).map fun m ↦ ⟨c.canonicalFor, "", m⟩
  else (parseBudgetPartial e.2).map fun q ↦ ⟨q.period, q.providerUID, q.spend⟩

def StoredSpend.sources (c : StoredSpend) : List SpendSource := c.data.entries.filterMap c.source

/-- The amounts are a sum of values stored under the name, all written for the period, and for the
UID or without a tag. -/
def FromSources (written : List (String × StoredSpend)) (name period uid : String)
    (amounts : GoMap String ℚ) : Prop :=
  ∃ sources : List SpendSource,
    (∀ src ∈ sources, (∃ c, (name, c) ∈ written ∧ src ∈ c.sources)
      ∧ src.period = period ∧ (src.uid = uid ∨ src.uid = ""))
    ∧ ∀ ns, amounts.amount ns = (sources.map fun src ↦ src.spend.amount ns).sum

/-- Every amount of the peer view was written for the ledger's own period and UID. -/
def PeersPure (written : List (String × StoredSpend)) (name : String) (l : ProviderLedger) : Prop :=
  FromSources written name l.period l.uid l.peers

namespace FromSources

variable {written written' : List (String × StoredSpend)} {name period uid : String}
  {amounts : GoMap String ℚ}

theorem empty : FromSources written name period uid ∅ :=
  ⟨[], nofun, fun _ ↦ rfl⟩

theorem mono (h : FromSources written name period uid amounts) (hsub : written ⊆ written') :
    FromSources written' name period uid amounts := by
  obtain ⟨sources, hsources, hsum⟩ := h
  refine ⟨sources, fun src hsrc ↦ ?_, hsum⟩
  obtain ⟨⟨c, hc, hmem⟩, hfor⟩ := hsources src hsrc
  exact ⟨⟨c, hsub hc, hmem⟩, hfor⟩

/-- Without a stored value for the period there are no amounts. -/
theorem amount_eq_zero (h : FromSources written name period uid amounts)
    (hnone : ∀ e ∈ written, ∀ src ∈ e.2.sources, src.period ≠ period) (ns : String) :
    amounts.amount ns = 0 := by
  obtain ⟨sources, hsources, hsum⟩ := h
  have hnil : sources = [] := by
    refine List.eq_nil_iff_forall_not_mem.mpr fun src hsrc ↦ ?_
    obtain ⟨⟨c, hc, hmem⟩, hperiod, -⟩ := hsources src hsrc
    exact hnone _ hc src hmem hperiod
  rw [hsum, hnil]
  rfl

end FromSources

/-! ## What a fold adds up -/

section Fold

variable (c : StoredSpend) (podName period uid : String)

/-- The filter of `FoldPartials` on one entry. -/
def StoredSpend.foldedSource (e : Sigma fun _ : String ↦ String) : Option SpendSource :=
  if e.1 = podName ∨ e.1 = canonicalKey ∨ e.1 = previousKey then none
  else (c.source e).filter fun src ↦ src.period = period ∧ (src.uid = uid ∨ src.uid = "")

/-- What the fold adds for one entry is the value the filter lets through. -/
private theorem contribution_eq_foldedSource (e : Sigma fun _ : String ↦ String) :
    (if e.1 = podName ∨ e.1 = canonicalKey ∨ e.1 = previousKey then ∅
      else contribution period uid e.2)
      = (c.foldedSource podName period uid e).elim ∅ SpendSource.spend := by
  rw [StoredSpend.foldedSource]
  split_ifs with hskip
  · rfl
  obtain ⟨-, hcan, hprev⟩ : e.1 ≠ podName ∧ e.1 ≠ canonicalKey ∧ e.1 ≠ previousKey := by
    simpa only [not_or] using hskip
  rw [StoredSpend.source, if_neg hprev, if_neg hcan]
  cases hq : parseBudgetPartial e.2 with
  | none => rw [contribution_of_none hq]; rfl
  | some q =>
    rw [contribution_of_some hq, Option.map_some, Option.filter_some]
    by_cases hfor : q.period = period ∧ (q.providerUID = uid ∨ q.providerUID = "")
    · rw [if_neg (by tauto), if_pos (decide_eq_true hfor)]
      rfl
    · rw [if_pos (by tauto), if_neg (by rw [decide_eq_true_iff]; exact hfor)]
      rfl

private theorem sum_map_elim {α β M : Type} [AddCommMonoid M] (l : List α) (g : α → Option β)
    (f : β → M) : (l.map fun a ↦ (g a).elim 0 f).sum = ((l.filterMap g).map f).sum := by
  induction l with
  | nil => rfl
  | cons a l ih =>
    cases ha : g a with
    | none =>
        rw [List.map_cons, List.sum_cons, ih, ha, List.filterMap_cons_none ha, Option.elim_none,
          zero_add]
    | some b =>
        rw [List.map_cons, List.sum_cons, ih, ha, List.filterMap_cons_some ha, List.map_cons,
          List.sum_cons, Option.elim_some]

variable {c podName period uid}

/-- What a fold returns was written for the period and the UID it was called with. -/
theorem fromSources_foldPartials {written : List (String × StoredSpend)} {name : String}
    (hc : (name, c) ∈ written) :
    FromSources written name period uid (foldPartials c.data podName period uid) := by
  refine ⟨c.data.entries.filterMap (c.foldedSource podName period uid), fun src hsrc ↦ ?_,
    fun ns ↦ ?_⟩
  · obtain ⟨e, he, hsrc⟩ := List.mem_filterMap.mp hsrc
    rw [StoredSpend.foldedSource] at hsrc
    split_ifs at hsrc with hskip
    obtain ⟨hsource, hfor⟩ := Option.filter_eq_some_iff.mp hsrc
    exact ⟨⟨c, hc, List.mem_filterMap.mpr ⟨e, he, hsource⟩⟩, of_decide_eq_true hfor⟩
  · have hamount : ∀ e : Sigma fun _ : String ↦ String,
        ((c.foldedSource podName period uid e).elim ∅ SpendSource.spend).amount ns
          = (c.foldedSource podName period uid e).elim 0 fun src ↦ src.spend.amount ns := by
      intro e
      cases c.foldedSource podName period uid e <;> rfl
    rw [foldPartials_eq_foldl_addAll, AList.amount_foldl_addAll, AList.amount_empty, zero_add,
      ← sum_map_elim]
    simp only [contribution_eq_foldedSource c, hamount]

end Fold

/-! ## The ledger under other calls -/

/-- The call that replaces the peer view. -/
def Op.foldsPeers : Op → Bool
  | .foldPeers _ _ => true
  | _ => false

/-- No other call writes the peer view through the pointer. -/
theorem Op.write_peers {s : System} {op : Op} (h : op.foldsPeers = false) (l : ProviderLedger) :
    (op.write s l).peers = l.peers := by
  cases op with
  | admitRequest p ns workload => exact (admitLocked_frame _ _ _ _ _ l).2.2.2.1
  | settle c cost => exact settleLocked_peers c _ cost l
  | add p ns workload cost => exact l.land_peers _ _ _ _
  | foldPeers p peers => cases h
  | _ => rfl

/-- A critical section starts from the stored ledger, or from one with an empty peer view. -/
theorem BudgetLedger.liveLedger_peers (b : BudgetLedger) (now : Time) (name uid : String)
    (scheme : BudgetPeriod) :
    b.providers.lookup name = some (b.liveLedger now name uid scheme)
      ∨ (b.liveLedger now name uid scheme).peers = ∅ := by
  cases hbound : b.boundTo name uid with
  | none =>
    rw [liveLedger_of_unbound hbound]
    exact Or.inr rfl
  | some l =>
    rw [liveLedger_of_bound hbound]
    by_cases hperiod : l.period = periodKey scheme now
    · rw [ProviderLedger.rollover_of_eq hperiod]
      exact Or.inl (boundTo_eq_some.mp hbound).1
    · right
      rw [ProviderLedger.rollover, if_pos hperiod]

/-- What a call other than a fold leaves of a peer view: the peer view of the same ledger, or an
empty one. -/
theorem System.exec_peers {s t : System} {op : Op} {out : Output} (h : s.exec op = some (t, out))
    (hop : op.foldsPeers = false) {name : String} {l' : ProviderLedger}
    (hl' : t.ledger.providers.lookup name = some l') :
    l'.peers = ∅ ∨ ∃ l, s.ledger.providers.lookup name = some l
      ∧ l'.peers = l.peers ∧ l'.uid = l.uid ∧ l'.period = l.period := by
  have heffect := System.exec_effect h
  generalize t.ledger = b at heffect hl'
  cases heffect with
  | same _ => exact Or.inr ⟨l', hl', rfl, rfl, rfl⟩
  | critical name' uid scheme _ _ =>
    by_cases hlive : uid ∈ s.ledger.superseded
    · rw [BudgetLedger.withLedger_of_superseded hlive] at hl'
      exact Or.inr ⟨l', hl', rfl, rfl, rfl⟩
    by_cases hname : name = name'
    · subst hname
      rw [BudgetLedger.lookup_withLedger_self hlive] at hl'
      obtain rfl := Option.some.inj hl'
      rcases s.ledger.liveLedger_peers s.now name uid scheme with hl | hempty
      · exact Or.inr ⟨_, hl, Op.write_peers hop _, op.write_uid s _, op.write_period s _⟩
      · exact Or.inl ((Op.write_peers hop _).trans hempty)
    · rw [BudgetLedger.lookup_withLedger_of_ne hname] at hl'
      exact Or.inr ⟨l', hl', rfl, rfl, rfl⟩
  | published p snapshot l _ hbound =>
    rw [BudgetLedger.lookup_store] at hl'
    split_ifs at hl' with hname
    · obtain rfl := Option.some.inj hl'
      obtain ⟨huid, hperiod, -, hpeers⟩ := l.published_frame snapshot
      subst hname
      exact Or.inr ⟨l, (BudgetLedger.boundLedger_eq_some.mp hbound).1, hpeers, huid, hperiod⟩
    · exact Or.inr ⟨l', hl', rfl, rfl, rfl⟩
  | replicas count _ => exact Or.inr ⟨l', hl', rfl, rfl, rfl⟩

/-- `FoldPeers` stores the peer view in the ledger of the provider's UID and current period. -/
theorem BudgetLedger.lookup_foldPeers (b : BudgetLedger) (now : Time) (p : ModelProvider)
    (peers : GoMap String ℚ) {name : String} {l' : ProviderLedger}
    (hl' : (b.foldPeers now p peers).providers.lookup name = some l') :
    b.providers.lookup name = some l' ∨ (name = p.name ∧ l'.peers = peers ∧ l'.uid = p.uid
      ∧ l'.period = periodKey p.budget.period now) := by
  by_cases hlive : p.uid ∈ b.superseded
  · rw [foldPeers_of_superseded hlive] at hl'
    exact Or.inl hl'
  by_cases hname : name = p.name
  · subst hname
    rw [foldPeers, lookup_withLedger_self hlive] at hl'
    obtain rfl := Option.some.inj hl'
    exact Or.inr ⟨rfl, rfl, liveLedger_uid, liveLedger_period⟩
  · rw [foldPeers, lookup_withLedger_of_ne hname] at hl'
    exact Or.inl hl'

/-! ## The replica and the ConfigMaps -/

/-- A fold between the computation of its peers and `FoldPeers`, with the period it computed. -/
structure FoldCall where
  provider : ModelProvider
  period : String
  peers : GoMap String ℚ

structure PeerReplica where
  sys : System
  /-- Every content the budget ConfigMap of a provider name has had. -/
  written : List (String × StoredSpend) := []
  folds : List FoldCall := []

inductive PeerOp
  /-- Any call other than a fold, and the clock. -/
  | call (op : Op)
  /-- Somebody writes the budget ConfigMap of a name. -/
  | write (providerName : String) (content : StoredSpend)
  /-- The tick's fold finds no ConfigMap. -/
  | foldAbsent (provider : ModelProvider)
  /-- The tick's fold up to the call of `FoldPeers`. -/
  | fold (provider : ModelProvider) (i : ℕ)
  /-- A watch event up to the call of `FoldPeers`. -/
  | foldEvent (provider : ModelProvider) (i : ℕ)
  /-- The `FoldPeers` of a fold under way. -/
  | foldPeers (i : ℕ)
  | seed (provider : ModelProvider) (i : ℕ)

namespace PeerReplica

variable (podName : String)

def init (window start : Time) : PeerReplica := { sys := System.init window start }

/-- A read of the budget ConfigMap of a provider: any content it has had. -/
def read (s : PeerReplica) (provider : ModelProvider) (i : ℕ) : Option StoredSpend :=
  (s.written[i]?).bind fun e ↦ if e.1 = provider.name then some e.2 else none

/-- The fold of a content at the current reading of the clock. -/
def foldCall (s : PeerReplica) (provider : ModelProvider) (c : StoredSpend) : FoldCall :=
  let period := periodKey provider.budget.period s.sys.now
  ⟨provider, period, foldPartials c.data podName period provider.uid⟩

/-- One call on the ledger. -/
def exec (s : PeerReplica) (op : Op) : Option PeerReplica :=
  (s.sys.exec op).map fun r ↦ { s with sys := r.1 }

def step (s : PeerReplica) : PeerOp → Option PeerReplica
  | .call op => if op.foldsPeers then none else s.exec op
  | .write name content => some { s with written := (name, content) :: s.written }
  | .foldAbsent provider => s.exec (.foldPeers provider ∅)
  | .fold provider i => (s.read provider i).map fun c ↦
      { s with folds := s.foldCall podName provider c :: s.folds }
  | .foldEvent provider i => (s.read provider i).map fun c ↦
      if periodKey provider.budget.period s.sys.now = "" then s
      else { s with folds := s.foldCall podName provider c :: s.folds }
  | .foldPeers i => (s.folds[i]?).bind fun f ↦
      { s with folds := s.folds.eraseIdx i }.exec (.foldPeers f.provider f.peers)
  | .seed provider i => (s.read provider i).map fun c ↦
      let cm : ConfigMap := { data := c.data, label := spendLabelBudget }
      { s with sys := s.sys.update (s.sys.ledger.seedFromCanonical s.sys.now cm provider) }

/-- The current period is still the one a fold was computed for, and a seed reads a roll-up of the
current period. -/
def PeriodKept (s : PeerReplica) : PeerOp → Prop
  | .foldPeers i => ∀ f ∈ s.folds[i]?, periodKey f.provider.budget.period s.sys.now = f.period
  | .seed provider i => ∀ c ∈ s.read provider i,
      c.canonicalFor = periodKey provider.budget.period s.sys.now
  | _ => True

instance (s : PeerReplica) : ∀ op, Decidable (s.PeriodKept op)
  | .foldPeers i => inferInstanceAs (Decidable
      (∀ f ∈ s.folds[i]?, periodKey f.provider.budget.period s.sys.now = f.period))
  | .seed provider i => inferInstanceAs (Decidable (∀ c ∈ s.read provider i,
      c.canonicalFor = periodKey provider.budget.period s.sys.now))
  | .call _ | .write _ _ | .foldAbsent _ | .fold _ _ | .foldEvent _ _ => isTrue trivial

end PeerReplica

/-! ## The invariant -/

/-- Every stored peer view is pure, and so is what a fold under way is about to store. -/
structure PeerInv (s : PeerReplica) : Prop where
  pure : ∀ name l, s.sys.ledger.providers.lookup name = some l → PeersPure s.written name l
  folds : ∀ f ∈ s.folds,
    FromSources s.written f.provider.name f.period f.provider.uid f.peers

namespace PeerInv

variable {podName : String} {s t : PeerReplica}

theorem init (window start : Time) : PeerInv (PeerReplica.init window start) :=
  ⟨fun _ _ h ↦ absurd h AList.lookup_empty_ne, nofun⟩

theorem mem_written_of_read {p : ModelProvider} {i : ℕ} {c : StoredSpend}
    (h : s.read p i = some c) : (p.name, c) ∈ s.written := by
  rw [PeerReplica.read, Option.bind_eq_some_iff] at h
  obtain ⟨⟨name, c'⟩, he, hc⟩ := h
  split_ifs at hc with hname
  obtain rfl := Option.some.inj hc
  obtain rfl := hname
  exact List.mem_of_getElem? he

/-- A call other than a fold. -/
theorem exec (hinv : PeerInv s) {op : Op} (hop : op.foldsPeers = false) (h : s.exec op = some t) :
    PeerInv t := by
  obtain ⟨⟨sys, out⟩, hexec, rfl⟩ := Option.map_eq_some_iff.mp h
  refine ⟨fun name l' hl' ↦ ?_, hinv.folds⟩
  rcases System.exec_peers hexec hop hl' with hempty | ⟨l, hl, hpeers, huid, hperiod⟩
  · rw [PeersPure, hempty]
    exact FromSources.empty
  · rw [PeersPure, hpeers, huid, hperiod]
    exact hinv.pure name l hl

/-- A peer view replaced by one that was written for the current period and the provider's UID. -/
theorem replace (hinv : PeerInv s) {b : BudgetLedger} {p : ModelProvider} {peers : GoMap String ℚ}
    (hb : b = s.sys.ledger.foldPeers s.sys.now p peers)
    (hpeers : FromSources s.written p.name (periodKey p.budget.period s.sys.now) p.uid peers) :
    PeerInv { s with sys := s.sys.update b } := by
  refine ⟨fun name l' hl' ↦ ?_, hinv.folds⟩
  rw [System.update, hb] at hl'
  rcases BudgetLedger.lookup_foldPeers _ _ _ _ hl' with hl | ⟨rfl, hl, huid, hperiod⟩
  · exact hinv.pure name l' hl
  · rw [PeersPure, hl, huid, hperiod]
    exact hpeers

theorem pushFold (hinv : PeerInv s) {p : ModelProvider} {c : StoredSpend}
    (hc : (p.name, c) ∈ s.written) :
    PeerInv { s with folds := s.foldCall podName p c :: s.folds } := by
  refine ⟨hinv.pure, fun f hf ↦ ?_⟩
  rcases List.mem_cons.mp hf with rfl | hf
  · exact fromSources_foldPartials hc
  · exact hinv.folds f hf

theorem write (hinv : PeerInv s) (e : String × StoredSpend) :
    PeerInv { s with written := e :: s.written } :=
  ⟨fun name l hl ↦ (hinv.pure name l hl).mono (List.subset_cons_self _ _),
    fun f hf ↦ (hinv.folds f hf).mono (List.subset_cons_self _ _)⟩

/-- A seed from a roll-up that was written for the current period. -/
theorem seed (hinv : PeerInv s) {p : ModelProvider} {c : StoredSpend} (hc : (p.name, c) ∈ s.written)
    (hfor : c.canonicalFor = periodKey p.budget.period s.sys.now) :
    PeerInv { s with sys := s.sys.update (s.sys.ledger.seedFromCanonical s.sys.now
      (some { data := c.data, label := spendLabelBudget }) p) } := by
  have hdata : dataOf (some { data := c.data, label := spendLabelBudget }) = c.data := rfl
  rw [BudgetLedger.seedFromCanonical, hdata]
  cases hparse : (c.data.lookup canonicalKey).bind parseAmounts with
  | none => exact ⟨hinv.pure, hinv.folds⟩
  | some canonical =>
    refine hinv.replace rfl ⟨[⟨c.canonicalFor, "", canonical⟩], ?_, fun ns ↦ ?_⟩
    · intro src hsrc
      obtain rfl := List.mem_singleton.mp hsrc
      obtain ⟨raw, hraw, hparse⟩ := Option.bind_eq_some_iff.mp hparse
      refine ⟨⟨c, hc, List.mem_filterMap.mpr ⟨⟨canonicalKey, raw⟩, ?_, ?_⟩⟩, hfor, Or.inr rfl⟩
      · exact AList.mem_lookup_iff.mp hraw
      · rw [StoredSpend.source, if_neg (show canonicalKey ≠ previousKey by decide), if_pos rfl,
          hparse]
        rfl
    · rw [List.map_singleton, List.sum_singleton]

theorem step (hinv : PeerInv s) {op : PeerOp} (hkept : s.PeriodKept op)
    (h : s.step podName op = some t) : PeerInv t := by
  cases op with
  | call op =>
    rw [PeerReplica.step] at h
    split_ifs at h with hop
    exact hinv.exec (by simpa using hop) h
  | write name content =>
    obtain rfl := Option.some.inj h
    exact hinv.write (name, content)
  | foldAbsent p =>
    have h : s.exec (.foldPeers p ∅) = some t := h
    obtain ⟨⟨sys, out⟩, hexec, rfl⟩ := Option.map_eq_some_iff.mp h
    obtain ⟨rfl, -⟩ := Prod.mk.inj (Option.some.inj hexec)
    exact hinv.replace rfl FromSources.empty
  | fold p i =>
    obtain ⟨c, hc, rfl⟩ := Option.map_eq_some_iff.mp h
    exact hinv.pushFold (mem_written_of_read hc)
  | foldEvent p i =>
    obtain ⟨c, hc, rfl⟩ := Option.map_eq_some_iff.mp h
    split_ifs
    · exact hinv
    · exact hinv.pushFold (mem_written_of_read hc)
  | foldPeers i =>
    obtain ⟨f, hf, h⟩ := Option.bind_eq_some_iff.mp h
    obtain ⟨⟨sys, out⟩, hexec, rfl⟩ := Option.map_eq_some_iff.mp h
    obtain ⟨rfl, -⟩ := Prod.mk.inj (Option.some.inj hexec)
    have hperiod : periodKey f.provider.budget.period s.sys.now = f.period := hkept f hf
    have hrest : PeerInv { s with folds := s.folds.eraseIdx i } :=
      ⟨hinv.pure, fun g hg ↦ hinv.folds g (List.mem_of_mem_eraseIdx hg)⟩
    refine hrest.replace rfl ?_
    rw [hperiod]
    exact hinv.folds f (List.mem_of_getElem? hf)
  | seed p i =>
    obtain ⟨c, hc, rfl⟩ := Option.map_eq_some_iff.mp h
    exact hinv.seed (mem_written_of_read hc) (hkept c hc)

end PeerInv

/-- While no fold crosses the end of its period and every seed reads a roll-up of the current
period, every amount of every peer view was written for the ledger's own period and UID, or has no
tag. -/
theorem peersPure_of_periodKept (podName : String) (window start : Time) (ops : List PeerOp)
    (s : PeerReplica)
    (hrun : Run.Runs (PeerReplica.step podName) (PeerReplica.init window start) ops s)
    (hkept : Run.AllSteps (PeerReplica.step podName) PeerReplica.PeriodKept
      (PeerReplica.init window start) ops) (name : String) (l : ProviderLedger)
    (hl : s.sys.ledger.providers.lookup name = some l) : PeersPure s.written name l :=
  (hrun.invariant_of_allSteps (fun _ _ _ hinv hkept h ↦ hinv.step hkept h) hkept
    (PeerInv.init window start)).pure name l hl

/-- A peer's partial of the first month, and a roll-up of that month. -/
def januarySpend : StoredSpend :=
  { data := AList.ofEntries
      [⟨"gw-2", "\x7b\"period\":\"1970-01\",\"team-a\":\"70.00\",\"_providerUID\":\"uid-1\"\x7d"⟩,
        ⟨"_canonical", "\x7b\"team-a\":\"70.00\"\x7d"⟩]
    canonicalFor := "1970-01" }

/-- A replica starts in the first month, seeds, and folds a watch event. -/
theorem peersPure_of_january :
    ∃ s l, Run.Runs (PeerReplica.step "gw-1") (PeerReplica.init 0 0)
        [.write "openai" januarySpend, .seed hardProvider 0, .foldEvent hardProvider 0,
          .call (.advance 1000000000), .foldPeers 0] s
      ∧ s.sys.ledger.providers.lookup "openai" = some l
      ∧ (l.period, l.peers.get "team-a") = ("1970-01", 70) ∧ PeersPure s.written "openai" l := by
  obtain ⟨s, hs, hview⟩ := Option.map_eq_some_iff.mp (show
    (List.foldlM (PeerReplica.step "gw-1") (PeerReplica.init 0 0)
      [.write "openai" januarySpend, .seed hardProvider 0, .foldEvent hardProvider 0,
        .call (.advance 1000000000), .foldPeers 0]).map (fun s ↦
          (s.sys.ledger.providers.lookup "openai").map fun l ↦ (l.period, l.peers.get "team-a"))
      = some (some ("1970-01", 70)) by decide +kernel)
  obtain ⟨l, hl, hpeers⟩ := Option.map_eq_some_iff.mp hview
  exact ⟨s, l, hs, hl, hpeers,
    peersPure_of_periodKept "gw-1" 0 0 _ s hs (by decide +kernel) "openai" l hl⟩

/-- Two runs, from the last nanosecond of the first month into the second. In the first a fold
computes its peers before midnight and stores them after it; in the second the replica starts after
midnight and seeds from the roll-up that is still there. Either way 70 USD of January are the peer
view of February. -/
theorem january_spend_in_february :
    (∃ s l, Run.Runs (PeerReplica.step "gw-1") (PeerReplica.init 0 (31 * 86400 * second - 1))
        [.write "openai" januarySpend, .fold hardProvider 0, .call (.advance 1), .foldPeers 0] s
      ∧ s.sys.ledger.providers.lookup "openai" = some l
      ∧ (l.period, l.peers.get "team-a") = ("1970-02", 70) ∧ ¬ PeersPure s.written "openai" l)
    ∧ ∃ s l, Run.Runs (PeerReplica.step "gw-1") (PeerReplica.init 0 (31 * 86400 * second))
        [.write "openai" januarySpend, .seed hardProvider 0] s
      ∧ s.sys.ledger.providers.lookup "openai" = some l
      ∧ (l.period, l.peers.get "team-a") = ("1970-02", 70) ∧ ¬ PeersPure s.written "openai" l := by
  have hrun : ∀ {r : Option PeerReplica},
      r.map (fun s ↦ ((s.sys.ledger.providers.lookup "openai").map fun l ↦
        (l.period, l.peers.get "team-a"),
        decide (∀ e ∈ s.written, ∀ src ∈ e.2.sources, src.period ≠ "1970-02")))
        = some (some ("1970-02", 70), true) →
      ∃ s l, r = some s ∧ s.sys.ledger.providers.lookup "openai" = some l
        ∧ (l.period, l.peers.get "team-a") = ("1970-02", 70)
        ∧ ¬ PeersPure s.written "openai" l := by
    intro r hr
    obtain ⟨s, hs, hview⟩ := Option.map_eq_some_iff.mp hr
    obtain ⟨hview, hnone⟩ := Prod.mk.inj hview
    obtain ⟨l, hl, hpeers⟩ := Option.map_eq_some_iff.mp hview
    refine ⟨s, l, hs, hl, hpeers, fun hpure ↦ ?_⟩
    -- Nothing that was ever stored is of the second month, so a pure peer view would be empty.
    obtain ⟨hperiod, hget⟩ := Prod.mk.inj hpeers
    rw [PeersPure, hperiod] at hpure
    have hzero : l.peers.amount "team-a" = (∅ : GoMap String ℚ).amount "team-a" :=
      hpure.amount_eq_zero (of_decide_eq_true hnone) "team-a"
    rw [AList.get_eq_of_amount hzero] at hget
    exact absurd hget (by decide)
  exact ⟨hrun (by decide +kernel), hrun (by decide +kernel)⟩

end Kaalm
