import Kaalm.Budget.Slots

/-!
# The hard cap on one replica

Spend lands only when a request ends, so what can exceed a ceiling is what is in flight when the
last admission is made. This file runs a hard provider on a single replica with an empty peer view,
within one period, and bounds the excess by the requests that were in flight right after the
namespace's latest admission.

## Requests

A request that `admitRequest` lets through is in flight until it ends with its actual cost, which
its settle callback lands, or `add` when it has none. The fields `inFlight`, `admitted` and `landed`
of a `HardRun` record that; the ledger does not read them.

## The bound

An admission sees the spend below every threshold from which upward the ladder blocks. After it,
what lands for the namespace before its next admission comes from requests in flight then. At most
one of these holds a slot, since a second boundary admission is throttled while the first one is
unsettled. The others were let through below the boundary region, where admission is not
serialized, and there can be any number of them.
-/

namespace Kaalm

open Calendar

/-- The settled spend of a namespace. -/
def System.spent (s : System) (p : ModelProvider) (ns : String) : ℚ :=
  (s.ledger.providers.lookup p.name).elim 0 fun l ↦ l.own.get ns

/-- A request that was let through. -/
structure Request where
  ns : String
  workload : String
  /-- The settle callback of a boundary admission. -/
  callback : Option Settle
  /-- The settled spend of the namespace when the request was admitted. -/
  spentAt : ℚ

/-- The call that lands a request's cost. -/
def Request.landing (p : ModelProvider) (r : Request) (cost : ℚ) : Op :=
  match r.callback with
  | some callback => .settle callback cost
  | none => .add p r.ns r.workload cost

/-- The callback of a request that goes ahead. -/
def Output.letsThrough : Output → Option (Option Settle)
  | .decision d callback => if d.refused then none else some callback
  | _ => none

/-- A replica with the requests of one hard provider. -/
structure HardRun where
  sys : System
  inFlight : List Request := []
  /-- For each namespace, its requests in flight right after its latest admission. -/
  admitted : String → List Request := fun _ ↦ []
  /-- For each namespace, what landed since its latest admission. -/
  landed : String → List (Request × ℚ) := fun _ ↦ []

inductive HardOp
  | admitRequest (ns workload : String)
  /-- The `i`-th request in flight ends with its actual cost. -/
  | finish (i : ℕ) (cost : ℚ)
  /-- A callback is invoked once more. -/
  | settleAgain (callback : Settle) (cost : ℚ)
  | foldPeers
  | markPublished (snapshot : Time)
  | advance (nanos : ℕ)

namespace HardRun

def init (window start : Time) : HardRun := { sys := System.init window start }

def letThrough (s : HardRun) (t : System) (r : Request) : HardRun :=
  { sys := t
    inFlight := r :: s.inFlight
    admitted := Function.update s.admitted r.ns ((r :: s.inFlight).filter (·.ns = r.ns))
    landed := Function.update s.landed r.ns [] }

def finished (s : HardRun) (t : System) (i : ℕ) (r : Request) (cost : ℚ) : HardRun :=
  { s with
    sys := t
    inFlight := s.inFlight.eraseIdx i
    landed := Function.update s.landed r.ns ((r, cost) :: s.landed r.ns) }

/-- One step of the replica. The clock stays inside the period. -/
def step (p : ModelProvider) (s : HardRun) : HardOp → Option HardRun
  | .admitRequest ns workload =>
    (s.sys.exec (.admitRequest p ns workload)).map fun (t, out) ↦
      match out.letsThrough with
      | some callback => s.letThrough t ⟨ns, workload, callback, s.sys.spent p ns⟩
      | none => { s with sys := t }
  | .finish i cost =>
    s.inFlight[i]?.bind fun r ↦
      (s.sys.exec (r.landing p cost)).map fun (t, _) ↦ s.finished t i r cost
  | .settleAgain callback cost =>
    if callback ∈ s.sys.fired then
      (s.sys.exec (.settle callback cost)).map fun (t, _) ↦ { s with sys := t }
    else none
  | .foldPeers => (s.sys.exec (.foldPeers p ∅)).map fun (t, _) ↦ { s with sys := t }
  | .markPublished snapshot =>
    (s.sys.exec (.markPublished p snapshot)).map fun (t, _) ↦ { s with sys := t }
  | .advance nanos =>
    if periodKey p.budget.period (s.sys.now + nanos) = periodKey p.budget.period s.sys.now then
      (s.sys.exec (.advance nanos)).map fun (t, _) ↦ { s with sys := t }
    else none

end HardRun

/-! ## A replica with one provider inside one period -/

/-- The cluster ceiling of a budget, zero when it is not enforced. -/
def ModelProviderBudget.clusterCeiling (budget : ModelProviderBudget) : ℚ :=
  (budget.clusterUSD.bind ceilingOf).getD 0

/-- A callback handed out for the provider, with the slots it took. -/
structure Settle.IssuedFor (c : Settle) (p : ModelProvider) : Prop where
  providerName : c.providerName = p.name
  uid : c.uid = p.uid
  scheme : c.scheme = p.budget.period
  takes : c.ns ∈ c.keys ∨ clusterSlotKey ∈ c.keys ∧ 0 < p.budget.clusterCeiling

/-- Only one provider has used the ledger, in one period, and the peer view is empty. -/
structure OneProvider (p : ModelProvider) (s : System) : Prop where
  slots : SlotInv (fun _ ↦ p.name) s
  sole : s.ledger.Sole p.name p.uid
  period : ∀ l, s.ledger.providers.lookup p.name = some l →
    l.period = periodKey p.budget.period s.now
  peers : ∀ l, s.ledger.providers.lookup p.name = some l → l.peers = ∅
  stale : s.stale = []
  issued : ∀ c ∈ s.issued, c.IssuedFor p

namespace OneProvider

variable {p : ModelProvider} {s t : System} {op : Op} {out : Output}

theorem init (p : ModelProvider) (window start : Time) :
    OneProvider p (System.init window start) where
  slots := SlotInv.init window start
  sole := .init p.name p.uid window start
  period _ h := absurd h AList.lookup_empty_ne
  peers _ h := absurd h AList.lookup_empty_ne
  stale := rfl
  issued := nofun

/-- The ledger the provider's next critical section starts from. -/
def liveOf (p : ModelProvider) (s : System) : ProviderLedger :=
  s.ledger.liveLedger s.now p.name p.uid p.budget.period

theorem liveOf_of_bound (hinv : OneProvider p s) {l : ProviderLedger}
    (hl : s.ledger.providers.lookup p.name = some l) : liveOf p s = l := by
  rw [liveOf, BudgetLedger.liveLedger, hinv.sole.boundTo, hl]
  exact ProviderLedger.rollover_of_eq (hinv.period l hl)

theorem liveOf_of_unbound (hinv : OneProvider p s) (hl : s.ledger.providers.lookup p.name = none) :
    liveOf p s = newProviderLedger (periodKey p.budget.period s.now) p.uid := by
  rw [liveOf, BudgetLedger.liveLedger, hinv.sole.boundTo, hl]

theorem liveOf_own (hinv : OneProvider p s) (ns : String) :
    (liveOf p s).own.get ns = s.spent p ns := by
  rw [System.spent]
  cases hl : s.ledger.providers.lookup p.name with
  | none =>
    rw [hinv.liveOf_of_unbound hl]
    rfl
  | some l => rw [hinv.liveOf_of_bound hl, Option.elim_some]

theorem liveOf_peers (hinv : OneProvider p s) : (liveOf p s).peers = ∅ := by
  cases hl : s.ledger.providers.lookup p.name with
  | none =>
    rw [hinv.liveOf_of_unbound hl]
    rfl
  | some l =>
    rw [hinv.liveOf_of_bound hl]
    exact hinv.peers l hl

theorem liveOf_spent (hinv : OneProvider p s) (ns : String) :
    (liveOf p s).spent ns = s.spent p ns := by
  rw [ProviderLedger.spent, hinv.liveOf_own, hinv.liveOf_peers, AList.get_empty, add_zero]

/-- The slots of an unsettled callback are taken in the ledger the next critical section sees. -/
theorem mem_liveOf_adm (hinv : OneProvider p s) {c : Settle} (hc : c ∈ s.issued)
    (hfired : c ∉ s.fired) {k : String} (hk : k ∈ c.keys) : k ∈ (liveOf p s).adm := by
  have hstale : c ∉ s.stale := by
    rw [hinv.stale]
    exact List.not_mem_nil
  obtain ⟨l, hl, -, hadm⟩ := hinv.slots.lookup_adm ⟨hc, hfired, hstale⟩ hk
  rw [(hinv.issued c hc).providerName] at hl
  rw [hinv.liveOf_of_bound hl]
  exact AList.lookup_isSome.mp (by rw [hadm]; rfl)

/-- A callback was handed out in the period the ledger still counts for. -/
theorem identity_of_issued (hinv : OneProvider p s) {c : Settle} (hc : c ∈ s.issued) :
    s.ledger.identity p.name = some (p.uid, periodKey p.budget.period s.now) := by
  have hstale : c ∉ s.stale := by
    rw [hinv.stale]
    exact List.not_mem_nil
  obtain ⟨l, hl, -⟩ := hinv.slots.exists_bound hc hstale
  rw [(hinv.issued c hc).providerName] at hl
  rw [BudgetLedger.identity, hl, Option.map_some, hinv.sole.bound l hl, hinv.period l hl]

/-- A call of the provider that carries its scheme and folds no peer spend. It moves the spend by
what it records. -/
theorem exec (hinv : OneProvider p s) (h : s.exec op = some (t, out))
    (hop : op.incarnation.all fun i ↦ i = (p.name, p.uid))
    (hscheme : ∀ scheme ∈ s.reaches op, scheme = p.budget.period)
    (hpeers : ∀ l, l.peers = ∅ → (op.write s l).peers = ∅)
    (hperiod : periodKey p.budget.period t.now = periodKey p.budget.period s.now)
    (hissued : ∀ c ∈ t.issued, c ∈ s.issued ∨ c.IssuedFor p) :
    OneProvider p t ∧ ∀ ns, t.spent p ns = s.spent p ns + s.records op ns := by
  obtain ⟨hsole, heffect⟩ := hinv.sole.exec hop h
  have hslots : SlotInv (fun _ ↦ p.name) t := by
    refine hinv.slots.step (System.step_eq_some.mpr ⟨?_, out, h⟩)
    rw [Op.wellNamed, Option.all_eq_true] at *
    exact fun i hi ↦ decide_eq_true (congrArg Prod.fst (of_decide_eq_true (hop i hi))).symm
  have hfound : (∀ l, t.ledger.providers.lookup p.name = some l →
        l.period = periodKey p.budget.period s.now ∧ l.peers = ∅)
      ∧ ∀ ns, t.spent p ns = s.spent p ns + s.records op ns := by
    simp only [System.spent]
    generalize t.ledger.providers.lookup p.name = found at heffect ⊢
    cases heffect with
    | same hreach =>
      refine ⟨fun l hl ↦ ⟨hinv.period l hl, hinv.peers l hl⟩, fun ns ↦ ?_⟩
      rw [System.records_of_not_reaches hreach, add_zero]
    | critical scheme hcarries hreach =>
      obtain rfl := hscheme scheme hreach
      refine ⟨?_, fun ns ↦ ?_⟩
      · rintro l ⟨⟩
        exact ⟨by rw [Op.write_period, BudgetLedger.liveLedger_period],
          hpeers _ hinv.liveOf_peers⟩
      · rw [System.records_of_reaches hreach, Option.elim_some, Op.get_write_own]
        exact congrArg (· + _) (hinv.liveOf_own ns)
    | published p' snapshot l hmark hreach hl =>
      obtain ⟨-, hlperiod, hlown, hlpeers⟩ := l.published_frame snapshot
      refine ⟨?_, fun ns ↦ ?_⟩
      · rintro l' ⟨⟩
        exact ⟨hlperiod.trans (hinv.period l hl), hlpeers.trans (hinv.peers l hl)⟩
      · rw [System.records_of_not_reaches hreach, add_zero, hl, Option.elim_some, Option.elim_some,
          hlown]
  refine ⟨⟨hslots, hsole, fun l hl ↦ ?_, fun l hl ↦ (hfound.1 l hl).2, ?_,
    fun c hc ↦ (hissued c hc).elim (hinv.issued c) id⟩, hfound.2⟩
  · rw [hperiod]
    exact (hfound.1 l hl).1
  · -- Nothing is reset: the name was bound to the provider and its period before.
    rw [List.eq_nil_iff_forall_not_mem]
    intro c hc
    rcases System.exec_stale h hc with hc | ⟨hc, hid⟩
    · rw [hinv.stale] at hc
      cases hc
    · obtain ⟨l, hl, -⟩ := Option.map_eq_some_iff.mp (hinv.identity_of_issued hc)
      obtain ⟨l', hl'⟩ : ∃ l', t.ledger.providers.lookup p.name = some l' := by
        generalize t.ledger.providers.lookup p.name = found at heffect
        cases heffect with
        | same hreach => exact ⟨l, hl⟩
        | critical scheme hcarries hreach => exact ⟨_, rfl⟩
        | published p' snapshot l₁ hmark hreach hl₁ => exact ⟨_, rfl⟩
      apply hid
      rw [(hinv.issued c hc).providerName, hinv.identity_of_issued hc, BudgetLedger.identity, hl',
        Option.map_some, hsole.bound l' hl', (hfound.1 l' hl').1]

/-- A call that is no admission hands out no callback. -/
theorem issued_of_ne (h : s.exec op = some (t, out))
    (hother : ∀ p' ns workload, op ≠ .admitRequest p' ns workload) :
    ∀ c ∈ t.issued, c ∈ s.issued := by
  intro c hc
  rcases (System.exec_issued h).2 c hc with hc | ⟨p', ns, workload, hop, -⟩
  · exact hc
  · exact absurd hop (hother p' ns workload)

/-- A call that moves no spend and fires no callback. -/
structure Quiet (p : ModelProvider) (s t : System) : Prop where
  one : OneProvider p t
  spent : ∀ ns, t.spent p ns = s.spent p ns
  issued : ∀ c ∈ s.issued, c ∈ t.issued
  fired : t.fired = s.fired

/-- A call of the provider that records nothing and hands out no callback. -/
theorem exec_quiet (hinv : OneProvider p s) (h : s.exec op = some (t, out))
    (hop : op.incarnation.all fun i ↦ i = (p.name, p.uid))
    (hscheme : ∀ scheme ∈ s.reaches op, scheme = p.budget.period)
    (hpeers : ∀ l, l.peers = ∅ → (op.write s l).peers = ∅)
    (hperiod : periodKey p.budget.period t.now = periodKey p.budget.period s.now)
    (hother : ∀ p' ns workload, op ≠ .admitRequest p' ns workload)
    (hrecords : ∀ ns, s.records op ns = 0)
    (hfired : ∀ c cost, op = .settle c cost → c ∈ s.fired) : Quiet p s t := by
  obtain ⟨hone, hspent⟩ := hinv.exec h hop hscheme hpeers hperiod fun c hc ↦
    Or.inl (issued_of_ne h hother c hc)
  refine ⟨hone, fun ns ↦ ?_, (System.exec_issued h).1, System.exec_fired hfired h⟩
  rw [hspent, hrecords, add_zero]

/-- A call that moves the spend of one namespace by `cost`. -/
structure Lands (p : ModelProvider) (s t : System) (ns : String) (cost : ℚ) : Prop where
  one : OneProvider p t
  spent : ∀ ns', t.spent p ns' = s.spent p ns' + if ns' = ns then cost else 0
  issued : ∀ c ∈ s.issued, c ∈ t.issued

/-- The cost of a request without a callback lands. -/
theorem exec_add (hinv : OneProvider p s) (hperiod : p.budget.period ≠ .none) {ns workload : String}
    {cost : ℚ} (h : s.exec (.add p ns workload cost) = some (t, out)) :
    Lands p s t ns cost ∧ t.fired = s.fired := by
  obtain ⟨hone, hspent⟩ := hinv.exec h (by simp [Op.incarnation])
    (by simp +contextual [System.reaches, eq_comm]) (fun l hl ↦ (l.land_peers _ _ _ _).trans hl)
    (by rw [System.exec_now (by simp) h]) (fun c hc ↦ Or.inl (issued_of_ne h (by simp) c hc))
  refine ⟨⟨hone, fun ns' ↦ ?_, (System.exec_issued h).1⟩, System.exec_fired (by simp) h⟩
  rw [hspent, System.records, System.reaches, Op.landed]
  by_cases hcost : cost = 0
  · simp [hcost]
  · simp [hperiod, hcost]

/-- The cost of a boundary-admitted request lands. -/
theorem exec_settle (hinv : OneProvider p s) {c : Settle} {cost : ℚ}
    (hfired : c ∉ s.fired) (h : s.exec (.settle c cost) = some (t, out)) :
    Lands p s t c.ns cost ∧ t.fired = c :: s.fired := by
  have hc : c ∈ s.issued := by
    by_contra hc
    simp [System.exec, hc] at h
  have hfor := hinv.issued c hc
  obtain ⟨hone, hspent⟩ := hinv.exec h (by simp [Op.incarnation, hfor.providerName, hfor.uid])
    (by simp [System.reaches, hfired, hfor.scheme])
    (fun l hl ↦ (settleLocked_peers c _ _ l).trans hl) (by rw [System.exec_now (by simp) h])
    (fun c hc ↦ Or.inl (issued_of_ne h (by simp) c hc))
  refine ⟨⟨hone, fun ns' ↦ ?_, (System.exec_issued h).1⟩, ?_⟩
  · rw [hspent, System.records, System.reaches, Op.landed]
    simp [hfired]
  · simp only [System.exec, hc, hfired, not_true_eq_false, if_false, Option.some.injEq,
      Prod.mk.injEq] at h
    rw [← h.1]

/-- What a request that goes ahead tells about the ledger it was admitted in. -/
structure Admits (p : ModelProvider) (s t : System) (ns : String) (callback : Option Settle) :
    Prop where
  clear : Unobstructed s.now p ns (liveOf p s)
  below : callback = none → (s.ledger.boundaryOf p.budget (liveOf p s)
    (utilizationLocked p.budget (liveOf p s) ns)).inNS = false
  issued : ∀ c ∈ callback, c ∈ t.issued ∧ c ∉ s.issued ∧ c.ns = ns

theorem exec_admitted (hinv : OneProvider p s) (hperiod : p.budget.period ≠ .none)
    (hpolicies : p.budget.policies ≠ []) (hhard : hardActive p) {ns workload : String}
    (h : s.exec (.admitRequest p ns workload) = some (t, out)) :
    Quiet p s t ∧ ∀ callback, out.letsThrough = some callback → Admits p s t ns callback := by
  obtain ⟨l', d, callback, hx⟩ : ∃ l' d callback,
      s.ledger.admitLocked s.now p ns workload (liveOf p s) = (l', d, callback) := ⟨_, _, _, rfl⟩
  have hresult : (s.ledger.admitRequest s.now p ns workload).2 = (d, callback) := by
    rw [BudgetLedger.admitRequest, if_neg, BudgetLedger.withLedger_of_live hinv.sole.live]
    · exact congrArg Prod.snd hx
    · rintro (h | h)
      · exact hperiod (periodKey_eq_empty_iff.mp h)
      · exact hpolicies h
  have hnew : ∀ c ∈ callback, c.IssuedFor p ∧ c.ns = ns := by
    rintro c rfl
    obtain ⟨bd, hbd, hregion, -, -, -, rfl, -⟩ := admitLocked_some hx
    refine ⟨⟨rfl, rfl, rfl, ?_⟩, rfl⟩
    rcases hregion with hin | hin
    · exact Or.inl (Boundary.mem_keys.mpr (Or.inl ⟨hin, rfl⟩))
    · refine Or.inr ⟨Boundary.mem_keys.mpr (Or.inr ⟨hin, rfl⟩), ?_⟩
      rw [hbd, BudgetLedger.boundaryOf] at hin
      have hpos := (of_decide_eq_true hin).1
      rwa [utilizationLocked, utilizationOf_clUSD] at hpos
  obtain ⟨hkeeps, hissued⟩ := System.exec_issued h
  have hfor : ∀ c ∈ t.issued, c ∈ s.issued ∨ c.IssuedFor p := by
    intro c hc
    rcases hissued c hc with hc | ⟨p', ns', workload', hop, hc⟩
    · exact Or.inl hc
    · obtain ⟨rfl, rfl, rfl⟩ := by simpa only [Op.admitRequest.injEq] using hop
      rw [hresult] at hc
      exact Or.inr (hnew c hc).1
  obtain ⟨hone, hspent⟩ := hinv.exec h (by simp [Op.incarnation])
    (by simp +contextual [System.reaches, eq_comm])
    (fun l hl ↦ (admitLocked_frame _ _ _ _ _ l).2.2.2.1.trans hl)
    (by rw [System.exec_now (by simp) h]) hfor
  refine ⟨⟨hone, fun ns' ↦ ?_, hkeeps, System.exec_fired (by simp) h⟩, ?_⟩
  · rw [hspent]
    simp [System.records, Op.landed]
  · intro callback' hthrough
    simp only [System.exec, Option.some.injEq, Prod.mk.injEq, hresult] at h
    obtain ⟨rfl, rfl⟩ := h
    have hd : d.refused = false ∧ callback = callback' := by
      rw [Output.letsThrough] at hthrough
      split_ifs at hthrough with hd
      exact ⟨by simpa using hd, Option.some.inj hthrough⟩
    obtain ⟨hd, rfl⟩ := hd
    refine ⟨?_, ?_,
      fun c hc ↦ ⟨List.mem_append_right _ (Option.mem_toList.mpr hc), ?_, (hnew c hc).2⟩⟩
    · cases callback with
      | none => exact (admitLocked_passed hhard hx hd).1
      | some c =>
        obtain ⟨-, -, -, hclear, -⟩ := admitLocked_some hx
        exact hclear
    · rintro rfl
      exact (admitLocked_passed hhard hx hd).2
    · -- Callbacks are never handed out twice.
      have hnodup := hone.slots.issued_nodup
      rw [Option.mem_def.mp hc] at hnodup
      exact fun hmem ↦ List.disjoint_of_nodup_append hnodup hmem List.mem_cons_self

/-- The spend a request that goes ahead sees is below every threshold from which upward the ladder
blocks. -/
theorem Admits.spent_lt {ns : String} {callback : Option Settle} (h : Admits p s t ns callback)
    (hinv : OneProvider p s) {at' ceiling : ℚ} (hblocks : AlwaysBlocks p.budget at')
    (hceiling : ceilingOf p.budget.perNamespaceUSD = some ceiling) :
    s.spent p ns < at' / 100 * ceiling := by
  have hpos := ceilingOf_pos hceiling
  by_contra hle
  rw [not_lt] at hle
  refine h.clear.not_blocked (hblocks.decide_action_eq ?_)
  calc at' = at' / 100 * ceiling / ceiling * 100 := by field_simp
    _ ≤ s.spent p ns / ceiling * 100 := by gcongr
    _ = (utilizationLocked p.budget (liveOf p s) ns).nsPct := by
        rw [utilizationLocked, utilizationOf_nsPct _ _ hceiling, hinv.liveOf_spent]
    _ ≤ (utilizationLocked p.budget (liveOf p s) ns).worst := nsPct_le_worst _ _ _

/-- A request that goes ahead without a callback sees the spend below the boundary region. -/
theorem Admits.spent_lt_boundary {ns : String} (h : Admits p s t ns none) (hinv : OneProvider p s)
    {ceiling : ℚ} (hceiling : ceilingOf p.budget.perNamespaceUSD = some ceiling) :
    s.spent p ns < (minBlockAt p.budget - configuredMarginPercent p.budget) / 100 * ceiling := by
  have hpos := ceilingOf_pos hceiling
  have hout := h.below rfl
  rw [BudgetLedger.boundaryOf, decide_eq_false_iff_not, utilizationLocked,
    utilizationOf_nsUSD _ _ hceiling, utilizationOf_nsPct _ _ hceiling, hinv.liveOf_spent] at hout
  have hpct : s.spent p ns / ceiling * 100
      < minBlockAt p.budget - s.ledger.effectiveMarginPctLocked (liveOf p s) ceiling
        (configuredMarginPercent p.budget) := by
    by_contra hle
    exact hout ⟨hpos, not_lt.mp hle⟩
  have hfloor := s.ledger.configured_le_effectiveMarginPctLocked (liveOf p s) ceiling
    (configuredMarginPercent p.budget)
  calc s.spent p ns = s.spent p ns / ceiling * 100 / 100 * ceiling := by field_simp
    _ < (minBlockAt p.budget - configuredMarginPercent p.budget) / 100 * ceiling := by
        gcongr
        linarith

/-- No request of the namespace that goes ahead finds another one of it unsettled in the
boundary. -/
theorem Admits.fired {ns : String} {callback : Option Settle} (h : Admits p s t ns callback)
    (hinv : OneProvider p s) {c : Settle} (hc : c ∈ s.issued) (hns : c.ns = ns) : c ∈ s.fired := by
  by_contra hfired
  rcases (hinv.issued c hc).takes with hk | ⟨hk, hpos⟩
  · exact h.clear.ns_free (hns ▸ hinv.mem_liveOf_adm hc hfired hk)
  · refine h.clear.cluster_free ?_ (hinv.mem_liveOf_adm hc hfired hk)
    rwa [utilizationLocked, utilizationOf_clUSD]

end OneProvider

/-! ## The invariant of a run -/

/-- The invariant of a run against the bound `cap` on the spend an admission sees. -/
structure CapInv (p : ModelProvider) (cap ceiling : ℚ) (s : HardRun) : Prop where
  one : OneProvider p s.sys
  /-- A request in flight holds a callback that was handed out for it and has not fired. -/
  unsettled : ∀ r ∈ s.inFlight, ∀ c ∈ r.callback, c ∈ s.sys.issued ∧ c ∉ s.sys.fired ∧ c.ns = r.ns
  distinct : (s.inFlight.filterMap Request.callback).Nodup
  /-- What the latest admission found in flight has landed since, or is still in flight. -/
  accounted : ∀ ns,
    (s.admitted ns).Perm ((s.landed ns).map Prod.fst ++ s.inFlight.filter (·.ns = ns))
  serialized : ∀ ns, (s.admitted ns).countP (·.callback.isSome) ≤ 1
  below : ∀ r ∈ s.inFlight, r.callback = none →
    r.spentAt < (minBlockAt p.budget - configuredMarginPercent p.budget) / 100 * ceiling
  admitted_below : ∀ ns, ∀ r ∈ s.admitted ns, r.callback = none →
    r.spentAt < (minBlockAt p.budget - configuredMarginPercent p.budget) / 100 * ceiling
  counted : ∀ ns, s.sys.spent p ns ≤ cap + ((s.landed ns).map Prod.snd).sum

namespace CapInv

variable {p : ModelProvider} {cap ceiling : ℚ} {s s' : HardRun} {t : System}

theorem init (hcap : 0 ≤ cap) (window start : Time) :
    CapInv p cap ceiling (HardRun.init window start) where
  one := OneProvider.init p window start
  unsettled := nofun
  distinct := List.nodup_nil
  accounted _ := List.Perm.refl _
  serialized _ := Nat.zero_le _
  below := nofun
  admitted_below := nofun
  counted ns := by simpa [HardRun.init, System.spent, System.init, newBudgetLedger] using hcap

theorem quiet (hinv : CapInv p cap ceiling s) (ht : OneProvider.Quiet p s.sys t) :
    CapInv p cap ceiling { s with sys := t } :=
  { hinv with
    one := ht.one
    unsettled := fun r hr c hc ↦ by
      obtain ⟨hissued, hfired, hns⟩ := hinv.unsettled r hr c hc
      exact ⟨ht.issued c hissued, by rwa [ht.fired], hns⟩
    counted := fun ns ↦ by
      rw [ht.spent]
      exact hinv.counted ns }

theorem letThrough (hinv : CapInv p cap ceiling s) (ht : OneProvider.Quiet p s.sys t) {r : Request}
    (ha : OneProvider.Admits p s.sys t r.ns r.callback) (hspent : r.spentAt = s.sys.spent p r.ns)
    (hcap : s.sys.spent p r.ns ≤ cap)
    (hceiling : ceilingOf p.budget.perNamespaceUSD = some ceiling) :
    CapInv p cap ceiling (s.letThrough t r) := by
  have hbelow : ∀ r' ∈ r :: s.inFlight, r'.callback = none →
      r'.spentAt < (minBlockAt p.budget - configuredMarginPercent p.budget) / 100 * ceiling := by
    intro r' hr' hnone
    rcases List.mem_cons.mp hr' with rfl | hr'
    · rw [hnone] at ha
      rw [hspent]
      exact ha.spent_lt_boundary hinv.one hceiling
    · exact hinv.below r' hr' hnone
  refine
    { one := ht.one, unsettled := ?_, distinct := ?_, accounted := fun ns ↦ ?_,
      serialized := fun ns ↦ ?_, below := hbelow, admitted_below := fun ns r' hr' hnone ↦ ?_,
      counted := fun ns ↦ ?_ }
  · intro r' hr' c hc
    rcases List.mem_cons.mp hr' with rfl | hr'
    · obtain ⟨hissued, hfresh, hns⟩ := ha.issued c hc
      refine ⟨hissued, ?_, hns⟩
      rw [show (s.letThrough t r').sys.fired = t.fired from rfl, ht.fired]
      exact fun hfired ↦ hfresh (hinv.one.slots.fired_issued c hfired)
    · exact (hinv.quiet ht).unsettled r' hr' c hc
  · show ((r :: s.inFlight).filterMap Request.callback).Nodup
    cases hcallback : r.callback with
    | none =>
      rw [List.filterMap_cons_none hcallback]
      exact hinv.distinct
    | some c =>
      rw [List.filterMap_cons_some hcallback, List.nodup_cons]
      refine ⟨fun hmem ↦ ?_, hinv.distinct⟩
      obtain ⟨r', hr', hc⟩ := List.mem_filterMap.mp hmem
      exact (ha.issued c hcallback).2.1 (hinv.unsettled r' hr' c hc).1
  · by_cases hns : ns = r.ns
    · subst hns
      simp [HardRun.letThrough]
    · have hne : r.ns ≠ ns := fun h ↦ hns h.symm
      simpa [HardRun.letThrough, Function.update_of_ne hns, hne] using hinv.accounted ns
  · by_cases hns : ns = r.ns
    · -- No other request of the namespace holds a slot.
      subst hns
      have hothers : (s.inFlight.filter (·.ns = r.ns)).countP (·.callback.isSome) = 0 := by
        rw [List.countP_eq_zero]
        intro r' hr' hsome
        obtain ⟨hr', hns⟩ := List.mem_filter.mp hr'
        obtain ⟨c, hc⟩ := Option.isSome_iff_exists.mp hsome
        obtain ⟨hissued, hfired, hcns⟩ := hinv.unsettled r' hr' c hc
        exact hfired (ha.fired hinv.one hissued (hcns.trans (of_decide_eq_true hns)))
      rw [HardRun.letThrough]
      simp only [Function.update_self, decide_true, List.filter_cons_of_pos, List.countP_cons,
        hothers]
      split_ifs <;> simp
    · rw [HardRun.letThrough]
      simp only [Function.update_of_ne hns]
      exact hinv.serialized ns
  · by_cases hns : ns = r.ns
    · subst hns
      rw [HardRun.letThrough] at hr'
      simp only [Function.update_self] at hr'
      exact hbelow r' (List.mem_filter.mp hr').1 hnone
    · rw [HardRun.letThrough] at hr'
      simp only [Function.update_of_ne hns] at hr'
      exact hinv.admitted_below ns r' hr' hnone
  · rw [show (s.letThrough t r).sys = t from rfl, ht.spent]
    by_cases hns : ns = r.ns
    · subst hns
      simpa [HardRun.letThrough] using hcap
    · simpa [HardRun.letThrough, Function.update_of_ne hns] using hinv.counted ns

theorem finished (hinv : CapInv p cap ceiling s) {i : ℕ} {r : Request} {cost : ℚ}
    (hi : s.inFlight[i]? = some r) (ht : OneProvider.Lands p s.sys t r.ns cost)
    (hfired : ∀ c ∈ t.fired, c ∈ s.sys.fired ∨ r.callback = some c) :
    CapInv p cap ceiling (s.finished t i r cost) := by
  obtain ⟨hlt, hget⟩ := List.getElem?_eq_some_iff.mp hi
  have hperm : s.inFlight.Perm (r :: s.inFlight.eraseIdx i) := by
    rw [← hget]
    exact (List.getElem_cons_eraseIdx_perm hlt).symm
  have hsub : ∀ r' ∈ s.inFlight.eraseIdx i, r' ∈ s.inFlight := fun r' hr' ↦
    hperm.mem_iff.mpr (List.mem_cons_of_mem _ hr')
  have hdistinct := (hperm.filterMap Request.callback).nodup_iff.mp hinv.distinct
  refine
    { one := ht.one, unsettled := ?_, distinct := ?_, accounted := fun ns ↦ ?_,
      serialized := hinv.serialized, below := fun r' hr' ↦ hinv.below r' (hsub r' hr'),
      admitted_below := hinv.admitted_below, counted := fun ns ↦ ?_ }
  · intro r' hr' c hc
    obtain ⟨hissued, hc', hns⟩ := hinv.unsettled r' (hsub r' hr') c hc
    refine ⟨ht.issued c hissued, ?_, hns⟩
    intro hmem
    rcases hfired c hmem with h | h
    · exact hc' h
    · rw [List.filterMap_cons_some h, List.nodup_cons] at hdistinct
      exact hdistinct.1 (List.mem_filterMap.mpr ⟨r', hr', hc⟩)
  · exact hdistinct.sublist (List.Sublist.filterMap _ (List.sublist_cons_self _ _))
  · have hfilter := (hperm.filter fun r ↦ r.ns = ns)
    refine (hinv.accounted ns).trans ?_
    by_cases hns : r.ns = ns
    · subst hns
      rw [List.filter_cons_of_pos (by simp)] at hfilter
      simp only [HardRun.finished, Function.update_self, List.map_cons, List.cons_append]
      exact (hfilter.append_left _).trans List.perm_middle
    · have hne : ns ≠ r.ns := fun h ↦ hns h.symm
      rw [List.filter_cons_of_neg (by simpa using hns)] at hfilter
      simp only [HardRun.finished, Function.update_of_ne hne]
      exact hfilter.append_left _
  · rw [show (s.finished t i r cost).sys = t from rfl, ht.spent]
    have hcounted := hinv.counted ns
    by_cases hns : ns = r.ns
    · subst hns
      simp only [HardRun.finished, Function.update_self, if_true, List.map_cons, List.sum_cons]
      linarith
    · simpa [HardRun.finished, Function.update_of_ne hns, hns] using hcounted

/-- Every step keeps the invariant. -/
theorem step {at' : ℚ} (hperiod : p.budget.period ≠ .none) (hhard : hardActive p)
    (hpolicies : p.budget.policies ≠ []) (hblocks : AlwaysBlocks p.budget at')
    (hceiling : ceilingOf p.budget.perNamespaceUSD = some ceiling) {op : HardOp}
    (hinv : CapInv p (at' / 100 * ceiling) ceiling s) (h : s.step p op = some s') :
    CapInv p (at' / 100 * ceiling) ceiling s' := by
  cases op with
  | admitRequest ns workload =>
    rw [HardRun.step] at h
    obtain ⟨⟨t, out⟩, hexec, rfl⟩ := Option.map_eq_some_iff.mp h
    obtain ⟨hquiet, hthrough⟩ := hinv.one.exec_admitted hperiod hpolicies hhard hexec
    dsimp only
    split
    · rename_i callback hout
      have ha := hthrough callback hout
      exact hinv.letThrough hquiet ha rfl (ha.spent_lt hinv.one hblocks hceiling).le hceiling
    · exact hinv.quiet hquiet
  | finish i cost =>
    obtain ⟨r, hr, h⟩ := Option.bind_eq_some_iff.mp h
    obtain ⟨⟨t, out⟩, hexec, rfl⟩ := Option.map_eq_some_iff.mp h
    rw [Request.landing] at hexec
    cases hcallback : r.callback with
    | none =>
      rw [hcallback] at hexec
      obtain ⟨hlands, hfired⟩ := hinv.one.exec_add hperiod hexec
      exact hinv.finished hr hlands fun c hc ↦ Or.inl (hfired ▸ hc)
    | some c =>
      rw [hcallback] at hexec
      obtain ⟨-, hunfired, hns⟩ := hinv.unsettled r (List.mem_of_getElem? hr) c hcallback
      obtain ⟨hlands, hfired⟩ := hinv.one.exec_settle hunfired hexec
      refine hinv.finished hr (hns ▸ hlands) fun c' hc' ↦ ?_
      rw [hfired] at hc'
      rcases List.mem_cons.mp hc' with rfl | hc'
      · exact Or.inr hcallback
      · exact Or.inl hc'
  | settleAgain callback cost =>
    simp only [HardRun.step] at h
    split_ifs at h with hfired
    obtain ⟨⟨t, out⟩, hexec, rfl⟩ := Option.map_eq_some_iff.mp h
    have ht : t = s.sys := by
      simp only [System.exec, hfired, if_true] at hexec
      split_ifs at hexec
      exact (Prod.mk.inj (Option.some.inj hexec)).1.symm
    rw [ht]
    exact hinv
  | foldPeers =>
    rw [HardRun.step] at h
    obtain ⟨⟨t, out⟩, hexec, rfl⟩ := Option.map_eq_some_iff.mp h
    exact hinv.quiet (hinv.one.exec_quiet hexec (by simp [Op.incarnation])
      (by simp [System.reaches]) (fun l _ ↦ rfl) (by rw [System.exec_now (by simp) hexec]) (by simp)
      (fun ns ↦ by simp [System.records, Op.landed]) (by simp))
  | markPublished snapshot =>
    rw [HardRun.step] at h
    obtain ⟨⟨t, out⟩, hexec, rfl⟩ := Option.map_eq_some_iff.mp h
    exact hinv.quiet (hinv.one.exec_quiet hexec (by simp [Op.incarnation])
      (by simp [System.reaches]) (fun l hl ↦ hl) (by rw [System.exec_now (by simp) hexec]) (by simp)
      (fun ns ↦ System.records_of_not_reaches rfl ns) (by simp))
  | advance nanos =>
    simp only [HardRun.step] at h
    split_ifs at h with hsame
    obtain ⟨⟨t, out⟩, hexec, rfl⟩ := Option.map_eq_some_iff.mp h
    have hclock : t.now = s.sys.now + nanos := by
      simp only [System.exec, Option.some.injEq, Prod.mk.injEq] at hexec
      rw [← hexec.1]
    exact hinv.quiet (hinv.one.exec_quiet hexec rfl (by simp [System.reaches]) (fun l hl ↦ hl)
      (by rw [hclock, hsame]) (by simp) (fun ns ↦ System.records_of_not_reaches rfl ns) (by simp))

end CapInv

/-! ## Providers without a period -/

/-- Nothing is recorded for a provider whose period is `none`. -/
structure Untracked (p : ModelProvider) (s : HardRun) : Prop where
  own : ∀ l, s.sys.ledger.providers.lookup p.name = some l → l.own = ∅
  callbacks : ∀ r ∈ s.inFlight, r.callback = none
  fired : s.sys.fired = []

namespace Untracked

variable {p : ModelProvider} {s s' : HardRun}

theorem step (hnone : p.budget.period = .none) {op : HardOp} (hinv : Untracked p s)
    (h : s.step p op = some s') : Untracked p s' := by
  have hkey : ∀ now, periodKey p.budget.period now = "" := fun now ↦
    periodKey_eq_empty_iff.mpr hnone
  cases op with
  | admitRequest ns workload =>
    rw [HardRun.step] at h
    obtain ⟨⟨t, out⟩, hexec, rfl⟩ := Option.map_eq_some_iff.mp h
    simp only [System.exec, BudgetLedger.admitRequest, hkey, true_or, if_true, Option.toList_none,
      List.append_nil, Option.some.injEq, Prod.mk.injEq] at hexec
    obtain ⟨rfl, rfl⟩ := hexec
    refine ⟨hinv.own, fun r hr ↦ ?_, hinv.fired⟩
    rcases List.mem_cons.mp hr with rfl | hr
    · rfl
    · exact hinv.callbacks r hr
  | finish i cost =>
    obtain ⟨r, hr, h⟩ := Option.bind_eq_some_iff.mp h
    obtain ⟨⟨t, out⟩, hexec, rfl⟩ := Option.map_eq_some_iff.mp h
    rw [Request.landing, hinv.callbacks r (List.mem_of_getElem? hr)] at hexec
    simp only [System.exec, BudgetLedger.add, hkey, true_or, if_true, Option.some.injEq,
      Prod.mk.injEq] at hexec
    obtain ⟨rfl, -⟩ := hexec
    exact ⟨hinv.own, fun r hr ↦ hinv.callbacks r (List.mem_of_mem_eraseIdx hr), hinv.fired⟩
  | settleAgain callback cost =>
    simp only [HardRun.step, hinv.fired, List.not_mem_nil, if_false] at h
    cases h
  | foldPeers =>
    rw [HardRun.step] at h
    obtain ⟨⟨t, out⟩, hexec, rfl⟩ := Option.map_eq_some_iff.mp h
    simp only [System.exec, Option.some.injEq, Prod.mk.injEq] at hexec
    obtain ⟨rfl, -⟩ := hexec
    refine ⟨fun l hl ↦ ?_, hinv.callbacks, hinv.fired⟩
    simp only [System.update, BudgetLedger.foldPeers] at hl
    by_cases hlive : p.uid ∈ s.sys.ledger.superseded
    · rw [BudgetLedger.withLedger_of_superseded hlive] at hl
      exact hinv.own l hl
    · rw [BudgetLedger.lookup_withLedger_self hlive, Option.some.injEq] at hl
      rw [← hl]
      rcases s.sys.ledger.liveLedger_cases s.sys.now p.name p.uid p.budget.period with
        ⟨hstored, -⟩ | ⟨-, -, hown⟩
      · have hown := hinv.own _ hstored
        exact hown
      · exact hown
  | markPublished snapshot =>
    rw [HardRun.step] at h
    obtain ⟨⟨t, out⟩, hexec, rfl⟩ := Option.map_eq_some_iff.mp h
    simp only [System.exec, Option.some.injEq, Prod.mk.injEq] at hexec
    obtain ⟨rfl, -⟩ := hexec
    refine ⟨fun l hl ↦ ?_, hinv.callbacks, hinv.fired⟩
    simp only [System.update, BudgetLedger.markPublished] at hl
    cases hbound : s.sys.ledger.boundLedger p with
    | none =>
      rw [hbound] at hl
      exact hinv.own l hl
    | some l₀ =>
      rw [hbound, AList.lookup_insert, Option.some.injEq] at hl
      rw [← hl, (l₀.published_frame snapshot).2.2.1]
      exact hinv.own l₀ (BudgetLedger.boundLedger_eq_some.mp hbound).1
  | advance nanos =>
    simp only [HardRun.step, System.exec, Option.map_some] at h
    split_ifs at h
    rw [← Option.some.inj h]
    exact ⟨hinv.own, hinv.callbacks, hinv.fired⟩

theorem spent_eq_zero (hinv : Untracked p s) (ns : String) : s.sys.spent p ns = 0 := by
  rw [System.spent]
  cases hl : s.sys.ledger.providers.lookup p.name with
  | none => rfl
  | some l =>
    rw [Option.elim_some, hinv.own l hl]
    rfl

end Untracked

/-- **The hard cap on one replica.** Let `q` be a block policy of a hard provider with only block
policies at or above it. Whenever the settled spend of a namespace exceeds `q.atPercent` percent of
the ceiling, the excess is at most the actual cost of the requests of that namespace that landed
since its latest admission. These were in flight right after that admission. At most one of the
requests in flight then was admitted in the boundary region, and each of the others was let through
while the namespace's spend was below the region. -/
theorem hardCap_of_runs (p : ModelProvider) (hhard : p.budget.enforcement = .hard)
    (q : ModelProviderBudgetPolicy) (hq : q ∈ p.budget.policies) (hpercent : 0 ≤ q.atPercent)
    (habove : ∀ p' ∈ p.budget.policies, q.atPercent ≤ p'.atPercent → p'.action = .block)
    (ceiling : ℚ) (hceiling : ceilingOf p.budget.perNamespaceUSD = some ceiling)
    (window start : Time) (ops : List HardOp) (s : HardRun)
    (hrun : Run.Runs (HardRun.step p) (HardRun.init window start) ops s) (ns : String)
    (hover : q.atPercent / 100 * ceiling < s.sys.spent p ns) :
    s.sys.spent p ns - q.atPercent / 100 * ceiling ≤ ((s.landed ns).map Prod.snd).sum ∧
    ((s.landed ns).map Prod.fst).Subperm (s.admitted ns) ∧
    (s.admitted ns).countP (·.callback.isSome) ≤ 1 ∧
    ∀ r ∈ s.admitted ns, r.callback = none →
      r.spentAt < (minBlockAt p.budget - configuredMarginPercent p.budget) / 100 * ceiling := by
  have hpos := ceilingOf_pos hceiling
  have hcap : 0 ≤ (q.atPercent : ℚ) / 100 * ceiling := by positivity
  by_cases hperiod : p.budget.period = .none
  · -- Nothing is ever recorded, so nothing can exceed a ceiling.
    have hzero : Untracked p s := hrun.invariant (fun _ _ _ hinv h ↦ hinv.step hperiod h)
      ⟨fun _ h ↦ absurd h AList.lookup_empty_ne, nofun, rfl⟩
    rw [hzero.spent_eq_zero] at hover
    exact absurd hover (not_lt.mpr hcap)
  have hactive : hardActive p := by
    rw [hardActive, hhard, Bool.and_eq_true, List.any_eq_true]
    exact ⟨rfl, q, hq, decide_eq_true (habove q hq le_rfl)⟩
  have hinv : CapInv p (q.atPercent / 100 * ceiling) ceiling s := hrun.invariant
    (fun _ _ _ hinv h ↦ hinv.step hperiod hactive (List.ne_nil_of_mem hq)
      (alwaysBlocks_of_mem hq habove) hceiling h)
    (CapInv.init hcap window start)
  refine ⟨?_, ?_, hinv.serialized ns, hinv.admitted_below ns⟩
  · linarith [hinv.counted ns]
  · exact (List.sublist_append_left _ _).subperm.trans (hinv.accounted ns).symm.subperm

/-- A second request is in flight when the first one lands beyond the boundary region. The second
one lands 90 USD and exceeds the ceiling by 40. -/
theorem hardCap_of_two_requests :
    ∃ s, Run.Runs (HardRun.step hardProvider) (HardRun.init (30 * second) 0)
        [.admitRequest "team-a" "agent/x", .admitRequest "team-a" "agent/y", .finish 1 50,
          .finish 0 90] s
      ∧ s.sys.spent hardProvider "team-a" - 100 ≤ ((s.landed "team-a").map Prod.snd).sum
      ∧ s.sys.spent hardProvider "team-a" = 140 := by
  obtain ⟨s, hs, hspent⟩ := Option.map_eq_some_iff.mp (show
    (List.foldlM (HardRun.step hardProvider) (HardRun.init (30 * second) 0)
      [.admitRequest "team-a" "agent/x", .admitRequest "team-a" "agent/y", .finish 1 50,
        .finish 0 90]).map (fun s ↦ s.sys.spent hardProvider "team-a") = some 140
    by decide +kernel)
  have hcap := (hardCap_of_runs hardProvider rfl ⟨100, .block, none⟩ (by decide) (by decide)
    (by decide) 100 (by decide +kernel) _ _ _ s hs "team-a" (by rw [hspent]; norm_num)).1
  refine ⟨s, hs, ?_, hspent⟩
  norm_num at hcap ⊢
  exact hcap

/-- Two runs in which no request of the namespace costs as much as the excess over the lowest block
threshold. In the first, three requests let through at zero spend land 60 USD each. In the second,
requests follow one another, and an advisory policy above the lowest block policy lets them
through. -/
theorem excess_beyond_one_request :
    (∃ s, Run.Runs (HardRun.step hardProvider) (HardRun.init (30 * second) 0)
        [.admitRequest "team-a" "agent/x", .admitRequest "team-a" "agent/x",
          .admitRequest "team-a" "agent/x", .finish 0 60, .finish 0 60, .finish 0 60] s
      ∧ minBlockAt hardProvider.budget / 100 * 100 + 60 < s.sys.spent hardProvider "team-a") ∧
    ∃ p : ModelProvider, p.budget.enforcement = .hard
      ∧ p.budget.policies = [⟨10, .block, none⟩, ⟨20, .warn, none⟩, ⟨100, .block, none⟩]
      ∧ ceilingOf p.budget.perNamespaceUSD = some 100
      ∧ ∃ s, Run.Runs (HardRun.step p) (HardRun.init (30 * second) 0)
          [.foldPeers, .admitRequest "team-a" "agent/x", .finish 0 9,
            .admitRequest "team-a" "agent/x", .finish 0 12, .admitRequest "team-a" "agent/x",
            .finish 0 12, .admitRequest "team-a" "agent/x", .finish 0 12] s
        ∧ minBlockAt p.budget / 100 * 100 + 12 < s.sys.spent p "team-a" := by
  let ladder : ModelProvider := { hardProvider with
    budget := { hardProvider.budget with
      policies := [⟨10, .block, none⟩, ⟨20, .warn, none⟩, ⟨100, .block, none⟩] } }
  refine ⟨?_, ladder, rfl, rfl, by decide +kernel, ?_⟩
  · obtain ⟨s, hs, hspent⟩ := Option.map_eq_some_iff.mp (show
      (List.foldlM (HardRun.step hardProvider) (HardRun.init (30 * second) 0)
        [.admitRequest "team-a" "agent/x", .admitRequest "team-a" "agent/x",
          .admitRequest "team-a" "agent/x", .finish 0 60, .finish 0 60, .finish 0 60]).map
        (fun s ↦ s.sys.spent hardProvider "team-a") = some 180 by decide +kernel)
    exact ⟨s, hs, by rw [hspent]; decide +kernel⟩
  · obtain ⟨s, hs, hspent⟩ := Option.map_eq_some_iff.mp (show
      (List.foldlM (HardRun.step ladder) (HardRun.init (30 * second) 0)
        [.foldPeers, .admitRequest "team-a" "agent/x", .finish 0 9,
          .admitRequest "team-a" "agent/x", .finish 0 12, .admitRequest "team-a" "agent/x",
          .finish 0 12, .admitRequest "team-a" "agent/x", .finish 0 12]).map
        (fun s ↦ s.sys.spent ladder "team-a") = some 45 by decide +kernel)
    exact ⟨s, hs, by rw [hspent]; decide +kernel⟩

end Kaalm
