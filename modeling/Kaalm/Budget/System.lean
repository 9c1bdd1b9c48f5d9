import Kaalm.Budget.Hard
import Kaalm.Foundation.Run

/-!
# The ledger as a system

A run of a gateway replica's budget ledger: a list of calls, each atomic under the ledger mutex,
interleaved with the clock and with changes of the replica count. The clock never goes back; Go
compares the monotonic reading that `time.Now` carries.

## Callbacks

`issued` lists the settle callbacks that admissions handed out and `fired` those whose
`sync.Once` has run. A callback is identified with the variables it captures, of which the UID and
the token alone tell any two apart (`SlotInv.token_inj`). Invoking a callback again is a step that
changes nothing.

## Resets

Nothing in the source records that a ledger was reset. A critical section resets the ledger of a
name exactly when it leaves another UID or another period behind, so `resetBy` compares these two
before and after a step, and the field `stale` collects the callbacks whose provider's ledger was
reset since they were issued. No step reads it.

## Names and UIDs

Every call carries a provider name and a UID. The API server never gives one UID to two objects,
so `nameOf` fixes the name each UID belongs to, and a step that carries another name under that UID
does not exist.
-/

namespace Kaalm

/-- A call on the ledger, or an event of its environment. -/
inductive Op
  | admitRequest (provider : ModelProvider) (ns workload : String)
  | settle (callback : Settle) (cost : ℚ)
  | add (provider : ModelProvider) (ns workload : String) (cost : ℚ)
  | enforce (provider : ModelProvider) (ns : String)
  | foldPeers (provider : ModelProvider) (peers : GoMap String ℚ)
  | foldWorkloadPeers (provider : ModelProvider) (peers : GoMap String ℚ)
  | ownPartial (provider : ModelProvider)
  | ownWorkloadPartial (provider : ModelProvider)
  | markPublished (provider : ModelProvider) (snapshot : Time)
  | workloadSpend (ns : String)
  | setReplicas (count : Option ℤ)
  | advance (nanos : ℕ)

/-- The name and the UID a call carries. -/
def Op.incarnation : Op → Option (String × String)
  | .admitRequest p _ _ | .add p _ _ _ | .enforce p _ | .foldPeers p _ | .foldWorkloadPeers p _
  | .ownPartial p | .ownWorkloadPartial p | .markPublished p _ => some (p.name, p.uid)
  | .settle c _ => some (c.providerName, c.uid)
  | .workloadSpend _ | .setReplicas _ | .advance _ => none

/-- What a call returns. -/
inductive Output
  | nothing
  | decision (d : BudgetDecision) (callback : Option Settle)
  | kick (providerName : Option String)
  | ownPartial (out : Option (String × GoMap String String × Bool))
  | ownWorkloadPartial (out : Option (String × GoMap String String))
  | workloadSpend (out : GoMap String WorkloadProviderSpend)
  deriving DecidableEq

/-- The ledger of a replica with the callbacks it handed out. -/
structure System where
  ledger : BudgetLedger
  now : Time
  issued : List Settle := []
  fired : List Settle := []
  stale : List Settle := []
  deriving DecidableEq

/-- A replica that has just started. -/
def System.init (window start : Time) : System :=
  { ledger := { newBudgetLedger with stalenessWindow := window }, now := start }

/-- The UID and the period the ledger of a name counts for. -/
def BudgetLedger.identity (b : BudgetLedger) (name : String) : Option (String × String) :=
  (b.providers.lookup name).map fun l ↦ (l.uid, l.period)

def resetBy (b b' : BudgetLedger) (name : String) : Bool := b.identity name ≠ b'.identity name

/-- Replace the ledger, noting the callbacks whose provider's ledger is reset by that. -/
def System.update (s : System) (b : BudgetLedger) : System :=
  { s with
    ledger := b
    stale := s.stale ++ s.issued.filter fun c ↦ resetBy s.ledger b c.providerName }

/-- One call. Only a callback that was handed out can be invoked. -/
def System.exec (s : System) : Op → Option (System × Output)
  | .admitRequest provider ns workload =>
    let (b, d, callback) := s.ledger.admitRequest s.now provider ns workload
    some ({ s.update b with issued := s.issued ++ callback.toList }, .decision d callback)
  | .settle callback cost =>
    if callback ∉ s.issued then none
    else if callback ∈ s.fired then some (s, .nothing)
    else
      let (b, kick) := s.ledger.settle s.now callback cost
      some ({ s.update b with fired := callback :: s.fired }, .kick kick)
  | .add provider ns workload cost =>
    some (s.update (s.ledger.add s.now provider ns workload cost), .nothing)
  | .enforce provider ns =>
    let (b, d) := s.ledger.enforce s.now provider ns
    some (s.update b, .decision d none)
  | .foldPeers provider peers =>
    some (s.update (s.ledger.foldPeers s.now provider peers), .nothing)
  | .foldWorkloadPeers provider peers =>
    some (s.update (s.ledger.foldWorkloadPeers s.now provider peers), .nothing)
  | .ownPartial provider => some (s, .ownPartial (s.ledger.ownPartial provider))
  | .ownWorkloadPartial provider =>
    some (s, .ownWorkloadPartial (s.ledger.ownWorkloadPartial provider))
  | .markPublished provider snapshot =>
    some (s.update (s.ledger.markPublished provider snapshot), .nothing)
  | .workloadSpend ns => some (s, .workloadSpend (s.ledger.workloadSpend ns))
  | .setReplicas count => some (s.update { s.ledger with replicas := count }, .nothing)
  | .advance nanos => some ({ s with now := s.now + nanos }, .nothing)

/-- The UID a call carries belongs to the name it carries. -/
def Op.wellNamed (nameOf : String → String) (op : Op) : Bool :=
  op.incarnation.all fun i ↦ nameOf i.2 = i.1

/-- One call of a provider whose UID belongs to its name, with what it returns. -/
def System.call (nameOf : String → String) (s : System) (op : Op) : Option (System × Output) :=
  if op.wellNamed nameOf then s.exec op else none

/-- The step function. -/
def System.step (nameOf : String → String) (s : System) (op : Op) : Option System :=
  (s.call nameOf op).map Prod.fst

theorem System.call_eq_some {nameOf : String → String} {s s' : System} {op : Op} {out : Output} :
    s.call nameOf op = some (s', out) ↔ op.wellNamed nameOf ∧ s.exec op = some (s', out) := by
  rw [System.call]
  by_cases h : op.wellNamed nameOf
  · simp [h]
  · simp [h]

theorem System.step_eq_some {nameOf : String → String} {s s' : System} {op : Op} :
    s.step nameOf op = some s' ↔ op.wellNamed nameOf ∧ ∃ out, s.exec op = some (s', out) := by
  rw [System.step, Option.map_eq_some_iff]
  constructor
  · rintro ⟨⟨t, out⟩, h, rfl⟩
    obtain ⟨hnamed, hexec⟩ := System.call_eq_some.mp h
    exact ⟨hnamed, out, hexec⟩
  · rintro ⟨hnamed, out, hexec⟩
    exact ⟨(s', out), System.call_eq_some.mpr ⟨hnamed, hexec⟩, rfl⟩

/-- Only the clock moves the clock. -/
theorem System.exec_now {s t : System} {op : Op} {out : Output}
    (hop : ∀ nanos, op ≠ .advance nanos) (h : s.exec op = some (t, out)) : t.now = s.now := by
  cases op with
  | settle c cost =>
    simp only [System.exec] at h
    split_ifs at h <;> cases h <;> rfl
  | advance nanos => exact absurd rfl (hop nanos)
  | _ =>
    cases h
    rfl

/-- A callback joins the list when it is handed out, and stays there. -/
theorem System.exec_issued {s t : System} {op : Op} {out : Output} (h : s.exec op = some (t, out)) :
    (∀ c ∈ s.issued, c ∈ t.issued) ∧
    ∀ c ∈ t.issued, c ∈ s.issued ∨ ∃ p ns workload, op = .admitRequest p ns workload
      ∧ (s.ledger.admitRequest s.now p ns workload).2.2 = some c := by
  cases op with
  | admitRequest p ns workload =>
    cases h
    refine ⟨fun c hc ↦ List.mem_append_left _ hc, fun c hc ↦ ?_⟩
    rcases List.mem_append.mp hc with hc | hc
    · exact Or.inl hc
    · exact Or.inr ⟨p, ns, workload, rfl, Option.mem_toList.mp hc⟩
  | settle c cost =>
    simp only [System.exec] at h
    split_ifs at h <;> rw [← (Prod.mk.inj (Option.some.inj h)).1] <;>
      exact ⟨fun _ hc ↦ hc, fun _ hc ↦ Or.inl hc⟩
  | _ =>
    cases h
    exact ⟨fun _ hc ↦ hc, fun _ hc ↦ Or.inl hc⟩

/-- Only the first invocation of a callback fires it. -/
theorem System.exec_fired {s t : System} {op : Op} {out : Output}
    (hop : ∀ c cost, op = .settle c cost → c ∈ s.fired) (h : s.exec op = some (t, out)) :
    t.fired = s.fired := by
  cases op with
  | settle c cost =>
    simp only [System.exec, hop c cost rfl, if_true] at h
    split_ifs at h
    rw [← (Prod.mk.inj (Option.some.inj h)).1]
  | _ =>
    cases h
    rfl

/-! ## Resets -/

namespace System

variable {s s' : System} {b b₁ b₂ : BudgetLedger}

theorem resetBy_eq_false {n : String} :
    resetBy b b₁ n = false ↔ b.identity n = b₁.identity n := by
  rw [resetBy, decide_eq_false_iff_not, not_not]

theorem mem_stale_update {c : Settle} :
    c ∈ (s.update b).stale ↔
      c ∈ s.stale ∨ c ∈ s.issued
        ∧ s.ledger.identity c.providerName ≠ b.identity c.providerName := by
  rw [update, List.mem_append, List.mem_filter, resetBy, decide_eq_true_iff]

/-- A callback becomes stale when its provider's ledger is reset. -/
theorem exec_stale {op : Op} {out : Output} {c : Settle} (h : s.exec op = some (s', out))
    (hc : c ∈ s'.stale) : c ∈ s.stale ∨ c ∈ s.issued
      ∧ s.ledger.identity c.providerName ≠ s'.ledger.identity c.providerName := by
  cases op with
  | settle c' cost =>
    simp only [System.exec] at h
    split_ifs at h <;> rw [← (Prod.mk.inj (Option.some.inj h)).1] at hc ⊢
    · exact Or.inl hc
    · exact mem_stale_update.mp hc
  | ownPartial p | ownWorkloadPartial p | workloadSpend ns | advance nanos =>
    cases h
    exact Or.inl hc
  | _ =>
    cases h
    exact mem_stale_update.mp hc

/-- A ledger with the same identities makes no callback stale. -/
theorem update_of_identity (h : ∀ n, s.ledger.identity n = b.identity n) :
    s.update b = { s with ledger := b } := by
  have hnone : s.issued.filter (fun c ↦ resetBy s.ledger b c.providerName) = [] := by
    rw [List.filter_eq_nil_iff]
    intro c _
    rw [Bool.not_eq_true, resetBy_eq_false]
    exact h c.providerName
  rw [update, hnone, List.append_nil]

/-- An update in two parts, of which only the first can reset. -/
theorem update_eq_of_identity (h : ∀ n, b₁.identity n = b₂.identity n) :
    s.update b₂ = { s.update b₁ with ledger := b₂ } := by
  have hfilter : (fun c : Settle ↦ resetBy s.ledger b₂ c.providerName)
      = fun c ↦ resetBy s.ledger b₁ c.providerName := by
    funext c
    rw [resetBy, resetBy, h c.providerName]
  rw [update, update, hfilter]

end System

/-! ## Storing under a bound name -/

namespace BudgetLedger

variable {b : BudgetLedger} {now : Time} {name uid : String} {scheme : BudgetPeriod}

/-- Write through the pointer to the ledger of a name. -/
def store (b : BudgetLedger) (name : String) (l : ProviderLedger) : BudgetLedger :=
  { b with providers := b.providers.insert name l }

theorem lookup_store (l : ProviderLedger) (n : String) :
    (b.store name l).providers.lookup n = if n = name then some l else b.providers.lookup n :=
  AList.lookup_insert_ite _ _ _ _

/-- Storing a ledger with the same UID and period resets nothing. -/
theorem identity_store {l l' : ProviderLedger} (h : b.providers.lookup name = some l)
    (huid : l'.uid = l.uid) (hperiod : l'.period = l.period) (n : String) :
    b.identity n = (b.store name l').identity n := by
  rw [identity, identity, lookup_store]
  by_cases hn : n = name
  · rw [if_pos hn, hn, h, Option.map_some, Option.map_some, huid, hperiod]
  · rw [if_neg hn]

/-- `ledgerFor` of a live UID stores the ledger it returns. -/
theorem ledgerFor_of_live (h : uid ∉ b.superseded) :
    (b.ledgerFor now name uid scheme).1 =
      { b.store name (b.liveLedger now name uid scheme) with
        superseded := b.supersededBy name uid } := by
  rw [ledgerFor, supersededBy, liveLedger, boundTo, store]
  simp only [if_neg h]
  cases b.providers.lookup name with
  | none => simp
  | some l =>
    by_cases hl : l.uid = uid
    · simp [hl, Option.filter]
    · simp [hl, Option.filter]

theorem lookup_ledgerFor (h : uid ∉ b.superseded) (n : String) :
    (b.ledgerFor now name uid scheme).1.providers.lookup n
      = if n = name then some (b.liveLedger now name uid scheme) else b.providers.lookup n := by
  rw [ledgerFor_of_live h]
  exact lookup_store _ n

theorem superseded_ledgerFor (h : uid ∉ b.superseded) :
    (b.ledgerFor now name uid scheme).1.superseded = b.supersededBy name uid := by
  rw [ledgerFor_of_live h]

/-- A critical section of a live UID: bind the name, then store the result. -/
theorem withLedger_eq_store {α : Type} {f : ProviderLedger → ProviderLedger × α}
    (h : uid ∉ b.superseded) :
    b.withLedger now name uid scheme f =
      ((b.ledgerFor now name uid scheme).1.store name (f (b.liveLedger now name uid scheme)).1,
        (f (b.liveLedger now name uid scheme)).2) := by
  rw [withLedger_of_live h, ledgerFor_of_live h, store, store]
  simp only [AList.insert_insert]

variable (b now name uid scheme) in
/-- Binding a name either leaves the state as it is, or resets the ledger of that name. -/
theorem liveLedger_cases :
    (b.providers.lookup name = some (b.liveLedger now name uid scheme)
        ∧ b.supersededBy name uid = b.superseded) ∨
      (b.identity name ≠ some (uid, periodKey scheme now)
        ∧ (b.liveLedger now name uid scheme).adm = ∅
        ∧ (b.liveLedger now name uid scheme).own = ∅) := by
  cases hbound : b.boundTo name uid with
  | some l =>
    rw [liveLedger_of_bound hbound]
    obtain ⟨hlookup, huid⟩ := boundTo_eq_some.mp hbound
    by_cases hperiod : l.period = periodKey scheme now
    · left
      rw [ProviderLedger.rollover_of_eq hperiod, supersededBy, hlookup]
      simp [huid]
    · right
      refine ⟨?_, ProviderLedger.rollover_adm_of_ne hperiod,
        ProviderLedger.rollover_own_of_ne hperiod⟩
      rw [identity, hlookup, Option.map_some]
      intro h
      exact hperiod (Prod.mk.inj (Option.some.inj h)).2
  | none =>
    right
    rw [liveLedger_of_unbound hbound]
    refine ⟨?_, rfl, rfl⟩
    intro h
    rw [identity, Option.map_eq_some_iff] at h
    obtain ⟨l, hlookup, hl⟩ := h
    have huid : l.uid = uid := (Prod.mk.inj hl).1
    rw [boundTo_eq_some.mpr ⟨hlookup, huid⟩] at hbound
    exact absurd hbound (by simp)

end BudgetLedger

/-! ## What a call does to the ledger -/

/-- The scheme with which a call reaches `ledgerFor`, if it gets there. -/
def System.reaches (s : System) : Op → Option BudgetPeriod
  | .admitRequest p _ _ | .enforce p _ =>
    if p.budget.period = .none ∨ p.budget.policies = [] then none else some p.budget.period
  | .add p _ _ cost =>
    if p.budget.period = .none ∨ cost = 0 then none else some p.budget.period
  | .foldPeers p _ | .foldWorkloadPeers p _ => some p.budget.period
  | .settle c _ => if c ∈ s.fired then none else some c.scheme
  | _ => none

/-- What a call that reaches `ledgerFor` writes through the pointer. -/
def Op.write (s : System) (op : Op) (l : ProviderLedger) : ProviderLedger :=
  match op with
  | .admitRequest p ns workload => (s.ledger.admitLocked s.now p ns workload l).1
  | .settle c cost => c.settleLocked s.now cost l
  | .add _ ns workload cost => l.land s.now ns workload cost
  | .foldPeers _ peers => { l with peers := peers, lastFoldOK := some s.now }
  | .foldWorkloadPeers _ peers => { l with peersW := peers }
  | _ => l

/-- What a call leaves of the ledger. -/
inductive Effect (s : System) (op : Op) : BudgetLedger → Prop
  | same (hreach : s.reaches op = none) : Effect s op s.ledger
  | critical (name uid : String) (scheme : BudgetPeriod)
      (hop : op.incarnation = some (name, uid)) (hreach : s.reaches op = some scheme) :
      Effect s op (s.ledger.withLedger s.now name uid scheme fun l ↦ (op.write s l, ())).1
  | published (p : ModelProvider) (snapshot : Time) (l : ProviderLedger)
      (hop : op = .markPublished p snapshot) (hbound : s.ledger.boundLedger p = some l) :
      Effect s op (s.ledger.store p.name (l.published snapshot))
  | replicas (count : Option ℤ) (hop : op = .setReplicas count) :
      Effect s op { s.ledger with replicas := count }

/-- Every call has one of these effects. -/
theorem System.exec_effect {s t : System} {op : Op} {out : Output}
    (h : s.exec op = some (t, out)) : Effect s op t.ledger := by
  cases op with
  | admitRequest p ns workload =>
    simp only [System.exec, Option.some.injEq, Prod.mk.injEq] at h
    rw [← h.1, BudgetLedger.admitRequest]
    simp only [System.update]
    by_cases hskip : periodKey p.budget.period s.now = "" ∨ p.budget.policies = []
    · rw [if_pos hskip]
      rw [periodKey_eq_empty_iff] at hskip
      exact .same (if_pos hskip)
    · rw [if_neg hskip, BudgetLedger.withLedger_fst]
      rw [periodKey_eq_empty_iff] at hskip
      exact .critical p.name p.uid p.budget.period rfl (if_neg hskip)
  | settle c cost =>
    simp only [System.exec] at h
    split_ifs at h with hissued hfired
    · rw [← (Prod.mk.inj (Option.some.inj h)).1]
      exact .same (if_pos hfired)
    · rw [← (Prod.mk.inj (Option.some.inj h)).1]
      simp only [System.update, settle_fst]
      exact .critical c.providerName c.uid c.scheme rfl (if_neg hfired)
  | add p ns workload cost =>
    cases h
    rw [BudgetLedger.add]
    simp only [System.update]
    by_cases hskip : periodKey p.budget.period s.now = "" ∨ cost = 0
    · rw [if_pos hskip]
      rw [periodKey_eq_empty_iff] at hskip
      exact .same (if_pos hskip)
    · rw [if_neg hskip]
      rw [periodKey_eq_empty_iff] at hskip
      exact .critical p.name p.uid p.budget.period rfl (if_neg hskip)
  | enforce p ns =>
    simp only [System.exec, Option.some.injEq, Prod.mk.injEq] at h
    rw [← h.1, BudgetLedger.enforce]
    simp only [System.update]
    by_cases hskip : periodKey p.budget.period s.now = "" ∨ p.budget.policies = []
    · rw [if_pos hskip]
      rw [periodKey_eq_empty_iff] at hskip
      exact .same (if_pos hskip)
    · rw [if_neg hskip, BudgetLedger.withLedger_fst]
      rw [periodKey_eq_empty_iff] at hskip
      exact .critical p.name p.uid p.budget.period rfl (if_neg hskip)
  | foldPeers p peers =>
    cases h
    exact .critical p.name p.uid p.budget.period rfl rfl
  | foldWorkloadPeers p peers =>
    cases h
    exact .critical p.name p.uid p.budget.period rfl rfl
  | markPublished p snapshot =>
    cases h
    rw [BudgetLedger.markPublished]
    simp only [System.update]
    cases hl : s.ledger.boundLedger p with
    | none => exact .same rfl
    | some l => exact .published p snapshot l rfl hl
  | setReplicas count =>
    cases h
    exact .replicas count rfl
  | ownPartial p | ownWorkloadPartial p | workloadSpend ns | advance nanos =>
    cases h
    exact .same rfl

/-! ## What a call writes -/

/-- The cost a call carries. -/
def Op.cost : Op → ℚ
  | .add _ _ _ cost | .settle _ cost => cost
  | _ => 0

/-- The namespace a call carries a cost for. -/
def Op.charges : Op → Option String
  | .add _ ns _ _ => some ns
  | .settle c _ => some c.ns
  | _ => none

/-- What a call that reaches the ledger records for a namespace. -/
def Op.landed (op : Op) (ns : String) : ℚ :=
  match op with
  | .add _ ns' _ cost => if ns = ns' then cost else 0
  | .settle c cost => if ns = c.ns then cost else 0
  | _ => 0

/-- What a call records for a namespace in the ledger of its UID, unless that is superseded. -/
def System.records (s : System) (op : Op) (ns : String) : ℚ :=
  if (s.reaches op).isSome then op.landed ns else 0

namespace Op

variable (s : System) (op : Op) (l : ProviderLedger)

@[simp] theorem write_uid : (op.write s l).uid = l.uid := by
  cases op with
  | admitRequest p ns workload => exact (admitLocked_frame _ _ _ _ _ l).1
  | settle c cost => exact settleLocked_uid c _ cost l
  | add p ns workload cost => exact l.land_uid _ _ _ _
  | _ => rfl

@[simp] theorem write_period : (op.write s l).period = l.period := by
  cases op with
  | admitRequest p ns workload => exact (admitLocked_frame _ _ _ _ _ l).2.1
  | settle c cost => exact settleLocked_period c _ cost l
  | add p ns workload cost => exact l.land_period _ _ _ _
  | _ => rfl

theorem get_write_own (ns : String) : (op.write s l).own.get ns = l.own.get ns + op.landed ns := by
  cases op with
  | admitRequest p ns' workload =>
    rw [write, (admitLocked_frame _ _ _ _ _ l).2.2.1]
    exact (add_zero _).symm
  | settle c cost => exact get_settleLocked_own c _ cost l ns
  | add p ns' workload cost =>
    rw [write, ProviderLedger.land_own, AList.get_bump]
    rfl
  | _ => exact (add_zero _).symm

/-- Own counters gain at most the namespace the call carries a cost for. -/
theorem mem_write_own {ns : String} (h : ns ∈ (op.write s l).own) :
    ns ∈ l.own ∨ op.charges = some ns := by
  cases op with
  | admitRequest p ns' workload =>
    rw [write, (admitLocked_frame _ _ _ _ _ l).2.2.1] at h
    exact Or.inl h
  | settle c cost =>
    rw [write, settleLocked_own] at h
    split_ifs at h
    · exact Or.inl h
    · rw [AList.mem_bump] at h
      exact h.symm.imp id fun h ↦ congrArg some h.symm
  | add p ns' workload cost =>
    rw [write, ProviderLedger.land_own, AList.mem_bump] at h
    exact h.symm.imp id fun h ↦ congrArg some h.symm
  | _ => exact Or.inl h

variable {s op}

/-- The write-path signal is raised by a recorded cost, and by nothing else. -/
theorem write_dirtySince {scheme : BudgetPeriod} (hreach : s.reaches op = some scheme) :
    (op.write s l).dirtySince
      = if op.cost = 0 then l.dirtySince else some (l.dirtySince.getD s.now) := by
  cases op with
  | admitRequest p ns workload =>
    exact (admitLocked_frame _ _ _ _ _ l).2.2.2.2.1
  | settle c cost => exact settleLocked_dirtySince c _ cost l
  | add p ns workload cost =>
    rw [System.reaches] at hreach
    split_ifs at hreach with hskip
    have hcost : (Op.add p ns workload cost).cost ≠ 0 := fun h ↦ hskip (Or.inr h)
    rw [if_neg hcost]
    exact l.land_dirtySince _ _ _ _
  | _ => rfl

theorem landed_nonneg (h : 0 ≤ op.cost) (ns : String) : 0 ≤ op.landed ns := by
  cases op with
  | add p ns' workload cost =>
    rw [landed]
    split_ifs
    · exact h
    · exact le_rfl
  | settle c cost =>
    rw [landed]
    split_ifs
    · exact h
    · exact le_rfl
  | _ => exact le_rfl

end Op

theorem System.records_of_reaches {s : System} {op : Op} {scheme : BudgetPeriod}
    (h : s.reaches op = some scheme) (ns : String) : s.records op ns = op.landed ns := by
  rw [System.records, h, Option.isSome_some, if_pos rfl]

theorem System.records_of_not_reaches {s : System} {op : Op} (h : s.reaches op = none)
    (ns : String) : s.records op ns = 0 := by
  rw [System.records, h, Option.isSome_none, if_neg (by simp)]

theorem System.records_nonneg {s : System} {op : Op} (h : 0 ≤ op.cost) (ns : String) :
    0 ≤ s.records op ns := by
  rw [System.records]
  split_ifs
  · exact Op.landed_nonneg h ns
  · exact le_rfl

/-! ## A name used by one UID -/

/-- No call of another UID has used the name. -/
structure BudgetLedger.Sole (name uid : String) (b : BudgetLedger) : Prop where
  bound : ∀ l, b.providers.lookup name = some l → l.uid = uid
  live : uid ∉ b.superseded

/-- What a call of that UID leaves under the name. -/
inductive SoleEffect (name uid : String) (s : System) (op : Op) : Option ProviderLedger → Prop
  | same (hreach : s.reaches op = none) :
      SoleEffect name uid s op (s.ledger.providers.lookup name)
  | critical (scheme : BudgetPeriod) (hop : op.incarnation = some (name, uid))
      (hreach : s.reaches op = some scheme) :
      SoleEffect name uid s op (some (op.write s (s.ledger.liveLedger s.now name uid scheme)))
  | published (p : ModelProvider) (snapshot : Time) (l : ProviderLedger)
      (hop : op = .markPublished p snapshot) (hreach : s.reaches op = none)
      (hl : s.ledger.providers.lookup name = some l) :
      SoleEffect name uid s op (some (l.published snapshot))

namespace BudgetLedger.Sole

variable {name uid : String} {s t : System} {op : Op} {out : Output}

theorem init (name uid : String) (window start : Time) :
    Sole name uid (System.init window start).ledger :=
  ⟨fun _ h ↦ absurd h AList.lookup_empty_ne, Finset.notMem_empty _⟩

theorem boundTo {b : BudgetLedger} (h : Sole name uid b) :
    b.boundTo name uid = b.providers.lookup name := by
  rw [BudgetLedger.boundTo]
  cases hl : b.providers.lookup name with
  | none => rfl
  | some l => simp [Option.filter, h.bound l hl]

/-- Calls that carry this name and UID keep the name to the UID. -/
theorem exec (hsole : Sole name uid s.ledger)
    (hop : op.incarnation.all fun i ↦ i = (name, uid)) (h : s.exec op = some (t, out)) :
    Sole name uid t.ledger ∧ SoleEffect name uid s op (t.ledger.providers.lookup name) := by
  have heffect := System.exec_effect h
  generalize t.ledger = b at heffect ⊢
  cases heffect with
  | same hreach => exact ⟨hsole, .same hreach⟩
  | critical n u scheme hcarries hreach =>
    rw [hcarries, Option.all_some, decide_eq_true_iff, Prod.mk.injEq] at hop
    obtain ⟨rfl, rfl⟩ := hop
    have hlookup :
      (s.ledger.withLedger s.now n u scheme fun l ↦ (op.write s l, ())).1.providers.lookup n
        = some (op.write s (s.ledger.liveLedger s.now n u scheme)) :=
      lookup_withLedger_self hsole.live
    refine ⟨⟨fun l hl ↦ ?_, ?_⟩, ?_⟩
    · rw [hlookup, Option.some.injEq] at hl
      rw [← hl, Op.write_uid, liveLedger_uid]
    · rw [withLedger_of_live hsole.live, mem_supersededBy]
      rintro (h | ⟨-, -, -, hne⟩)
      · exact hsole.live h
      · exact hne rfl
    · rw [hlookup]
      exact .critical scheme hcarries hreach
  | published p snapshot l hmark hbound =>
    subst hmark
    have hcarries : p.name = name ∧ p.uid = uid := by simpa [Op.incarnation] using hop
    obtain ⟨rfl, rfl⟩ := hcarries
    obtain ⟨hl, huid⟩ := boundLedger_eq_some.mp hbound
    refine ⟨⟨fun l' hl' ↦ ?_, hsole.live⟩, ?_⟩
    · rw [lookup_store, if_pos rfl, Option.some.injEq] at hl'
      rw [← hl', (l.published_frame snapshot).1, huid]
    · rw [lookup_store, if_pos rfl]
      exact .published p snapshot l rfl rfl hl
  | replicas count hset => exact ⟨⟨hsole.bound, hsole.live⟩, .same (by rw [hset]; rfl)⟩

end BudgetLedger.Sole

end Kaalm
