import Kaalm.Budget.System

/-!
# Editing the budget period

`ledgerFor` recomputes the period from the scheme its caller carries: the scheme of the provider
object a request read, or the one a settle callback captured. While `spec.budget.period` stays as
it is, every caller carries the same scheme and only the clock can change the period. Across an
edit two schemes drive one ledger, and each call resets the counters the other scheme's calls have
built up.

`Edited` is the ledger of one provider UID with the latest `spec.budget.period` and, per namespace,
the spend recorded since the latest edit and the latest boundary of its period. `currentOwn` reads
the ledger's own counter where it counts for that period. The result of this file: as long as every
call that reaches the ledger carries the latest scheme, the counters contain everything recorded.
-/

namespace Kaalm

/-! ## The system -/

/-- The ledger of one provider with the latest scheme of its spec. -/
structure Edited where
  sys : System
  spec : BudgetPeriod
  /-- Spend recorded since the latest edit, inside the current period of `spec`. -/
  recorded : GoMap String ℚ := ∅
  deriving DecidableEq

inductive EditOp
  | edit (scheme : BudgetPeriod)
  | call (op : Op)

/-- The recorded spend after a call. -/
def Edited.note (s : Edited) : Op → GoMap String ℚ
  | .add p ns _ cost => if p.budget.period = .none then s.recorded else s.recorded.bump ns cost
  | .settle c cost => if c ∈ s.sys.fired then s.recorded else s.recorded.bump c.ns cost
  | .advance nanos =>
    if periodKey s.spec (s.sys.now + nanos) = periodKey s.spec s.sys.now then s.recorded else ∅
  | _ => s.recorded

/-- A spec edit, or a call of the provider with any version of its object. -/
def Edited.step (name uid : String) (s : Edited) : EditOp → Option Edited
  | .edit scheme => some { s with spec := scheme, recorded := ∅ }
  | .call op =>
    if op.incarnation.all fun i ↦ i = (name, uid) then
      (s.sys.exec op).map fun r ↦ { s with sys := r.1, recorded := s.note op }
    else none

/-- The own spend of a namespace inside the current period of the latest spec. -/
def Edited.currentOwn (name : String) (s : Edited) (ns : String) : ℚ :=
  match s.sys.ledger.providers.lookup name with
  | some l => if l.period = periodKey s.spec s.sys.now then l.own.get ns else 0
  | none => 0

/-- The call carries the latest scheme, if it reaches the ledger at all, and no negative cost. -/
def Edited.Timely (s : Edited) : EditOp → Prop
  | .edit _ => True
  | .call op => (∀ scheme ∈ s.sys.reaches op, scheme = s.spec) ∧ 0 ≤ op.cost

def Edited.init (window start : Time) (spec : BudgetPeriod) : Edited :=
  { sys := System.init window start, spec := spec }

/-! ## The invariant -/

/-- The ledger counts for the one UID, and its counters contain what was recorded. -/
structure EditInv (name uid : String) (s : Edited) : Prop where
  sole : s.sys.ledger.Sole name uid
  nonneg : ∀ l, s.sys.ledger.providers.lookup name = some l → ∀ ns, 0 ≤ l.own.get ns
  contained : ∀ ns, s.recorded.get ns ≤ s.currentOwn name ns

/-- What a step leaves behind: the invariant, and counters that have not decreased unless the spec
or the period has changed. -/
structure EditStep (name uid : String) (s s' : Edited) : Prop where
  inv : EditInv name uid s'
  mono : s'.spec = s.spec → periodKey s.spec s'.sys.now = periodKey s.spec s.sys.now →
    ∀ ns, s.currentOwn name ns ≤ s'.currentOwn name ns

/-- Every call but a clock step adds what it records. -/
theorem Edited.get_note (s : Edited) {op : Op} (hop : ∀ nanos, op ≠ .advance nanos) (ns : String) :
    (s.note op).get ns = s.recorded.get ns + s.sys.records op ns := by
  rw [System.records]
  cases op with
  | add p ns' workload cost =>
    rw [note, System.reaches, Op.landed]
    by_cases hnone : p.budget.period = .none
    · simp [hnone]
    · rw [if_neg hnone, AList.get_bump]
      by_cases hcost : cost = 0
      · simp [hcost]
      · simp [hnone, hcost]
  | settle c cost =>
    rw [note, System.reaches, Op.landed]
    by_cases hfired : c ∈ s.sys.fired
    · simp [hfired]
    · rw [if_neg hfired, AList.get_bump]
      simp [hfired]
  | advance nanos => exact absurd rfl (hop nanos)
  | _ => simp [note, Op.landed]

namespace EditInv

variable {name uid : String} {s : Edited}

theorem init (window start : Time) (spec : BudgetPeriod) :
    EditInv name uid (Edited.init window start spec) where
  sole := .init name uid window start
  nonneg _ h := absurd h AList.lookup_empty_ne
  contained := fun _ ↦ le_rfl

/-- Counters without negative entries read as nonnegative in any period. -/
theorem currentOwn_nonneg_of {s : Edited}
    (h : ∀ l, s.sys.ledger.providers.lookup name = some l → ∀ ns, 0 ≤ l.own.get ns) (ns : String) :
    0 ≤ s.currentOwn name ns := by
  rw [Edited.currentOwn]
  cases hl : s.sys.ledger.providers.lookup name with
  | none => exact le_rfl
  | some l =>
    simp only
    split_ifs
    · exact h l hl ns
    · exact le_rfl

/-- A call with the latest scheme starts from the current counters. -/
theorem get_liveLedger_own (hinv : EditInv name uid s) (ns : String) :
    (s.sys.ledger.liveLedger s.sys.now name uid s.spec).own.get ns = s.currentOwn name ns := by
  rw [Edited.currentOwn, BudgetLedger.liveLedger, hinv.sole.boundTo]
  cases hl : s.sys.ledger.providers.lookup name with
  | none => rfl
  | some l =>
    simp only
    by_cases hperiod : l.period = periodKey s.spec s.sys.now
    · rw [if_pos hperiod, ProviderLedger.rollover_of_eq hperiod]
    · rw [if_neg hperiod, ProviderLedger.rollover_own_of_ne hperiod, AList.get_empty]

/-- A call that carries the latest scheme moves the counters by what it records. -/
theorem currentOwn_call {t : Edited} {op : Op} (hinv : EditInv name uid s)
    (hscheme : ∀ scheme ∈ s.sys.reaches op, scheme = s.spec) (hspec : t.spec = s.spec)
    (hnow : t.sys.now = s.sys.now)
    (heffect : SoleEffect name uid s.sys op (t.sys.ledger.providers.lookup name)) (ns : String) :
    t.currentOwn name ns = s.currentOwn name ns + s.sys.records op ns := by
  rw [Edited.currentOwn, hspec, hnow]
  generalize t.sys.ledger.providers.lookup name = found at heffect ⊢
  cases heffect with
  | same hreach =>
    rw [System.records_of_not_reaches hreach, add_zero]
    rfl
  | critical scheme hop hreach =>
    obtain rfl := hscheme scheme hreach
    rw [System.records_of_reaches hreach]
    simp only
    rw [if_pos (by rw [Op.write_period, BudgetLedger.liveLedger_period]), Op.get_write_own,
      hinv.get_liveLedger_own]
  | published p snapshot l hop hreach hl =>
    obtain ⟨-, hperiod, hown, -⟩ := l.published_frame snapshot
    rw [System.records_of_not_reaches hreach, add_zero, Edited.currentOwn, hl]
    simp only [hperiod, hown]

/-- A call that carries the latest scheme and no negative cost keeps the counters nonnegative. -/
theorem nonneg_call {t : Edited} {op : Op} (hinv : EditInv name uid s)
    (hscheme : ∀ scheme ∈ s.sys.reaches op, scheme = s.spec) (hcost : 0 ≤ op.cost)
    (heffect : SoleEffect name uid s.sys op (t.sys.ledger.providers.lookup name)) :
    ∀ l, t.sys.ledger.providers.lookup name = some l → ∀ ns, 0 ≤ l.own.get ns := by
  generalize t.sys.ledger.providers.lookup name = found at heffect ⊢
  cases heffect with
  | same hreach => exact hinv.nonneg
  | critical scheme hop hreach =>
    obtain rfl := hscheme scheme hreach
    rintro l ⟨⟩ ns
    rw [Op.get_write_own, hinv.get_liveLedger_own]
    exact add_nonneg (currentOwn_nonneg_of hinv.nonneg ns) (Op.landed_nonneg hcost ns)
  | published p snapshot l hop hreach hl =>
    rintro l' ⟨⟩ ns
    rw [(l.published_frame snapshot).2.2.1]
    exact hinv.nonneg l hl ns

/-- A call meeting the condition keeps the invariant. -/
theorem call {sys : System} {op : Op} {out : Output} (hinv : EditInv name uid s)
    (hop : op.incarnation.all fun i ↦ i = (name, uid)) (htimely : s.Timely (.call op))
    (hexec : s.sys.exec op = some (sys, out)) :
    EditStep name uid s { s with sys := sys, recorded := s.note op } := by
  obtain ⟨hscheme, hcost⟩ := htimely
  obtain ⟨hsole, heffect⟩ := hinv.sole.exec hop hexec
  have hnonneg := hinv.nonneg_call (t := { s with sys := sys, recorded := s.note op }) hscheme hcost
    heffect
  by_cases hclock : ∃ nanos, op = .advance nanos
  · obtain ⟨nanos, rfl⟩ := hclock
    cases hexec
    have hcurrent : periodKey s.spec (s.sys.now + nanos) = periodKey s.spec s.sys.now →
        ∀ ns recorded, Edited.currentOwn name
          { sys := { s.sys with now := s.sys.now + nanos }, spec := s.spec,
            recorded := recorded } ns
            = s.currentOwn name ns := by
      intro hsame ns recorded
      rw [Edited.currentOwn, Edited.currentOwn]
      simp only [hsame]
    refine ⟨⟨hsole, hnonneg, fun ns ↦ ?_⟩, fun _ hsame ns ↦ (hcurrent hsame ns _).ge⟩
    rw [Edited.note]
    by_cases hsame : periodKey s.spec (s.sys.now + nanos) = periodKey s.spec s.sys.now
    · rw [if_pos hsame, hcurrent hsame]
      exact hinv.contained ns
    · -- Past the boundary nothing is recorded yet.
      rw [if_neg hsame, AList.get_empty]
      exact currentOwn_nonneg_of hnonneg ns
  · have hclock : ∀ nanos, op ≠ .advance nanos := not_exists.mp hclock
    have hcurrent :=
      hinv.currentOwn_call (t := { s with sys := sys, recorded := s.note op }) hscheme
      rfl (System.exec_now hclock hexec) heffect
    refine ⟨⟨hsole, hnonneg, fun ns ↦ ?_⟩, fun _ _ ns ↦ ?_⟩
    · rw [hcurrent, s.get_note hclock]
      exact add_le_add_left (hinv.contained ns) _
    · rw [hcurrent]
      exact le_add_of_nonneg_right (System.records_nonneg hcost ns)

/-- Every step meeting the condition keeps the invariant; an edit starts a new record. -/
theorem step {s' : Edited} {op : EditOp} (hinv : EditInv name uid s) (htimely : s.Timely op)
    (h : s.step name uid op = some s') : EditStep name uid s s' := by
  cases op with
  | edit scheme =>
    rw [Edited.step, Option.some.injEq] at h
    rw [← h]
    refine ⟨⟨hinv.sole, hinv.nonneg, ?_⟩, ?_⟩
    · intro ns
      rw [AList.get_empty]
      apply currentOwn_nonneg_of
      exact hinv.nonneg
    · intro hspec _ ns
      rw [Edited.currentOwn, Edited.currentOwn]
      simp only at hspec
      simp only [hspec]
      exact le_rfl
  | call op =>
    rw [Edited.step] at h
    split_ifs at h with hop
    obtain ⟨⟨sys, out⟩, hexec, rfl⟩ := Option.map_eq_some_iff.mp h
    exact hinv.call hop htimely hexec

end EditInv

/-- **Only a real rollover resets the counters, as long as no call outlives an edit.** In every run
whose calls all carry the latest scheme and no negative cost, and in every state reached, the own
counters of the current period contain all spend recorded since the latest edit and the latest
boundary of that period, and no further such step decreases them inside that period. -/
theorem recorded_le_currentOwn (name uid : String) (window start : Time) (spec : BudgetPeriod)
    (ops : List EditOp) (s : Edited)
    (hrun : Run.Runs (Edited.step name uid) (Edited.init window start spec) ops s)
    (htimely :
      Run.AllSteps (Edited.step name uid) Edited.Timely (Edited.init window start spec) ops)
    (ns : String) :
    s.recorded.get ns ≤ s.currentOwn name ns
      ∧ ∀ op s', s.Timely op → s.step name uid op = some s' → s'.spec = s.spec →
        periodKey s.spec s'.sys.now = periodKey s.spec s.sys.now →
          s.currentOwn name ns ≤ s'.currentOwn name ns := by
  have hinv : EditInv name uid s :=
    hrun.invariant_of_allSteps (fun _ _ _ hinv hG h ↦ (hinv.step hG h).inv) htimely
      (EditInv.init window start spec)
  refine ⟨hinv.contained ns, ?_⟩
  intro op s' hG h hspec hsame
  exact (hinv.step hG h).mono hspec hsame ns

/-- The provider after an edit to daily periods. -/
def dailyProvider : ModelProvider :=
  { hardProvider with budget := { hardProvider.budget with period := .daily } }

/-- A timely run across an edit. -/
theorem recorded_le_currentOwn_daily :
    ∃ s, Run.Runs (Edited.step "openai" "uid-1") (Edited.init (30 * Calendar.second) 0 .monthly)
        [.call (.add hardProvider "team-a" "agent/x" 90), .edit .daily,
          .call (.add dailyProvider "team-a" "agent/x" 40)] s
      ∧ s.recorded.get "team-a" = 40 ∧ 40 ≤ s.currentOwn "openai" "team-a" := by
  obtain ⟨s, hs, hrec⟩ := Option.map_eq_some_iff.mp (show
    (List.foldlM (Edited.step "openai" "uid-1") (Edited.init (30 * Calendar.second) 0 .monthly)
      [.call (.add hardProvider "team-a" "agent/x" 90), .edit .daily,
        .call (.add dailyProvider "team-a" "agent/x" 40)]).map (fun s ↦ s.recorded.get "team-a")
      = some 40
    by decide +kernel)
  refine ⟨s, hs, hrec, ?_⟩
  rw [← hrec]
  refine (recorded_le_currentOwn "openai" "uid-1" _ _ _ _ s hs ?_ "team-a").1
  refine ⟨⟨by decide +kernel, by decide +kernel⟩, fun s₁ h₁ ↦ ⟨trivial, fun s₂ h₂ ↦ ⟨⟨?_, ?_⟩, ?_⟩⟩⟩
  · rw [Edited.step, Option.some.injEq] at h₂
    rw [← h₂]
    simp [System.reaches, dailyProvider, hardProvider]
  · decide +kernel
  · exact fun _ _ ↦ trivial

/-- A settle that captured the old scheme: 40 USD recorded under the daily spec are gone after a
callback from before the edit lands, within one day. -/
theorem stale_settle_resets_counters :
    ∃ s, Run.Runs (Edited.step "openai" "uid-1") (Edited.init (30 * Calendar.second) 0 .monthly)
        [.call (.foldPeers hardProvider ∅), .call (.add hardProvider "team-a" "agent/x" 96),
          .call (.admitRequest hardProvider "team-a" "agent/x"), .edit .daily,
          .call (.add dailyProvider "team-b" "agent/y" 40),
          .call (.settle ⟨"openai", "uid-1", .monthly, "1970-01", "team-a", "agent/x", ["team-a"],
            1⟩
            3)] s
      ∧ s.recorded.get "team-b" = 40 ∧ s.currentOwn "openai" "team-b" = 0 := by
  obtain ⟨s, hs, hview⟩ := Option.map_eq_some_iff.mp (show
    (List.foldlM (Edited.step "openai" "uid-1") (Edited.init (30 * Calendar.second) 0 .monthly)
      [.call (.foldPeers hardProvider ∅), .call (.add hardProvider "team-a" "agent/x" 96),
        .call (.admitRequest hardProvider "team-a" "agent/x"), .edit .daily,
        .call (.add dailyProvider "team-b" "agent/y" 40),
        .call (.settle ⟨"openai", "uid-1", .monthly, "1970-01", "team-a", "agent/x", ["team-a"], 1⟩
          3)]).map (fun s ↦ (s.recorded.get "team-b", s.currentOwn "openai" "team-b"))
      = some (40, 0)
    by decide +kernel)
  obtain ⟨hrec, hown⟩ := by simpa only [Prod.mk.injEq] using hview
  exact ⟨s, hs, hrec, hown⟩

end Kaalm
