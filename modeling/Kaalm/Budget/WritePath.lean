import Kaalm.Budget.System

/-!
# The write-path staleness signal

A replica reports settled spend that it could not publish through `dirtySince`, the time of the
oldest cost that landed since the signal was last clear. The publisher reads the clock, reads the
counters with `OwnPartial`, applies the partial and clears the signal with `MarkPublished`. Between
these four steps costs can land.

## Bookkeeping

`log` lists the costs that landed in the provider's own counters, `resetAt` says how many of them
had landed when the counters were last reset, and a publish carries how many had landed when it
read the counters. The own counters are the sums of the log after `resetAt` (`PublishInv.sums`), so
a partial read at a position of the log includes exactly what stands between the two.

## When the signal is sound

`MarkPublished` compares the snapshot with the oldest landing, not with the latest. A cost that
lands between `OwnPartial` and `MarkPublished` keeps the signal raised only if it finds it clear, or
raised after the snapshot. That is the condition `Publishing.Noticed`.
-/

namespace Kaalm

open Calendar

/-- How far the publisher is with the provider. A partial that is found stored already counts as
applied. -/
inductive PublishStage
  | idle
  /-- The clock was read. -/
  | clocked (snapshot : Time)
  /-- `OwnPartial` returned a partial that includes the first costs of the log. -/
  | read (snapshot : Time) (included : ℕ)
  | applied (snapshot : Time) (included : ℕ)
  deriving DecidableEq

/-- The snapshot of a publish that has read the counters. -/
def PublishStage.snapshot : PublishStage → Option Time
  | .read snapshot _ | .applied snapshot _ => some snapshot
  | _ => none

/-- A replica with the publisher of one provider. -/
structure Publishing where
  sys : System
  stage : PublishStage := .idle
  /-- The costs that landed in the own counters, by namespace, oldest first. -/
  log : List (String × ℚ) := []
  /-- How many costs had landed when the counters were last reset. -/
  resetAt : ℕ := 0
  /-- How many costs had landed when the latest applied partial was read. -/
  applied : ℕ := 0
  deriving DecidableEq

inductive PublishOp
  | call (op : Op)
  | readClock
  | ownPartial
  | applyOK
  | applyFailed
  | markPublished

/-- The cost a call lands in the own counters. -/
def System.landing (s : System) : Op → Option (String × ℚ)
  | .add p ns _ cost => if p.budget.period = .none ∨ cost = 0 then none else some (ns, cost)
  | .settle c cost => if c ∈ s.fired ∨ cost = 0 then none else some (c.ns, cost)
  | _ => none

/-- The call that only the publisher makes. -/
def Op.isMark : Op → Bool
  | .markPublished _ _ => true
  | _ => false

namespace Publishing

variable (p : ModelProvider)

def init (window start : Time) : Publishing := { sys := System.init window start }

/-- The state after a call, with what it landed. -/
def note (s : Publishing) (op : Op) (t : System) : Publishing :=
  { s with
    sys := t
    log := s.log ++ (s.sys.landing op).toList
    resetAt := if resetBy s.sys.ledger t.ledger p.name then s.log.length else s.resetAt }

/-- A call of the provider, or a step of its publisher. -/
def step (s : Publishing) : PublishOp → Option Publishing
  | .call op =>
    if (op.incarnation.all fun i ↦ i = (p.name, p.uid)) ∧ !op.isMark then
      (s.sys.exec op).map fun r ↦ s.note p op r.1
    else none
  | .readClock =>
    match s.stage with
    | .idle => some { s with stage := .clocked s.sys.now }
    | _ => none
  | .ownPartial =>
    match s.stage with
    | .clocked snapshot =>
      match s.sys.ledger.ownPartial p with
      | some _ => some { s with stage := .read snapshot s.log.length }
      | none => some { s with stage := .idle }
    | _ => none
  | .applyOK =>
    match s.stage with
    | .read snapshot included =>
      some { s with stage := .applied snapshot included, applied := included }
    | _ => none
  | .applyFailed =>
    match s.stage with
    | .read _ _ => some { s with stage := .idle }
    | _ => none
  | .markPublished =>
    match s.stage with
    | .applied snapshot _ =>
      (s.sys.exec (.markPublished p snapshot)).map fun r ↦ { s with sys := r.1, stage := .idle }
    | _ => none

/-- The write-path signal of the provider. -/
def dirtySince (s : Publishing) : Option Time :=
  (s.sys.ledger.providers.lookup p.name).bind (·.dirtySince)

/-- Every cost that landed in the current period is included in an applied partial. -/
def AllPublished (s : Publishing) : Prop :=
  ∀ i, s.resetAt ≤ i → i < s.log.length → i < s.applied

/-- A cost that lands between `OwnPartial` and `MarkPublished` finds the signal clear or raised
after the snapshot, so that its own landing keeps it raised. -/
def Noticed (s : Publishing) : PublishOp → Prop
  | .call op => s.sys.landing op ≠ none →
      ∀ snapshot ∈ s.stage.snapshot, snapshot < (s.dirtySince p).getD s.sys.now
  | _ => True

instance (s : Publishing) : ∀ op, Decidable (s.Noticed p op)
  | .call op => inferInstanceAs (Decidable (s.sys.landing op ≠ none →
      ∀ snapshot ∈ s.stage.snapshot, snapshot < (s.dirtySince p).getD s.sys.now))
  | .readClock | .ownPartial | .applyOK | .applyFailed | .markPublished => isTrue trivial

end Publishing

/-! ## Landing -/

namespace System

variable {s : System} {op : Op} {scheme : BudgetPeriod}

theorem landing_of_not_reaches (h : s.reaches op = none) : s.landing op = none := by
  cases op with
  | add p ns workload cost =>
    rw [reaches] at h
    split_ifs at h with hskip
    exact if_pos hskip
  | settle c cost =>
    rw [reaches] at h
    split_ifs at h with hfired
    exact if_pos (Or.inl hfired)
  | _ => rfl

theorem landing_eq_none_iff (h : s.reaches op = some scheme) :
    s.landing op = none ↔ op.cost = 0 := by
  cases op with
  | add p ns workload cost =>
    rw [reaches] at h
    split_ifs at h with hskip
    rw [landing, if_neg hskip]
    simpa [Op.cost] using fun hcost ↦ hskip (Or.inr hcost)
  | settle c cost =>
    rw [reaches] at h
    split_ifs at h with hfired
    simp [landing, hfired, Op.cost]
  | _ => simp [landing, Op.cost]

theorem landed_eq_landing (h : s.reaches op = some scheme) (ns : String) :
    op.landed ns = ((s.landing op).toList.map fun e ↦ if ns = e.1 then e.2 else 0).sum := by
  cases op with
  | add p ns' workload cost =>
    rw [reaches] at h
    split_ifs at h with hskip
    simp [landing, hskip, Op.landed]
  | settle c cost =>
    rw [reaches] at h
    split_ifs at h with hfired
    by_cases hcost : cost = 0
    · simp [landing, hcost, Op.landed]
    · simp [landing, hfired, hcost, Op.landed]
  | _ => simp [landing, Op.landed]

end System

/-! ## The invariant -/

/-- The invariant of a run in which every landing is noticed. -/
structure PublishInv (p : ModelProvider) (s : Publishing) : Prop where
  sole : s.sys.ledger.Sole p.name p.uid
  unbound : s.sys.ledger.providers.lookup p.name = none → s.log = []
  resetAt_le : s.resetAt ≤ s.log.length
  /-- The own counters are the sums of what landed since the last reset. -/
  sums : ∀ l, s.sys.ledger.providers.lookup p.name = some l → ∀ ns,
    l.own.get ns = ((s.log.drop s.resetAt).map fun e ↦ if ns = e.1 then e.2 else 0).sum
  clean : ∀ l, s.sys.ledger.providers.lookup p.name = some l → l.dirtySince = none →
    s.log.length ≤ s.applied ∨ s.log.length ≤ s.resetAt
  /-- What landed since a publish in progress read the counters keeps the signal raised beyond its
  mark. -/
  pending : ∀ snapshot included,
    (s.stage = .read snapshot included ∨ s.stage = .applied snapshot included) →
      ∀ l, s.sys.ledger.providers.lookup p.name = some l →
        s.log.length ≤ included ∨ s.log.length ≤ s.resetAt
          ∨ ∃ d, l.dirtySince = some d ∧ snapshot < d
  counted : ∀ snapshot included, s.stage = .applied snapshot included → s.applied = included

namespace PublishInv

variable {p : ModelProvider} {s s' : Publishing}

theorem init (window start : Time) : PublishInv p (Publishing.init window start) where
  sole := .init p.name p.uid window start
  unbound _ := rfl
  resetAt_le := le_rfl
  sums _ h := absurd h AList.lookup_empty_ne
  clean _ h := absurd h AList.lookup_empty_ne
  pending := by rintro snapshot included (h | h) <;> cases h
  counted := nofun

/-- The signal a critical section starts from is the stored one. -/
theorem liveLedger_dirtySince (hinv : PublishInv p s) (scheme : BudgetPeriod) :
    (s.sys.ledger.liveLedger s.sys.now p.name p.uid scheme).dirtySince = s.dirtySince p := by
  rw [BudgetLedger.liveLedger_signals.1, hinv.sole.boundTo, Publishing.dirtySince]

/-- A call that reaches the ledger: it binds the name, which may reset the counters, and then
writes. -/
theorem critical {op : Op} {t : System} {scheme : BudgetPeriod} (hinv : PublishInv p s)
    (hsole : t.ledger.Sole p.name p.uid) (hreach : s.sys.reaches op = some scheme)
    (hlookup : t.ledger.providers.lookup p.name
      = some (op.write s.sys (s.sys.ledger.liveLedger s.sys.now p.name p.uid scheme)))
    (hnoticed : s.Noticed p (.call op)) : PublishInv p (s.note p op t) := by
  set live := s.sys.ledger.liveLedger s.sys.now p.name p.uid scheme with hlive
  have hidentity : t.ledger.identity p.name = some (p.uid, periodKey scheme s.sys.now) := by
    rw [BudgetLedger.identity, hlookup, Option.map_some, Op.write_uid, Op.write_period, hlive,
      BudgetLedger.liveLedger_uid, BudgetLedger.liveLedger_period]
  have hstored : ∀ {l}, t.ledger.providers.lookup p.name = some l → l = op.write s.sys live := by
    intro l hl
    rw [hlookup, Option.some.injEq] at hl
    exact hl.symm
  have hdirty := Op.write_dirtySince live hreach
  rw [hinv.liveLedger_dirtySince scheme] at hdirty
  -- After a reset the own counters are empty and the log starts anew.
  have hstart : (s.note p op t).resetAt ≤ s.log.length ∧ (∀ ns, live.own.get ns
        = ((s.log.drop (s.note p op t).resetAt).map fun e ↦ if ns = e.1 then e.2 else 0).sum)
      ∧ ((s.note p op t).resetAt = s.log.length
        ∨ (s.note p op t).resetAt = s.resetAt
          ∧ s.sys.ledger.providers.lookup p.name = some live) := by
    rcases s.sys.ledger.liveLedger_cases s.sys.now p.name p.uid scheme with
      ⟨hsame, -⟩ | ⟨hreset, -, hown⟩
    · have hkept : (s.note p op t).resetAt = s.resetAt := by
        refine if_neg ?_
        rw [Bool.not_eq_true, System.resetBy_eq_false, hidentity, BudgetLedger.identity, hsame,
          Option.map_some, BudgetLedger.liveLedger_uid, BudgetLedger.liveLedger_period]
      rw [hkept]
      exact ⟨hinv.resetAt_le, hinv.sums live hsame, Or.inr ⟨rfl, hsame⟩⟩
    · have hcut : (s.note p op t).resetAt = s.log.length := by
        refine if_pos ?_
        rw [resetBy, hidentity, decide_eq_true_iff]
        exact hreset
      rw [hcut, List.drop_length]
      refine ⟨le_rfl, fun ns ↦ ?_, Or.inl rfl⟩
      rw [hlive, hown]
      rfl
  obtain ⟨hle, hsums, hcases⟩ := hstart
  have hlength : (s.note p op t).log.length = s.log.length + (s.sys.landing op).toList.length := by
    rw [Publishing.note, List.length_append]
  refine ⟨hsole, fun h ↦ absurd (hlookup.symm.trans h) (by simp), by omega, fun l hl ns ↦ ?_,
    fun l hl hnone ↦ ?_, fun snapshot included hstage l hl ↦ ?_, hinv.counted⟩
  · rw [hstored hl, Op.get_write_own, hsums, System.landed_eq_landing hreach,
      show (s.note p op t).log = s.log ++ (s.sys.landing op).toList from rfl,
      List.drop_append_of_le_length hle, List.map_append, List.sum_append]
  · rw [hstored hl, hdirty] at hnone
    split_ifs at hnone with hcost
    have hquiet : s.sys.landing op = none := (System.landing_eq_none_iff hreach).mpr hcost
    rw [hlength, hquiet, Option.toList_none, List.length_nil, Nat.add_zero]
    rcases hcases with hcut | ⟨hkept, hsame⟩
    · exact Or.inr hcut.ge
    · rw [hkept]
      refine hinv.clean live hsame ?_
      rw [hinv.liveLedger_dirtySince scheme]
      exact hnone
  · rw [hstored hl, hdirty]
    by_cases hcost : op.cost = 0
    · have hquiet : s.sys.landing op = none := (System.landing_eq_none_iff hreach).mpr hcost
      rw [hlength, hquiet, Option.toList_none, List.length_nil, Nat.add_zero, if_pos hcost]
      rcases hcases with hcut | ⟨hkept, hsame⟩
      · exact Or.inr (Or.inl hcut.ge)
      · rw [hkept, ← hinv.liveLedger_dirtySince scheme]
        exact hinv.pending snapshot included hstage live hsame
    · -- The landing finds the signal clear or raised after the snapshot.
      rw [if_neg hcost]
      refine Or.inr (Or.inr ⟨_, rfl, hnoticed ?_ snapshot ?_⟩)
      · exact fun hquiet ↦ hcost ((System.landing_eq_none_iff hreach).mp hquiet)
      · rcases hstage with hstage | hstage <;>
          exact congrArg PublishStage.snapshot hstage

/-- A call of the provider whose landing is noticed keeps the invariant. -/
theorem call {op : Op} {t : System} {out : Output} (hinv : PublishInv p s)
    (hop : op.incarnation.all fun i ↦ i = (p.name, p.uid)) (hmark : !op.isMark)
    (hnoticed : s.Noticed p (.call op)) (h : s.sys.exec op = some (t, out)) :
    PublishInv p (s.note p op t) := by
  obtain ⟨hsole, heffect⟩ := hinv.sole.exec hop h
  generalize hfound : t.ledger.providers.lookup p.name = found at heffect
  cases heffect with
  | same hreach =>
    have hkept : s.note p op t = { s with sys := t } := by
      have hsame : resetBy s.sys.ledger t.ledger p.name = false := by
        rw [System.resetBy_eq_false, BudgetLedger.identity, BudgetLedger.identity, hfound]
      rw [Publishing.note, System.landing_of_not_reaches hreach, hsame]
      simp
    rw [hkept]
    exact ⟨hsole, fun h ↦ hinv.unbound (hfound.symm.trans h), hinv.resetAt_le,
      fun l hl ↦ hinv.sums l (hfound.symm.trans hl), fun l hl ↦ hinv.clean l (hfound.symm.trans hl),
      fun snapshot included hstage l hl ↦
        hinv.pending snapshot included hstage l (hfound.symm.trans hl), hinv.counted⟩
  | critical scheme hcarries hreach => exact hinv.critical hsole hreach hfound hnoticed
  | published p' snapshot l hop' hreach hl =>
    rw [hop'] at hmark
    simp [Op.isMark] at hmark

/-- A step of the publisher outside the ledger. -/
theorem of_stage {stage : PublishStage} {applied : ℕ} (hinv : PublishInv p s)
    (hclean : ∀ l, s.sys.ledger.providers.lookup p.name = some l → l.dirtySince = none →
      s.log.length ≤ applied ∨ s.log.length ≤ s.resetAt)
    (hpending : ∀ snapshot included,
      (stage = .read snapshot included ∨ stage = .applied snapshot included) →
        ∀ l, s.sys.ledger.providers.lookup p.name = some l →
          s.log.length ≤ included ∨ s.log.length ≤ s.resetAt
            ∨ ∃ d, l.dirtySince = some d ∧ snapshot < d)
    (hcounted : ∀ snapshot included, stage = .applied snapshot included → applied = included) :
    PublishInv p { s with stage := stage, applied := applied } :=
  ⟨hinv.sole, hinv.unbound, hinv.resetAt_le, hinv.sums, hclean, hpending, hcounted⟩

/-- The mark clears the signal only when everything that landed is in the applied partial. -/
theorem markPublished {snapshot : Time} {included : ℕ} {t : System} {out : Output}
    (hinv : PublishInv p s) (hstage : s.stage = .applied snapshot included)
    (h : s.sys.exec (.markPublished p snapshot) = some (t, out)) :
    PublishInv p { s with sys := t, stage := .idle } := by
  obtain ⟨hsole, heffect⟩ := hinv.sole.exec (by simp [Op.incarnation]) h
  generalize hfound : t.ledger.providers.lookup p.name = found at heffect
  have hidle : ∀ snapshot included, PublishStage.idle = .read snapshot included
      ∨ PublishStage.idle = .applied snapshot included → False := by
    rintro snapshot included (h | h) <;> cases h
  cases heffect with
  | same hreach =>
    exact ⟨hsole, fun h ↦ hinv.unbound (hfound.symm.trans h), hinv.resetAt_le,
      fun l hl ↦ hinv.sums l (hfound.symm.trans hl), fun l hl ↦ hinv.clean l (hfound.symm.trans hl),
      fun t n h ↦ (hidle t n h).elim, fun t n h ↦ by cases h⟩
  | critical scheme hcarries hreach => cases hreach
  | published p' snapshot' l hop hreach hl =>
    obtain ⟨rfl, rfl⟩ := by simpa only [Op.markPublished.injEq] using hop
    have hstored : ∀ {l'}, t.ledger.providers.lookup p.name = some l' →
        l' = l.published snapshot := by
      intro l' hl'
      rw [hfound, Option.some.injEq] at hl'
      exact hl'.symm
    refine ⟨hsole, fun h ↦ absurd (hfound.symm.trans h) (by simp), hinv.resetAt_le,
      fun l' hl' ns ↦ ?_, fun l' hl' hnone ↦ ?_, fun t n h ↦ (hidle t n h).elim,
        fun t n h ↦ by cases h⟩
    · rw [hstored hl', (l.published_frame snapshot).2.2.1]
      exact hinv.sums l hl ns
    · rw [hstored hl', ProviderLedger.published] at hnone
      split_ifs at hnone with hcleared
      · -- The oldest landing is not after the snapshot, so nothing landed since the read.
        rcases hinv.pending snapshot included (Or.inr hstage) l hl with hall | hreset | ⟨d, hd, hlt⟩
        · exact Or.inl (hall.trans (hinv.counted snapshot included hstage).ge)
        · exact Or.inr hreset
        · rw [hd, Option.any_some, decide_eq_true_iff] at hcleared
          exact absurd hcleared (not_le.mpr hlt)
      · exact hinv.clean l hl hnone

theorem step {op : PublishOp} (hinv : PublishInv p s) (hnoticed : s.Noticed p op)
    (h : s.step p op = some s') : PublishInv p s' := by
  cases op with
  | call op =>
    rw [Publishing.step] at h
    split_ifs at h with hop
    obtain ⟨⟨t, out⟩, hexec, rfl⟩ := Option.map_eq_some_iff.mp h
    exact hinv.call hop.1 hop.2 hnoticed hexec
  | readClock =>
    rw [Publishing.step] at h
    split at h
    · cases h
      exact hinv.of_stage hinv.clean (by rintro _ _ (h | h) <;> cases h) nofun
    · cases h
  | ownPartial =>
    rw [Publishing.step] at h
    split at h
    · rename_i snapshot hstage
      split at h
      · cases h
        refine hinv.of_stage hinv.clean ?_ nofun
        rintro _ _ (h | h) l hl <;> cases h
        exact Or.inl le_rfl
      · cases h
        exact hinv.of_stage hinv.clean (by rintro _ _ (h | h) <;> cases h) nofun
    · cases h
  | applyOK =>
    rw [Publishing.step] at h
    split at h
    · rename_i snapshot included hstage
      cases h
      refine hinv.of_stage (fun l hl hnone ↦ ?_) ?_ ?_
      · rcases hinv.pending snapshot included (Or.inl hstage) l hl with hall | hreset | ⟨d, hd, -⟩
        · exact Or.inl hall
        · exact Or.inr hreset
        · rw [hd] at hnone
          cases hnone
      · rintro _ _ (h | h) <;> cases h
        exact hinv.pending snapshot included (Or.inl hstage)
      · rintro _ _ h
        cases h
        rfl
    · cases h
  | applyFailed =>
    rw [Publishing.step] at h
    split at h
    · cases h
      exact hinv.of_stage hinv.clean (by rintro _ _ (h | h) <;> cases h) nofun
    · cases h
  | markPublished =>
    rw [Publishing.step] at h
    split at h
    · rename_i snapshot included hstage
      obtain ⟨⟨t, out⟩, hexec, rfl⟩ := Option.map_eq_some_iff.mp h
      exact hinv.markPublished hstage hexec
    · cases h

end PublishInv

/-- **The write-path signal is sound as long as every landing is noticed.** In every run of calls of
one provider and steps of its publisher in which each cost that lands between `OwnPartial` and
`MarkPublished` finds the signal clear or raised after the snapshot, and in every state reached: the
own counters are the sums of what landed since the last reset, and while the signal is clear all of
that is included in an applied partial. -/
theorem allPublished_of_clean (p : ModelProvider) (window start : Time) (ops : List PublishOp)
    (s : Publishing)
    (hrun : Run.Runs (Publishing.step p) (Publishing.init window start) ops s)
    (hnoticed : Run.AllSteps (Publishing.step p) (Publishing.Noticed p)
      (Publishing.init window start) ops) :
    (∀ l, s.sys.ledger.providers.lookup p.name = some l → ∀ ns,
      l.own.get ns = ((s.log.drop s.resetAt).map fun e ↦ if ns = e.1 then e.2 else 0).sum) ∧
    (s.dirtySince p = none → s.AllPublished) := by
  have hinv : PublishInv p s := hrun.invariant_of_allSteps (fun _ _ _ hinv hG h ↦ hinv.step hG h)
    hnoticed (PublishInv.init window start)
  refine ⟨hinv.sums, fun hclean i hi hlog ↦ ?_⟩
  cases hl : s.sys.ledger.providers.lookup p.name with
  | none =>
    rw [hinv.unbound hl] at hlog
    exact absurd hlog (Nat.not_lt_zero i)
  | some l =>
    rw [Publishing.dirtySince, hl, Option.bind_some] at hclean
    rcases hinv.clean l hl hclean with hall | hreset
    · exact hlog.trans_le hall
    · exact absurd (hi.trans_lt hlog) (not_lt.mpr hreset)

/-- A cost lands while the first partial is being applied and is published by the second one. -/
theorem allPublished_after_two_publishes :
    ∃ s, Run.Runs (Publishing.step hardProvider) (Publishing.init (30 * second) 0)
        [.call (.add hardProvider "team-a" "agent/x" 10), .readClock, .ownPartial, .applyOK,
          .markPublished, .readClock, .ownPartial, .call (.advance 1),
          .call (.add hardProvider "team-a" "agent/x" 5), .applyOK, .markPublished,
          .call (.advance 1), .readClock, .ownPartial, .applyOK, .markPublished] s
      ∧ s.log.length = 2 ∧ s.dirtySince hardProvider = none ∧ s.AllPublished := by
  obtain ⟨s, hs, hview⟩ := Option.map_eq_some_iff.mp (show
    (List.foldlM (Publishing.step hardProvider) (Publishing.init (30 * second) 0)
      [.call (.add hardProvider "team-a" "agent/x" 10), .readClock, .ownPartial, .applyOK,
        .markPublished, .readClock, .ownPartial, .call (.advance 1),
        .call (.add hardProvider "team-a" "agent/x" 5), .applyOK, .markPublished,
        .call (.advance 1), .readClock, .ownPartial, .applyOK, .markPublished]).map
      (fun s ↦ (s.log.length, s.dirtySince hardProvider)) = some (2, none) by decide +kernel)
  obtain ⟨hlog, hclean⟩ := by simpa only [Prod.mk.injEq] using hview
  exact ⟨s, hs, hlog, hclean,
    (allPublished_of_clean hardProvider _ _ _ s hs (by decide +kernel)).2 hclean⟩

/-- A cost of 5 USD lands after `OwnPartial` while an older landing already holds the signal. The
mark clears it, and the replica reports itself clean with 5 USD that no partial includes. -/
theorem clean_with_unpublished_spend :
    ∃ s, Run.Runs (Publishing.step hardProvider) (Publishing.init (30 * second) 0)
        [.call (.add hardProvider "team-a" "agent/x" 10), .call (.advance 1), .readClock,
          .ownPartial, .call (.advance 1), .call (.add hardProvider "team-a" "agent/x" 5), .applyOK,
          .markPublished] s
      ∧ s.dirtySince hardProvider = none ∧ s.log = [("team-a", 10), ("team-a", 5)]
      ∧ s.resetAt = 0 ∧ s.applied = 1 ∧ ¬ s.AllPublished := by
  obtain ⟨s, hs, hview⟩ := Option.map_eq_some_iff.mp (show
    (List.foldlM (Publishing.step hardProvider) (Publishing.init (30 * second) 0)
      [.call (.add hardProvider "team-a" "agent/x" 10), .call (.advance 1), .readClock,
        .ownPartial, .call (.advance 1), .call (.add hardProvider "team-a" "agent/x" 5), .applyOK,
        .markPublished]).map (fun s ↦ (s.dirtySince hardProvider, s.log, s.resetAt, s.applied))
      = some (none, [("team-a", 10), ("team-a", 5)], 0, 1) by decide +kernel)
  obtain ⟨hclean, hlog, hreset, happlied⟩ := by simpa only [Prod.mk.injEq] using hview
  refine ⟨s, hs, hclean, hlog, hreset, happlied, fun hall ↦ ?_⟩
  have := hall 1 (by omega) (by rw [hlog]; decide)
  omega

end Kaalm
