import Kaalm.Budget.Slots
import Kaalm.Foundation.Unwinding

/-!
# Provider incarnations

A provider deleted and recreated keeps its name and changes its UID. Requests that read the old
object, and settles of requests admitted under it, still reach the ledger afterwards. The ledger
keeps them apart by `superseded`: a call for a UID in that set works on a detached ledger.

A UID enters the set when a newer one takes its name in the ledger. A UID the ledger has never
seen is not in the set, even when its provider is long gone: a call that carries it takes the name
back and supersedes the newer provider for good. `isolated_iff_superseded` is the exact statement:
the calls of an old UID leave no trace if and only if that UID is in the set.

The positive half is an unwinding. Two states are equivalent when they differ at most in which
callbacks of the old UID have fired.
-/

namespace Kaalm

/-- The call carries the given UID. -/
def Op.carries (uid : String) (op : Op) : Bool := op.incarnation.any fun i ↦ i.2 = uid

/-- The calls of `uid` after the state `s` leave no trace: two runs from `s` that differ only in
such calls return the same to every other call and end with the same ledger, and the name is not
bound to `uid` again. -/
def Isolated (nameOf : String → String) (name uid : String) (s : System) : Prop :=
  ∀ ops ops' q q',
    ops.filter (fun op ↦ !op.carries uid) = ops'.filter (fun op ↦ !op.carries uid) →
    Run.observe (System.call nameOf) (Op.carries uid) s ops = some q →
    Run.observe (System.call nameOf) (Op.carries uid) s ops' = some q' →
    q.2 = q'.2 ∧ q.1.ledger = q'.1.ledger
      ∧ q.1.ledger.boundTo name uid = none ∧ q'.1.ledger.boundTo name uid = none

/-! ## The unwinding -/

namespace System

variable {nameOf : String → String} {uid : String} {s t : System} {op : Op} {out : Output}

theorem update_self : s.update s.ledger = s := update_of_identity fun _ ↦ rfl

/-- Superseded UIDs stay superseded. -/
theorem superseded_subset (h : s.exec op = some (t, out)) :
    s.ledger.superseded ⊆ t.ledger.superseded := by
  have heffect := exec_effect h
  generalize t.ledger = b at heffect ⊢
  cases heffect with
  | same hreach => exact Finset.Subset.refl _
  | critical name u scheme hop hreach =>
    by_cases hlive : u ∈ s.ledger.superseded
    · rw [BudgetLedger.withLedger_of_superseded hlive]
    · intro v hv
      rw [BudgetLedger.withLedger_of_live hlive]
      exact BudgetLedger.mem_supersededBy.mpr (Or.inl hv)
  | published p snapshot l hop hbound => exact Finset.Subset.refl _
  | replicas count hop => exact Finset.Subset.refl _

/-- Two states that differ at most in which callbacks of `uid` have fired. -/
structure AgreeUpTo (uid : String) (s t : System) : Prop where
  ledger : s.ledger = t.ledger
  now : s.now = t.now
  issued : s.issued = t.issued
  stale : s.stale = t.stale
  fired : ∀ c, c.uid ≠ uid → (c ∈ s.fired ↔ c ∈ t.fired)

namespace AgreeUpTo

theorem refl (s : System) : AgreeUpTo uid s s := ⟨rfl, rfl, rfl, rfl, fun _ _ ↦ Iff.rfl⟩

theorem symm (h : AgreeUpTo uid s t) : AgreeUpTo uid t s :=
  ⟨h.ledger.symm, h.now.symm, h.issued.symm, h.stale.symm, fun c hc ↦ (h.fired c hc).symm⟩

theorem trans {u : System} (h : AgreeUpTo uid s t) (h' : AgreeUpTo uid t u) : AgreeUpTo uid s u :=
  ⟨h.ledger.trans h'.ledger, h.now.trans h'.now, h.issued.trans h'.issued,
    h.stale.trans h'.stale, fun c hc ↦ (h.fired c hc).trans (h'.fired c hc)⟩

/-- A call of a superseded UID leads to an equivalent state. -/
theorem of_superseded (hinv : SlotInv nameOf s) (hsup : uid ∈ s.ledger.superseded)
    (hop : op.carries uid) (h : s.exec op = some (t, out)) : AgreeUpTo uid s t := by
  cases op with
  | admitRequest p ns workload =>
    obtain rfl : p.uid = uid := by simpa [Op.carries, Op.incarnation] using hop
    obtain ⟨hb, hc⟩ := BudgetLedger.admit_of_superseded s.now hsup ns workload
    simp only [exec, Option.some.injEq, Prod.mk.injEq] at h
    rw [← h.1, hb, hc, update_self, Option.toList_none, List.append_nil]
    exact refl s
  | settle c cost =>
    obtain rfl : c.uid = uid := by simpa [Op.carries, Op.incarnation] using hop
    simp only [exec] at h
    split_ifs at h
    · rw [← (Prod.mk.inj (Option.some.inj h)).1]
      exact refl s
    · rw [← (Prod.mk.inj (Option.some.inj h)).1, BudgetLedger.settle_of_superseded hsup,
        update_self]
      refine ⟨rfl, rfl, rfl, rfl, fun c' hc' ↦ ?_⟩
      rw [List.mem_cons, or_iff_right]
      rintro rfl
      exact hc' rfl
  | add p ns workload cost =>
    obtain rfl : p.uid = uid := by simpa [Op.carries, Op.incarnation] using hop
    simp only [exec, Option.some.injEq, Prod.mk.injEq] at h
    rw [← h.1, BudgetLedger.add_of_superseded hsup, update_self]
    exact refl s
  | enforce p ns =>
    obtain rfl : p.uid = uid := by simpa [Op.carries, Op.incarnation] using hop
    simp only [exec, Option.some.injEq, Prod.mk.injEq] at h
    rw [← h.1, BudgetLedger.enforce_of_superseded hsup, update_self]
    exact refl s
  | foldPeers p peers =>
    obtain rfl : p.uid = uid := by simpa [Op.carries, Op.incarnation] using hop
    simp only [exec, Option.some.injEq, Prod.mk.injEq] at h
    rw [← h.1, BudgetLedger.foldPeers_of_superseded hsup, update_self]
    exact refl s
  | foldWorkloadPeers p peers =>
    obtain rfl : p.uid = uid := by simpa [Op.carries, Op.incarnation] using hop
    simp only [exec, Option.some.injEq, Prod.mk.injEq] at h
    rw [← h.1, BudgetLedger.foldWorkloadPeers_of_superseded hsup, update_self]
    exact refl s
  | markPublished p snapshot =>
    obtain rfl : p.uid = uid := by simpa [Op.carries, Op.incarnation] using hop
    simp only [exec, Option.some.injEq, Prod.mk.injEq] at h
    -- The publish path reads the stored ledger only when it counts for this UID.
    have hnone : s.ledger.boundLedger p = none := by
      rw [Option.eq_none_iff_forall_ne_some]
      intro l hl
      obtain ⟨hlookup, huid⟩ := BudgetLedger.boundLedger_eq_some.mp hl
      exact hinv.bound_live _ l hlookup (huid ▸ hsup)
    rw [← h.1, BudgetLedger.markPublished, hnone]
    simp only
    rw [update_self]
    exact refl s
  | ownPartial p | ownWorkloadPartial p =>
    simp only [exec, Option.some.injEq, Prod.mk.injEq] at h
    rw [← h.1]
    exact refl s
  | workloadSpend ns | setReplicas count | advance nanos =>
    simp [Op.carries, Op.incarnation] at hop

/-- Any other call returns the same in equivalent states and leads to equivalent states. -/
theorem exec {s' t' : System} {out' : Output} (h : AgreeUpTo uid s s')
    (hop : op.carries uid = false) (hs : s.exec op = some (t, out))
    (hs' : s'.exec op = some (t', out')) : AgreeUpTo uid t t' ∧ out = out' := by
  obtain ⟨ledger, now, issued, fired, stale⟩ := s
  obtain ⟨ledger', now', issued', fired', stale'⟩ := s'
  obtain ⟨hledger, hnow, hissued, hstale, hfired⟩ := h
  simp only at hledger hnow hissued hstale hfired
  subst hledger hnow hissued hstale
  cases op with
  | settle c cost =>
    have hc : c.uid ≠ uid := by simpa [Op.carries, Op.incarnation] using hop
    simp only [System.exec] at hs hs'
    by_cases hissued : c ∈ issued
    · by_cases hmem : c ∈ fired
      · have hmem' : c ∈ fired' := (hfired c hc).mp hmem
        simp only [hissued, hmem, hmem', not_true_eq_false, if_false, if_true, Option.some.injEq,
          Prod.mk.injEq] at hs hs'
        obtain ⟨rfl, rfl⟩ := hs
        obtain ⟨rfl, rfl⟩ := hs'
        exact ⟨⟨rfl, rfl, rfl, rfl, hfired⟩, rfl⟩
      · have hmem' : c ∉ fired' := fun h ↦ hmem ((hfired c hc).mpr h)
        simp only [hissued, hmem, hmem', not_true_eq_false, if_false, Option.some.injEq,
          Prod.mk.injEq] at hs hs'
        obtain ⟨rfl, rfl⟩ := hs
        obtain ⟨rfl, rfl⟩ := hs'
        refine ⟨⟨rfl, rfl, rfl, rfl, fun c' hc' ↦ ?_⟩, rfl⟩
        rw [List.mem_cons, List.mem_cons, hfired c' hc']
    · simp [hissued] at hs
  | _ =>
    simp only [System.exec, Option.some.injEq, Prod.mk.injEq] at hs hs'
    obtain ⟨rfl, rfl⟩ := hs
    obtain ⟨rfl, rfl⟩ := hs'
    exact ⟨⟨rfl, rfl, rfl, rfl, hfired⟩, rfl⟩

end AgreeUpTo

end System

/-- The calls of a superseded UID are hidden from all others. -/
theorem unwinding_superseded (nameOf : String → String) (uid : String) :
    Run.Unwinding (System.call nameOf) (Op.carries uid)
      (fun s ↦ SlotInv nameOf s ∧ uid ∈ s.ledger.superseded) (System.AgreeUpTo uid) where
  symm := System.AgreeUpTo.symm
  trans := System.AgreeUpTo.trans
  keeps := by
    rintro s op t out ⟨hinv, hsup⟩ h
    obtain ⟨hnamed, hexec⟩ := System.call_eq_some.mp h
    exact ⟨hinv.step (System.step_eq_some.mpr ⟨hnamed, out, hexec⟩),
      System.superseded_subset hexec hsup⟩
  respects := by
    rintro s op t out ⟨hinv, hsup⟩ hop h
    exact System.AgreeUpTo.of_superseded hinv hsup hop (System.call_eq_some.mp h).2
  consistent := by
    rintro s s' op t t' out out' - - hagree hop h h'
    exact hagree.exec hop (System.call_eq_some.mp h).2 (System.call_eq_some.mp h').2

/-- One fold that carries a live UID binds its name to it. -/
theorem not_isolated_of_live {nameOf : String → String} {s : System} {name uid : String}
    (huid : nameOf uid = name) (hlive : uid ∉ s.ledger.superseded) :
    ¬ Isolated nameOf name uid s := by
  intro hiso
  let p : ModelProvider := { hardProvider with name := name, uid := uid }
  have hnamed : (Op.foldPeers p ∅).wellNamed nameOf := by
    simp [Op.wellNamed, Op.incarnation, p, huid]
  have hobs : Run.observe (System.call nameOf) (Op.carries uid) s [.foldPeers p ∅]
      = some (s.update (s.ledger.foldPeers s.now p ∅), []) := by
    rw [Run.observe_cons]
    exact ⟨_, _, [], System.call_eq_some.mpr ⟨hnamed, rfl⟩, rfl, by
      simp [Op.carries, Op.incarnation, p]⟩
  have hunbound := (hiso [.foldPeers p ∅] [] _ (s, [])
    (by simp [Op.carries, Op.incarnation, p]) hobs rfl).2.2.1
  have hself : (s.ledger.foldPeers s.now p ∅).providers.lookup name
      = some { s.ledger.liveLedger s.now name uid .monthly with
          peers := ∅, lastFoldOK := some s.now } :=
    BudgetLedger.lookup_withLedger_self hlive
  have hsome : (s.update (s.ledger.foldPeers s.now p ∅)).ledger.boundTo name uid ≠ none := by
    rw [Option.ne_none_iff_exists']
    exact ⟨_, BudgetLedger.boundTo_eq_some.mpr ⟨hself, BudgetLedger.liveLedger_uid⟩⟩
  exact hsome hunbound

theorem isolated_of_superseded {nameOf : String → String} {s : System} {uid : String}
    (name : String) (hinv : SlotInv nameOf s) (hsup : uid ∈ s.ledger.superseded) :
    Isolated nameOf name uid s := by
  intro ops ops' q q' hvis hobs hobs'
  have hu := unwinding_superseded nameOf uid
  obtain ⟨hagree, hout⟩ := hu.observe_eq ⟨hinv, hsup⟩ ⟨hinv, hsup⟩ (System.AgreeUpTo.refl s)
    hvis hobs hobs'
  have hunbound : ∀ t : System, SlotInv nameOf t ∧ uid ∈ t.ledger.superseded →
      t.ledger.boundTo name uid = none := by
    rintro t ⟨hinv', hsup'⟩
    rw [Option.eq_none_iff_forall_ne_some]
    intro l hl
    obtain ⟨hlookup, hl⟩ := BudgetLedger.boundTo_eq_some.mp hl
    exact hinv'.bound_live name l hlookup (hl ▸ hsup')
  exact ⟨hout, hagree.ledger, hunbound _ (Run.observe_keeps hu.keeps hobs ⟨hinv, hsup⟩),
    hunbound _ (Run.observe_keeps hu.keeps hobs' ⟨hinv, hsup⟩)⟩

/-- **Incarnations do not interfere exactly when the ledger has seen the old one.** In every state
a ledger reaches, the calls of a UID leave no trace if and only if that UID is superseded. -/
theorem isolated_iff_superseded (nameOf : String → String) (window start : Time) (ops : List Op)
    (s : System) (hrun : Run.Runs (System.step nameOf) (System.init window start) ops s)
    (uid : String) : Isolated nameOf (nameOf uid) uid s ↔ uid ∈ s.ledger.superseded := by
  constructor
  · intro hiso
    by_contra hlive
    exact not_isolated_of_live rfl hlive hiso
  · exact isolated_of_superseded _ (SlotInv.runs hrun (SlotInv.init window start))

/-- The recreated provider. -/
def recreatedProvider : ModelProvider := { hardProvider with uid := "uid-2" }

/-- Both incarnations have used the ledger, so a late call of the first one is isolated. -/
theorem isolated_after_recreation :
    ∃ s, Run.Runs (System.step fun _ ↦ "openai") (System.init (30 * Calendar.second) 0)
        [.add hardProvider "team-a" "agent/x" 70, .add recreatedProvider "team-a" "agent/x" 10] s
      ∧ Isolated (fun _ ↦ "openai") "openai" "uid-1" s := by
  obtain ⟨s, hs, hsup⟩ := Option.map_eq_some_iff.mp (show
    (List.foldlM (System.step fun _ ↦ "openai") (System.init (30 * Calendar.second) 0)
      [.add hardProvider "team-a" "agent/x" 70, .add recreatedProvider "team-a" "agent/x" 10]).map
        (fun s ↦ s.ledger.superseded) = some {"uid-1"}
    by decide +kernel)
  refine ⟨s, hs, (isolated_iff_superseded (fun _ ↦ "openai") _ _ _ s hs "uid-1").mpr ?_⟩
  rw [hsup]
  exact Finset.mem_singleton_self _

/-- A late call of an incarnation the ledger never saw: the recreated provider has spent 40 USD,
one `enforce` that read the deleted object rebinds the name, and the recreated provider has nothing
left to publish. -/
theorem unseen_incarnation_rebinds :
    ∃ s, Run.Runs (System.step fun _ ↦ "openai") (System.init (30 * Calendar.second) 0)
        [.add recreatedProvider "team-a" "agent/x" 40] s
      ∧ s.ledger.identity "openai" = some ("uid-2", "1970-01")
      ∧ (Run.observe (System.call fun _ ↦ "openai") (Op.carries "uid-1") s
          [.ownPartial recreatedProvider]).map Prod.snd
        = some [.ownPartial (some ("1970-01", AList.ofEntries [⟨"team-a", "40.00"⟩], false))]
      ∧ (Run.observe (System.call fun _ ↦ "openai") (Op.carries "uid-1") s
          [.enforce hardProvider "team-a", .ownPartial recreatedProvider]).map Prod.snd
        = some [.ownPartial none]
      ∧ ¬ Isolated (fun _ ↦ "openai") "openai" "uid-1" s := by
  obtain ⟨s, hs, hview⟩ := Option.map_eq_some_iff.mp (show
    (List.foldlM (System.step fun _ ↦ "openai") (System.init (30 * Calendar.second) 0)
      [.add recreatedProvider "team-a" "agent/x" 40]).map (fun s ↦
        (s.ledger.identity "openai", s.ledger.superseded,
          (Run.observe (System.call fun _ ↦ "openai") (Op.carries "uid-1") s
            [.ownPartial recreatedProvider]).map Prod.snd,
          (Run.observe (System.call fun _ ↦ "openai") (Op.carries "uid-1") s
            [.enforce hardProvider "team-a", .ownPartial recreatedProvider]).map Prod.snd))
      = some (some ("uid-2", "1970-01"), ∅,
          some [.ownPartial (some ("1970-01", AList.ofEntries [⟨"team-a", "40.00"⟩], false))],
          some [.ownPartial none])
    by decide +kernel)
  obtain ⟨hid, hsup, hquiet, hdisturbed⟩ := by simpa only [Prod.mk.injEq] using hview
  refine ⟨s, hs, hid, hquiet, hdisturbed, not_isolated_of_live rfl ?_⟩
  rw [hsup]
  exact Finset.notMem_empty _

end Kaalm
