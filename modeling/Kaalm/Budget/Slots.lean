import Kaalm.Budget.System

/-!
# Admission slots

A boundary admission takes slots, and exactly three events free them: the request's own settle, a
rollover of the ledger, and a re-creation of the provider. Settles arrive after any of these and in
any order. The results of this file hold in every state a ledger can reach.

## The invariant

`SlotInv` says that the slot map of a ledger is exactly the set of claims of the callbacks that are
neither fired nor stale (`held`), and that tokens are never reused under one UID (`token_inj`). The
second part survives resets because a rollover keeps the token counter and a re-creation changes
the UID for good: a superseded UID never comes back to the map (`known`).

A step first binds the name (`SlotInv.bind`) and then writes through the pointer, and the second
part is one of three writes: one that keeps the slots (`SlotInv.store`), a grant
(`SlotInv.grant`) or a settle (`SlotInv.settle`).
-/

namespace Kaalm

/-- A callback that still stands for its slots: not fired, and its provider's ledger was not reset
since it was issued. -/
structure System.Holds (s : System) (c : Settle) : Prop where
  issued : c ∈ s.issued
  not_fired : c ∉ s.fired
  not_stale : c ∉ s.stale

/-- The invariant of the slot maps. -/
structure SlotInv (nameOf : String → String) (s : System) : Prop where
  bound_live : ∀ n l, s.ledger.providers.lookup n = some l → l.uid ∉ s.ledger.superseded
  bound_name : ∀ n l, s.ledger.providers.lookup n = some l → nameOf l.uid = n
  named : ∀ c ∈ s.issued, nameOf c.uid = c.providerName
  token_pos : ∀ c ∈ s.issued, 0 < c.token
  known : ∀ c ∈ s.issued, c.uid ∈ s.ledger.superseded
    ∨ ∃ l, s.ledger.boundTo c.providerName c.uid = some l ∧ c.token ≤ l.nextToken
  current : ∀ c ∈ s.issued, c ∉ s.stale →
    s.ledger.identity c.providerName = some (c.uid, c.capturedPeriod)
  token_inj : ∀ c ∈ s.issued, ∀ c' ∈ s.issued, c.uid = c'.uid → c.token = c'.token → c = c'
  issued_nodup : s.issued.Nodup
  fired_issued : ∀ c ∈ s.fired, c ∈ s.issued
  stale_issued : ∀ c ∈ s.stale, c ∈ s.issued
  held : ∀ n l, s.ledger.providers.lookup n = some l → ∀ k t, l.adm.lookup k = some t ↔
    ∃ c, s.Holds c ∧ c.providerName = n ∧ k ∈ c.keys ∧ c.token = t

/-- The write keeps the slots of a ledger and the identity it counts for. -/
structure ProviderLedger.SlotsKept (l l' : ProviderLedger) : Prop where
  uid : l'.uid = l.uid
  period : l'.period = l.period
  adm : l'.adm = l.adm
  nextToken : l'.nextToken = l.nextToken

namespace SlotInv

variable {nameOf : String → String} {s : System} {n name uid : String} {l l' : ProviderLedger}

theorem init (window start : Time) : SlotInv nameOf (System.init window start) where
  bound_live := by rintro n l h; cases h
  bound_name := by rintro n l h; cases h
  named := by rintro c h; cases h
  token_pos := by rintro c h; cases h
  known := by rintro c h; cases h
  current := by rintro c h; cases h
  token_inj := by rintro c h; cases h
  issued_nodup := List.nodup_nil
  fired_issued := by rintro c h; cases h
  stale_issued := by rintro c h; cases h
  held := by rintro n l h; cases h

/-- The invariant reads neither the clock nor the replica count. -/
theorem of_same {s' : System} (hinv : SlotInv nameOf s)
    (hproviders : s'.ledger.providers = s.ledger.providers)
    (hsuperseded : s'.ledger.superseded = s.ledger.superseded) (hissued : s'.issued = s.issued)
    (hfired : s'.fired = s.fired) (hstale : s'.stale = s.stale) : SlotInv nameOf s' := by
  obtain ⟨⟨r', w', providers', superseded'⟩, now', issued', fired', stale'⟩ := s'
  obtain ⟨⟨r, w, providers, superseded⟩, now, issued, fired, stale⟩ := s
  cases hproviders
  cases hsuperseded
  cases hissued
  cases hfired
  cases hstale
  refine { hinv with held := ?_ }
  intro n l hl k t
  rw [hinv.held n l hl]
  constructor
  · rintro ⟨c, h, hc⟩
    exact ⟨c, ⟨h.1, h.2, h.3⟩, hc⟩
  · rintro ⟨c, h, hc⟩
    exact ⟨c, ⟨h.1, h.2, h.3⟩, hc⟩

/-- A callback that is not stale belongs to the stored ledger of its name. -/
theorem exists_bound (hinv : SlotInv nameOf s) {c : Settle} (hc : c ∈ s.issued)
    (hstale : c ∉ s.stale) :
    ∃ l, s.ledger.providers.lookup c.providerName = some l ∧ l.uid = c.uid
      ∧ l.period = c.capturedPeriod := by
  obtain ⟨l, hl, hid⟩ := Option.map_eq_some_iff.mp (hinv.current c hc hstale)
  exact ⟨l, hl, (Prod.mk.inj hid).1, (Prod.mk.inj hid).2⟩

/-- Callbacks of a superseded UID are stale. -/
theorem stale_of_superseded (hinv : SlotInv nameOf s) {c : Settle} (hc : c ∈ s.issued)
    (huid : c.uid ∈ s.ledger.superseded) : c ∈ s.stale := by
  by_contra hstale
  obtain ⟨l, hl, hluid, -⟩ := hinv.exists_bound hc hstale
  exact hinv.bound_live _ l hl (hluid ▸ huid)

/-- A stale callback of the UID a name is bound to holds none of that ledger's tokens. -/
theorem lookup_adm_ne_token (hinv : SlotInv nameOf s) {c : Settle} (hc : c ∈ s.issued)
    (hstale : c ∈ s.stale) (hl : s.ledger.providers.lookup c.providerName = some l)
    (huid : l.uid = c.uid) (k : String) : l.adm.lookup k ≠ some c.token := by
  intro hk
  obtain ⟨c', hholds, hname, -, htoken⟩ := (hinv.held _ l hl k c.token).mp hk
  obtain ⟨l', hl', huid', -⟩ := hinv.exists_bound hholds.issued hholds.not_stale
  rw [hname, hl, Option.some.injEq] at hl'
  have hcc : c' = c :=
    hinv.token_inj c' hholds.issued c hc (by rw [← huid', ← hl', huid]) htoken
  exact hholds.not_stale (hcc ▸ hstale)

/-! ## Binding a name -/

/-- Binding a name to a live UID of that name keeps the invariant. -/
theorem bind (hinv : SlotInv nameOf s) (now : Time) (scheme : BudgetPeriod)
    (hlive : uid ∉ s.ledger.superseded) (hname : nameOf uid = name) :
    SlotInv nameOf (s.update (s.ledger.ledgerFor now name uid scheme).1) := by
  have hlookup : ∀ n, (s.ledger.ledgerFor now name uid scheme).1.providers.lookup n
      = if n = name then some (s.ledger.liveLedger now name uid scheme)
        else s.ledger.providers.lookup n := fun n ↦ BudgetLedger.lookup_ledgerFor hlive n
  have hsup : (s.ledger.ledgerFor now name uid scheme).1.superseded
      = s.ledger.supersededBy name uid := BudgetLedger.superseded_ledgerFor hlive
  have hid : ∀ n, n ≠ name → (s.ledger.ledgerFor now name uid scheme).1.identity n
      = s.ledger.identity n := by
    intro n hn
    rw [BudgetLedger.identity, hlookup, if_neg hn, BudgetLedger.identity]
  have hidname : (s.ledger.ledgerFor now name uid scheme).1.identity name
      = some (uid, periodKey scheme now) := by
    rw [BudgetLedger.identity, hlookup, if_pos rfl, Option.map_some,
      BudgetLedger.liveLedger_uid, BudgetLedger.liveLedger_period]
  set b := (s.ledger.ledgerFor now name uid scheme).1 with hb
  refine
    { bound_live := ?_, bound_name := ?_, named := hinv.named, token_pos := hinv.token_pos,
      known := ?_, current := ?_, token_inj := hinv.token_inj, issued_nodup := hinv.issued_nodup,
      fired_issued := hinv.fired_issued, stale_issued := ?_, held := ?_ }
  · intro n l hl
    rw [show (s.update b).ledger = b from rfl] at hl ⊢
    rw [hlookup] at hl
    rw [hsup, BudgetLedger.mem_supersededBy]
    by_cases hn : n = name
    · rw [if_pos hn, Option.some.injEq] at hl
      rw [← hl, BudgetLedger.liveLedger_uid]
      rintro (h | ⟨l', -, -, hne⟩)
      · exact hlive h
      · exact hne rfl
    · rw [if_neg hn] at hl
      rintro (h | ⟨l', hl', huid, -⟩)
      · exact hinv.bound_live n l hl h
      · -- Two names are never bound to one UID.
        have := hinv.bound_name n l hl
        rw [← huid, hinv.bound_name name l' hl'] at this
        exact hn this.symm
  · intro n l hl
    rw [show (s.update b).ledger = b from rfl, hlookup] at hl
    by_cases hn : n = name
    · rw [if_pos hn, Option.some.injEq] at hl
      rw [← hl, BudgetLedger.liveLedger_uid, hname, hn]
    · rw [if_neg hn] at hl
      exact hinv.bound_name n l hl
  · intro c hc
    rw [show (s.update b).ledger = b from rfl, hsup, BudgetLedger.mem_supersededBy]
    rcases hinv.known c hc with h | ⟨l, hl, htoken⟩
    · exact Or.inl (Or.inl h)
    · obtain ⟨hl, huid⟩ := BudgetLedger.boundTo_eq_some.mp hl
      by_cases hn : c.providerName = name
      · by_cases hu : c.uid = uid
        · refine Or.inr ⟨s.ledger.liveLedger now name uid scheme, ?_, ?_⟩
          · rw [BudgetLedger.boundTo_eq_some, hlookup, if_pos hn, BudgetLedger.liveLedger_uid]
            exact ⟨rfl, hu.symm⟩
          · rw [BudgetLedger.liveLedger_of_bound
              (BudgetLedger.boundTo_eq_some.mpr ⟨hn ▸ hl, huid.trans hu⟩),
              ProviderLedger.rollover_nextToken]
            exact htoken
        · exact Or.inl (Or.inr ⟨l, hn ▸ hl, huid, hu⟩)
      · refine Or.inr ⟨l, ?_, htoken⟩
        rw [BudgetLedger.boundTo_eq_some, hlookup, if_neg hn]
        exact ⟨hl, huid⟩
  · intro c hc hstale
    rw [System.mem_stale_update, not_or, not_and, not_not] at hstale
    rw [show (s.update b).ledger = b from rfl, ← hstale.2 hc]
    exact hinv.current c hc hstale.1
  · intro c hc
    rcases System.mem_stale_update.mp hc with hc | hc
    · exact hinv.stale_issued c hc
    · exact hc.1
  · intro n l hl k t
    rw [show (s.update b).ledger = b from rfl, hlookup] at hl
    -- Away from the bound name, and where binding resets nothing, no callback becomes stale.
    have hsame : s.ledger.identity n = b.identity n →
        ((∃ c, s.Holds c ∧ c.providerName = n ∧ k ∈ c.keys ∧ c.token = t) ↔
          ∃ c, (s.update b).Holds c ∧ c.providerName = n ∧ k ∈ c.keys ∧ c.token = t) := by
      intro hsame
      constructor
      · rintro ⟨c, hholds, hcn, hk, ht⟩
        refine ⟨c, ⟨hholds.issued, hholds.not_fired, ?_⟩, hcn, hk, ht⟩
        rw [System.mem_stale_update, not_or, not_and, not_not]
        exact ⟨hholds.not_stale, fun _ ↦ hcn ▸ hsame⟩
      · rintro ⟨c, hholds, hcn, hk, ht⟩
        refine ⟨c, ⟨hholds.issued, hholds.not_fired, ?_⟩, hcn, hk, ht⟩
        exact fun hstale ↦ hholds.not_stale (System.mem_stale_update.mpr (Or.inl hstale))
    by_cases hn : n = name
    · rw [if_pos hn, Option.some.injEq] at hl
      rcases s.ledger.liveLedger_cases now name uid scheme with ⟨hstored, -⟩ | ⟨hreset, hadm, -⟩
      · rw [hl] at hstored
        rw [hinv.held n l (hn ▸ hstored), hsame]
        rw [hn, hidname, BudgetLedger.identity, hstored, Option.map_some, ← hl,
          BudgetLedger.liveLedger_uid, BudgetLedger.liveLedger_period]
      · rw [← hl, hadm, AList.lookup_empty]
        constructor
        · intro h
          cases h
        · rintro ⟨c, hholds, hcn, -, -⟩
          have hmem : c ∈ (s.update b).stale :=
            System.mem_stale_update.mpr
              (Or.inr ⟨hholds.issued, by rw [hcn, hn, hidname]; exact hreset⟩)
          exact absurd hmem hholds.not_stale
    · rw [if_neg hn] at hl
      rw [hinv.held n l hl, hsame (hid n hn).symm]

/-! ## Writing through the pointer -/

section Write

variable (new : Option Settle) (fired : List Settle)

/-- What a callback handed out by a write to the ledger `l` of `name` captures. -/
structure Captures (name : String) (l l' : ProviderLedger) (c : Settle) : Prop where
  providerName : c.providerName = name
  uid : c.uid = l.uid
  period : c.capturedPeriod = l.period
  fresh : l.nextToken < c.token
  counted : c.token ≤ l'.nextToken

/-- A write to the stored ledger of a name that keeps its identity, hands out at most one callback
and fires callbacks of that name only. The slots of the new ledger are the caller's to justify;
everything else is kept. -/
theorem write (hinv : SlotInv nameOf s) (hl : s.ledger.providers.lookup name = some l)
    (huid : l'.uid = l.uid) (hperiod : l'.period = l.period) (hnext : l.nextToken ≤ l'.nextToken)
    (hnew : ∀ c ∈ new, Captures name l l' c) (hissued : ∀ c ∈ fired, c ∈ s.issued)
    (hother : ∀ c, c.providerName ≠ name → (c ∈ fired ↔ c ∈ s.fired))
    (hheld : ∀ k t, l'.adm.lookup k = some t ↔
      ∃ c, c ∈ s.issued ++ new.toList ∧ c ∉ fired ∧ c ∉ s.stale ∧ c.providerName = name
        ∧ k ∈ c.keys ∧ c.token = t) :
    SlotInv nameOf { s with
      ledger := s.ledger.store name l', issued := s.issued ++ new.toList, fired := fired } := by
  have hlookup : ∀ n, (s.ledger.store name l').providers.lookup n
      = if n = name then some l' else s.ledger.providers.lookup n :=
    fun n ↦ BudgetLedger.lookup_store l' n
  have hid := BudgetLedger.identity_store hl huid hperiod
  have hmem : ∀ c, c ∈ s.issued ++ new.toList → c ∈ s.issued ∨ Captures name l l' c := by
    intro c hc
    rcases List.mem_append.mp hc with hc | hc
    · exact Or.inl hc
    · exact Or.inr (hnew c (Option.mem_toList.mp hc))
  -- A callback of the bound UID has a token the counter has passed.
  have hcounted : ∀ c ∈ s.issued, c.uid = l.uid → c.token ≤ l.nextToken := by
    intro c hc hcuid
    rcases hinv.known c hc with h | ⟨l₁, hl₁, htoken⟩
    · exact absurd (hcuid ▸ h) (hinv.bound_live name l hl)
    · obtain ⟨hl₁, -⟩ := BudgetLedger.boundTo_eq_some.mp hl₁
      have hcname : c.providerName = name := by
        rw [← hinv.named c hc, hcuid, hinv.bound_name name l hl]
      rw [hcname, hl, Option.some.injEq] at hl₁
      rwa [hl₁]
  refine
    { bound_live := ?_, bound_name := ?_, named := ?_, token_pos := ?_, known := ?_, current := ?_,
      token_inj := ?_, issued_nodup := ?_,
      fired_issued := fun c hc ↦ List.mem_append_left _ (hissued c hc),
      stale_issued := fun c hc ↦ List.mem_append_left _ (hinv.stale_issued c hc), held := ?_ }
  · intro n l₁ hl₁
    rw [hlookup] at hl₁
    by_cases hn : n = name
    · rw [if_pos hn, Option.some.injEq] at hl₁
      rw [← hl₁, huid]
      exact hinv.bound_live name l hl
    · rw [if_neg hn] at hl₁
      exact hinv.bound_live n l₁ hl₁
  · intro n l₁ hl₁
    rw [hlookup] at hl₁
    by_cases hn : n = name
    · rw [if_pos hn, Option.some.injEq] at hl₁
      rw [← hl₁, huid, hn]
      exact hinv.bound_name name l hl
    · rw [if_neg hn] at hl₁
      exact hinv.bound_name n l₁ hl₁
  · intro c hc
    rcases hmem c hc with hc | hc
    · exact hinv.named c hc
    · rw [hc.uid, hc.providerName]
      exact hinv.bound_name name l hl
  · intro c hc
    rcases hmem c hc with hc | hc
    · exact hinv.token_pos c hc
    · exact lt_of_le_of_lt (Nat.zero_le _) hc.fresh
  · intro c hc
    have hbound : (s.ledger.store name l').boundTo name l.uid = some l' := by
      rw [BudgetLedger.boundTo_eq_some, hlookup, if_pos rfl]
      exact ⟨rfl, huid⟩
    rcases hmem c hc with hc | hc
    · rcases hinv.known c hc with h | ⟨l₁, hl₁, htoken⟩
      · exact Or.inl h
      · obtain ⟨hl₁, hl₁uid⟩ := BudgetLedger.boundTo_eq_some.mp hl₁
        by_cases hn : c.providerName = name
        · rw [hn, hl, Option.some.injEq] at hl₁
          have hcuid : c.uid = l.uid := by rw [← hl₁uid, hl₁]
          refine Or.inr ⟨l', ?_, (hcounted c hc hcuid).trans hnext⟩
          rw [hn, hcuid]
          exact hbound
        · refine Or.inr ⟨l₁, ?_, htoken⟩
          rw [BudgetLedger.boundTo_eq_some, hlookup, if_neg hn]
          exact ⟨hl₁, hl₁uid⟩
    · refine Or.inr ⟨l', ?_, hc.counted⟩
      rw [hc.providerName, hc.uid]
      exact hbound
  · intro c hc hstale
    rw [← hid]
    rcases hmem c hc with hc | hc
    · exact hinv.current c hc hstale
    · rw [BudgetLedger.identity, hc.providerName, hl, Option.map_some, hc.uid, hc.period]
  · intro c hc c' hc' hcuid htoken
    rcases List.mem_append.mp hc with hc₁ | hc₁ <;> rcases List.mem_append.mp hc' with hc₁' | hc₁'
    · exact hinv.token_inj c hc₁ c' hc₁' hcuid htoken
    · have hnew' := hnew c' (Option.mem_toList.mp hc₁')
      have := hcounted c hc₁ (hcuid.trans hnew'.uid)
      have := hnew'.fresh
      omega
    · have hnew' := hnew c (Option.mem_toList.mp hc₁)
      have := hcounted c' hc₁' (hcuid.symm.trans hnew'.uid)
      have := hnew'.fresh
      omega
    · exact Option.mem_unique (Option.mem_toList.mp hc₁) (Option.mem_toList.mp hc₁')
  · refine hinv.issued_nodup.append (Option.toList_nodup new) ?_
    intro c hc hc'
    have hnew' := hnew c (Option.mem_toList.mp hc')
    have := hcounted c hc hnew'.uid
    have := hnew'.fresh
    omega
  · intro n l₁ hl₁ k t
    rw [hlookup] at hl₁
    by_cases hn : n = name
    · rw [if_pos hn, Option.some.injEq] at hl₁
      rw [← hl₁, hheld]
      constructor
      · rintro ⟨c, h₁, h₂, h₃, h₄, h₅⟩
        exact ⟨c, ⟨h₁, h₂, h₃⟩, hn ▸ h₄, h₅⟩
      · rintro ⟨c, h, h₄, h₅⟩
        exact ⟨c, h.1, h.2, h.3, hn ▸ h₄, h₅⟩
    · rw [if_neg hn] at hl₁
      rw [hinv.held n l₁ hl₁]
      constructor
      · rintro ⟨c, h, hcn, hk⟩
        refine ⟨c, ⟨List.mem_append_left _ h.1, ?_, h.3⟩, hcn, hk⟩
        rw [hother c (hcn ▸ hn)]
        exact h.2
      · rintro ⟨c, h, hcn, hk⟩
        rcases hmem c h.1 with hc | hc
        · exact ⟨c, ⟨hc, fun hf ↦ h.2 ((hother c (hcn ▸ hn)).mpr hf), h.3⟩, hcn, hk⟩
        · exact absurd (hcn.symm.trans hc.providerName) hn

end Write

/-- A write that keeps the slots keeps the invariant. -/
theorem store (hinv : SlotInv nameOf s) (hl : s.ledger.providers.lookup name = some l)
    (hkept : l.SlotsKept l') : SlotInv nameOf { s with ledger := s.ledger.store name l' } := by
  have h := hinv.write none s.fired hl hkept.uid hkept.period hkept.nextToken.ge (by simp)
    hinv.fired_issued (fun c _ ↦ Iff.rfl) ?_
  · simpa using h
  · intro k t
    rw [hkept.adm, hinv.held name l hl]
    constructor
    · rintro ⟨c, h, hc⟩
      exact ⟨c, by simpa using h.1, h.2, h.3, hc⟩
    · rintro ⟨c, h₁, h₂, h₃, hc⟩
      exact ⟨c, ⟨by simpa using h₁, h₂, h₃⟩, hc⟩

/-- Granting free slots under a fresh token keeps the invariant. -/
theorem grant (hinv : SlotInv nameOf s) (hl : s.ledger.providers.lookup name = some l)
    (c : Settle) (widened : Bool) (hcname : c.providerName = name) (hcuid : c.uid = l.uid)
    (hcperiod : c.capturedPeriod = l.period) (hctoken : c.token = l.nextToken + 1)
    (hfree : ∀ k ∈ c.keys, k ∉ l.adm) :
    SlotInv nameOf { s with
      ledger := s.ledger.store name (l.grant c.keys widened), issued := s.issued ++ [c] } := by
  have hcap : Captures name l (l.grant c.keys widened) c :=
    ⟨hcname, hcuid, hcperiod, by omega, by rw [ProviderLedger.grant_nextToken, hctoken]⟩
  -- The callback is new: no earlier one has its token.
  have hcnew : c ∉ s.issued := by
    intro hc
    rcases hinv.known c hc with h | ⟨l₁, hl₁, htoken⟩
    · exact hinv.bound_live name l hl (hcuid ▸ h)
    · obtain ⟨hl₁, -⟩ := BudgetLedger.boundTo_eq_some.mp hl₁
      rw [hcname, hl, Option.some.injEq] at hl₁
      rw [← hl₁] at htoken
      omega
  refine hinv.write (some c) s.fired hl rfl rfl (by simp) ?_ hinv.fired_issued
    (fun c _ ↦ Iff.rfl) ?_
  · intro c' hc'
    rw [Option.mem_some_iff] at hc'
    exact hc' ▸ hcap
  · intro k t
    rw [ProviderLedger.lookup_grant_adm]
    by_cases hk : k ∈ c.keys
    · rw [if_pos hk, Option.some.injEq, ← hctoken]
      constructor
      · intro ht
        exact ⟨c, by simp, fun h ↦ hcnew (hinv.fired_issued c h),
          fun h ↦ hcnew (hinv.stale_issued c h), hcname, hk, ht⟩
      · rintro ⟨c', hc', hfired, hstale, hname', hk', ht⟩
        rcases List.mem_append.mp hc' with hc' | hc'
        · -- An earlier holder of `k` would show in the slot map.
          have hheld := (hinv.held name l hl k c'.token).mpr
            ⟨c', ⟨hc', hfired, hstale⟩, hname', hk', rfl⟩
          exact absurd (AList.mem_of_lookup hheld) (hfree k hk)
        · rw [Option.mem_toList, Option.some.injEq] at hc'
          rw [hc', ht]
    · rw [if_neg hk, hinv.held name l hl]
      constructor
      · rintro ⟨c', h, hc'⟩
        exact ⟨c', List.mem_append_left _ h.1, h.2, h.3, hc'⟩
      · rintro ⟨c', hc', hfired, hstale, hname', hk', ht⟩
        rcases List.mem_append.mp hc' with hc' | hc'
        · exact ⟨c', ⟨hc', hfired, hstale⟩, hname', hk', ht⟩
        · rw [Option.mem_toList, Option.some.injEq] at hc'
          exact absurd (hc' ▸ hk') hk

/-- What a settle leaves in the slot map of the ledger it lands in: everything but its own
claims. -/
theorem lookup_settleLocked_adm (hinv : SlotInv nameOf s) {c : Settle} (hc : c ∈ s.issued)
    (hl : s.ledger.providers.lookup c.providerName = some l) (huid : l.uid = c.uid) (now : Time)
    (cost : ℚ) (k : String) :
    (c.settleLocked now cost l).adm.lookup k
      = if k ∈ c.keys ∧ l.adm.lookup k = some c.token then none else l.adm.lookup k := by
  have hadm : (c.settleLocked now cost l).adm
      = (if l.period = c.capturedPeriod then l.release c.keys c.token else l).adm := by
    rw [Settle.settleLocked]
    by_cases hcost : cost ≠ 0
    · rw [if_pos hcost, ProviderLedger.land_adm]
    · rw [if_neg hcost]
  rw [hadm]
  by_cases hperiod : l.period = c.capturedPeriod
  · rw [if_pos hperiod, ProviderLedger.lookup_release_adm _ _ _ (hinv.token_pos c hc).ne']
  · -- The captured period is gone, so the callback is stale and holds nothing here.
    have hstale : c ∈ s.stale := by
      by_contra hstale
      obtain ⟨l₁, hl₁, -, hp⟩ := hinv.exists_bound hc hstale
      rw [hl, Option.some.injEq] at hl₁
      exact hperiod (hl₁ ▸ hp)
    rw [if_neg hperiod, if_neg]
    rintro ⟨-, hk⟩
    exact hinv.lookup_adm_ne_token hc hstale hl huid k hk

/-- Settling a callback in the ledger of its UID keeps the invariant. -/
theorem settle (hinv : SlotInv nameOf s) {c : Settle} (hc : c ∈ s.issued)
    (hl : s.ledger.providers.lookup c.providerName = some l) (huid : l.uid = c.uid) (now : Time)
    (cost : ℚ) :
    SlotInv nameOf { s with
      ledger := s.ledger.store c.providerName (c.settleLocked now cost l)
      fired := c :: s.fired } := by
  have h := hinv.write none (c :: s.fired) hl (settleLocked_uid c now cost l)
    (settleLocked_period c now cost l) (settleLocked_nextToken c now cost l).ge (by simp)
    ?_ ?_ ?_
  · simpa using h
  · intro c' hc'
    rcases List.mem_cons.mp hc' with rfl | hc'
    · exact hc
    · exact hinv.fired_issued c' hc'
  · intro c' hname
    rw [List.mem_cons, or_iff_right]
    rintro rfl
    exact hname rfl
  · intro k t
    rw [hinv.lookup_settleLocked_adm hc hl huid]
    by_cases hown : k ∈ c.keys ∧ l.adm.lookup k = some c.token
    · rw [if_pos hown]
      constructor
      · intro h
        cases h
      · rintro ⟨c', hc', hfired, hstale, hname, hk, ht⟩
        -- Only `c` itself holds a slot under its token, and `c` has fired.
        rw [Option.toList_none, List.append_nil] at hc'
        have hheld := (hinv.held _ l hl k c'.token).mpr
          ⟨c', ⟨hc', fun h ↦ hfired (List.mem_cons_of_mem _ h), hstale⟩, hname, hk, rfl⟩
        rw [hown.2, Option.some.injEq] at hheld
        obtain ⟨l₁, hl₁, huid₁, -⟩ := hinv.exists_bound hc' hstale
        rw [hname, hl, Option.some.injEq] at hl₁
        have : c' = c :=
          hinv.token_inj c' hc' c hc (by rw [← huid₁, ← hl₁, huid]) hheld.symm
        exact absurd (List.mem_cons.mpr (Or.inl this)) hfired
    · rw [if_neg hown, hinv.held _ l hl]
      constructor
      · rintro ⟨c', h, hname, hk, ht⟩
        refine ⟨c', by simpa using h.1, ?_, h.3, hname, hk, ht⟩
        intro hmem
        rcases List.mem_cons.mp hmem with rfl | hmem
        · exact hown ⟨hk, (hinv.held _ l hl k _).mpr ⟨c', h, hname, hk, rfl⟩⟩
        · exact h.2 hmem
      · rintro ⟨c', hc', hfired, hstale, hrest⟩
        exact ⟨c', ⟨by simpa using hc', fun h ↦ hfired (List.mem_cons_of_mem _ h), hstale⟩, hrest⟩

/-! ## The calls -/

/-- A critical section that keeps the slots, for any UID. -/
theorem withLedger {α : Type} {f : ProviderLedger → ProviderLedger × α} (hinv : SlotInv nameOf s)
    {now : Time} {scheme : BudgetPeriod} (hname : nameOf uid = name)
    (hf : ∀ l : ProviderLedger, l.SlotsKept (f l).1) :
    SlotInv nameOf (s.update (s.ledger.withLedger now name uid scheme f).1) := by
  by_cases hlive : uid ∈ s.ledger.superseded
  · rw [BudgetLedger.withLedger_of_superseded hlive, System.update_of_identity fun n ↦ rfl]
    exact hinv
  · have hbound : (s.ledger.ledgerFor now name uid scheme).1.providers.lookup name
        = some (s.ledger.liveLedger now name uid scheme) := by
      rw [BudgetLedger.lookup_ledgerFor hlive, if_pos rfl]
    rw [BudgetLedger.withLedger_eq_store hlive, System.update_eq_of_identity
      (BudgetLedger.identity_store hbound (hf _).uid (hf _).period)]
    exact (hinv.bind now scheme hlive hname).store hbound (hf _)

/-- A whole admission keeps the invariant, with the callback it hands out. -/
theorem admitRequest (hinv : SlotInv nameOf s) {p : ModelProvider} (hname : nameOf p.uid = p.name)
    (ns workload : String) :
    SlotInv nameOf
      { s.update (s.ledger.admitRequest s.now p ns workload).1 with
        issued := s.issued ++ (s.ledger.admitRequest s.now p ns workload).2.2.toList } := by
  by_cases hlive : p.uid ∈ s.ledger.superseded
  · obtain ⟨hledger, hcallback⟩ := BudgetLedger.admit_of_superseded s.now hlive ns workload
    rw [hledger, hcallback, System.update_of_identity fun n ↦ rfl]
    simpa using hinv
  rw [BudgetLedger.admitRequest]
  simp only
  by_cases hskip : periodKey p.budget.period s.now = "" ∨ p.budget.policies = []
  · rw [if_pos hskip, System.update_of_identity fun n ↦ rfl]
    simpa using hinv
  · rw [if_neg hskip]
    have hbound : (s.ledger.ledgerFor s.now p.name p.uid p.budget.period).1.providers.lookup p.name
        = some (s.ledger.liveLedger s.now p.name p.uid p.budget.period) := by
      rw [BudgetLedger.lookup_ledgerFor hlive, if_pos rfl]
    have hbind := hinv.bind s.now p.budget.period hlive hname
    rw [BudgetLedger.withLedger_eq_store hlive]
    obtain ⟨l', d, c, hx⟩ : ∃ l' d c, s.ledger.admitLocked s.now p ns workload
        (s.ledger.liveLedger s.now p.name p.uid p.budget.period) = (l', d, c) := ⟨_, _, _, rfl⟩
    rw [hx]
    cases c with
    | none =>
      rw [admitLocked_none hx, System.update_eq_of_identity
        (BudgetLedger.identity_store hbound rfl rfl), Option.toList_none, List.append_nil]
      exact hbind.store hbound ⟨rfl, rfl, rfl, rfl⟩
    | some c =>
      obtain ⟨bd, hbd, -, hclear, -, rfl, hc, -⟩ := admitLocked_some hx
      have hkeys : c.keys = bd.keys ns := by rw [hc]
      have hid := BudgetLedger.identity_store hbound
        (ProviderLedger.grant_uid _ c.keys bd.widened) (ProviderLedger.grant_period _ _ _)
      rw [← hkeys, System.update_eq_of_identity hid]
      refine hbind.grant hbound c bd.widened (by rw [hc]) ?_ (by rw [hc]) (by rw [hc]) ?_
      · rw [hc, BudgetLedger.liveLedger_uid]
      · intro k hk
        rcases Boundary.mem_keys.mp (hkeys ▸ hk) with ⟨-, rfl⟩ | ⟨hcl, rfl⟩
        · exact hclear.ns_free
        · refine hclear.cluster_free ?_
          rw [hbd, BudgetLedger.boundaryOf] at hcl
          exact (of_decide_eq_true hcl).1

/-- The first invocation of a callback keeps the invariant, whatever happened to its provider. -/
theorem firstSettle (hinv : SlotInv nameOf s) {c : Settle} (hc : c ∈ s.issued) (cost : ℚ) :
    SlotInv nameOf
      { s.update (s.ledger.settle s.now c cost).1 with fired := c :: s.fired } := by
  by_cases hlive : c.uid ∈ s.ledger.superseded
  · rw [BudgetLedger.settle_of_superseded hlive, System.update_of_identity fun n ↦ rfl]
    have hstale := hinv.stale_of_superseded hc hlive
    refine { hinv with fired_issued := ?_, held := ?_ }
    · intro c' hc'
      rcases List.mem_cons.mp hc' with rfl | hc'
      · exact hc
      · exact hinv.fired_issued c' hc'
    · intro n l hl k t
      rw [hinv.held n l hl]
      constructor
      · rintro ⟨c', h, hrest⟩
        refine ⟨c', ⟨h.1, ?_, h.3⟩, hrest⟩
        intro hmem
        rcases List.mem_cons.mp hmem with rfl | hmem
        · exact h.3 hstale
        · exact h.2 hmem
      · rintro ⟨c', h, hrest⟩
        exact ⟨c', ⟨h.1, fun hmem ↦ h.2 (List.mem_cons_of_mem _ hmem), h.3⟩, hrest⟩
  · have hbound :
        (s.ledger.ledgerFor s.now c.providerName c.uid c.scheme).1.providers.lookup c.providerName
          = some (s.ledger.liveLedger s.now c.providerName c.uid c.scheme) := by
      rw [BudgetLedger.lookup_ledgerFor hlive, if_pos rfl]
    have hbind := hinv.bind s.now c.scheme hlive (hinv.named c hc)
    rw [settle_fst, BudgetLedger.withLedger_eq_store hlive, System.update_eq_of_identity
      (BudgetLedger.identity_store hbound (by simp) (by simp))]
    exact hbind.settle hc hbound BudgetLedger.liveLedger_uid s.now cost

theorem markPublished (hinv : SlotInv nameOf s) (p : ModelProvider) (snapshot : Time) :
    SlotInv nameOf (s.update (s.ledger.markPublished p snapshot)) := by
  rw [BudgetLedger.markPublished]
  cases hl : s.ledger.boundLedger p with
  | none =>
    rw [System.update_of_identity fun n ↦ rfl]
    exact hinv
  | some l =>
    have hlookup := (BudgetLedger.boundLedger_eq_some.mp hl).1
    have hkept : l.SlotsKept (l.published snapshot) := by
      rw [ProviderLedger.published]
      split_ifs <;> exact ⟨rfl, rfl, rfl, rfl⟩
    have := hinv.store hlookup hkept
    rw [System.update_of_identity]
    · exact this
    · exact BudgetLedger.identity_store hlookup hkept.uid hkept.period

/-! ## Runs -/

/-- Every step keeps the invariant. -/
theorem step {s' : System} {op : Op} (hinv : SlotInv nameOf s)
    (h : s.step nameOf op = some s') : SlotInv nameOf s' := by
  obtain ⟨hnamed, out, hexec⟩ := System.step_eq_some.mp h
  cases op with
  | admitRequest p ns workload =>
    cases hexec
    exact hinv.admitRequest (by simpa [Op.wellNamed, Op.incarnation] using hnamed) ns workload
  | settle c cost =>
    simp only [System.exec] at hexec
    split_ifs at hexec with hissued hfired
    · rw [← (Prod.mk.inj (Option.some.inj hexec)).1]
      exact hinv
    · rw [← (Prod.mk.inj (Option.some.inj hexec)).1]
      exact hinv.firstSettle hissued cost
  | add p ns workload cost =>
    cases hexec
    rw [BudgetLedger.add]
    by_cases hskip : periodKey p.budget.period s.now = "" ∨ cost = 0
    · rw [if_pos hskip, System.update_of_identity fun n ↦ rfl]
      exact hinv
    · rw [if_neg hskip]
      exact hinv.withLedger (by simpa [Op.wellNamed, Op.incarnation] using hnamed)
        fun l ↦ ⟨l.land_uid _ _ _ _, l.land_period _ _ _ _, l.land_adm _ _ _ _,
          l.land_nextToken _ _ _ _⟩
  | enforce p ns =>
    simp only [System.exec, Option.some.injEq, Prod.mk.injEq] at hexec
    rw [← hexec.1, BudgetLedger.enforce]
    by_cases hskip : periodKey p.budget.period s.now = "" ∨ p.budget.policies = []
    · simp only [if_pos hskip]
      rw [System.update_of_identity fun n ↦ rfl]
      exact hinv
    · simp only [if_neg hskip]
      exact hinv.withLedger (by simpa [Op.wellNamed, Op.incarnation] using hnamed)
        fun l ↦ ⟨rfl, rfl, rfl, rfl⟩
  | foldPeers p peers =>
    cases hexec
    exact hinv.withLedger (by simpa [Op.wellNamed, Op.incarnation] using hnamed)
      fun l ↦ ⟨rfl, rfl, rfl, rfl⟩
  | foldWorkloadPeers p peers =>
    cases hexec
    exact hinv.withLedger (by simpa [Op.wellNamed, Op.incarnation] using hnamed)
      fun l ↦ ⟨rfl, rfl, rfl, rfl⟩
  | markPublished p snapshot =>
    cases hexec
    exact hinv.markPublished p snapshot
  | setReplicas count =>
    simp only [System.exec, Option.some.injEq, Prod.mk.injEq] at hexec
    have hid : ∀ n, s.ledger.identity n
        = BudgetLedger.identity { s.ledger with replicas := count } n := fun n ↦ rfl
    rw [← hexec.1, System.update_of_identity hid]
    exact hinv.of_same rfl rfl rfl rfl rfl
  | advance nanos =>
    cases hexec
    exact hinv.of_same rfl rfl rfl rfl rfl
  | ownPartial p | ownWorkloadPartial p | workloadSpend ns =>
    cases hexec
    exact hinv

theorem runs {s' : System} {ops : List Op} (hrun : Run.Runs (System.step nameOf) s ops s')
    (hinv : SlotInv nameOf s) : SlotInv nameOf s' :=
  hrun.invariant (fun _ _ _ h hs ↦ h.step hs) hinv

end SlotInv

/-! ## What invoking a callback does -/

/-- A fired callback stays fired. -/
theorem System.step_fired {nameOf : String → String} {s s' : System} {op : Op} {c : Settle}
    (h : s.step nameOf op = some s') (hc : c ∈ s.fired) : c ∈ s'.fired := by
  obtain ⟨-, out, hexec⟩ := System.step_eq_some.mp h
  cases op with
  | settle c' cost =>
    simp only [System.exec] at hexec
    split_ifs at hexec with hissued hfired
    · rw [← (Prod.mk.inj (Option.some.inj hexec)).1]
      exact hc
    · rw [← (Prod.mk.inj (Option.some.inj hexec)).1]
      exact List.mem_cons_of_mem _ hc
  | _ =>
    cases hexec
    exact hc

/-- What one invocation of the callback `c` with `cost` does. -/
structure SettleEffect (s s' : System) (c : Settle) (cost : ℚ) : Prop where
  /-- A repeated invocation does nothing. -/
  again : c ∈ s.fired → s' = s
  /-- No ledger but that of the captured name changes. -/
  elsewhere : ∀ n, n ≠ c.providerName →
    s'.ledger.providers.lookup n = s.ledger.providers.lookup n
  /-- The cost is dropped, or added once to the captured namespace in the ledger of the captured
  UID, after the rollover that is due. -/
  landed : s'.ledger = s.ledger ∨ ∃ l', s'.ledger.providers.lookup c.providerName = some l'
    ∧ l'.uid = c.uid ∧ ∀ ns, l'.own.get ns
      = (s.ledger.liveLedger s.now c.providerName c.uid c.scheme).own.get ns
        + if ns = c.ns then cost else 0
  /-- Every other request keeps its slots, unless the ledger is reset. -/
  others_kept : ∀ c', s.Holds c' → c' ≠ c → c' ∉ s'.stale → ∀ k ∈ c'.keys,
    ∃ l', s'.ledger.providers.lookup c'.providerName = some l' ∧ l'.adm.lookup k = some c'.token
  /-- And the only reset is a rollover: the period of the other request is over. -/
  reset_rollover : ∀ c', s.Holds c' → c' ∈ s'.stale →
    c'.providerName = c.providerName ∧ c'.uid = c.uid
      ∧ periodKey c.scheme s.now ≠ c'.capturedPeriod

namespace SlotInv

variable {nameOf : String → String} {s s' : System} {c : Settle} {cost : ℚ}

/-- A holder's key maps to its token. -/
theorem lookup_adm (hinv : SlotInv nameOf s) (hc : s.Holds c) {k : String} (hk : k ∈ c.keys) :
    ∃ l, s.ledger.providers.lookup c.providerName = some l ∧ l.uid = c.uid
      ∧ l.adm.lookup k = some c.token := by
  obtain ⟨l, hl, huid, -⟩ := hinv.exists_bound hc.issued hc.not_stale
  exact ⟨l, hl, huid, (hinv.held _ l hl k c.token).mpr ⟨c, hc, rfl, hk, rfl⟩⟩

/-- A settle that makes another holder's callback stale rolls the ledger over. -/
theorem reset_of_settle (hinv : SlotInv nameOf s) (hc : c ∈ s.issued) {c' : Settle}
    (hc' : s.Holds c') (hstale : c' ∈ (s.update (s.ledger.settle s.now c cost).1).stale) :
    c'.providerName = c.providerName ∧ c'.uid = c.uid
      ∧ periodKey c.scheme s.now ≠ c'.capturedPeriod := by
  rcases System.mem_stale_update.mp hstale with h | ⟨-, hid⟩
  · exact absurd h hc'.not_stale
  rw [BudgetLedger.settle] at hid
  by_cases hlive : c.uid ∈ s.ledger.superseded
  · rw [BudgetLedger.withLedger_of_superseded hlive] at hid
    exact absurd rfl hid
  have hname : c'.providerName = c.providerName := by
    by_contra hne
    simp only [BudgetLedger.identity] at hid
    rw [BudgetLedger.lookup_withLedger_of_ne hne] at hid
    exact hid rfl
  obtain ⟨l, hl, huid, hperiod⟩ := hinv.exists_bound hc'.issued hc'.not_stale
  have hcuid : c'.uid = c.uid := by
    rcases hinv.known c hc with h | ⟨l₁, hl₁, -⟩
    · exact absurd h hlive
    · obtain ⟨hl₁, huid₁⟩ := BudgetLedger.boundTo_eq_some.mp hl₁
      rw [← hname, hl, Option.some.injEq] at hl₁
      rw [← huid, hl₁, huid₁]
  refine ⟨hname, hcuid, ?_⟩
  intro hsame
  apply hid
  simp only [BudgetLedger.identity]
  rw [hname, BudgetLedger.lookup_withLedger_self hlive, ← hname, hl, Option.map_some,
    Option.map_some, settleLocked_uid, settleLocked_period, BudgetLedger.liveLedger_uid,
    BudgetLedger.liveLedger_period, huid, hperiod, hcuid, hsame]

theorem settleEffect (hinv : SlotInv nameOf s) (h : s.step nameOf (.settle c cost) = some s') :
    SettleEffect s s' c cost := by
  have hinv' := hinv.step h
  obtain ⟨-, out, hexec⟩ := System.step_eq_some.mp h
  simp only [System.exec] at hexec
  split_ifs at hexec with hissued hfired
  · obtain rfl : s = s' := (Prod.mk.inj (Option.some.inj hexec)).1
    exact
      { again := fun _ ↦ rfl
        elsewhere := fun _ _ ↦ rfl
        landed := Or.inl rfl
        others_kept := fun c' hc' _ _ k hk ↦ by
          obtain ⟨l, hl, -, hadm⟩ := hinv.lookup_adm hc' hk
          exact ⟨l, hl, hadm⟩
        reset_rollover := fun c' hc' hstale ↦ absurd hstale hc'.not_stale }
  · obtain rfl := (Prod.mk.inj (Option.some.inj hexec)).1
    refine
      { again := fun hc ↦ absurd hc hfired
        elsewhere := fun n hn ↦ ?_
        landed := ?_
        others_kept := fun c' hc' hne hstale k hk ↦ ?_
        reset_rollover := fun c' hc' hstale ↦ hinv.reset_of_settle hissued hc' hstale }
    · simp only [System.update, settle_fst]
      exact BudgetLedger.lookup_withLedger_of_ne hn
    · simp only [System.update, settle_fst]
      by_cases hlive : c.uid ∈ s.ledger.superseded
      · left
        rw [BudgetLedger.withLedger_of_superseded hlive]
      · right
        refine ⟨_, BudgetLedger.lookup_withLedger_self hlive, ?_, fun ns ↦ ?_⟩
        · rw [settleLocked_uid, BudgetLedger.liveLedger_uid]
        · exact get_settleLocked_own c s.now cost _ ns
    · have hfired' : c' ∉ c :: s.fired := by
        rw [List.mem_cons, not_or]
        exact ⟨hne, hc'.not_fired⟩
      obtain ⟨l, hl, -, hadm⟩ := hinv'.lookup_adm ⟨hc'.issued, hfired', hstale⟩ hk
      exact ⟨l, hl, hadm⟩

end SlotInv

/-! ## The guarantee -/

/-- What the slots guarantee in a state. -/
structure SlotSafety (nameOf : String → String) (s : System) : Prop where
  /-- Different requests have different callbacks. -/
  requests_distinct : s.issued.Nodup
  /-- At most one unsettled request since the last reset took a given key. -/
  exclusive : ∀ c c' k, s.Holds c → s.Holds c' → c.providerName = c'.providerName →
    k ∈ c.keys → k ∈ c'.keys → c = c'
  /-- The slot map names that request's token. -/
  token : ∀ c k, s.Holds c → k ∈ c.keys → ∃ l, s.ledger.providers.lookup c.providerName = some l
    ∧ l.uid = c.uid ∧ l.adm.lookup k = some c.token
  /-- Without an unsettled request there is no held slot. -/
  released : ∀ n l, s.ledger.providers.lookup n = some l →
    (∀ c, s.Holds c → c.providerName ≠ n) → l.adm = ∅
  /-- Invoking a callback touches one ledger, and no slot of another request. -/
  settle : ∀ c cost s', s.step nameOf (.settle c cost) = some s' → SettleEffect s s' c cost
  /-- Once invoked, a callback never does anything again. -/
  once : ∀ c cost s₁ ops s₂ cost' s₃, s.step nameOf (.settle c cost) = some s₁ →
    Run.Runs (System.step nameOf) s₁ ops s₂ → s₂.step nameOf (.settle c cost') = some s₃ → s₃ = s₂

theorem System.mem_fired_of_settle {nameOf : String → String} {s s' : System} {c : Settle}
    {cost : ℚ} (h : s.step nameOf (.settle c cost) = some s') : c ∈ s'.fired := by
  obtain ⟨-, out, hexec⟩ := System.step_eq_some.mp h
  simp only [System.exec] at hexec
  split_ifs at hexec with hissued hfired
  · rw [← (Prod.mk.inj (Option.some.inj hexec)).1]
    exact hfired
  · rw [← (Prod.mk.inj (Option.some.inj hexec)).1]
    exact List.mem_cons_self

/-- **Slot exclusion and exactly-once settlement** hold in every state a ledger reaches, under any
interleaving of calls, repeated callbacks, rollovers and re-creations. -/
theorem slotSafety_of_runs (nameOf : String → String) (window start : Time) (ops : List Op)
    (s : System) (hrun : Run.Runs (System.step nameOf) (System.init window start) ops s) :
    SlotSafety nameOf s := by
  have hinv : SlotInv nameOf s := SlotInv.runs hrun (SlotInv.init window start)
  refine
    { requests_distinct := hinv.issued_nodup
      exclusive := ?_
      token := fun c k hc hk ↦ hinv.lookup_adm hc hk
      released := ?_
      settle := fun c cost s' h ↦ hinv.settleEffect h
      once := ?_ }
  · intro c c' k hc hc' hname hk hk'
    obtain ⟨l, hl, huid, hadm⟩ := hinv.lookup_adm hc hk
    obtain ⟨l', hl', huid', hadm'⟩ := hinv.lookup_adm hc' hk'
    rw [← hname, hl, Option.some.injEq] at hl'
    rw [← hl', hadm, Option.some.injEq] at hadm'
    exact hinv.token_inj c hc.issued c' hc'.issued (by rw [← huid, hl', huid']) hadm'
  · intro n l hl hnone
    apply AList.eq_empty_of_lookup
    intro k
    cases hk : l.adm.lookup k with
    | none => rfl
    | some t =>
      obtain ⟨c, hc, hname, -⟩ := (hinv.held n l hl k t).mp hk
      exact absurd hname (hnone c hc)
  · intro c cost s₁ ops' s₂ cost' s₃ h₁ hrun' h₃
    have hfired : c ∈ s₂.fired :=
      hrun'.invariant (I := fun t ↦ c ∈ t.fired) (fun _ _ _ hc h ↦ System.step_fired h hc)
        (System.mem_fired_of_settle h₁)
    have hinv₂ : SlotInv nameOf s₂ := SlotInv.runs hrun' (hinv.step h₁)
    exact (hinv₂.settleEffect h₃).again hfired

/-- A run in which the guarantee has a request to speak of: spend of 96 USD puts the namespace in
the boundary region, and the next admission takes its slot. -/
theorem slotSafety_of_boundary_admission :
    ∃ s c, Run.Runs (System.step fun _ ↦ "openai") (System.init (30 * Calendar.second) 0)
        [.foldPeers hardProvider ∅, .add hardProvider "team-a" "agent/x" 96,
          .admitRequest hardProvider "team-a" "agent/x"] s
      ∧ s.Holds c ∧ c.keys = ["team-a"] ∧ SlotSafety (fun _ ↦ "openai") s := by
  obtain ⟨s, hs, hview⟩ := Option.map_eq_some_iff.mp (show
    (List.foldlM (System.step fun _ ↦ "openai") (System.init (30 * Calendar.second) 0)
      [.foldPeers hardProvider ∅, .add hardProvider "team-a" "agent/x" 96,
        .admitRequest hardProvider "team-a" "agent/x"]).map (fun s ↦ (s.issued, s.fired, s.stale))
      = some ([⟨"openai", "uid-1", .monthly, "1970-01", "team-a", "agent/x", ["team-a"], 1⟩], [],
        [])
    by decide +kernel)
  obtain ⟨hissued, hfired, hstale⟩ := by simpa only [Prod.mk.injEq] using hview
  refine ⟨s, ⟨"openai", "uid-1", .monthly, "1970-01", "team-a", "agent/x", ["team-a"], 1⟩, hs,
    ⟨?_, ?_, ?_⟩, rfl, slotSafety_of_runs _ _ _ _ s hs⟩
  · rw [hissued]
    exact List.mem_singleton_self _
  · rw [hfired]
    exact List.not_mem_nil
  · rw [hstale]
    exact List.not_mem_nil

end Kaalm
