import Kaalm.Foundation.Decimal
import Kaalm.Foundation.Json

/-!
# Budget partials on the wire

The value a replica stores under its key of the budget ConfigMap: the accounting period, the spend
per namespace as decimal texts, a margin flag and the UID of the provider it was counted for, all
flattened into one JSON object of strings.

## Collisions

The flag and the tag have names that start with an underscore, which no namespace can. The period
has the name `period`, which is a valid namespace: its spend overwrites the period on the wire.
`roundTrips_iff` says that this is the only collision.

`parseBudgetPartial_marshalJSON` is the codec's specification for maps without underscore names,
and the only fact about the two functions that later files use.
-/

namespace Kaalm

open Decimal

/-- The value under a replica's key. -/
structure BudgetPartial where
  period : String
  /-- Spend per namespace in USD as decimal texts. -/
  spend : GoMap String String
  marginExceeded : Bool := false
  /-- The UID of the provider the spend was counted for; empty for an untagged value. -/
  providerUID : String := ""
  deriving DecidableEq

/-- What `parseBudgetPartial` returns. -/
structure ParsedPartial where
  period : String := ""
  spend : GoMap String ℚ := ∅
  marginExceeded : Bool := false
  providerUID : String := ""
  deriving DecidableEq

def marginExceededField : String := "_marginExceeded"

def providerUIDField : String := "_providerUID"

/-- `strings.HasPrefix`. -/
def hasPrefix (s pre : String) : Bool := pre.toList.isPrefixOf s.toList

/-- The name is a flag or a tag, never spend. -/
def isFlag (k : String) : Bool := hasPrefix k "_"

/-- The flat object `MarshalJSON` encodes. -/
def BudgetPartial.flat (p : BudgetPartial) : GoMap String String :=
  let out : GoMap String String := (∅ : GoMap String String).insert "period" p.period
  let out := p.spend.entries.foldl (fun out e ↦ out.insert e.1 e.2) out
  let out := if p.marginExceeded then out.insert marginExceededField "true" else out
  if p.providerUID ≠ "" then out.insert providerUIDField p.providerUID else out

def BudgetPartial.marshalJSON (p : BudgetPartial) : String := Json.marshal p.flat

/-- One field of the loop over the decoded object. -/
def ParsedPartial.field (q : ParsedPartial) (e : Sigma fun _ : String ↦ String) : ParsedPartial :=
  if e.1 = "period" then { q with period := e.2 }
  else if isFlag e.1 then
    if e.1 = marginExceededField ∧ e.2 = "true" then { q with marginExceeded := true }
    else if e.1 = providerUIDField then { q with providerUID := e.2 }
    else q
  else match parseFloat e.2 with
    | some f => { q with spend := q.spend.insert e.1 f }
    | none => q

/-- Decode the value under a key; `none` is the error of the JSON decoder. -/
def parseBudgetPartial (raw : String) : Option ParsedPartial :=
  (Json.unmarshal raw).map fun flat ↦ flat.entries.foldl ParsedPartial.field {}

/-- The reconciler-owned accumulator, in the wire shape of a replica's partial. -/
def retiredPartial (period : String) (spend : GoMap String ℚ) (providerUID : String) :
    BudgetPartial :=
  { period := period, spend := spend.mapVal formatFixed, providerUID := providerUID }

/-- A DNS-1123 label, the form of every namespace name. -/
def isDNS1123Label (s : String) : Bool :=
  let alnum (c : Char) : Bool := ('a' ≤ c ∧ c ≤ 'z') ∨ ('0' ≤ c ∧ c ≤ '9')
  s.toList.length ≤ 63 ∧ s.toList.all (fun c ↦ alnum c || c == '-')
    ∧ s.toList.head?.any alnum ∧ s.toList.getLast?.any alnum

/-! ## Names -/

theorem isFlag_iff {k : String} : isFlag k ↔ k.toList.head? = some '_' := by
  rw [isFlag, hasPrefix, show "_".toList = ['_'] from rfl]
  cases k.toList with
  | nil => simp
  | cons c cs => simp [List.isPrefixOf, @eq_comm _ c]

/-- A namespace name is no flag. -/
theorem not_isFlag_of_isDNS1123Label {k : String} (h : isDNS1123Label k) : ¬ isFlag k := by
  rw [isFlag_iff]
  intro hhead
  rw [isDNS1123Label] at h
  simp only [hhead, Option.any_some, decide_eq_true_eq] at h
  exact absurd h.2.2.1 (by decide)

/-! ## Parsing -/

namespace ParsedPartial

variable (q : ParsedPartial) (k v : String)

theorem field_period :
    (q.field ⟨k, v⟩).period = if k = "period" then v else q.period := by
  rw [field]
  simp only
  split_ifs <;> first | rfl | cases parseFloat v <;> rfl

theorem field_marginExceeded :
    (q.field ⟨k, v⟩).marginExceeded
      = (q.marginExceeded || decide (k = marginExceededField ∧ v = "true")) := by
  rw [field]
  simp only
  split_ifs with h₁ h₂ h₃ h₄
  · have : k ≠ marginExceededField := by
      rw [h₁]
      decide
    simp [this]
  · simp [h₃]
  · have : ¬ (k = marginExceededField ∧ v = "true") := h₃
    simp [this]
  · simp [h₃]
  · have : k ≠ marginExceededField := by
      rintro rfl
      exact h₂ (by decide)
    cases parseFloat v <;> simp [this]

theorem field_providerUID :
    (q.field ⟨k, v⟩).providerUID = if k = providerUIDField then v else q.providerUID := by
  rw [field]
  simp only
  split_ifs with h₁ h₂ h₃ h₄ h₅ h₆ h₇
  all_goals try rfl
  · rw [h₁] at h₂
    exact absurd h₂ (by decide)
  · rw [h₄.1] at h₅
    exact absurd h₅ (by decide)
  · rw [h₇] at h₃
    exact absurd (by decide) h₃
  · cases parseFloat v <;> rfl

theorem lookup_field_spend (j : String) :
    (q.field ⟨k, v⟩).spend.lookup j =
      if j = k ∧ k ≠ "period" ∧ ¬ isFlag k then (parseFloat v).or (q.spend.lookup j)
      else q.spend.lookup j := by
  rw [field]
  simp only
  by_cases hperiod : k = "period"
  · rw [if_pos hperiod, if_neg (fun h ↦ h.2.1 hperiod)]
  rw [if_neg hperiod]
  by_cases hflag : isFlag k = true
  · have hnone : ¬ (j = k ∧ k ≠ "period" ∧ ¬ isFlag k) := fun h ↦ h.2.2 hflag
    rw [if_pos hflag, if_neg hnone]
    split_ifs <;> rfl
  rw [if_neg hflag]
  cases parseFloat v with
  | none => simp
  | some f =>
    simp only [AList.lookup_insert_ite]
    by_cases hj : j = k
    · rw [if_pos hj, if_pos ⟨hj, hperiod, hflag⟩, Option.some_or]
    · rw [if_neg hj, if_neg (fun h ↦ hj h.1)]

/-- What the loop returns for a decoded object, given by the object's lookups. -/
structure Reads (q : ParsedPartial) (flat : String → Option String) : Prop where
  period : q.period = (flat "period").getD ""
  marginExceeded : q.marginExceeded = decide (flat marginExceededField = some "true")
  providerUID : q.providerUID = (flat providerUIDField).getD ""
  spend : ∀ k, q.spend.lookup k
    = if k = "period" ∨ isFlag k then none else (flat k).bind parseFloat

section Loop

variable (l : List (Sigma fun _ : String ↦ String))

private theorem foldl_field_period (h : l.NodupKeys) (q : ParsedPartial) :
    (l.foldl field q).period = (l.dlookup "period").getD q.period := by
  induction l generalizing q with
  | nil => rfl
  | cons e l ih =>
    obtain ⟨k, v⟩ := e
    rw [List.nodupKeys_cons] at h
    rw [List.foldl_cons, ih h.2, field_period]
    by_cases hk : k = "period"
    · subst hk
      rw [List.dlookup_cons_eq, List.dlookup_eq_none.mpr h.1, if_pos rfl]
      rfl
    · rw [List.dlookup_cons_ne _ _ (Ne.symm hk), if_neg hk]

private theorem foldl_field_providerUID (h : l.NodupKeys) (q : ParsedPartial) :
    (l.foldl field q).providerUID = (l.dlookup providerUIDField).getD q.providerUID := by
  induction l generalizing q with
  | nil => rfl
  | cons e l ih =>
    obtain ⟨k, v⟩ := e
    rw [List.nodupKeys_cons] at h
    rw [List.foldl_cons, ih h.2, field_providerUID]
    by_cases hk : k = providerUIDField
    · subst hk
      rw [List.dlookup_cons_eq, List.dlookup_eq_none.mpr h.1, if_pos rfl]
      rfl
    · rw [List.dlookup_cons_ne _ _ (Ne.symm hk), if_neg hk]

private theorem foldl_field_marginExceeded (h : l.NodupKeys) (q : ParsedPartial) :
    (l.foldl field q).marginExceeded
      = (q.marginExceeded || decide (l.dlookup marginExceededField = some "true")) := by
  induction l generalizing q with
  | nil => simp
  | cons e l ih =>
    obtain ⟨k, v⟩ := e
    rw [List.nodupKeys_cons] at h
    rw [List.foldl_cons, ih h.2, field_marginExceeded, Bool.or_assoc]
    by_cases hk : k = marginExceededField
    · subst hk
      rw [List.dlookup_cons_eq, List.dlookup_eq_none.mpr h.1]
      simp
    · rw [List.dlookup_cons_ne _ _ (Ne.symm hk)]
      simp [hk]

private theorem lookup_foldl_field_spend (h : l.NodupKeys) (q : ParsedPartial) (j : String) :
    (l.foldl field q).spend.lookup j
      = if j = "period" ∨ isFlag j then q.spend.lookup j
        else ((l.dlookup j).bind parseFloat).or (q.spend.lookup j) := by
  induction l generalizing q with
  | nil => simp
  | cons e l ih =>
    obtain ⟨k, v⟩ := e
    rw [List.nodupKeys_cons] at h
    rw [List.foldl_cons, ih h.2, lookup_field_spend]
    by_cases hj : j = "period" ∨ isFlag j
    · have hskip : ¬ (j = k ∧ k ≠ "period" ∧ ¬ isFlag k) := by
        rintro ⟨rfl, hperiod, hflag⟩
        exact hj.elim hperiod hflag
      rw [if_pos hj, if_pos hj, if_neg hskip]
    · rw [if_neg hj, if_neg hj]
      by_cases hk : j = k
      · subst hk
        rw [List.dlookup_cons_eq, List.dlookup_eq_none.mpr h.1,
          if_pos ⟨rfl, fun h ↦ hj (Or.inl h), fun h ↦ hj (Or.inr h)⟩]
        rfl
      · rw [List.dlookup_cons_ne _ _ hk, if_neg (fun h ↦ hk h.1)]

end Loop

/-- The loop reads the decoded object, whatever order it visits it in. -/
theorem reads_foldl_field (flat : GoMap String String) :
    Reads (flat.entries.foldl field {}) fun k ↦ flat.lookup k where
  period := foldl_field_period flat.entries flat.nodupKeys _
  marginExceeded := by
    rw [foldl_field_marginExceeded flat.entries flat.nodupKeys]
    rfl
  providerUID := foldl_field_providerUID flat.entries flat.nodupKeys _
  spend := by
    intro k
    rw [lookup_foldl_field_spend flat.entries flat.nodupKeys, AList.lookup_empty, Option.or_none]
    rfl

end ParsedPartial

/-! ## Writing, then parsing -/

theorem lookup_foldl_insert_entries (m out : GoMap String String) (k : String) :
    (m.entries.foldl (fun out e ↦ out.insert e.1 e.2) out).lookup k
      = (m.lookup k).or (out.lookup k) :=
  AList.lookup_foldl_insert m.entries out m.nodupKeys k

/-- The flat object, given by its lookups. -/
theorem BudgetPartial.lookup_flat (p : BudgetPartial) (k : String) :
    p.flat.lookup k =
      if k = providerUIDField ∧ p.providerUID ≠ "" then some p.providerUID
      else if k = marginExceededField ∧ p.marginExceeded then some "true"
      else (p.spend.lookup k).or (if k = "period" then some p.period else none) := by
  have hbase : (p.spend.entries.foldl (fun out e ↦ out.insert e.1 e.2)
      ((∅ : GoMap String String).insert "period" p.period)).lookup k
      = (p.spend.lookup k).or (if k = "period" then some p.period else none) := by
    rw [lookup_foldl_insert_entries, AList.lookup_insert_ite, AList.lookup_empty]
  rw [flat]
  rw [AList.lookup_ite_insert, AList.lookup_ite_insert, hbase]

/-- **The codec**, for spend without flag names: everything comes back, except that an amount under
`period` replaces the period and is not read as spend. -/
theorem parseBudgetPartial_marshalJSON (p : BudgetPartial) (hflag : ∀ k ∈ p.spend, ¬ isFlag k) :
    ∃ q, parseBudgetPartial p.marshalJSON = some q
      ∧ q.period = (p.spend.lookup "period").getD p.period
      ∧ q.marginExceeded = p.marginExceeded ∧ q.providerUID = p.providerUID
      ∧ ∀ k, q.spend.lookup k
        = if k = "period" then none else (p.spend.lookup k).bind parseFloat := by
  obtain ⟨flat, hflat, hlookup⟩ := Json.unmarshal_marshal p.flat
  have hreads := ParsedPartial.reads_foldl_field flat
  simp only [hlookup, p.lookup_flat] at hreads
  have hnone : ∀ k, isFlag k → p.spend.lookup k = none := fun k hk ↦
    AList.lookup_eq_none.mpr fun hmem ↦ hflag k hmem hk
  refine ⟨_, by rw [parseBudgetPartial, BudgetPartial.marshalJSON, hflat, Option.map_some], ?_, ?_,
    ?_, fun k ↦ ?_⟩
  · rw [hreads.period, if_neg (by rintro ⟨h, -⟩; exact absurd h (by decide)),
      if_neg (by rintro ⟨h, -⟩; exact absurd h (by decide)), if_pos rfl]
    cases p.spend.lookup "period" <;> rfl
  · rw [hreads.marginExceeded, hnone _ (by decide),
      if_neg (by rintro ⟨h, -⟩; exact absurd h (by decide))]
    cases p.marginExceeded with
    | false => rfl
    | true => rfl
  · rw [hreads.providerUID, hnone _ (by decide)]
    by_cases huid : p.providerUID = ""
    · rw [if_neg (fun h ↦ h.2 huid), if_neg (by rintro ⟨h, -⟩; exact absurd h (by decide)),
        huid]
      rfl
    · rw [if_pos ⟨rfl, huid⟩]
      rfl
  · rw [hreads.spend]
    by_cases hperiod : k = "period"
    · rw [if_pos (Or.inl hperiod), if_pos hperiod]
    by_cases hk : isFlag k
    · rw [if_pos (Or.inr hk), if_neg hperiod, hnone k hk]
      rfl
    · have huid : ¬ (k = providerUIDField ∧ p.providerUID ≠ "") := by
        rintro ⟨rfl, -⟩
        exact hk (by decide)
      have hmargin : ¬ (k = marginExceededField ∧ p.marginExceeded) := by
        rintro ⟨rfl, -⟩
        exact hk (by decide)
      rw [if_neg (fun h ↦ h.elim hperiod hk), if_neg huid, if_neg hmargin, if_neg hperiod,
        if_neg hperiod, Option.or_none]

/-- Parsing what was written returns exactly what was written. -/
def BudgetPartial.RoundTrips (p : BudgetPartial) : Prop :=
  ∃ q, parseBudgetPartial p.marshalJSON = some q ∧ q.period = p.period
    ∧ q.marginExceeded = p.marginExceeded ∧ q.providerUID = p.providerUID
    ∧ ∀ k, q.spend.lookup k = (p.spend.lookup k).bind parseFloat

/-- **A partial survives the wire if and only if it has no namespace `period`**, for every period,
flag and UID and every map from namespace names to decimal amounts. -/
theorem roundTrips_iff (p : BudgetPartial) (hns : ∀ k ∈ p.spend, isDNS1123Label k)
    (hamount : ∀ e ∈ p.spend.entries, (parseFloat e.2).isSome) :
    p.RoundTrips ↔ "period" ∉ p.spend := by
  obtain ⟨q, hq, hperiod, hmargin, huid, hspend⟩ := parseBudgetPartial_marshalJSON p fun k hk ↦
    not_isFlag_of_isDNS1123Label (hns k hk)
  constructor
  · rintro ⟨q', hq', -, -, -, hexact⟩ hmem
    -- The amount of the namespace `period` is not read back.
    rw [hq, Option.some.injEq] at hq'
    subst hq'
    obtain ⟨v, hv⟩ := AList.exists_lookup_of_mem hmem
    have hlost := (hspend "period").symm.trans (hexact "period")
    rw [if_pos rfl, hv, Option.bind_some] at hlost
    have := hamount ⟨"period", v⟩ (AList.mem_lookup_iff.mp hv)
    rw [← hlost] at this
    exact absurd this (by simp)
  · intro hmem
    have hnone : p.spend.lookup "period" = none := AList.lookup_eq_none.mpr hmem
    refine ⟨q, hq, ?_, hmargin, huid, fun k ↦ ?_⟩
    · rw [hperiod, hnone, Option.getD_none]
    · rw [hspend]
      by_cases hk : k = "period"
      · rw [if_pos hk, hk, hnone, Option.bind_none]
      · rw [if_neg hk]

/-- A partial of two namespaces with a flag and a tag. -/
theorem roundTrips_of_two_namespaces :
    BudgetPartial.RoundTrips
      { period := "2026-03"
        spend := AList.ofEntries [⟨"team-a", "12.50"⟩, ⟨"team-b", "3"⟩]
        marginExceeded := true
        providerUID := "uid-1" } :=
  (roundTrips_iff _ (by decide +kernel) (by decide +kernel)).mpr (by decide +kernel)

/-- A tenant named `period` with 7 USD of spend: the partial of the whole replica reads as one of
the period `7.00`, which every fold skips. -/
theorem namespace_period_hijacks_period :
    isDNS1123Label "period"
      ∧ (parseBudgetPartial (BudgetPartial.marshalJSON
          { period := "2026-03"
            spend := AList.ofEntries [⟨"team-a", "12.50"⟩, ⟨"period", "7.00"⟩] })).map
          ParsedPartial.period = some "7.00"
      ∧ ¬ BudgetPartial.RoundTrips
          { period := "2026-03"
            spend := AList.ofEntries [⟨"team-a", "12.50"⟩, ⟨"period", "7.00"⟩] } := by
  have hread : (parseBudgetPartial (BudgetPartial.marshalJSON
      { period := "2026-03"
        spend := AList.ofEntries [⟨"team-a", "12.50"⟩, ⟨"period", "7.00"⟩] })).map
      ParsedPartial.period = some "7.00" := by
    decide +kernel
  refine ⟨by decide +kernel, hread, ?_⟩
  rintro ⟨q, hq, hperiod, -⟩
  rw [hq, Option.map_some, Option.some.injEq, hperiod] at hread
  exact absurd hread (by decide)

end Kaalm
