import Mathlib.Algebra.BigOperators.Group.Finset.Piecewise
import Mathlib.Algebra.Group.WithOne.Basic
import Mathlib.Data.List.AList
import Mathlib.Tactic.Abel

/-!
# Go maps

A Go map is modelled by mathlib's `AList`: a list of entries with distinct keys. The order of the
entries is the order in which a `range` loop visits them. Go leaves that order unspecified, so a
statement about every `GoMap` is a statement about every iteration order, and a loop over a map is
a plain left fold over its entries.

Two maps with the same lookups are the same Go map, whatever the order of their entries; results
are therefore stated through `lookup`, `get` and membership.

## Accumulating maps

`get` is Go's `m[k]` on a map of amounts (the zero value for an absent key), `bump` is
`m[k] += v`, and `addAll` is the loop that bumps one map by every entry of another.

`get` forgets whether a key is there. `amount` keeps it: it is the lookup read in `WithZero V`,
where an absent key is the neutral element and a present zero is not, and `addAll` is addition
there. Sums of amounts therefore determine a map completely, and `sum_entries` turns a loop over a
map into a sum over any finite set that has its keys.
-/

/-- A Go map from `K` to `V`, with the order a `range` loop visits it in. -/
abbrev GoMap (K V : Type*) := AList fun _ : K ↦ V

namespace AList

variable {K V W : Type*}

/-- Comparing entry lists, so that closed equations between maps evaluate. -/
instance [DecidableEq K] [DecidableEq V] : DecidableEq (GoMap K V) := fun m m' ↦
  decidable_of_iff (m.entries = m'.entries) AList.ext_iff.symm

/-! ## Rewriting values -/

/-- Rewrite every value, keeping keys and order. -/
def mapVal (f : V → W) (m : GoMap K V) : GoMap K W where
  entries := m.entries.map fun e ↦ ⟨e.1, f e.2⟩
  nodupKeys := by
    have h := m.nodupKeys
    rw [List.NodupKeys, List.keys] at h ⊢
    rwa [List.map_map]

@[simp] theorem mapVal_empty (f : V → W) : mapVal f (∅ : GoMap K V) = ∅ := rfl

theorem entries_mapVal (f : V → W) (m : GoMap K V) :
    (mapVal f m).entries = m.entries.map fun e ↦ ⟨e.1, f e.2⟩ := rfl

@[simp] theorem keys_mapVal (f : V → W) (m : GoMap K V) : (mapVal f m).keys = m.keys := by
  simp only [AList.keys, List.keys, entries_mapVal, List.map_map]
  rfl

@[simp] theorem mem_mapVal {f : V → W} {m : GoMap K V} {k : K} : k ∈ mapVal f m ↔ k ∈ m := by
  rw [mem_keys, mem_keys, keys_mapVal]

variable [DecidableEq K]

/-! ## Lookups -/

theorem mem_of_lookup {m : GoMap K V} {k : K} {v : V} (h : m.lookup k = some v) : k ∈ m := by
  rw [← lookup_isSome, h]
  rfl

theorem exists_lookup_of_mem {m : GoMap K V} {k : K} (h : k ∈ m) : ∃ v, m.lookup k = some v :=
  Option.isSome_iff_exists.mp (lookup_isSome.mpr h)

theorem lookup_insert_ite (m : GoMap K V) (k j : K) (v : V) :
    (m.insert k v).lookup j = if j = k then some v else m.lookup j := by
  by_cases h : j = k
  · rw [h, if_pos rfl]
    exact lookup_insert m
  · rw [if_neg h, lookup_insert_ne h]

/-- A guarded store. -/
theorem lookup_ite_insert (c : Prop) [Decidable c] (m : GoMap K V) (k j : K) (v : V) :
    (if c then m.insert k v else m).lookup j = if j = k ∧ c then some v else m.lookup j := by
  by_cases hc : c
  · simp only [hc, and_true]
    exact lookup_insert_ite m k j v
  · simp only [hc, and_false, if_false]

theorem lookup_erase_ite (m : GoMap K V) (k j : K) :
    (m.erase k).lookup j = if j = k then none else m.lookup j := by
  by_cases h : j = k
  · rw [h, if_pos rfl]
    exact lookup_erase _ m
  · rw [if_neg h, lookup_erase_ne h]

/-- The empty map is the one with no entries, which is Go's `len(m) == 0`. -/
theorem eq_empty_of_lookup {m : GoMap K V} (h : ∀ k, m.lookup k = none) : m = ∅ := by
  apply AList.ext
  rw [empty_entries, List.eq_nil_iff_forall_not_mem]
  rintro ⟨k, v⟩ hmem
  have : m.lookup k = some v := (mem_lookup_iff (s := m)).mpr hmem
  rw [h k] at this
  exact absurd this (by simp)

theorem lookup_empty_ne {k : K} {v : V} : (∅ : GoMap K V).lookup k ≠ some v := by
  rw [lookup_empty]
  exact nofun

/-! ## Folding over the entries -/

/-- Visiting the entries of `m` from last to first builds `m` again: the induction behind every
statement about a `range` loop. -/
theorem induction_entries {P : GoMap K V → Prop} (m : GoMap K V) (empty : P ∅)
    (insert : ∀ (k : K) (v : V) (m : GoMap K V), k ∉ m → P m → P (m.insert k v)) : P m := by
  induction m using AList.insertRec with
  | H0 => exact empty
  | IH k v m hk ih => exact insert k v m hk ih

/-- The map a loop builds by storing entry after entry; a later entry overwrites an earlier one. -/
def ofEntries (l : List (Sigma fun _ : K ↦ V)) : GoMap K V :=
  l.foldl (fun m e ↦ m.insert e.1 e.2) ∅

/-- Storing entry after entry into a map. -/
theorem lookup_foldl_insert (l : List (Sigma fun _ : K ↦ V)) (m : GoMap K V)
    (h : l.NodupKeys) (k : K) :
    (l.foldl (fun m e ↦ m.insert e.1 e.2) m).lookup k = (l.dlookup k).or (m.lookup k) := by
  induction l generalizing m with
  | nil => rfl
  | cons e l ih =>
    obtain ⟨j, v⟩ := e
    rw [List.nodupKeys_cons] at h
    rw [List.foldl_cons, ih _ h.2, lookup_insert_ite]
    by_cases hk : k = j
    · subst hk
      rw [if_pos rfl, List.dlookup_cons_eq, List.dlookup_eq_none.mpr h.1]
      rfl
    · rw [if_neg hk, List.dlookup_cons_ne _ _ hk]

theorem lookup_ofEntries {l : List (Sigma fun _ : K ↦ V)} (h : l.NodupKeys) (k : K) :
    (ofEntries l).lookup k = l.dlookup k := by
  rw [ofEntries, lookup_foldl_insert l ∅ h, lookup_empty, Option.or_none]

@[simp] theorem lookup_mapVal (f : V → W) (m : GoMap K V) (k : K) :
    (mapVal f m).lookup k = (m.lookup k).map f := by
  rw [AList.lookup, AList.lookup, entries_mapVal]
  generalize m.entries = l
  induction l with
  | nil => rfl
  | cons e l ih =>
    obtain ⟨j, v⟩ := e
    rw [List.map_cons]
    by_cases h : j = k
    · subst h
      rw [List.dlookup_cons_eq, List.dlookup_cons_eq]
      rfl
    · rw [List.dlookup_cons_ne _ _ (Ne.symm h), List.dlookup_cons_ne _ _ (Ne.symm h), ih]

/-! ## Amounts -/

section Amounts

variable [AddCommMonoid V]

/-- Go's `m[k]` on a map of amounts: the zero value for an absent key. -/
def get (m : GoMap K V) (k : K) : V := (m.lookup k).getD 0

/-- Go's `m[k] += v`. -/
def bump (m : GoMap K V) (k : K) (v : V) : GoMap K V := m.insert k (m.get k + v)

/-- The loop `for k, v := range src { dst[k] += v }`. -/
def addAll (dst src : GoMap K V) : GoMap K V :=
  src.entries.foldl (fun d e ↦ d.bump e.1 e.2) dst

/-- The loop `for _, v := range m { total += v }`. -/
def total (m : GoMap K V) : V := m.entries.foldl (fun t e ↦ t + e.2) 0

@[simp] theorem addAll_empty (m : GoMap K V) : m.addAll ∅ = m := rfl

@[simp] theorem get_empty (k : K) : get (∅ : GoMap K V) k = 0 := rfl

theorem get_of_lookup {m : GoMap K V} {k : K} {v : V} (h : m.lookup k = some v) :
    m.get k = v := by
  rw [get, h, Option.getD_some]

theorem get_of_not_mem {m : GoMap K V} {k : K} (h : k ∉ m) : m.get k = 0 := by
  rw [get, lookup_eq_none.mpr h, Option.getD_none]

theorem get_insert (m : GoMap K V) (k j : K) (v : V) :
    get (m.insert k v) j = if j = k then v else m.get j := by
  rw [get, lookup_insert_ite]
  by_cases h : j = k
  · rw [if_pos h, if_pos h, Option.getD_some]
  · rw [if_neg h, if_neg h, get]

theorem get_bump (m : GoMap K V) (k j : K) (v : V) :
    (m.bump k v).get j = m.get j + if j = k then v else 0 := by
  rw [bump, get_insert]
  by_cases h : j = k
  · rw [if_pos h, if_pos h, h]
  · rw [if_neg h, if_neg h, add_zero]

theorem mem_bump {m : GoMap K V} {k j : K} {v : V} : j ∈ m.bump k v ↔ j = k ∨ j ∈ m :=
  mem_insert m

/-! ## Amounts with presence -/

/-- The lookup of a key, added as amounts are. -/
def amount (m : GoMap K V) (k : K) : WithZero V := m.lookup k

omit [AddCommMonoid V] in
@[simp] theorem amount_empty (k : K) : amount (∅ : GoMap K V) k = 0 := rfl

/-- `get` is the amount, with the neutral element read as zero. -/
theorem get_eq_lift_amount (m : GoMap K V) (k : K) :
    m.get k = WithZero.lift (AddHom.id V) (m.amount k) := by
  rw [get, amount]
  cases m.lookup k <;> rfl

theorem get_eq_of_amount {m m' : GoMap K V} {k : K} (h : m.amount k = m'.amount k) :
    m.get k = m'.get k := by
  rw [get_eq_lift_amount, get_eq_lift_amount, h]

theorem get_eq_add_of_amount {m a b : GoMap K V} {k : K}
    (h : m.amount k = a.amount k + b.amount k) : m.get k = a.get k + b.get k := by
  rw [get_eq_lift_amount, get_eq_lift_amount, get_eq_lift_amount, h, map_add]

theorem amount_bump (m : GoMap K V) (k j : K) (v : V) :
    (m.bump k v).amount j = m.amount j + if j = k then (v : WithZero V) else 0 := by
  rw [amount, bump, lookup_insert_ite]
  by_cases h : j = k
  · subst h
    rw [if_pos rfl, if_pos rfl, amount, get]
    cases m.lookup j with
    | none =>
      rw [Option.getD_none, zero_add]
      exact (zero_add (v : WithZero V)).symm
    | some a => rfl
  · rw [if_neg h, if_neg h, add_zero]
    rfl

private theorem amount_foldl_bump (l : List (Sigma fun _ : K ↦ V)) (d : GoMap K V) (k : K) :
    (l.foldl (fun d e ↦ d.bump e.1 e.2) d).amount k
      = d.amount k + (l.map fun e ↦ if k = e.1 then (e.2 : WithZero V) else 0).sum := by
  induction l generalizing d with
  | nil => rw [List.foldl_nil, List.map_nil, List.sum_nil, add_zero]
  | cons e l ih => rw [List.foldl_cons, ih, amount_bump, List.map_cons, List.sum_cons, add_assoc]

end Amounts

/-! ## Sums over a map -/

/-- A sum over the entries of a map is a sum over the lookups of any set that has its keys. -/
theorem sum_entries {M : Type*} [AddCommMonoid M] (m : GoMap K V) {S : Finset K}
    (hS : ∀ k ∈ m, k ∈ S) (g : K → V → M) :
    (m.entries.map fun e ↦ g e.1 e.2).sum = ∑ k ∈ S, (m.lookup k).elim 0 (g k) := by
  induction m using induction_entries with
  | empty => simp
  | insert k v m hk ih =>
    have hkS : k ∈ S := hS k ((mem_insert m).mpr (Or.inl rfl))
    have hterm : ∀ j, ((m.insert k v).lookup j).elim 0 (g j)
        = (if j = k then g k v else 0) + (m.lookup j).elim 0 (g j) := by
      intro j
      rw [lookup_insert_ite]
      by_cases hj : j = k
      · subst hj
        rw [if_pos rfl, if_pos rfl, lookup_eq_none.mpr hk]
        exact (add_zero _).symm
      · rw [if_neg hj, if_neg hj, zero_add]
    have hm : ∀ j ∈ m, j ∈ S := fun j hj ↦ hS j ((mem_insert m).mpr (Or.inr hj))
    rw [entries_insert_of_notMem hk, List.map_cons, List.sum_cons, ih hm,
      Finset.sum_congr rfl fun j _ ↦ hterm j, Finset.sum_add_distrib, Finset.sum_ite_eq' S k,
      if_pos hkS]

/-- Storing a value replaces its summand. -/
theorem sum_entries_insert {M : Type*} [AddCommMonoid M] (m : GoMap K V) (k : K) (v : V)
    (g : V → M) :
    ((m.insert k v).entries.map fun e ↦ g e.2).sum + (m.lookup k).elim 0 g
      = (m.entries.map fun e ↦ g e.2).sum + g v := by
  have hkeys : ∀ j ∈ m, j ∈ (k :: m.keys).toFinset := fun j hj ↦
    List.mem_toFinset.mpr (List.mem_cons_of_mem _ hj)
  have hkeys' : ∀ j ∈ m.insert k v, j ∈ (k :: m.keys).toFinset := by
    intro j hj
    rw [List.mem_toFinset, List.mem_cons]
    exact (mem_insert m).mp hj
  have hk : k ∈ (k :: m.keys).toFinset := List.mem_toFinset.mpr List.mem_cons_self
  have hrest : ∑ j ∈ (k :: m.keys).toFinset.erase k, ((m.insert k v).lookup j).elim 0 g
      = ∑ j ∈ (k :: m.keys).toFinset.erase k, (m.lookup j).elim 0 g :=
    Finset.sum_congr rfl fun j hj ↦ by rw [lookup_insert_ne (Finset.ne_of_mem_erase hj)]
  rw [(m.insert k v).sum_entries hkeys' fun _ ↦ g, m.sum_entries hkeys fun _ ↦ g,
    ← Finset.add_sum_erase _ _ hk, ← Finset.add_sum_erase _ (fun j ↦ (m.lookup j).elim 0 g) hk,
    hrest, lookup_insert, Option.elim_some]
  abel

section Amounts

variable [AddCommMonoid V]

/-- Adding one map to another adds amounts and keys. -/
theorem amount_addAll (dst src : GoMap K V) (k : K) :
    (addAll dst src).amount k = dst.amount k + src.amount k := by
  have hsum : (src.entries.map fun e ↦ if k = e.1 then (e.2 : WithZero V) else 0).sum
      = src.amount k := by
    have hkeys : ∀ j ∈ src, j ∈ (k :: src.keys).toFinset := fun j hj ↦
      List.mem_toFinset.mpr (List.mem_cons_of_mem _ hj)
    rw [src.sum_entries hkeys (fun j v ↦ if k = j then (v : WithZero V) else 0),
      Finset.sum_eq_single_of_mem k (List.mem_toFinset.mpr List.mem_cons_self)]
    · rw [amount]
      cases src.lookup k with
      | none => rfl
      | some v => exact if_pos rfl
    · intro j _ hj
      cases src.lookup j with
      | none => rfl
      | some v => exact if_neg (Ne.symm hj)
  rw [addAll, amount_foldl_bump, hsum]

/-- A loop that adds up maps. -/
theorem amount_foldl_addAll {ι : Type*} (l : List ι) (f : ι → GoMap K V) (acc : GoMap K V) (k : K) :
    (l.foldl (fun acc i ↦ acc.addAll (f i)) acc).amount k
      = acc.amount k + (l.map fun i ↦ (f i).amount k).sum := by
  induction l generalizing acc with
  | nil => rw [List.foldl_nil, List.map_nil, List.sum_nil, add_zero]
  | cons i l ih => rw [List.foldl_cons, ih, amount_addAll, List.map_cons, List.sum_cons, add_assoc]

end Amounts

end AList
