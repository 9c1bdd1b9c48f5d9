import Kaalm.Foundation.GoMap

/-!
# Maps whose keys carry a prefix

One map kept inside another one: its keys are renamed, and a partial inverse of the renaming tells
which keys of the outer map belong to it. `g` is that inverse: `g k = some j` exactly when `k` is
the new name of `j`.
-/

namespace AList

variable {K V J : Type*} {f : J → K} {g : K → Option J}

theorem nodupKeys_map_key (hf : Function.Injective f) {l : List (Sigma fun _ : J ↦ V)}
    (h : l.NodupKeys) : (l.map fun e ↦ (⟨f e.1, e.2⟩ : Sigma fun _ : K ↦ V)).NodupKeys := by
  rw [List.NodupKeys, List.keys, List.map_map]
  have hkeys : l.map (Sigma.fst ∘ fun e ↦ (⟨f e.1, e.2⟩ : Sigma fun _ : K ↦ V)) = l.keys.map f := by
    rw [List.keys, List.map_map]
    rfl
  rw [hkeys]
  exact h.map hf

variable [DecidableEq K]

/-- Storing all entries of one map into another. -/
theorem lookup_storeAll (src dst : GoMap K V) (k : K) :
    (src.entries.foldl (fun m e ↦ m.insert e.1 e.2) dst).lookup k
      = (src.lookup k).or (dst.lookup k) :=
  lookup_foldl_insert src.entries dst src.nodupKeys k

theorem dlookup_map_key [DecidableEq J] (hf : Function.Injective f) (l : List (Sigma fun _ : J ↦ V))
    (j : J) :
    (l.map fun e ↦ (⟨f e.1, e.2⟩ : Sigma fun _ : K ↦ V)).dlookup (f j) = l.dlookup j := by
  induction l with
  | nil => rfl
  | cons e l ih =>
    obtain ⟨i, v⟩ := e
    rw [List.map_cons]
    by_cases h : j = i
    · subst h
      rw [List.dlookup_cons_eq, List.dlookup_cons_eq]
    · rw [List.dlookup_cons_ne _ _ (hf.ne h), List.dlookup_cons_ne _ _ h, ih]

theorem dlookup_map_key_of_forall_ne {k : K} (hk : ∀ j, k ≠ f j) (l : List (Sigma fun _ : J ↦ V)) :
    (l.map fun e ↦ (⟨f e.1, e.2⟩ : Sigma fun _ : K ↦ V)).dlookup k = none := by
  induction l with
  | nil => rfl
  | cons e l ih => rw [List.map_cons, List.dlookup_cons_ne _ _ (hk e.1), ih]

/-- The entries whose keys have the other form, under their names in that form. -/
def cutKeys (g : K → Option J) (l : List (Sigma fun _ : K ↦ V)) : List (Sigma fun _ : J ↦ V) :=
  l.filterMap fun e ↦ (g e.1).map fun j ↦ ⟨j, e.2⟩

theorem dlookup_cutKeys [DecidableEq J] (hg : ∀ k j, g k = some j ↔ k = f j)
    (l : List (Sigma fun _ : K ↦ V)) (j : J) :
    (cutKeys g l).dlookup j = l.dlookup (f j) := by
  induction l with
  | nil => rfl
  | cons e l ih =>
    obtain ⟨k, v⟩ := e
    cases hk : g k with
    | none =>
      have hne : f j ≠ k := fun heq ↦ by
        rw [(hg k j).mpr heq.symm] at hk
        cases hk
      rw [cutKeys, List.filterMap_cons_none (by rw [hk]; rfl), List.dlookup_cons_ne _ _ hne]
      exact ih
    | some i =>
      obtain rfl := (hg k i).mp hk
      rw [cutKeys, List.filterMap_cons_some (by rw [hk]; rfl)]
      by_cases h : j = i
      · subst h
        rw [List.dlookup_cons_eq, List.dlookup_cons_eq]
      · have hne : f j ≠ f i := fun heq ↦ h (Option.some.inj
          (((hg _ j).mpr rfl).symm.trans (heq ▸ hk)))
        rw [List.dlookup_cons_ne _ _ h, List.dlookup_cons_ne _ _ hne]
        exact ih

theorem nodupKeys_cutKeys [DecidableEq J] (hg : ∀ k j, g k = some j ↔ k = f j)
    {l : List (Sigma fun _ : K ↦ V)}
    (h : l.NodupKeys) : (cutKeys g l).NodupKeys := by
  induction l with
  | nil => exact List.nodupKeys_nil
  | cons e l ih =>
    obtain ⟨k, v⟩ := e
    rw [List.nodupKeys_cons] at h
    cases hk : g k with
    | none =>
      rw [cutKeys, List.filterMap_cons_none (by rw [hk]; rfl)]
      exact ih h.2
    | some i =>
      rw [cutKeys, List.filterMap_cons_some (by rw [hk]; rfl), List.nodupKeys_cons]
      refine ⟨?_, ih h.2⟩
      rw [← List.dlookup_eq_none]
      change (cutKeys g l).dlookup i = none
      rw [dlookup_cutKeys hg, List.dlookup_eq_none, ← (hg k i).mp hk]
      exact h.1

end AList
