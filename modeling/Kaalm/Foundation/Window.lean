import Kaalm.Foundation.GoMap
import Mathlib.Data.List.TakeDrop
import Mathlib.Order.Basic

/-!
# Windows over a log

A log grows at its end, and its elements have a key, for instance a time. What can be asked about is
the part of the log after a cutoff, which only moves forward: whether there is an element after the
cutoff, and which one is the newest. To answer, it is enough to keep some of the elements:
`Covers key cutoff kept log` says that every element after the cutoff is at most as new as one that
is kept. Old elements may be dropped, and when the newest one arrives, everything else may
(`Covers.append`). `latestAfter` then finds a newest element of the log (`latestAfter_spec`).

The last two parts are about loops of Go: a slice that is filtered in place, and loops over a map
that delete some keys or build another map.
-/

variable {α τ : Type*}

/-! ## Newest elements -/

namespace Window

section

variable [LinearOrder τ] (key : α → τ)

/-- The elements of a log after a cutoff. -/
def after (cutoff : τ) (log : List α) : List α := log.filter fun x ↦ cutoff < key x

/-- No element of `l` is newer than `x`, which is one of them. -/
structure Newest (l : List α) (x : α) : Prop where
  mem : x ∈ l
  le : ∀ y ∈ l, key y ≤ key x

/-- An element after the cutoff takes the place of an older one. -/
def newer (cutoff : τ) (last : Option α) (x : α) : Option α :=
  if cutoff < key x ∧ ∀ y ∈ last, key y < key x then some x else last

/-- The first of the newest elements after the cutoff. -/
def latestAfter (cutoff : τ) (l : List α) : Option α := l.foldl (newer key cutoff) none

/-- The elements that are kept tell what is the newest element after the cutoff. -/
structure Covers (cutoff : τ) (kept log : List α) : Prop where
  subset : ∀ x ∈ kept, x ∈ log
  covered : ∀ x ∈ log, cutoff < key x → ∃ y ∈ kept, key x ≤ key y

variable {key} {cutoff : τ} {kept log : List α}

theorem mem_after {x : α} : x ∈ after key cutoff log ↔ x ∈ log ∧ cutoff < key x := by
  rw [after, List.mem_filter, decide_eq_true_iff]

theorem after_eq_nil : after key cutoff log = [] ↔ ∀ x ∈ log, ¬cutoff < key x := by
  rw [after, List.filter_eq_nil_iff]
  simp only [decide_eq_true_eq]

theorem Covers.nil : Covers key cutoff ([] : List α) [] :=
  ⟨fun _ h ↦ absurd h List.not_mem_nil, fun _ h ↦ absurd h List.not_mem_nil⟩

/-- If what is kept is old, nothing needs to be kept. -/
theorem Covers.drop (h : Covers key cutoff kept log) (hold : after key cutoff kept = []) :
    Covers key cutoff [] log := by
  refine ⟨fun _ hx ↦ absurd hx List.not_mem_nil, fun x hx hlt ↦ ?_⟩
  obtain ⟨y, hy, hle⟩ := h.covered x hx hlt
  exact absurd (hlt.trans_le hle) (after_eq_nil.mp hold y hy)

theorem Covers.mono (h : Covers key cutoff kept log) {cutoff' : τ} (hle : cutoff ≤ cutoff') :
    Covers key cutoff' kept log :=
  ⟨h.subset, fun x hx hlt ↦ h.covered x hx (hle.trans_lt hlt)⟩

/-- Old elements may be dropped. -/
theorem Covers.filter (h : Covers key cutoff kept log) :
    Covers key cutoff (after key cutoff kept) log := by
  constructor
  · intro x hx
    exact h.subset x (mem_after.mp hx).1
  · intro x hx hlt
    obtain ⟨y, hy, hle⟩ := h.covered x hx hlt
    exact ⟨y, mem_after.mpr ⟨hy, hlt.trans_le hle⟩, hle⟩

/-- When the newest element arrives, any of the others may be dropped. -/
theorem Covers.append (h : Covers key cutoff kept log) {x : α} (hx : ∀ y ∈ log, key y ≤ key x)
    {kept' : List α} (hsub : kept' ⊆ kept) : Covers key cutoff (kept' ++ [x]) (log ++ [x]) := by
  constructor
  · intro y hy
    rcases List.mem_append.mp hy with hy | hy
    · exact List.mem_append_left _ (h.subset y (hsub hy))
    · exact List.mem_append_right _ hy
  · intro y hy _
    have hle : key y ≤ key x := by
      rcases List.mem_append.mp hy with hy | hy
      · exact hx y hy
      · rw [List.mem_singleton.mp hy]
    exact ⟨x, List.mem_append_right _ (List.mem_singleton_self x), hle⟩

/-- A slot for one element, which an element that is not older replaces. -/
theorem Covers.replace {slot : Option α} (h : Covers key cutoff slot.toList log) (x : α) :
    Covers key cutoff (if ∀ y ∈ slot, ¬key x < key y then some x else slot).toList
        (log ++ [x]) := by
  by_cases hnew : ∀ y ∈ slot, ¬key x < key y
  · rw [if_pos hnew]
    refine ⟨fun y hy ↦ List.mem_append_right _ hy, fun y hy hlt ↦ ?_⟩
    refine ⟨x, List.mem_singleton_self x, ?_⟩
    rcases List.mem_append.mp hy with hy | hy
    · obtain ⟨z, hz, hle⟩ := h.covered y hy hlt
      exact hle.trans (not_lt.mp (hnew z (Option.mem_toList.mp hz)))
    · rw [List.mem_singleton.mp hy]
  · rw [if_neg hnew]
    push Not at hnew
    obtain ⟨z, hz, hlt⟩ := hnew
    refine ⟨fun y hy ↦ List.mem_append_left _ (h.subset y hy), fun y hy hcut ↦ ?_⟩
    rcases List.mem_append.mp hy with hy | hy
    · exact h.covered y hy hcut
    · exact ⟨z, Option.mem_toList.mpr hz, (List.mem_singleton.mp hy) ▸ hlt.le⟩

/-- What the loop of `latestAfter` has found when it has seen `seen`. -/
def Found (key : α → τ) (cutoff : τ) (seen : List α) : Option α → Prop
  | none => after key cutoff seen = []
  | some x => Newest key (after key cutoff seen) x

theorem after_append_singleton (seen : List α) (x : α) :
    after key cutoff (seen ++ [x])
      = after key cutoff seen ++ if cutoff < key x then [x] else [] := by
  rw [after, after, List.filter_append]
  congr 1
  by_cases h : cutoff < key x
  · rw [if_pos h, List.filter_cons_of_pos (by simpa using h), List.filter_nil]
  · rw [if_neg h, List.filter_cons_of_neg (by simpa using h), List.filter_nil]

theorem Found.newer {seen : List α} {last : Option α} (h : Found key cutoff seen last) (x : α) :
    Found key cutoff (seen ++ [x]) (newer key cutoff last x) := by
  by_cases hcut : cutoff < key x
  · have hafter : after key cutoff (seen ++ [x]) = after key cutoff seen ++ [x] := by
      rw [after_append_singleton, if_pos hcut]
    rw [Window.newer]
    cases last with
    | none =>
      rw [if_pos ⟨hcut, fun y hy ↦ absurd hy (Option.not_mem_none y)⟩, Found, hafter]
      rw [Found] at h
      rw [h]
      exact ⟨List.mem_singleton_self x, fun y hy ↦ (List.mem_singleton.mp hy) ▸ le_rfl⟩
    | some z =>
      have hmem : ∀ y ∈ after key cutoff seen ++ [x], key y ≤ key z ∨ y = x := by
        intro y hy
        rcases List.mem_append.mp hy with hy | hy
        · exact Or.inl (h.le y hy)
        · exact Or.inr (List.mem_singleton.mp hy)
      by_cases hlt : key z < key x
      · rw [if_pos ⟨hcut, fun y hy ↦ (Option.mem_some.mp hy) ▸ hlt⟩, Found, hafter]
        refine ⟨List.mem_append_right _ (List.mem_singleton_self x), fun y hy ↦ ?_⟩
        rcases hmem y hy with hle | rfl
        · exact hle.trans hlt.le
        · exact le_rfl
      · rw [if_neg fun h ↦ hlt (h.2 z rfl), Found, hafter]
        refine ⟨List.mem_append_left _ h.mem, fun y hy ↦ ?_⟩
        rcases hmem y hy with hle | rfl
        · exact hle
        · exact not_lt.mp hlt
  · have hafter : after key cutoff (seen ++ [x]) = after key cutoff seen := by
      rw [after_append_singleton, if_neg hcut, List.append_nil]
    rw [Window.newer, if_neg fun h ↦ hcut h.1]
    cases last with
    | none => rwa [Found, hafter]
    | some z => rwa [Found, hafter]

theorem found_latestAfter (l : List α) : Found key cutoff l (latestAfter key cutoff l) := by
  have hloop : ∀ (l seen : List α) (last : Option α), Found key cutoff seen last →
      Found key cutoff (seen ++ l) (l.foldl (Window.newer key cutoff) last) := by
    intro l
    induction l with
    | nil => exact fun seen last h ↦ (List.append_nil seen).symm ▸ h
    | cons x l ih =>
      intro seen last h
      rw [List.append_cons]
      exact ih _ _ (h.newer x)
  exact hloop l [] none rfl

theorem latestAfter_toList (o : Option α) :
    latestAfter key cutoff o.toList = o.filter fun x ↦ cutoff < key x := by
  cases o with
  | none => rfl
  | some x =>
    rw [Option.toList_some, latestAfter, List.foldl_cons, List.foldl_nil, newer, Option.filter_some]
    simp

/-- What is kept answers for the log. -/
theorem Covers.found (h : Covers key cutoff kept log) :
    Found key cutoff log (latestAfter key cutoff kept) := by
  have hkept : Found key cutoff kept (latestAfter key cutoff kept) := found_latestAfter kept
  cases hlast : latestAfter key cutoff kept with
  | none =>
    rw [hlast] at hkept
    refine after_eq_nil.mpr fun x hx hlt ↦ ?_
    obtain ⟨y, hy, hle⟩ := h.covered x hx hlt
    exact after_eq_nil.mp hkept y hy (hlt.trans_le hle)
  | some z =>
    rw [hlast] at hkept
    obtain ⟨hz, hcut⟩ := mem_after.mp hkept.mem
    refine ⟨mem_after.mpr ⟨h.subset z hz, hcut⟩, fun x hx ↦ ?_⟩
    obtain ⟨hx, hlt⟩ := mem_after.mp hx
    obtain ⟨y, hy, hle⟩ := h.covered x hx hlt
    exact hle.trans (hkept.le y (mem_after.mpr ⟨hy, hlt.trans_le hle⟩))

end

/-! ## Filtering a slice in place -/

section

variable (p : α → Bool)

/-- One step of the loop `for _, o := range s { if p(o) { kept = append(kept, o) } }`, where `kept`
starts as `s[:0]`: the elements and the number of those that are kept. -/
def keepStep (s : List α × ℕ) (i : ℕ) : List α × ℕ :=
  match s.1[i]? with
  | some x => if p x then (s.1.set s.2 x, s.2 + 1) else s
  | none => s

def keepInPlace (l : List α) : List α :=
  let s := (List.range l.length).foldl (keepStep p) (l, 0)
  s.1.take s.2

variable {p}

/-- The elements that the loop has not reached are as they were. -/
theorem keepInPlace_eq_filter (l : List α) : keepInPlace p l = l.filter p := by
  have hloop : ∀ n ≤ l.length, ∃ buf j, (List.range n).foldl (keepStep p) (l, 0) = (buf, j) ∧ j ≤ n
      ∧ buf.take j = (l.take n).filter p ∧ buf.drop n = l.drop n := by
    intro n
    induction n with
    | zero => exact fun _ ↦ ⟨l, 0, rfl, le_rfl, rfl, rfl⟩
    | succ n ih =>
      intro hn
      obtain ⟨buf, j, hfold, hj, htake, hdrop⟩ := ih (Nat.le_of_succ_le hn)
      have hx : buf[n]? = some l[n] := by
        rw [← List.head?_drop, hdrop, List.head?_drop, List.getElem?_eq_getElem hn]
      have hnext : (l.take (n + 1)).filter p = buf.take j ++ if p l[n] then [l[n]] else [] := by
        rw [List.take_succ_eq_append_getElem hn, List.filter_append, htake, List.filter_singleton]
        cases p l[n] <;> rfl
      have hrest : buf.drop (n + 1) = l.drop (n + 1) := by
        rw [← List.drop_drop, ← List.drop_drop, hdrop]
      rw [List.range_succ, List.foldl_append, hfold, List.foldl_cons, List.foldl_nil, keepStep, hx]
      by_cases hp : p l[n]
      · have hlt : j < buf.length :=
          hj.trans_lt (List.getElem?_eq_some_iff.mp hx).1
        refine ⟨buf.set j l[n], j + 1, if_pos hp, Nat.succ_le_succ hj, ?_, ?_⟩
        · rw [hnext, if_pos hp, List.take_succ_eq_append_getElem (by rwa [List.length_set]),
            List.take_set_of_le le_rfl, List.getElem_set_self]
        · rw [List.drop_set_of_lt (Nat.lt_succ_of_le hj), hrest]
      · refine ⟨buf, j, if_neg hp, Nat.le_succ_of_le hj, ?_, hrest⟩
        rw [hnext, if_neg hp, List.append_nil]
  obtain ⟨buf, j, hfold, -, htake, -⟩ := hloop l.length le_rfl
  rw [keepInPlace, hfold, htake, List.take_length]

end

end Window

/-! ## Loops over a map -/

namespace AList

variable {K V W : Type*}

/-- The loop that deletes the entries that `p` does not hold of. -/
def keep (p : K → V → Bool) (m : GoMap K V) : GoMap K V where
  entries := m.entries.filter fun e ↦ p e.1 e.2
  nodupKeys := m.nodupKeys.sublist List.filter_sublist

variable [DecidableEq K]

theorem lookup_keep (p : K → V → Bool) (m : GoMap K V) (k : K) :
    (m.keep p).lookup k = (m.lookup k).filter (p k) := by
  ext v
  rw [Option.filter_eq_some_iff, ← Option.mem_def, ← Option.mem_def, mem_lookup_iff, mem_lookup_iff,
    keep, List.mem_filter]

/-- One round of a loop over a map that builds another one. What `f` gives for an entry is `none` if
the loop fails, and otherwise the value to store, if there is one. -/
def collectStep (f : K → V → Option (Option W)) (acc : GoMap K W) (e : Sigma fun _ : K ↦ V) :
    Option (GoMap K W) :=
  (f e.1 e.2).map fun w ↦ w.elim acc (acc.insert e.1)

def collect (f : K → V → Option (Option W)) (m : GoMap K V) : Option (GoMap K W) :=
  m.entries.foldlM (collectStep f) ∅

/-- A loop that fails at no entry builds a map with the values it stores. -/
theorem exists_collect {f : K → V → Option (Option W)} {m : GoMap K V}
    (hf : ∀ k v, m.lookup k = some v → (f k v).isSome) :
    ∃ r, m.collect f = some r ∧ ∀ k, r.lookup k = ((m.lookup k).bind (f k)).join := by
  have hloop : ∀ l : List (Sigma fun _ : K ↦ V), l.NodupKeys → (∀ e ∈ l, (f e.1 e.2).isSome) →
      ∀ acc : GoMap K W, ∃ r, l.foldlM (collectStep f) acc = some r
        ∧ ∀ k, r.lookup k = (((l.dlookup k).bind (f k)).join).or (acc.lookup k) := by
    intro l
    induction l with
    | nil => exact fun _ _ acc ↦ ⟨acc, rfl, fun k ↦ rfl⟩
    | cons e l ih =>
      intro hl hsome acc
      obtain ⟨hnew, hl⟩ := List.nodupKeys_cons.mp hl
      obtain ⟨w, hw⟩ := Option.isSome_iff_exists.mp (hsome e List.mem_cons_self)
      obtain ⟨r, hr, hlookup⟩ := ih hl (fun e' he' ↦ hsome e' (List.mem_cons_of_mem _ he'))
        (w.elim acc (acc.insert e.1))
      refine ⟨r, ?_, fun k ↦ ?_⟩
      · rw [List.foldlM_cons, collectStep, hw]
        exact hr
      · rw [hlookup k]
        by_cases hk : k = e.1
        · rw [hk, List.dlookup_eq_none.mpr hnew, List.dlookup_cons_eq, Option.bind_some, hw]
          cases w with
          | none => rfl
          | some w => exact lookup_insert acc
        · have hacc : (w.elim acc (acc.insert e.1)).lookup k = acc.lookup k := by
            cases w with
            | none => rfl
            | some w => exact lookup_insert_ne hk
          rw [hacc, List.dlookup_cons_ne l e hk]
  obtain ⟨r, hr, hlookup⟩ := hloop m.entries m.nodupKeys
    (fun e he ↦ hf e.1 e.2 (mem_lookup_iff.mpr he)) ∅
  refine ⟨r, hr, fun k ↦ ?_⟩
  rw [hlookup k, lookup_empty, Option.or_none]
  rfl

end AList
