import Mathlib.Data.List.Basic

/-!
# Texts with separators

A text that is put together from parts and separators can be taken apart again when the parts are
free of the separators: at the first separator if the part before it is (`append_cons_inj`), at the
last one if the part after it is (`append_cons_inj_last`). Between two texts it is enough that
neither first part goes on after the other one and a separator (`append_inj_of_not_prefix`).

`cut` is Go's `strings.Cut` for a separator of one byte.
-/

namespace Cut

variable {α : Type*}

/-- Texts cut at their first separator. -/
theorem append_cons_inj {p : α → Bool} {xs ys us vs : List α} {c d : α}
    (hx : ∀ a ∈ xs, p a = false) (hy : ∀ a ∈ ys, p a = false) (hc : p c) (hd : p d)
    (h : xs ++ c :: us = ys ++ d :: vs) : xs = ys ∧ c = d ∧ us = vs := by
  induction xs generalizing ys with
  | nil =>
    cases ys with
    | nil => exact ⟨rfl, List.cons.inj h⟩
    | cons y ys =>
      have hcy : c = y := (List.cons.inj h).1
      rw [hcy, hy y List.mem_cons_self] at hc
      exact nomatch hc
  | cons x xs ih =>
    cases ys with
    | nil =>
      have hxd : x = d := (List.cons.inj h).1
      rw [← hxd, hx x List.mem_cons_self] at hd
      exact nomatch hd
    | cons y ys =>
      obtain ⟨hxy, htail⟩ := List.cons.inj h
      obtain ⟨hxs, hcd, huv⟩ := ih (fun a ha ↦ hx a (List.mem_cons_of_mem _ ha))
        (fun a ha ↦ hy a (List.mem_cons_of_mem _ ha)) htail
      exact ⟨by rw [hxy, hxs], hcd, huv⟩

/-- Texts cut at their last separator. -/
theorem append_cons_inj_last [DecidableEq α] {xs ys us vs : List α} {c : α} (hu : c ∉ us)
    (hv : c ∉ vs) (h : xs ++ c :: us = ys ++ c :: vs) : xs = ys ∧ us = vs := by
  have hfree : ∀ l : List α, c ∉ l → ∀ a ∈ l.reverse, decide (a = c) = false := by
    intro l hl a ha
    rw [decide_eq_false_iff_not]
    rintro rfl
    exact hl (List.mem_reverse.mp ha)
  have hrev : us.reverse ++ c :: xs.reverse = vs.reverse ++ c :: ys.reverse := by
    simpa using congrArg List.reverse h
  obtain ⟨huv, -, hxy⟩ := append_cons_inj (hfree us hu) (hfree vs hv) (decide_eq_true rfl)
    (decide_eq_true rfl) hrev
  exact ⟨List.reverse_injective hxy, List.reverse_injective huv⟩

/-- Two texts that go on after a separator, where neither starts with the other one and a
separator. -/
theorem append_inj_of_not_prefix {sep : α} {xs ys us vs : List α}
    (hxy : ¬xs ++ [sep] <+: ys) (hyx : ¬ys ++ [sep] <+: xs)
    (h : xs ++ [sep] ++ us = ys ++ [sep] ++ vs) : xs = ys ∧ us = vs := by
  have hlength : xs.length = ys.length := by
    rcases Nat.lt_trichotomy xs.length ys.length with hlt | heq | hgt
    · have hprefix : ys <+: ys ++ [sep] ++ vs := ⟨[sep] ++ vs, (List.append_assoc _ _ _).symm⟩
      exact absurd
        (List.prefix_of_prefix_length_le ⟨us, h⟩ hprefix (by simpa using Nat.succ_le_of_lt hlt)) hxy
    · exact heq
    · have hprefix : xs <+: xs ++ [sep] ++ us := ⟨[sep] ++ us, (List.append_assoc _ _ _).symm⟩
      exact absurd (List.prefix_of_prefix_length_le ⟨vs, h.symm⟩ hprefix
        (by simpa using Nat.succ_le_of_lt hgt)) hyx
  obtain ⟨hpaths, hrest⟩ := List.append_inj h (by simp [hlength])
  exact ⟨(List.append_inj hpaths hlength).1, hrest⟩

/-- The text before the first separator and the text after it. -/
def cut [DecidableEq α] (c : α) : List α → Option (List α × List α)
  | [] => none
  | a :: l => if a = c then some ([], l) else (cut c l).map fun r ↦ (a :: r.1, r.2)

variable [DecidableEq α] {c : α}

theorem cut_append {xs us : List α} (hx : c ∉ xs) : cut c (xs ++ c :: us) = some (xs, us) := by
  induction xs with
  | nil => exact if_pos rfl
  | cons x xs ih =>
    rw [List.mem_cons, not_or] at hx
    rw [List.cons_append, cut, if_neg (Ne.symm hx.1), ih hx.2]
    rfl

theorem cut_eq_some {l xs us : List α} (h : cut c l = some (xs, us)) :
    l = xs ++ c :: us ∧ c ∉ xs := by
  induction l generalizing xs with
  | nil => exact nomatch h
  | cons a l ih =>
    rw [cut] at h
    split_ifs at h with ha
    · obtain ⟨rfl, rfl⟩ := Prod.mk.inj (Option.some_inj.mp h)
      exact ⟨by rw [ha]; rfl, List.not_mem_nil⟩
    · obtain ⟨⟨ys, vs⟩, hcut, hr⟩ := Option.map_eq_some_iff.mp h
      obtain ⟨rfl, rfl⟩ := Prod.mk.inj hr
      obtain ⟨rfl, hys⟩ := ih hcut
      refine ⟨rfl, ?_⟩
      rw [List.mem_cons, not_or]
      exact ⟨Ne.symm ha, hys⟩

end Cut
