import Mathlib.Data.Option.Basic
import Mathlib.Data.List.Basic
import Mathlib.Tactic.Common

/-!
# Unwinding

When do two runs that differ only in hidden labels look the same? A step function with outputs,
`call : σ → ι → Option (σ × ω)`, and a set of hidden labels are given; `observe` runs a list of
labels and keeps the outputs of the visible ones.

An `Unwinding` is an equivalence of states under which a hidden label leads to an equivalent state,
and a visible label leads from equivalent states to equivalent states with the same output.
`Unwinding.observe_eq` is the resulting statement about whole runs: two runs whose visible labels
agree end in equivalent states and show the same outputs, whatever hidden labels each of them has
and wherever it has them.
-/

namespace Run

variable {σ ι ω : Type*}

/-- Run the labels, keeping the outputs of those that are not hidden. -/
def observe (call : σ → ι → Option (σ × ω)) (hidden : ι → Bool) :
    σ → List ι → Option (σ × List ω)
  | s, [] => some (s, [])
  | s, a :: as =>
    (call s a).bind fun r ↦
      (observe call hidden r.1 as).map fun q ↦ (q.1, if hidden a then q.2 else r.2 :: q.2)

/-- An equivalence of the states meeting `I` that hidden labels stay within and visible labels
respect. -/
structure Unwinding (call : σ → ι → Option (σ × ω)) (hidden : ι → Bool) (I : σ → Prop)
    (R : σ → σ → Prop) : Prop where
  symm : ∀ {s t}, R s t → R t s
  trans : ∀ {s t u}, R s t → R t u → R s u
  keeps : ∀ {s a t o}, I s → call s a = some (t, o) → I t
  respects : ∀ {s a t o}, I s → hidden a → call s a = some (t, o) → R s t
  consistent : ∀ {s s' a t t' o o'}, I s → I s' → R s s' → hidden a = false →
    call s a = some (t, o) → call s' a = some (t', o') → R t t' ∧ o = o'

variable {call : σ → ι → Option (σ × ω)} {hidden : ι → Bool} {I : σ → Prop} {R : σ → σ → Prop}

theorem observe_cons {s : σ} {a : ι} {as : List ι} {q : σ × List ω} :
    observe call hidden s (a :: as) = some q ↔ ∃ t o os, call s a = some (t, o)
      ∧ observe call hidden t as = some (q.1, os) ∧ q.2 = if hidden a then os else o :: os := by
  rw [observe, Option.bind_eq_some_iff]
  constructor
  · rintro ⟨⟨t, o⟩, hcall, h⟩
    obtain ⟨⟨u, os⟩, hobs, rfl⟩ := Option.map_eq_some_iff.mp h
    exact ⟨t, o, os, hcall, hobs, rfl⟩
  · rintro ⟨t, o, os, hcall, hobs, hq⟩
    refine ⟨(t, o), hcall, Option.map_eq_some_iff.mpr ⟨(q.1, os), hobs, ?_⟩⟩
    rw [← hq]

/-- An invariant of single steps holds after a run. -/
theorem observe_keeps (hkeeps : ∀ {s a t o}, I s → call s a = some (t, o) → I t) {s : σ}
    {as : List ι} {q : σ × List ω} (h : observe call hidden s as = some q) (hs : I s) : I q.1 := by
  induction as generalizing s q with
  | nil =>
    rw [observe, Option.some.injEq] at h
    rwa [← h]
  | cons a as ih =>
    obtain ⟨t, o, os, hcall, hobs, -⟩ := observe_cons.mp h
    have := ih hobs (hkeeps hs hcall)
    exact this

namespace Unwinding

/-- Hidden labels in front of a run change neither its outputs nor, up to `R`, its end. -/
private theorem observe_visible (hu : Unwinding call hidden I R) {a : ι} (ha : hidden a = false)
    {as : List ι} {s t : σ} {o : ω} (hI : I s) (hcall : call s a = some (t, o))
    (ih : ∀ {bs : List ι} {t' : σ} {q' : σ × List ω}, I t' → R t t' →
      as.filter (fun x ↦ !hidden x) = bs.filter (fun x ↦ !hidden x) →
      observe call hidden t' bs = some q' → ∀ {q : σ × List ω},
      observe call hidden t as = some q → R q.1 q'.1 ∧ q.2 = q'.2)
    {bs : List ι} {s' : σ} {q q' : σ × List ω} (hI' : I s') (hR : R s s')
    (hvis : (a :: as).filter (fun x ↦ !hidden x) = bs.filter (fun x ↦ !hidden x))
    (hobs : observe call hidden t as = some q) (hobs' : observe call hidden s' bs = some q') :
    R q.1 q'.1 ∧ o :: q.2 = q'.2 := by
  rw [List.filter_cons_of_pos (by simp [ha])] at hvis
  induction bs generalizing s' q' with
  | nil =>
    rw [List.filter_nil] at hvis
    cases hvis
  | cons b bs ihb =>
    obtain ⟨t', o', os', hcall', hrun', hq'⟩ := observe_cons.mp hobs'
    cases hb : hidden b with
    | true =>
      rw [List.filter_cons_of_neg (by simp [hb])] at hvis
      rw [hb, if_pos rfl] at hq'
      have := ihb (hu.keeps hI' hcall') (hu.trans hR (hu.respects hI' hb hcall')) hvis hrun'
      rwa [hq']
    | false =>
      rw [List.filter_cons_of_pos (by simp [hb])] at hvis
      obtain ⟨rfl, hrest⟩ := List.cons.inj hvis
      obtain ⟨hRt, rfl⟩ := hu.consistent hI hI' hR ha hcall hcall'
      obtain ⟨hRq, hos⟩ := ih (hu.keeps hI' hcall') hRt hrest hrun' hobs
      rw [hb, if_neg Bool.false_ne_true] at hq'
      exact ⟨hRq, by rw [hq', hos]⟩

/-- **Unwinding.** Runs whose visible labels agree show the same outputs and end in equivalent
states. -/
theorem observe_eq (hu : Unwinding call hidden I R) {as bs : List ι} {s s' : σ}
    {q q' : σ × List ω} (hI : I s) (hI' : I s') (hR : R s s')
    (hvis : as.filter (fun x ↦ !hidden x) = bs.filter (fun x ↦ !hidden x))
    (hobs : observe call hidden s as = some q) (hobs' : observe call hidden s' bs = some q') :
    R q.1 q'.1 ∧ q.2 = q'.2 := by
  induction as generalizing s s' bs q q' with
  | nil =>
    -- Every label of the other run is hidden.
    rw [observe, Option.some.injEq] at hobs
    subst hobs
    rw [List.filter_nil] at hvis
    induction bs generalizing s' q' with
    | nil =>
      rw [observe, Option.some.injEq] at hobs'
      subst hobs'
      exact ⟨hR, rfl⟩
    | cons b bs ih =>
      obtain ⟨t', o', os', hcall', hobs', hq'⟩ := observe_cons.mp hobs'
      cases hb : hidden b with
      | false =>
        rw [List.filter_cons_of_pos (by simp [hb])] at hvis
        cases hvis
      | true =>
        rw [List.filter_cons_of_neg (by simp [hb])] at hvis
        rw [hb, if_pos rfl] at hq'
        have := ih (hu.keeps hI' hcall') (hu.trans hR (hu.respects hI' hb hcall')) hvis hobs'
        rwa [hq']
  | cons a as ih =>
    obtain ⟨t, o, os, hcall, hobs, hq⟩ := observe_cons.mp hobs
    cases ha : hidden a with
    | true =>
      rw [List.filter_cons_of_neg (by simp [ha])] at hvis
      rw [ha, if_pos rfl] at hq
      have := ih (hu.keeps hI hcall) hI' (hu.trans (hu.symm (hu.respects hI ha hcall)) hR) hvis
        hobs hobs'
      rwa [hq]
    | false =>
      rw [ha, if_neg Bool.false_ne_true] at hq
      have := hu.observe_visible ha hI hcall
        (fun hI'' hR'' hvis'' hobs'' _ hobs''' ↦
          ih (hu.keeps hI hcall) hI'' hR'' hvis'' hobs''' hobs'')
        hI' hR hvis hobs hobs'
      rw [hq]
      exact this

end Unwinding

end Run
