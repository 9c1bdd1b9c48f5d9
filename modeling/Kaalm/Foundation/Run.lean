import Mathlib.Data.Option.Basic
import Mathlib.Tactic.Common

/-!
# Runs of a step function

A system is a step function `exec : σ → ι → Option σ`: from a state and a label to the next state,
or `none` where the label is not enabled. A run is a list of labels executed one after another.

`AllSteps exec G s as` says that every step of the run `as` from `s` meets the condition `G`, read
in the state the step is taken in. The two induction rules below are the only inductions over runs:
an invariant that every step (meeting `G`) preserves holds at the end of every run (of such steps).
Since a prefix of a run is a run, "at the end of every run" is "in every state reached".
-/

namespace Run

variable {σ ι : Type*} {exec : σ → ι → Option σ}

/-- The run `as` from `s` is enabled step by step and ends in `s'`. -/
def Runs (exec : σ → ι → Option σ) (s : σ) (as : List ι) (s' : σ) : Prop :=
  as.foldlM exec s = some s'

instance [DecidableEq σ] (s : σ) (as : List ι) (s' : σ) : Decidable (Runs exec s as s') :=
  inferInstanceAs (Decidable (as.foldlM exec s = some s'))

/-- Every step of the run meets `G` in the state it is taken in. -/
def AllSteps (exec : σ → ι → Option σ) (G : σ → ι → Prop) : σ → List ι → Prop
  | _, [] => True
  | s, a :: as => G s a ∧ ∀ s', exec s a = some s' → AllSteps exec G s' as

instance decidableAllSteps {G : σ → ι → Prop} [∀ s a, Decidable (G s a)] :
    ∀ (s : σ) (as : List ι), Decidable (AllSteps exec G s as)
  | _, [] => isTrue trivial
  | s, a :: as =>
    match h : exec s a with
    | none =>
      decidable_of_iff (G s a) ⟨fun hG ↦ ⟨hG, fun _ h' ↦ by rw [h] at h'; cases h'⟩, And.left⟩
    | some s' =>
      have : Decidable (AllSteps exec G s' as) := decidableAllSteps s' as
      decidable_of_iff (G s a ∧ AllSteps exec G s' as)
        ⟨fun hG ↦ ⟨hG.1, fun _ h' ↦ by rw [h] at h'; cases h'; exact hG.2⟩,
          fun hG ↦ ⟨hG.1, hG.2 s' h⟩⟩

@[simp] theorem runs_nil {s s' : σ} : Runs exec s [] s' ↔ s' = s := by
  rw [Runs, List.foldlM_nil, Option.pure_def, Option.some.injEq, eq_comm]

theorem runs_cons {s s' : σ} {a : ι} {as : List ι} :
    Runs exec s (a :: as) s' ↔ ∃ s₁, exec s a = some s₁ ∧ Runs exec s₁ as s' := by
  rw [Runs, List.foldlM_cons, Option.bind_eq_bind, Option.bind_eq_some_iff]
  rfl

/-- A condition on the labels alone is one on the list of labels. -/
theorem allSteps_of_forall {P : ι → Prop} {s : σ} {as : List ι} (h : ∀ a ∈ as, P a) :
    AllSteps exec (fun _ a ↦ P a) s as := by
  induction as generalizing s with
  | nil => exact trivial
  | cons a as ih =>
    exact ⟨h a List.mem_cons_self, fun _ _ ↦ ih fun b hb ↦ h b (List.mem_cons_of_mem _ hb)⟩

/-- The invariant rule for runs whose steps all meet a condition. -/
theorem Runs.invariant_of_allSteps {G : σ → ι → Prop} {I : σ → Prop}
    (hstep : ∀ s a s', I s → G s a → exec s a = some s' → I s') {s s' : σ} {as : List ι}
    (hrun : Runs exec s as s') (hG : AllSteps exec G s as) (hinit : I s) : I s' := by
  induction as generalizing s with
  | nil =>
    rw [runs_nil] at hrun
    rwa [hrun]
  | cons a as ih =>
    obtain ⟨s₁, ha, hrun⟩ := runs_cons.mp hrun
    exact ih hrun (hG.2 s₁ ha) (hstep s a s₁ hinit hG.1 ha)

/-- The invariant rule. -/
theorem Runs.invariant {I : σ → Prop} (hstep : ∀ s a s', I s → exec s a = some s' → I s')
    {s s' : σ} {as : List ι} (hrun : Runs exec s as s') (hinit : I s) : I s' := by
  induction as generalizing s with
  | nil =>
    rw [runs_nil] at hrun
    rwa [hrun]
  | cons a as ih =>
    obtain ⟨s₁, ha, hrun⟩ := runs_cons.mp hrun
    exact ih hrun (hstep s a s₁ hinit ha)

end Run
