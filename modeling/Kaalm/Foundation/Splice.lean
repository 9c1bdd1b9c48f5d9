import Mathlib.Data.List.Sort

/-!
# Editing a list at offsets

An edit puts a text in place of what stands between two offsets. `apply` makes several edits at
once: it sorts them by offset and copies what lies between them.

That offsets hit what they are meant for is best seen on the pieces of the list. `Piece` says of
each part what it was and what it becomes, `editsFrom` are the edits that this takes, and
`apply_of_perm` is that making them, in whatever order they were found, turns the old list into the
new one.
-/

namespace Splice

/-- `text` in place of what stands from `start` up to `stop`. -/
structure Edit (α : Type*) where
  start : ℕ
  stop : ℕ
  text : List α

variable {α : Type*}

/-- `l[start:stop]`, if that is in range. -/
def slice (l : List α) (start stop : ℕ) : Option (List α) :=
  if start ≤ stop ∧ stop ≤ l.length then some ((l.drop start).take (stop - start)) else none

/-- The edits are made one after the other; `pos` is how far the list has been copied. -/
def applyFrom (l : List α) : ℕ → List (Edit α) → Option (List α)
  | pos, [] => slice l pos l.length
  | pos, e :: es => (slice l pos e.start).bind fun kept ↦
    (applyFrom l e.stop es).map fun rest ↦ kept ++ (e.text ++ rest)

def apply (l : List α) (edits : List (Edit α)) : Option (List α) :=
  applyFrom l 0 (edits.insertionSort fun a b ↦ a.start ≤ b.start)

/-! ## Pieces -/

inductive Piece (α : Type*)
  | keep (text : List α)
  | replace (old new : List α)

def Piece.old : Piece α → List α
  | .keep text => text
  | .replace old _ => old

def Piece.new : Piece α → List α
  | .keep text => text
  | .replace _ new => new

@[simp] theorem Piece.old_keep (text : List α) : (Piece.keep text).old = text := rfl

@[simp] theorem Piece.old_replace (old new : List α) : (Piece.replace old new).old = old := rfl

@[simp] theorem Piece.new_keep (text : List α) : (Piece.keep text).new = text := rfl

@[simp] theorem Piece.new_replace (old new : List α) : (Piece.replace old new).new = new := rfl

/-- The edits that change the pieces, which start at `pos`. -/
def editsFrom : ℕ → List (Piece α) → List (Edit α)
  | _, [] => []
  | pos, .keep text :: ps => editsFrom (pos + text.length) ps
  | pos, .replace old new :: ps =>
    ⟨pos, pos + old.length, new⟩ :: editsFrom (pos + old.length) ps

theorem editsFrom_append (pos : ℕ) (ps qs : List (Piece α)) :
    editsFrom pos (ps ++ qs) = editsFrom pos ps
      ++ editsFrom (pos + (ps.flatMap Piece.old).length) qs := by
  induction ps generalizing pos with
  | nil => rfl
  | cons p ps ih =>
    rw [List.flatMap_cons, List.length_append, ← Nat.add_assoc]
    cases p with
    | keep text => exact ih _
    | replace old new => exact congrArg (_ :: ·) (ih _)

theorem slice_append (pre mid rest : List α) :
    slice (pre ++ (mid ++ rest)) pre.length (pre.length + mid.length) = some mid := by
  have hrange : pre.length ≤ pre.length + mid.length
      ∧ pre.length + mid.length ≤ (pre ++ (mid ++ rest)).length := by
    simp only [List.length_append]
    omega
  rw [slice, if_pos hrange, List.drop_left, Nat.add_sub_cancel_left, List.take_left]

/-- `pre` has been copied, and `mid` comes next and is kept. -/
theorem applyFrom_editsFrom (pre mid : List α) (ps : List (Piece α)) :
    applyFrom (pre ++ (mid ++ ps.flatMap Piece.old)) pre.length
      (editsFrom (pre.length + mid.length) ps)
      = some (mid ++ ps.flatMap Piece.new) := by
  induction ps generalizing pre mid with
  | nil =>
    have hslice := slice_append pre mid []
    rw [List.append_nil, ← List.length_append] at hslice
    simp only [List.flatMap_nil, List.append_nil]
    exact hslice
  | cons p ps ih =>
    simp only [List.flatMap_cons]
    cases p with
    | keep text =>
      have hnext := ih pre (mid ++ text)
      rw [List.length_append, ← Nat.add_assoc, List.append_assoc, List.append_assoc] at hnext
      exact hnext
    | replace old new =>
      have hnext := ih (pre ++ (mid ++ old)) []
      simp only [List.length_append, List.length_nil, Nat.add_zero, List.append_assoc,
        List.nil_append, ← Nat.add_assoc] at hnext
      simp only [Piece.old, Piece.new, editsFrom, applyFrom]
      rw [slice_append, Option.bind_some, hnext]
      rfl

/-- Edits that are found in another order are sorted into place. -/
theorem apply_of_perm {edits : List (Edit α)} {ps : List (Piece α)}
    (hperm : edits.Perm (editsFrom 0 ps))
    (hinc : (editsFrom 0 ps).Pairwise fun a b ↦ a.start < b.start) :
    apply (ps.flatMap Piece.old) edits = some (ps.flatMap Piece.new) := by
  have hsorted : edits.insertionSort (fun a b ↦ a.start ≤ b.start) = editsFrom 0 ps := by
    have : Std.Total fun a b : Edit α ↦ a.start ≤ b.start := ⟨fun a b ↦ Nat.le_total _ _⟩
    have : IsTrans (Edit α) fun a b ↦ a.start ≤ b.start := ⟨fun _ _ _ ↦ Nat.le_trans⟩
    have hperm' := (List.perm_insertionSort (fun a b ↦ a.start ≤ b.start) edits).trans hperm
    refine List.Perm.eq_of_pairwise (fun a b ha hb hab hba ↦ ?_)
      (List.pairwise_insertionSort _ edits)
      (hinc.imp Nat.le_of_lt) hperm'
    have hnodup : ((editsFrom 0 ps).map Edit.start).Nodup :=
      List.pairwise_map.mpr (hinc.imp Nat.ne_of_lt)
    exact List.inj_on_of_nodup_map hnodup (hperm'.mem_iff.mp ha) hb (Nat.le_antisymm hab hba)
  rw [apply, hsorted]
  exact applyFrom_editsFrom [] [] ps

theorem apply_nil (l : List α) : apply l [] = some l := by
  have hnone := applyFrom_editsFrom [] l []
  rw [List.flatMap_nil, List.append_nil, List.flatMap_nil, List.append_nil] at hnone
  exact hnone

/-- Where edits can be: each replaces something, so each starts before the pieces end. -/
theorem start_mem_editsFrom {pos : ℕ} {ps : List (Piece α)}
    (hold : ∀ old new, Piece.replace old new ∈ ps → old ≠ []) {e : Edit α}
    (he : e ∈ editsFrom pos ps) :
    pos ≤ e.start ∧ e.start < pos + (ps.flatMap Piece.old).length := by
  induction ps generalizing pos with
  | nil => cases he
  | cons p ps ih =>
    have hold' : ∀ old new, Piece.replace old new ∈ ps → old ≠ [] := fun old new h ↦
      hold old new (List.mem_cons_of_mem _ h)
    rw [List.flatMap_cons, List.length_append]
    cases p with
    | keep text =>
      have hrest := ih hold' he
      simp only [Piece.old]
      omega
    | replace old new =>
      have hpos := List.length_pos_iff.mpr (hold old new List.mem_cons_self)
      simp only [Piece.old]
      rcases List.mem_cons.mp he with rfl | he
      · show pos ≤ pos ∧ pos < pos + (old.length + _)
        omega
      · have hrest := ih hold' he
        omega

theorem pairwise_editsFrom (pos : ℕ) {ps : List (Piece α)}
    (hold : ∀ old new, Piece.replace old new ∈ ps → old ≠ []) :
    (editsFrom pos ps).Pairwise fun a b ↦ a.start < b.start := by
  induction ps generalizing pos with
  | nil => exact List.Pairwise.nil
  | cons p ps ih =>
    have hold' : ∀ old new, Piece.replace old new ∈ ps → old ≠ [] := fun old new h ↦
      hold old new (List.mem_cons_of_mem _ h)
    cases p with
    | keep text => exact ih _ hold'
    | replace old new =>
      have hpos := List.length_pos_iff.mpr (hold old new List.mem_cons_self)
      refine List.Pairwise.cons (fun e he ↦ ?_) (ih _ hold')
      have hstart := (start_mem_editsFrom hold' he).1
      show pos < e.start
      omega

end Splice
