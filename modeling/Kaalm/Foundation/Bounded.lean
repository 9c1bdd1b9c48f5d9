import Mathlib.Data.List.Basic

/-!
# Buffers with a limit

A buffer that gives up once it would hold more than its limit, and stays that way. Whether it has
given up, and what it holds, depends only on all the items together, not on the pieces in which they
were appended (`append_append`).
-/

namespace Bounded

variable {α : Type}

/-- Appends `xs`. `none` is a buffer that has given up. -/
def append (limit : ℕ) (buf : Option (List α)) (xs : List α) : Option (List α) :=
  buf.bind fun held ↦ if limit < held.length + xs.length then none else some (held ++ xs)

variable {limit : ℕ} {buf : Option (List α)} {xs ys : List α}

@[simp] theorem append_none : append limit none xs = none := rfl

theorem append_append : append limit (append limit buf xs) ys = append limit buf (xs ++ ys) := by
  cases buf with
  | none => rfl
  | some held =>
    simp only [append, Option.bind_some, List.length_append]
    by_cases hxs : limit < held.length + xs.length
    · rw [if_pos hxs, if_pos (by omega)]
      rfl
    · rw [if_neg hxs, Option.bind_some, List.length_append, List.append_assoc, Nat.add_assoc]

theorem append_nil_of_le {held : List α} (h : held.length ≤ limit) :
    append limit (some held) [] = some held := by
  rw [append, Option.bind_some, List.length_nil, if_neg (by omega), List.append_nil]

theorem append_nil_append : append limit (append limit buf xs) [] = append limit buf xs := by
  rw [append_append, List.append_nil]

end Bounded
