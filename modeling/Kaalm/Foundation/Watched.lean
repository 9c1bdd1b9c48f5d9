import Mathlib.Data.List.GetD
import Mathlib.Data.Nat.Notation
import Mathlib.Tactic.Common

/-!
# Watched values

A value on a server that a client reads through a cache. The cache follows the versions of the value
in the order in which they were written, and may lag behind. A client that wants to overwrite the
version it has read says which one it was; the server refuses the write if there is a newer one.
-/

/-- A value, its earlier versions, and how many versions the cache lags behind. -/
structure Watched (α : Type) where
  current : α
  /-- The earlier versions, newest first. -/
  older : List α := []
  lag : ℕ := 0
  lag_le : lag ≤ older.length := by exact Nat.zero_le _
  deriving DecidableEq

namespace Watched

variable {α : Type} (w : Watched α)

def version : ℕ := w.older.length

/-- The version the cache shows. -/
def cachedVersion : ℕ := w.older.length - w.lag

/-- The value the cache shows. -/
def cached : α := (w.current :: w.older).get ⟨w.lag, Nat.lt_succ_of_le w.lag_le⟩

def write (a : α) : Watched α where
  current := a
  older := w.current :: w.older
  lag := w.lag + 1
  lag_le := Nat.succ_le_succ w.lag_le

/-- The cache sees one more version. -/
def deliver : Watched α where
  current := w.current
  older := w.older
  lag := w.lag - 1
  lag_le := Nat.le_trans (Nat.sub_le _ _) w.lag_le

theorem cachedVersion_le : w.cachedVersion ≤ w.version := Nat.sub_le _ _

/-- The value in a version. -/
def valueAt (v : ℕ) : α := (w.current :: w.older).getD (w.version - v) w.current

@[simp] theorem valueAt_version : w.valueAt w.version = w.current := by
  rw [valueAt, Nat.sub_self]
  rfl

/-- The cache shows the version it is at. -/
theorem cached_eq_valueAt : w.cached = w.valueAt w.cachedVersion := by
  have hle := w.lag_le
  have hlag : w.version - w.cachedVersion = w.lag := by
    rw [version, cachedVersion]
    omega
  have hlt : w.lag < (w.current :: w.older).length := Nat.lt_succ_of_le hle
  rw [valueAt, hlag, List.getD_eq_getElem _ _ hlt]
  rfl

/-- A cache that shows the newest version shows the current value. -/
theorem cached_of_version (h : w.cachedVersion = w.version) : w.cached = w.current := by
  rw [cached_eq_valueAt, h, valueAt_version]

end Watched
