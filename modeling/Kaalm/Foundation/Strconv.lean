import Kaalm.Foundation.Ascii
import Mathlib.Algebra.Group.Int.Defs
import Mathlib.Data.Int.Notation

/-!
# Numbers in texts

Go's `strconv.ParseInt` for decimal numbers of 64 bits, and `hex.DecodeString`.
-/

namespace Strconv

def digit (c : UInt8) : Option ℕ := if 0x30 ≤ c ∧ c ≤ 0x39 then some (c.toNat - 0x30) else none

/-- One digit or more. -/
def parseDigits (text : List UInt8) : Option ℕ :=
  if text = [] then none
  else text.foldlM (fun n c ↦ (digit c).map fun d ↦ 10 * n + d) 0

/-- A number with an optional sign, if it fits. -/
def parseInt : List UInt8 → Option ℤ
  | 0x2b :: text => inRange ((parseDigits text).map fun n ↦ n)
  | 0x2d :: text => inRange ((parseDigits text).map fun n ↦ -n)
  | text => inRange ((parseDigits text).map fun n ↦ n)
where
  inRange (n : Option ℤ) : Option ℤ := n.filter fun n ↦ -2 ^ 63 ≤ n ∧ n < 2 ^ 63

def hexDigit (c : UInt8) : Option UInt8 :=
  if 0x30 ≤ c ∧ c ≤ 0x39 then some (c - 0x30)
  else if 0x61 ≤ c ∧ c ≤ 0x66 then some (c - 0x61 + 10)
  else if 0x41 ≤ c ∧ c ≤ 0x46 then some (c - 0x41 + 10)
  else none

/-- Two digits for each byte. -/
def hexDecode : List UInt8 → Option (List UInt8)
  | [] => some []
  | [_] => none
  | c :: d :: text => do return (16 * (← hexDigit c) + (← hexDigit d)) :: (← hexDecode text)

example : parseInt (Ascii.bytes "-0042") = some (-42) := by decide +kernel
example : parseInt (Ascii.bytes "9223372036854775808") = none := by decide +kernel
example : hexDecode (Ascii.bytes "0aFf") = some [10, 255] := by decide +kernel

end Strconv
