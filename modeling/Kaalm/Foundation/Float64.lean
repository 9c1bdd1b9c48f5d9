import Kaalm.Foundation.Decimal
import Mathlib.Data.Int.Log

/-!
# Numbers as `float64`

What is left of a number that Go reads into a `float64`, and the number that it writes for one: the
one with the fewest digits that reads back as the same `float64`. Infinities do not occur in JSON,
and the sign of zero does not count. An operation rounds its exact result; there an infinity is a
number that is far out of range.
-/

namespace GoJson

namespace Float64

/-- The nearest `float64`, ties to even; `none` is out of range. A `float64` has 53 binary digits,
and none beyond the 1074th place after the point. -/
def round (x : ℚ) : Option ℚ :=
  if x = 0 then some 0
  else
    let unit : ℚ := 2 ^ max (Int.log 2 |x| - 52) (-1074)
    let a := Decimal.roundEven (|x| / unit) * unit
    if 2 ^ 1024 ≤ a then none else some (if x < 0 then -a else a)

/-- The search for the fewest digits, from `n` on, that read back as `a`. Of the two decimals next
to `a` with these digits, the closer one is taken if both do. Seventeen digits are always enough. -/
def shortestFrom (a : ℚ) : ℕ → ℕ → ℚ
  | 0, _ => a
  | fuel + 1, n =>
    let unit : ℚ := 10 ^ (Int.log 10 a - n + 1)
    let below := ⌊a / unit⌋ * unit
    let above := below + unit
    if round below = some a ∧ (round above ≠ some a ∨ a - below ≤ above - a) then below
    else if round above = some a then above
    else shortestFrom a fuel (n + 1)

/-- The number that is written for a `float64`. -/
def shortest (x : ℚ) : ℚ :=
  if x = 0 then 0 else if x < 0 then -shortestFrom (-x) 17 1 else shortestFrom x 17 1

/-- The nearest `float64` of a number in range. -/
def nearest (x : ℚ) : ℚ := (round x).getD 0

/-- A number that comes back as it was when it is read and written. -/
def Exact (x : ℚ) : Prop := shortest (nearest x) = x

/-- The integer that is left when a number is cut off. -/
def trunc (x : ℚ) : ℤ := if x < 0 then ⌈x⌉ else ⌊x⌋

/-- No operation with a number in range brings it back into range. -/
def infinity : ℚ := 2 ^ 4096

/-- The `float64` that an operation with this exact result gives. -/
def result (x : ℚ) : ℚ := (round x).getD (if x < 0 then -infinity else infinity)

def add (x y : ℚ) : ℚ := result (x + y)

def mul (x y : ℚ) : ℚ := result (x * y)

def div (x y : ℚ) : ℚ := result (x / y)

end Float64

end GoJson
