import Mathlib.Algebra.Order.Floor.Ring
import Mathlib.Data.Rat.Floor
import Mathlib.Tactic.FieldSimp
import Mathlib.Tactic.IntervalCases
import Mathlib.Tactic.Linarith
import Mathlib.Tactic.Positivity
import Mathlib.Tactic.Ring

/-!
# Decimal texts of exact amounts

Amounts are exact rationals. `parseFloat` reads the decimal syntax of Go's `strconv.ParseFloat`
(an optional sign, digits with at most one point, an optional decimal exponent) and
`formatFixed` writes the text of `strconv.FormatFloat(v, 'f', 2, 64)`: the magnitude rounded to
two places, ties to even, behind a minus sign for a negative value. Hexadecimal texts, `Inf` and
`NaN` name no decimal amount and are not read, nor are digit separators, and the range of a
`float64` does not matter.

## What survives a round trip

Reading back a written amount gives `roundCents`, which is the identity exactly on the whole
numbers of cents. These are closed under addition, so a sum of amounts that were read from
two-place texts is written and read back unchanged.
-/

namespace Decimal

/-! ## Reading -/

/-- The decimal exponent after the mantissa; absent means `0`. -/
def exponent : List Char → Option ℤ
  | [] => some 0
  | c :: cs =>
    if c = 'e' ∨ c = 'E' then
      match cs with
      | '+' :: ds => digits ds
      | '-' :: ds => (digits ds).map fun n ↦ -n
      | ds => digits ds
    else none
where
  digits (ds : List Char) : Option ℤ :=
    if ds ≠ [] ∧ ds.all Char.isDigit then some (Nat.ofDigitChars 10 ds 0) else none

/-- A decimal without its sign. At least one digit stands before or after the point. -/
def unsigned (cs : List Char) : Option ℚ :=
  let whole := cs.takeWhile Char.isDigit
  let (frac, rest) := match cs.dropWhile Char.isDigit with
    | '.' :: ds => (ds.takeWhile Char.isDigit, ds.dropWhile Char.isDigit)
    | rest => ([], rest)
  if whole ++ frac = [] then none
  else (exponent rest).map fun e ↦
    (Nat.ofDigitChars 10 (whole ++ frac) 0 : ℚ) * 10 ^ (e - (frac.length : ℤ))

/-- `strconv.ParseFloat` on decimal syntax, in exact arithmetic; `none` is a syntax error. -/
def parseFloat (s : String) : Option ℚ :=
  match s.toList with
  | '+' :: cs => unsigned cs
  | '-' :: cs => (unsigned cs).map fun q ↦ -q
  | cs => unsigned cs

/-! ## Rounding to cents -/

/-- The nearest integer, ties to even. -/
def roundEven (x : ℚ) : ℤ :=
  if Int.fract x < 1 / 2 then ⌊x⌋
  else if 1 / 2 < Int.fract x then ⌊x⌋ + 1
  else if ⌊x⌋ % 2 = 0 then ⌊x⌋ else ⌊x⌋ + 1

/-- The cents `formatFixed` writes for the magnitude of an amount. -/
def centsOf (v : ℚ) : ℕ := (roundEven (|v| * 100)).toNat

/-- The amount `formatFixed` writes. -/
def roundCents (v : ℚ) : ℚ := if v < 0 then -(centsOf v / 100) else centsOf v / 100

/-- An amount with at most two fraction digits. -/
def IsCents (v : ℚ) : Prop := ∃ n : ℤ, v = n / 100

/-- `strconv.FormatFloat(v, 'f', 2, 64)`. -/
def formatFixed (v : ℚ) : String :=
  String.ofList ((if v < 0 then ['-'] else [])
    ++ Nat.toDigits 10 (centsOf v / 100)
    ++ '.' :: [Nat.digitChar (centsOf v % 100 / 10), Nat.digitChar (centsOf v % 10)])

theorem IsCents.add {v w : ℚ} (hv : IsCents v) (hw : IsCents w) : IsCents (v + w) := by
  obtain ⟨m, rfl⟩ := hv
  obtain ⟨n, rfl⟩ := hw
  exact ⟨m + n, by push_cast; ring⟩

theorem roundEven_intCast (n : ℤ) : roundEven n = n := by
  rw [roundEven, Int.fract_intCast, if_pos (by norm_num), Int.floor_intCast]

theorem floor_le_roundEven (x : ℚ) : ⌊x⌋ ≤ roundEven x := by
  rw [roundEven]
  split_ifs <;> omega

theorem roundEven_le_floor_add_one (x : ℚ) : roundEven x ≤ ⌊x⌋ + 1 := by
  rw [roundEven]
  split_ifs <;> omega

/-- Rounding is monotone. Across an integer the floors decide; inside one unit interval the
fractional parts do. -/
theorem roundEven_mono {x y : ℚ} (h : x ≤ y) : roundEven x ≤ roundEven y := by
  have hfloor : ⌊x⌋ ≤ ⌊y⌋ := Int.floor_mono h
  rcases hfloor.lt_or_eq with hlt | heq
  · calc roundEven x ≤ ⌊x⌋ + 1 := roundEven_le_floor_add_one x
      _ ≤ ⌊y⌋ := hlt
      _ ≤ roundEven y := floor_le_roundEven y
  · have hfract : Int.fract x ≤ Int.fract y := by
      rw [Int.fract, Int.fract, heq]
      linarith
    rw [roundEven, roundEven, heq]
    split_ifs <;> first | omega | (exfalso; linarith)

theorem centsOf_mono {v w : ℚ} (hv : 0 ≤ v) (h : v ≤ w) : centsOf v ≤ centsOf w := by
  rw [centsOf, centsOf, abs_of_nonneg hv, abs_of_nonneg (hv.trans h)]
  exact Int.toNat_le_toNat (roundEven_mono (by linarith))

theorem roundCents_mono {v w : ℚ} (hv : 0 ≤ v) (h : v ≤ w) : roundCents v ≤ roundCents w := by
  rw [roundCents, roundCents, if_neg (not_lt.mpr hv), if_neg (not_lt.mpr (hv.trans h))]
  have hc : (centsOf v : ℚ) ≤ centsOf w := by exact_mod_cast centsOf_mono hv h
  linarith

@[simp] theorem roundCents_zero : roundCents 0 = 0 := by
  have h : centsOf 0 = 0 := by
    rw [centsOf, abs_zero, zero_mul, ← Int.cast_zero, roundEven_intCast, Int.toNat_zero]
  rw [roundCents, if_neg (lt_irrefl 0), h, Nat.cast_zero, zero_div]

theorem isCents_roundCents (v : ℚ) : IsCents (roundCents v) := by
  rw [roundCents]
  split_ifs
  · exact ⟨-(centsOf v : ℤ), by push_cast; ring⟩
  · exact ⟨centsOf v, by push_cast; ring⟩

/-- Writing a whole number of cents loses nothing. -/
theorem roundCents_of_isCents {v : ℚ} (h : IsCents v) : roundCents v = v := by
  obtain ⟨n, rfl⟩ := h
  have habs : |(n : ℚ) / 100| * 100 = ((|n| : ℤ) : ℚ) := by
    rw [abs_div, Int.cast_abs, abs_of_pos (by norm_num : (0 : ℚ) < 100)]
    field_simp
  have hcents : (centsOf ((n : ℚ) / 100) : ℚ) = ((|n| : ℤ) : ℚ) := by
    rw [centsOf, habs, roundEven_intCast]
    exact_mod_cast Int.toNat_of_nonneg (abs_nonneg n)
  rw [roundCents, hcents]
  split_ifs with hneg
  · have hn : (n : ℚ) < 0 := by linarith
    rw [Int.cast_abs, abs_of_neg hn]
    ring
  · have hn : (0 : ℚ) ≤ n := by linarith
    rw [Int.cast_abs, abs_of_nonneg hn]

instance : DecidablePred IsCents := fun v ↦
  decidable_of_iff (roundCents v = v) ⟨fun h ↦ h ▸ isCents_roundCents v, roundCents_of_isCents⟩

/-! ## Writing, then reading -/

private theorem takeWhile_digits {ds : List Char} (rest : List Char) (hd : ∀ c ∈ ds, c.isDigit)
    (hrest : rest.head?.all fun c ↦ !c.isDigit) :
    (ds ++ rest).takeWhile Char.isDigit = ds ∧ (ds ++ rest).dropWhile Char.isDigit = rest := by
  induction ds with
  | nil =>
    cases rest with
    | nil => simp
    | cons c rest => simp_all
  | cons c ds ih =>
    have hc : c.isDigit = true := hd c List.mem_cons_self
    obtain ⟨ih₁, ih₂⟩ := ih fun c h ↦ hd c (List.mem_cons_of_mem _ h)
    rw [List.cons_append, List.takeWhile_cons_of_pos hc, List.dropWhile_cons_of_pos hc, ih₁, ih₂]
    exact ⟨rfl, rfl⟩

private theorem isDigit_digitChar {n : ℕ} (h : n < 10) : (Nat.digitChar n).isDigit = true := by
  interval_cases n <;> rfl

private theorem unsigned_fixed (n : ℕ) :
    unsigned (Nat.toDigits 10 (n / 100)
      ++ '.' :: [Nat.digitChar (n % 100 / 10), Nat.digitChar (n % 10)]) = some ((n : ℚ) / 100) := by
  have hwhole : ∀ c ∈ Nat.toDigits 10 (n / 100), c.isDigit := fun c hc ↦
    Nat.isDigit_of_mem_toDigits (by norm_num) le_rfl hc
  have h₁ : n % 100 / 10 < 10 := by omega
  have h₂ : n % 10 < 10 := by omega
  have hfrac : ∀ c ∈ [Nat.digitChar (n % 100 / 10), Nat.digitChar (n % 10)], c.isDigit := by
    intro c hc
    simp only [List.mem_cons, List.not_mem_nil, or_false] at hc
    rcases hc with rfl | rfl
    · exact isDigit_digitChar h₁
    · exact isDigit_digitChar h₂
  have hsplit := takeWhile_digits ('.' :: [Nat.digitChar (n % 100 / 10),
    Nat.digitChar (n % 10)]) hwhole (by rfl)
  have hsplit' := takeWhile_digits [] hfrac (by rfl)
  rw [List.append_nil] at hsplit'
  have hvalue : Nat.ofDigitChars 10 (Nat.toDigits 10 (n / 100)
      ++ [Nat.digitChar (n % 100 / 10), Nat.digitChar (n % 10)]) 0 = n := by
    rw [Nat.ofDigitChars_append, Nat.ofDigitChars_ten_toDigits,
      Nat.ofDigitChars_cons_digitChar_of_lt_ten h₁, Nat.ofDigitChars_cons_digitChar_of_lt_ten h₂,
      Nat.ofDigitChars_nil]
    omega
  rw [unsigned]
  simp only [hsplit.1, hsplit.2, hsplit'.1, hsplit'.2]
  rw [if_neg (by simp), hvalue]
  simp only [exponent, Option.map_some, List.length_cons, List.length_nil]
  norm_num
  rw [mul_one_div]

/-- Reading back a written amount gives the amount rounded to cents. -/
theorem parseFloat_formatFixed (v : ℚ) : parseFloat (formatFixed v) = some (roundCents v) := by
  rw [parseFloat, formatFixed, String.toList_ofList, roundCents]
  by_cases hneg : v < 0
  · rw [if_pos hneg, if_pos hneg, List.append_assoc, List.singleton_append]
    simp only [unsigned_fixed, Option.map_some]
  · rw [if_neg hneg, if_neg hneg, List.nil_append]
    -- The first character is a digit, so neither sign branch is taken.
    obtain ⟨c, cs, hcs⟩ : ∃ c cs, Nat.toDigits 10 (centsOf v / 100) = c :: cs :=
      List.exists_cons_of_ne_nil Nat.toDigits_ne_nil
    have hc : c.isDigit := by
      apply Nat.isDigit_of_mem_toDigits (b := 10) (by norm_num) le_rfl
      rw [hcs]
      exact List.mem_cons_self
    have hplus : c ≠ '+' := by rintro rfl; exact absurd hc (by decide)
    have hminus : c ≠ '-' := by rintro rfl; exact absurd hc (by decide)
    have h := unsigned_fixed (centsOf v)
    rw [hcs, List.cons_append] at h ⊢
    split
    · exact absurd (List.cons.inj ‹_›).1 hplus
    · exact absurd (List.cons.inj ‹_›).1 hminus
    · exact h

example : formatFixed (201 / 200) = "1.00" ∧ parseFloat "1.5e2" = some 150 := by
  constructor <;> decide +kernel

end Decimal
