import Mathlib.Data.List.Basic
import Mathlib.Data.Nat.Notation
import Mathlib.Data.Option.Basic
import Mathlib.Tactic.Common

/-!
# Unpadded base64 with the URL alphabet

`base64.RawURLEncoding`. Three bytes are four digits of six bits; one or two bytes at the end are
two or three digits, the rest of whose bits is zero.

The decoder is lenient, as the source's is: it skips line breaks, and it ignores the bits of a last
digit that belong to no byte. Several texts therefore decode to the same bytes. `decode_encode` is
that encoded bytes are decoded to themselves.
-/

namespace Base64

/-- The digits, by value. -/
def alphabet : List UInt8 :=
  "ABCDEFGHIJKLMNOPQRSTUVWXYZabcdefghijklmnopqrstuvwxyz0123456789-_".toList.map fun c ↦
    UInt8.ofNat c.toNat

def digit (n : ℕ) : UInt8 := alphabet.getD n 0

def value (c : UInt8) : Option ℕ := alphabet.idxOf? c

/-- The values of six bits that bytes consist of. -/
def sextets : List UInt8 → List ℕ
  | [] => []
  | [a] => [a.toNat / 4, a.toNat % 4 * 16]
  | [a, b] => [a.toNat / 4, a.toNat % 4 * 16 + b.toNat / 16, b.toNat % 16 * 4]
  | a :: b :: c :: l =>
    a.toNat / 4 :: (a.toNat % 4 * 16 + b.toNat / 16) :: (b.toNat % 16 * 4 + c.toNat / 64)
      :: c.toNat % 64 :: sextets l

/-- The bytes that values of six bits make. A single one at the end makes none and is an error. -/
def bytes : List ℕ → Option (List UInt8)
  | [] => some []
  | [_] => none
  | [a, b] => some [UInt8.ofNat (a * 4 + b / 16)]
  | [a, b, c] => some [UInt8.ofNat (a * 4 + b / 16), UInt8.ofNat (b % 16 * 16 + c / 4)]
  | a :: b :: c :: d :: l =>
    (bytes l).map fun r ↦ UInt8.ofNat (a * 4 + b / 16) :: UInt8.ofNat (b % 16 * 16 + c / 4)
      :: UInt8.ofNat (c % 4 * 64 + d) :: r

/-- `EncodeToString`. -/
def encode (bs : List UInt8) : List UInt8 := (sextets bs).map digit

/-- `DecodeString`. Line breaks are skipped. -/
def decode (text : List UInt8) : Option (List UInt8) :=
  ((text.filter fun c ↦ c ≠ 0x0a ∧ c ≠ 0x0d).mapM value).bind bytes

theorem value_digit : ∀ n < 64, value (digit n) = some n := by decide +kernel

theorem digit_ne : ∀ n < 64, digit n ≠ 0x0a ∧ digit n ≠ 0x0d ∧ digit n ≠ 0x2e := by decide +kernel

theorem sextets_lt (bs : List UInt8) : ∀ n ∈ sextets bs, n < 64 := by
  induction bs using sextets.induct with
  | case1 => simp [sextets]
  | case2 a =>
    have := a.toNat_lt
    simp only [sextets, List.mem_cons, List.not_mem_nil, or_false]
    omega
  | case3 a b =>
    have := a.toNat_lt
    have := b.toNat_lt
    simp only [sextets, List.mem_cons, List.not_mem_nil, or_false]
    omega
  | case4 a b c l ih =>
    have := a.toNat_lt
    have := b.toNat_lt
    have := c.toNat_lt
    intro n hn
    simp only [sextets, List.mem_cons] at hn
    rcases hn with rfl | rfl | rfl | rfl | hn
    · omega
    · omega
    · omega
    · omega
    · exact ih n hn

theorem ofNat_eq {a : UInt8} {n : ℕ} (h : n = a.toNat) : UInt8.ofNat n = a := by
  rw [h, UInt8.ofNat_toNat]

theorem bytes_sextets (bs : List UInt8) : bytes (sextets bs) = some bs := by
  induction bs using sextets.induct with
  | case1 => rfl
  | case2 a =>
    have := a.toNat_lt
    rw [sextets, bytes, ofNat_eq (a := a) (by omega)]
  | case3 a b =>
    have := a.toNat_lt
    have := b.toNat_lt
    rw [sextets, bytes, ofNat_eq (a := a) (by omega), ofNat_eq (a := b) (by omega)]
  | case4 a b c l ih =>
    have := a.toNat_lt
    have := b.toNat_lt
    have := c.toNat_lt
    rw [sextets, bytes, ih, Option.map_some, ofNat_eq (a := a) (by omega),
      ofNat_eq (a := b) (by omega), ofNat_eq (a := c) (by omega)]

/-- Encoded bytes are decoded to themselves. -/
theorem decode_encode (bs : List UInt8) : decode (encode bs) = some bs := by
  have hlt := sextets_lt bs
  have hfilter : (encode bs).filter (fun c ↦ c ≠ 0x0a ∧ c ≠ 0x0d) = encode bs := by
    refine List.filter_eq_self.mpr fun c hc ↦ ?_
    obtain ⟨n, hn, rfl⟩ := List.mem_map.mp hc
    exact decide_eq_true ⟨(digit_ne n (hlt n hn)).1, (digit_ne n (hlt n hn)).2.1⟩
  have hvalues : ∀ l : List ℕ, (∀ n ∈ l, n < 64) → (l.map digit).mapM value = some l := by
    intro l
    induction l with
    | nil => exact fun _ ↦ rfl
    | cons n l ih =>
      intro hl
      rw [List.map_cons, List.mapM_cons, value_digit n (hl n List.mem_cons_self),
        ih fun m hm ↦ hl m (List.mem_cons_of_mem _ hm)]
      rfl
  rw [decode, hfilter, encode, hvalues _ hlt, Option.bind_some, bytes_sextets]

/-- An encoding holds no dot. -/
theorem dot_not_mem_encode (bs : List UInt8) : 0x2e ∉ encode bs := by
  intro h
  obtain ⟨n, hn, hdot⟩ := List.mem_map.mp h
  exact (digit_ne n (sextets_lt bs n hn)).2.2 hdot

end Base64
