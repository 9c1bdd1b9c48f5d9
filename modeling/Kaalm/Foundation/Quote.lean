import Mathlib.Data.List.Basic
import Mathlib.Data.Nat.Notation
import Mathlib.Tactic.IntervalCases

/-!
# Quoted texts

Go's `strconv.Quote`. A text is put between quotes; a quote, a backslash and what cannot be printed
is written with a backslash. What counts as printable is a table of Go, which is left open here: the
facts below hold for any.

A character is written as itself, which is then no quote and no backslash, or as a backslash, the
character it stands before and digits (`Escaped`). A reader that skips what follows a backslash
therefore finds the closing quote.
-/

namespace Quote

def hexDigits : ℕ → ℕ → List Char
  | 0, _ => []
  | width + 1, n => hexDigits width (n / 16) ++ [Nat.digitChar (n % 16)]

/-- The letter after the backslash for a character that has one. -/
def letter (c : Char) : Option Char :=
  match c.toNat with
  | 0x07 => some 'a'
  | 0x08 => some 'b'
  | 0x0c => some 'f'
  | 0x0a => some 'n'
  | 0x0d => some 'r'
  | 0x09 => some 't'
  | 0x0b => some 'v'
  | _ => none

/-- A character by its number. -/
def numbered (c : Char) : List Char :=
  if c < ' ' ∨ c.toNat = 0x7f then '\\' :: 'x' :: hexDigits 2 c.toNat
  else if c.toNat < 0x10000 then '\\' :: 'u' :: hexDigits 4 c.toNat
  else '\\' :: 'U' :: hexDigits 8 c.toNat

variable (isPrint : Char → Bool)

def escaped (c : Char) : List Char :=
  if c = '"' ∨ c = '\\' then ['\\', c]
  else if isPrint c then [c]
  else
    match letter c with
    | some l => ['\\', l]
    | none => numbered c

def quote (text : List Char) : List Char := '"' :: text.flatMap (escaped isPrint) ++ ['"']

/-- What a character is written as. -/
inductive Escaped : List Char → Prop
  | plain (c : Char) (hquote : c ≠ '"') (hbackslash : c ≠ '\\') : Escaped [c]
  | special (c : Char) (cs : List Char) (h : ∀ d ∈ cs, d ≠ '"' ∧ d ≠ '\\') :
      Escaped ('\\' :: c :: cs)

theorem digitChar_ne {n : ℕ} (hn : n < 16) : Nat.digitChar n ≠ '"' ∧ Nat.digitChar n ≠ '\\' := by
  interval_cases n <;> decide

theorem hexDigits_ne (width n : ℕ) : ∀ d ∈ hexDigits width n, d ≠ '"' ∧ d ≠ '\\' := by
  induction width generalizing n with
  | zero => exact fun d hd ↦ absurd hd List.not_mem_nil
  | succ width ih =>
    intro d hd
    rcases List.mem_append.mp hd with hd | hd
    · exact ih (n / 16) d hd
    · rw [List.mem_singleton.mp hd]
      exact digitChar_ne (Nat.mod_lt n (by decide))

theorem escaped_numbered (c : Char) : Escaped (numbered c) := by
  rw [numbered]
  split_ifs
  · exact .special _ _ (hexDigits_ne _ _)
  · exact .special _ _ (hexDigits_ne _ _)
  · exact .special _ _ (hexDigits_ne _ _)

theorem escaped_escaped (c : Char) : Escaped (escaped isPrint c) := by
  have hnil : ∀ d ∈ ([] : List Char), d ≠ '"' ∧ d ≠ '\\' :=
    fun d hd ↦ absurd hd List.not_mem_nil
  rw [escaped]
  split_ifs with hspecial
  · exact .special c [] hnil
  · rw [not_or] at hspecial
    exact .plain c hspecial.1 hspecial.2
  · split
    · exact .special _ [] hnil
    · exact escaped_numbered c

end Quote
