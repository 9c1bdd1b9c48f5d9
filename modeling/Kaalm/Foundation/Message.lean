import Kaalm.Foundation.Ascii
import Mathlib.Data.Nat.Notation

/-!
# Messages of bounded length

What goes into conditions and events: lists of entries of which only the first ones are named, and
texts that are cut before a character.
-/

namespace Message

open Ascii

/-! ## Lists of entries -/

def maxListedEntries : ℕ := 10

/-- The entries of a message, each key once. -/
structure EntryList where
  seen : List String := []
  listed : List String := []
  more : ℕ := 0
  deriving DecidableEq

namespace EntryList

def add (l : EntryList) (key message : String) : EntryList :=
  if key ∈ l.seen then l
  else if l.listed.length < maxListedEntries then
    { l with seen := key :: l.seen, listed := l.listed ++ [message] }
  else { l with seen := key :: l.seen, more := l.more + 1 }

def messages (l : EntryList) (one : String) (many : ℕ → String) : List String :=
  if l.more = 1 then l.listed ++ [one]
  else if 1 < l.more then l.listed ++ [many l.more]
  else l.listed

/-- Only the first entry of an empty list is sure to be listed, and nothing is listed before it. -/
theorem listed_add_ne_nil (l : EntryList) (hseen : ∀ k ∈ l.seen, l.listed ≠ [])
    (key message : String) : (l.add key message).listed ≠ [] := by
  rw [add]
  split_ifs with hmem hroom
  · exact hseen key hmem
  · exact List.append_ne_nil_of_right_ne_nil _ (List.cons_ne_nil _ _)
  · intro hnil
    have hlength : l.listed.length = 0 := by
      show ({ l with seen := key :: l.seen, more := l.more + 1 } : EntryList).listed.length = 0
      rw [hnil]
      rfl
    exact hroom (hlength ▸ by decide)

end EntryList

/-! ## Cutting a text -/

def truncatedSuffix : List UInt8 := bytes "... (truncated)"

/-- `utf8.RuneStart`. -/
def runeStart (b : UInt8) : Bool := b &&& 0xC0 != 0x80

/-- The last start of a character at or before an index. -/
def lastRuneStart (s : List UInt8) : ℕ → ℕ
  | 0 => 0
  | cut + 1 => if runeStart (s.getD (cut + 1) 0) then cut + 1 else lastRuneStart s cut

/-- `eventrec.Truncate`. -/
def truncate (s : List UInt8) (max : ℕ) : List UInt8 :=
  if s.length ≤ max then s
  else s.take (lastRuneStart s (max - truncatedSuffix.length)) ++ truncatedSuffix

end Message
