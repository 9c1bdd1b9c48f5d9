import Mathlib.Data.Nat.Notation
import Mathlib.Data.List.Basic
import Mathlib.Data.String.Basic

/-!
# Bytes as text

What Go makes of bytes that are read as UTF-8: a byte that does not start a valid encoding reads as
U+FFFD, and reading goes on with the next byte. `decode_encode` is that nothing is lost for a text
that was encoded.

`trimSpace` and `cutPrefix` are the functions of Go's `bytes` package. White space is an encoding of
one of the characters of `unicode.IsSpace`; an encoding is never a proper part of another one, so a
leading or trailing character is the same as a leading or trailing encoding.
-/

namespace Utf8

def replacement : Char := '�'

/-- The character that the bytes start with, if it is encoded well. -/
def decodeChar (bs : List UInt8) : Option Char := (bs.take 4).toByteArray.utf8DecodeChar? 0

/-- `utf8.DecodeRune`, with the bytes that follow. -/
def decodeRune (bs : List UInt8) : Char × List UInt8 :=
  match decodeChar bs with
  | some c => (c, bs.drop (String.utf8EncodeChar c).length)
  | none => (replacement, bs.drop 1)

/-- Every character consumes a byte, so the number of bytes is fuel enough. -/
def decodeFrom : ℕ → List UInt8 → List Char
  | _, [] => []
  | 0, _ => []
  | fuel + 1, b :: bs => (decodeRune (b :: bs)).1 :: decodeFrom fuel (decodeRune (b :: bs)).2

def decode (bs : List UInt8) : List Char := decodeFrom bs.length bs

def encode (cs : List Char) : List UInt8 := cs.flatMap String.utf8EncodeChar

/-- The encodings of white space. -/
def spaces : List (List UInt8) :=
  [[0x09], [0x0a], [0x0b], [0x0c], [0x0d], [0x20], [0xc2, 0x85], [0xc2, 0xa0], [0xe1, 0x9a, 0x80],
    [0xe2, 0x80, 0x80], [0xe2, 0x80, 0x81], [0xe2, 0x80, 0x82], [0xe2, 0x80, 0x83],
    [0xe2, 0x80, 0x84], [0xe2, 0x80, 0x85], [0xe2, 0x80, 0x86], [0xe2, 0x80, 0x87],
    [0xe2, 0x80, 0x88], [0xe2, 0x80, 0x89], [0xe2, 0x80, 0x8a], [0xe2, 0x80, 0xa8],
    [0xe2, 0x80, 0xa9], [0xe2, 0x80, 0xaf], [0xe2, 0x81, 0x9f], [0xe3, 0x80, 0x80]]

def trimLeft : ℕ → List UInt8 → List UInt8
  | 0, bs => bs
  | fuel + 1, bs =>
    match spaces.find? fun s ↦ s.isPrefixOf bs with
    | some s => trimLeft fuel (bs.drop s.length)
    | none => bs

def trimRight : ℕ → List UInt8 → List UInt8
  | 0, bs => bs
  | fuel + 1, bs =>
    match spaces.find? fun s ↦ s.isSuffixOf bs with
    | some s => trimRight fuel (bs.take (bs.length - s.length))
    | none => bs

/-- `bytes.TrimSpace`. -/
def trimSpace (bs : List UInt8) : List UInt8 := trimRight bs.length (trimLeft bs.length bs)

/-- `bytes.CutPrefix`: what follows the prefix, if the bytes have it. -/
def cutPrefix (bs pre : List UInt8) : Option (List UInt8) :=
  if pre.isPrefixOf bs then some (bs.drop pre.length) else none

/-- A character is encoded by the ASCII byte that it is, or by bytes that are not ASCII. -/
theorem utf8EncodeChar_cases (c : Char) :
    (c.toNat < 0x80 ∧ String.utf8EncodeChar c = [UInt8.ofNat c.toNat])
      ∨ ∀ b ∈ String.utf8EncodeChar c, 0x80 ≤ b := by
  have hhigh : ∀ n : ℕ, 0x80 ≤ n → n < 0x100 → (0x80 : UInt8) ≤ UInt8.ofNat n := by
    intro n hn hlt
    rw [UInt8.le_iff_toNat_le, UInt8.toNat_ofNat', Nat.mod_eq_of_lt hlt]
    exact hn
  by_cases hascii : c.toNat < 0x80
  · exact Or.inl ⟨hascii, if_pos (Nat.le_of_lt_succ hascii)⟩
  · right
    simp only [String.utf8EncodeChar, if_neg (show ¬ c.val.toNat ≤ 127 from fun h ↦ hascii (by
      rw [Char.toNat]
      omega))]
    split_ifs <;>
    · intro b hb
      simp only [List.mem_cons, List.not_mem_nil, or_false] at hb
      rcases hb with rfl | rfl | rfl | rfl <;> exact hhigh _ (by omega) (by omega)

theorem decodeChar_encode (c : Char) (bs : List UInt8) :
    decodeChar (String.utf8EncodeChar c ++ bs) = some c := by
  have hlen : (String.utf8EncodeChar c).length ≤ 4 := by
    rw [String.length_utf8EncodeChar]
    exact c.utf8Size_le_four
  rw [decodeChar, List.take_append, List.take_of_length_le hlen, List.toByteArray_append]
  exact ByteArray.utf8DecodeChar?_utf8EncodeChar_append

theorem decodeRune_encode (c : Char) (bs : List UInt8) :
    decodeRune (String.utf8EncodeChar c ++ bs) = (c, bs) := by
  rw [decodeRune, decodeChar_encode]
  simp only [List.drop_left]

theorem decodeFrom_encode (cs : List Char) {fuel : ℕ} (hfuel : (encode cs).length ≤ fuel) :
    decodeFrom fuel (encode cs) = cs := by
  induction cs generalizing fuel with
  | nil => cases fuel <;> rfl
  | cons c cs ih =>
    have hpos : 0 < (String.utf8EncodeChar c).length := by
      rw [String.length_utf8EncodeChar]
      exact c.utf8Size_pos
    rw [encode, List.flatMap_cons, List.length_append] at hfuel
    rw [encode, List.flatMap_cons]
    cases fuel with
    | zero => omega
    | succ fuel =>
      have hread := decodeRune_encode c (encode cs)
      obtain ⟨b, bs, hcons⟩ := List.exists_cons_of_ne_nil (List.ne_nil_of_length_pos hpos)
      rw [hcons, List.cons_append] at hread ⊢
      rw [decodeFrom]
      rw [encode] at hread ih
      rw [hread, ih (by omega)]

theorem decode_encode (cs : List Char) : decode (encode cs) = cs :=
  decodeFrom_encode cs (Nat.le_refl _)

theorem encode_append (cs ds : List Char) : encode (cs ++ ds) = encode cs ++ encode ds :=
  List.flatMap_append

end Utf8
