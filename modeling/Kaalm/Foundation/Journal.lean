import Mathlib.Data.List.Basic

/-!
# Texts in files

A file is a list of bytes, and the text it holds is read in UTF-8: a byte that is not part of a
well-formed character reads as U+FFFD, as in Go.
-/

namespace Journal

def utf8 (cs : List Char) : List UInt8 := cs.flatMap String.utf8EncodeChar

/-- The characters of a file, after `skip` further bytes of the present one. -/
def runes : ℕ → List UInt8 → List Char
  | _, [] => []
  | skip + 1, _ :: bs => runes skip bs
  | 0, b :: bs =>
    match (b :: bs).toByteArray.utf8DecodeChar? 0 with
    | some c => c :: runes (c.utf8Size - 1) bs
    | none => '\ufffd' :: runes 0 bs

end Journal
