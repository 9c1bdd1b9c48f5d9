import Kaalm.Foundation.Ascii
import Kaalm.Foundation.Utf8

/-!
# Shell patterns

`path.Match` of Go, on bytes as Go does: a star skips bytes, also inside a character, and only `?`
and character classes decode one. A pattern that is malformed matches nothing; Go reports an error
for it, which the callers here treat the same.
-/

namespace Glob

open Ascii

def slash : UInt8 := 0x2f

def question : UInt8 := 0x3f

def caret : UInt8 := 0x5e

def hyphen : UInt8 := 0x2d

/-- How far the chunk before the next star goes. A star inside a class belongs to it. -/
def scanChunk : Bool → List UInt8 → List UInt8 × List UInt8
  | _, [] => ([], [])
  | inRange, [c] => if c = star ∧ !inRange then ([], [c]) else ([c], [])
  | inRange, c :: d :: cs =>
    if c = backslash then
      let r := scanChunk inRange cs
      (c :: d :: r.1, r.2)
    else if c = star ∧ !inRange then ([], c :: d :: cs)
    else
      let r := scanChunk (if c = lbracket then true else if c = rbracket then false
        else inRange) (d :: cs)
      (c :: r.1, r.2)

/-- A possibly escaped character of a class, which must not end the pattern. -/
def getEsc (chunk : List UInt8) : Option (Char × List UInt8) :=
  match chunk with
  | [] => none
  | c :: cs =>
    if c = hyphen ∨ c = rbracket then none
    else
      let rest := if c = backslash then cs else c :: cs
      match Utf8.decodeChar rest with
      | none => none
      | some r =>
        let after := rest.drop (String.utf8EncodeChar r).length
        if after = [] then none else some (r, after)

/-- The ranges of a class up to its closing bracket: whether one has the character `r`, and the rest
of the chunk. Every range consumes a byte. -/
def matchRanges (r : Char) : ℕ → Bool → Bool → List UInt8 → Option (Bool × List UInt8)
  | 0, _, _, _ => none
  | fuel + 1, found, first, chunk =>
    if chunk.head? = some rbracket ∧ !first then some (found, chunk.tail)
    else
      match getEsc chunk with
      | none => none
      | some (lo, chunk) =>
        let hi := if chunk.head? = some hyphen then getEsc chunk.tail else some (lo, chunk)
        match hi with
        | none => none
        | some (hi, chunk) => matchRanges r fuel (found || (lo ≤ r ∧ r ≤ hi)) false chunk

/-- Whether a chunk without stars matches the start of `s`, with the rest of `s`. Go reads a failed
chunk on to its end to report a malformed pattern, which is no match either way. -/
def matchChunk : ℕ → List UInt8 → List UInt8 → Option (List UInt8)
  | _, [], s => some s
  | 0, _ :: _, _ => none
  | fuel + 1, c :: chunk, s =>
    match s with
    | [] => none
    | d :: s =>
      if c = lbracket then
        let rune := Utf8.decodeRune (d :: s)
        let negated : Bool := chunk.head? = some caret
        let ranges := if negated then chunk.tail else chunk
        match matchRanges rune.1 ranges.length false true ranges with
        | none => none
        | some (found, chunk) => if found = negated then none else matchChunk fuel chunk rune.2
      else if c = question then
        if d = slash then none else matchChunk fuel chunk (Utf8.decodeRune (d :: s)).2
      else if c = backslash then
        match chunk with
        | [] => none
        | e :: chunk => if e = d then matchChunk fuel chunk s else none
      else if c = d then matchChunk fuel chunk s
      else none

/-- The rests of `name` after the chunk, in the order in which a star tries them. It cannot skip a
slash. -/
def starMatches (chunk : List UInt8) : List UInt8 → List (List UInt8)
  | [] => (matchChunk chunk.length chunk []).toList
  | d :: name =>
    (matchChunk chunk.length chunk (d :: name)).toList
      ++ if d = slash then [] else starMatches chunk name

/-- `path.Match`. Every chunk consumes a byte of the pattern, or the star before it does. -/
def matchFrom : ℕ → List UInt8 → List UInt8 → Bool
  | _, [], name => name.isEmpty
  | 0, _ :: _, _ => false
  | fuel + 1, pattern, name =>
    let starred : Bool := pattern.head? = some star
    let (chunk, rest) := scanChunk false (pattern.dropWhile (· = star))
    if starred ∧ chunk = [] then !name.contains slash
    else
      let candidates := if starred then starMatches chunk name
        else (matchChunk chunk.length chunk name).toList
      -- The last chunk must use up the name; before that the first match counts.
      match candidates.find? fun t ↦ t.isEmpty ∨ !rest.isEmpty with
      | none => false
      | some t => matchFrom fuel rest t

def pathMatch (pattern name : String) : Bool :=
  matchFrom (bytes pattern).length (bytes pattern) (bytes name)

example : pathMatch "team-*" "team-a" = true ∧ pathMatch "team-*" "teams" = false
    ∧ pathMatch "*-[ab]?" "x-a1" = true ∧ pathMatch "[^a]*" "abc" = false
    ∧ pathMatch "*" "" = true ∧ pathMatch "[" "[" = false ∧ pathMatch "a*b*c" "aXbYbZc" = true := by
  decide +kernel

end Glob
