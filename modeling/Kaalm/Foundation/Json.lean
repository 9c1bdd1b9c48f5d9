import Kaalm.Foundation.GoMap
import Mathlib.Data.List.Sort
import Mathlib.Data.String.Basic
import Mathlib.Tactic.IntervalCases

/-!
# JSON objects of strings

The text side of Go's `json.Marshal` and `json.Unmarshal` at the type `map[string]string`.

Encoding sorts the keys and escapes every string the way `encoding/json` does by default: the
short escapes, `\u00xx` for the other control characters and for the three HTML characters, and
the two line separators. Decoding reads the whole JSON syntax that can succeed at this type, which
is an object of strings and nulls, or `null`: white space anywhere between tokens, every escape
with surrogate pairs, later members overwriting earlier ones of the same name, and `null` as the
zero value. Any other text is an error for Go as well, either of syntax or of type, so the
decoder answers `none` there without reading on.

The one result is `unmarshal_marshal`: decoding an encoded map gives that map, for every map
and every string in it.
-/

namespace Json

/-! ## Strings -/

/-- The double quote that delimits a string. -/
def quote : Char := '\x22'

/-- The letter of a one-letter escape, for the characters that have one. -/
def shortCode (c : Char) : Option Char :=
  if c = quote then some quote
  else if c = '\\' then some '\\'
  else if c = '\x08' then some 'b'
  else if c = '\x0c' then some 'f'
  else if c = '\n' then some 'n'
  else if c = '\r' then some 'r'
  else if c = '\t' then some 't'
  else none

/-- The characters written as `\u00xx`: the other control characters and the three that HTML
reads. -/
def isEscapedLow (c : Char) : Bool := c.toNat < 0x20 ∨ c = '<' ∨ c = '>' ∨ c = '&'

/-- One character of an encoded string. -/
def escape (c : Char) : List Char :=
  match shortCode c with
  | some e => ['\\', e]
  | none =>
    if isEscapedLow c then
      ['\\', 'u', '0', '0', Nat.digitChar (c.toNat / 16), Nat.digitChar (c.toNat % 16)]
    else if c = '\u2028' then ['\\', 'u', '2', '0', '2', '8']
    else if c = '\u2029' then ['\\', 'u', '2', '0', '2', '9']
    else [c]

/-- The value of a hexadecimal digit. -/
def hexVal (c : Char) : Option ℕ :=
  if '0' ≤ c ∧ c ≤ '9' then some (c.toNat - 48)
  else if 'a' ≤ c ∧ c ≤ 'f' then some (c.toNat - 87)
  else if 'A' ≤ c ∧ c ≤ 'F' then some (c.toNat - 55)
  else none

/-- The four hexadecimal digits of a `\u` escape. -/
def hex4 : List Char → Option (ℕ × List Char)
  | a :: b :: c :: d :: cs => do
    let a ← hexVal a
    let b ← hexVal b
    let c ← hexVal c
    let d ← hexVal d
    return (((a * 16 + b) * 16 + c) * 16 + d, cs)
  | _ => none

/-- The second half of a surrogate pair, when the text goes on with one. -/
def lowSurrogate : List Char → Option (ℕ × List Char)
  | c :: d :: cs =>
    if c = '\\' ∧ d = 'u' then
      (hex4 cs).filter fun u ↦ 0xDC00 ≤ u.1 ∧ u.1 < 0xE000
    else none
  | _ => none

/-- A `\u` escape. A surrogate that is not the first half of a pair reads as U+FFFD, and the text
after it is read on its own. -/
def unicodeEscape (cs : List Char) : Option (Char × List Char) := do
  let (u, cs) ← hex4 cs
  if u < 0xD800 ∨ 0xE000 ≤ u then
    return (Char.ofNat u, cs)
  else match lowSurrogate cs with
    | some (v, rest) =>
      if u < 0xDC00 then
        return (Char.ofNat (0x10000 + (u - 0xD800) * 0x400 + (v - 0xDC00)), rest)
      else return ('\ufffd', cs)
    | none => return ('\ufffd', cs)

/-- The character a one-letter escape stands for. -/
def shortEscape (c : Char) : Option Char :=
  if c = quote ∨ c = '\\' ∨ c = '/' then some c
  else if c = 'b' then some '\x08'
  else if c = 'f' then some '\x0c'
  else if c = 'n' then some '\n'
  else if c = 'r' then some '\r'
  else if c = 't' then some '\t'
  else none

/-- One character inside a string, escaped or plain. Control characters are not allowed bare. -/
def readChar (c : Char) (cs : List Char) : Option (Char × List Char) :=
  if c = '\\' then
    match cs with
    | [] => none
    | e :: cs => if e = 'u' then unicodeEscape cs else (shortEscape e).map fun d ↦ (d, cs)
  else if c.toNat < 0x20 then none
  else some (c, cs)

/-- The rest of a string after its opening quote, with the text after the closing one. Every
character read consumes at least one, so the length of the text is fuel enough. -/
def unquote : ℕ → List Char → Option (List Char × List Char)
  | _, [] => none
  | 0, _ => none
  | fuel + 1, c :: cs =>
    if c = quote then some ([], cs)
    else do
      let (d, cs) ← readChar c cs
      let (ds, rest) ← unquote fuel cs
      return (d :: ds, rest)

/-! ## Objects -/

def isSpace (c : Char) : Bool := c = ' ' ∨ c = '\t' ∨ c = '\r' ∨ c = '\n'

def skipSpace (cs : List Char) : List Char := cs.dropWhile isSpace

/-- The text after the token `c`, which may follow white space. -/
def expect (c : Char) (cs : List Char) : Option (List Char) :=
  match skipSpace cs with
  | d :: cs => if d = c then some cs else none
  | [] => none

def readString (cs : List Char) : Option (String × List Char) := do
  let cs ← expect quote cs
  let (s, rest) ← unquote cs.length cs
  return (String.ofList s, rest)

def readNull (cs : List Char) : Option (List Char) :=
  if (skipSpace cs).take 4 = ['n', 'u', 'l', 'l'] then some ((skipSpace cs).drop 4) else none

/-- A member value at type `string`: a string, or `null` for the zero value. -/
def readValue (cs : List Char) : Option (String × List Char) :=
  match readString cs with
  | some r => some r
  | none => (readNull cs).map fun rest ↦ ("", rest)

/-- The members up to the closing brace. -/
def readMembers : ℕ → GoMap String String → List Char → Option (GoMap String String × List Char)
  | 0, _, _ => none
  | fuel + 1, m, cs => do
    let (k, cs) ← readString cs
    let cs ← expect ':' cs
    let (v, cs) ← readValue cs
    match expect ',' cs with
    | some cs => readMembers fuel (m.insert k v) cs
    | none => (expect '\x7d' cs).map fun rest ↦ (m.insert k v, rest)

def readObject (cs : List Char) : Option (GoMap String String × List Char) := do
  let cs ← expect '\x7b' cs
  match expect '\x7d' cs with
  | some rest => some (∅, rest)
  | none => readMembers cs.length ∅ cs

/-- `json.Unmarshal` into a `map[string]string`; `none` is an error. -/
def unmarshal (s : String) : Option (GoMap String String) := do
  let (m, rest) ← match readObject s.toList with
    | some r => some r
    | none => (readNull s.toList).map fun rest ↦ (∅, rest)
  if skipSpace rest = [] then some m else none

def quoted (s : String) : List Char := quote :: (s.toList.flatMap escape ++ [quote])

/-- The members of an encoded object, with the closing brace. -/
def members : List (Sigma fun _ : String ↦ String) → List Char
  | [] => ['\x7d']
  | [e] => quoted e.1 ++ ':' :: (quoted e.2 ++ ['\x7d'])
  | e :: f :: es => quoted e.1 ++ ':' :: (quoted e.2 ++ ',' :: members (f :: es))

/-- `json.Marshal` of a `map[string]string`: the members in key order. -/
def marshal (m : GoMap String String) : String :=
  String.ofList ('\x7b' :: members (m.entries.insertionSort fun a b ↦ a.1 ≤ b.1))

/-! ## Decoding what was encoded -/

theorem hexVal_digitChar {n : ℕ} (h : n < 16) : hexVal (Nat.digitChar n) = some n := by
  interval_cases n <;> rfl

private theorem hex4_low {n : ℕ} (h : n < 256) (rest : List Char) :
    hex4 ('0' :: '0' :: Nat.digitChar (n / 16) :: Nat.digitChar (n % 16) :: rest)
      = some (n, rest) := by
  have hz : hexVal '0' = some 0 := rfl
  rw [hex4, hz, hexVal_digitChar (by omega : n / 16 < 16),
    hexVal_digitChar (by omega : n % 16 < 16)]
  simp only [Option.bind_eq_bind, Option.bind_some, Option.pure_def, Option.some.injEq,
    Prod.mk.injEq, and_true]
  omega

private theorem unicodeEscape_of_hex4 {cs rest : List Char} {c : Char}
    (h : hex4 cs = some (c.toNat, rest)) : unicodeEscape cs = some (c, rest) := by
  have hvalid : c.toNat < 0xD800 ∨ 0xE000 ≤ c.toNat := by
    have hc := c.valid
    rw [UInt32.isValidChar, Nat.isValidChar] at hc
    rw [Char.toNat]
    omega
  simp only [unicodeEscape, h, Option.bind_eq_bind, Option.bind_some, if_pos hvalid,
    Char.ofNat_toNat, Option.pure_def]

/-- A one-letter escape reads back as the character it was written for. -/
theorem shortEscape_shortCode {c e : Char} (h : shortCode c = some e) :
    e ≠ 'u' ∧ shortEscape e = some c := by
  rw [shortCode] at h
  split at h
  · cases h; subst c; decide
  split at h
  · cases h; subst c; decide
  split at h
  · cases h; subst c; decide
  split at h
  · cases h; subst c; decide
  split at h
  · cases h; subst c; decide
  split at h
  · cases h; subst c; decide
  split at h
  · cases h; subst c; decide
  · cases h

theorem ne_of_shortCode_eq_none {c : Char} (h : shortCode c = none) :
    c ≠ quote ∧ c ≠ '\\' := by
  constructor
  · rintro rfl
    exact absurd h (by decide)
  · rintro rfl
    exact absurd h (by decide)

/-- An encoded character never starts with the closing quote, and reads back as itself. -/
theorem readChar_escape (c : Char) (rest : List Char) :
    ∃ d cs, escape c ++ rest = d :: cs ∧ d ≠ quote ∧ readChar d cs = some (c, rest) := by
  have hslash : '\\' ≠ quote := by decide
  rw [escape]
  cases hshort : shortCode c with
  | some e =>
    obtain ⟨hu, he⟩ := shortEscape_shortCode hshort
    refine ⟨'\\', e :: rest, rfl, hslash, ?_⟩
    simp only [readChar, if_true, if_neg hu, he, Option.map_some]
  | none =>
    obtain ⟨hquote, hback⟩ := ne_of_shortCode_eq_none hshort
    by_cases hlow : isEscapedLow c = true
    · have hlt : c.toNat < 256 := by
        rcases of_decide_eq_true hlow with h | rfl | rfl | rfl
        · omega
        all_goals decide
      refine ⟨_, _, by rw [if_pos hlow]; rfl, hslash, ?_⟩
      exact unicodeEscape_of_hex4 (hex4_low hlt rest)
    · rw [if_neg hlow]
      by_cases h₁ : c = '\u2028'
      · exact ⟨_, _, by rw [if_pos h₁]; rfl, hslash, by rw [h₁]; rfl⟩
      by_cases h₂ : c = '\u2029'
      · exact ⟨_, _, by rw [if_neg h₁, if_pos h₂]; rfl, hslash, by rw [h₂]; rfl⟩
      have hctl : ¬ c.toNat < 0x20 := fun h ↦ hlow (decide_eq_true (Or.inl h))
      refine ⟨c, rest, by rw [if_neg h₁, if_neg h₂]; rfl, hquote, ?_⟩
      simp only [readChar, if_neg hback, if_neg hctl]

section Unquote

variable {α : Type*} {enc : α → List Char} {dec : α → Char}
  (henc : ∀ a rest, ∃ d cs, enc a ++ rest = d :: cs ∧ d ≠ quote
    ∧ readChar d cs = some (dec a, rest))

include henc

/-- Decoding character by character undoes any encoding whose characters read back. -/
theorem unquote_flatMap (s : List α) (rest : List Char) (fuel : ℕ) (hfuel : s.length < fuel) :
    unquote fuel (s.flatMap enc ++ quote :: rest) = some (s.map dec, rest) := by
  induction s generalizing fuel with
  | nil =>
    obtain ⟨n, rfl⟩ : ∃ n, fuel = n + 1 := ⟨fuel - 1, by simp at hfuel; omega⟩
    rw [List.flatMap_nil, List.nil_append, unquote, if_pos rfl]
    rfl
  | cons a s ih =>
    obtain ⟨n, rfl⟩ : ∃ n, fuel = n + 1 := ⟨fuel - 1, by simp at hfuel; omega⟩
    obtain ⟨d, cs, hcs, hd, hread⟩ := henc a (s.flatMap enc ++ quote :: rest)
    rw [List.flatMap_cons, List.append_assoc, hcs, unquote, if_neg hd, hread]
    simp only [Option.bind_eq_bind, Option.bind_some]
    rw [ih n (by simp at hfuel; omega)]
    rfl

theorem length_le_flatMap (s : List α) : s.length ≤ (s.flatMap enc).length := by
  induction s with
  | nil => rfl
  | cons a s ih =>
    have hpos : 0 < (enc a).length := by
      obtain ⟨d, cs, hcs, -⟩ := henc a []
      rw [List.append_nil] at hcs
      rw [hcs]
      exact Nat.succ_pos _
    rw [List.flatMap_cons, List.length_append, List.length_cons]
    omega

end Unquote

theorem unquote_escape (s rest : List Char) (fuel : ℕ) (hfuel : s.length < fuel) :
    unquote fuel (s.flatMap escape ++ quote :: rest) = some (s, rest) := by
  have hread := unquote_flatMap readChar_escape s rest fuel hfuel
  rwa [List.map_id'] at hread

theorem length_le_flatMap_escape (s : List Char) : s.length ≤ (s.flatMap escape).length :=
  length_le_flatMap readChar_escape s

theorem expect_cons {c : Char} (hc : isSpace c = false) (cs : List Char) :
    expect c (c :: cs) = some cs := by
  rw [expect, skipSpace, List.dropWhile_cons_of_neg (by rw [hc]; decide)]
  exact if_pos rfl

theorem expect_cons_ne {c d : Char} (hd : isSpace d = false) (h : d ≠ c) (cs : List Char) :
    expect c (d :: cs) = none := by
  rw [expect, skipSpace, List.dropWhile_cons_of_neg (by rw [hd]; decide)]
  exact if_neg h

theorem readString_quoted (s : String) (rest : List Char) :
    readString (quoted s ++ rest) = some (s, rest) := by
  rw [readString, quoted, List.cons_append, List.append_assoc, List.singleton_append,
    expect_cons (by decide)]
  simp only [Option.bind_eq_bind, Option.bind_some]
  rw [unquote_escape _ _ _ (by
    have := length_le_flatMap_escape s.toList
    rw [List.length_append, List.length_cons]
    omega)]
  simp only [Option.bind_some, Option.pure_def, String.ofList_toList]

private theorem readValue_quoted (s : String) (rest : List Char) :
    readValue (quoted s ++ rest) = some (s, rest) := by
  rw [readValue, readString_quoted]

private theorem readMembers_members (e : Sigma fun _ : String ↦ String)
    (es : List (Sigma fun _ : String ↦ String)) (m : GoMap String String) (fuel : ℕ)
    (hfuel : es.length < fuel) :
    readMembers fuel m (members (e :: es))
      = some ((e :: es).foldl (fun m e ↦ m.insert e.1 e.2) m, []) := by
  induction es generalizing e m fuel with
  | nil =>
    obtain ⟨n, rfl⟩ : ∃ n, fuel = n + 1 := ⟨fuel - 1, by simp at hfuel; omega⟩
    rw [members, readMembers, readString_quoted]
    simp only [Option.bind_eq_bind, Option.bind_some, expect_cons (by decide : isSpace ':' = false),
      readValue_quoted]
    rw [expect_cons_ne (by decide) (by decide), expect_cons (by decide)]
    rfl
  | cons f es ih =>
    obtain ⟨n, rfl⟩ : ∃ n, fuel = n + 1 := ⟨fuel - 1, by simp at hfuel; omega⟩
    rw [members, readMembers, readString_quoted]
    simp only [Option.bind_eq_bind, Option.bind_some, expect_cons (by decide : isSpace ':' = false),
      readValue_quoted, expect_cons (by decide : isSpace ',' = false)]
    rw [ih f (m.insert e.1 e.2) n (by simp at hfuel; omega)]
    rfl

private theorem length_le_members (es : List (Sigma fun _ : String ↦ String)) :
    es.length ≤ (members es).length := by
  induction es with
  | nil => exact Nat.zero_le _
  | cons e es ih =>
    cases es with
    | nil =>
      rw [members]
      simp only [List.length_append, List.length_cons, List.length_nil]
      omega
    | cons f es =>
      rw [members]
      simp only [List.length_append, List.length_cons] at ih ⊢
      omega

private theorem readObject_members (es : List (Sigma fun _ : String ↦ String)) :
    readObject ('\x7b' :: members es) = some (es.foldl (fun m e ↦ m.insert e.1 e.2) ∅, []) := by
  rw [readObject, expect_cons (by decide)]
  simp only [Option.bind_eq_bind, Option.bind_some]
  cases es with
  | nil => rfl
  | cons e es =>
    have hhead : expect '\x7d' (members (e :: es)) = none := by
      cases es <;> exact expect_cons_ne (by decide) (by decide) _
    have hlen := length_le_members (e :: es)
    rw [hhead]
    exact readMembers_members e es ∅ _ (by rw [List.length_cons] at hlen; omega)

/-- Decoding an encoded map gives that map. -/
theorem unmarshal_marshal (m : GoMap String String) :
    ∃ m', unmarshal (marshal m) = some m' ∧ ∀ k, m'.lookup k = m.lookup k := by
  have hperm : (m.entries.insertionSort fun a b ↦ a.1 ≤ b.1).Perm m.entries :=
    List.perm_insertionSort _ _
  refine ⟨AList.ofEntries (m.entries.insertionSort fun a b ↦ a.1 ≤ b.1), ?_, fun k ↦ ?_⟩
  · rw [unmarshal, marshal, String.toList_ofList, readObject_members]
    rfl
  · have hnodup := (List.perm_nodupKeys hperm).mpr m.nodupKeys
    rw [AList.lookup_ofEntries hnodup, List.perm_dlookup k hnodup hperm]
    rfl

end Json
