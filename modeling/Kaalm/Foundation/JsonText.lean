import Kaalm.Foundation.Ascii
import Mathlib.Data.List.Basic

/-!
# JSON texts as bytes

The grammar of JSON, as a type: a `Document` is a value with white space around it, and it keeps
every byte of its text, white space included. So a valid JSON text is the text of a document, and
the document is what the text is made of. Strings are kept as they are written, with their escapes
and whatever bytes from 0x80 on they hold, valid UTF-8 or not; this is also what `json.Valid` of Go
accepts, apart from its limit of 10000 on the depth of nesting.

`parse` reads a text. It reads exactly the texts of documents (`parse_eq_some_iff`), so a text
determines its document.
-/

namespace JsonText

open Ascii

/-! ## Tokens -/

def isDigit (c : UInt8) : Bool := 0x30 ≤ c ∧ c ≤ 0x39

def isHexDigit (c : UInt8) : Bool :=
  isDigit c ∨ (0x61 ≤ c ∧ c ≤ 0x66) ∨ (0x41 ≤ c ∧ c ≤ 0x46)

/-- The rest of a text after at least one digit and all that follow it. -/
def skipDigits (cs : List UInt8) : Option (List UInt8) :=
  match cs with
  | c :: cs => if isDigit c then some (cs.dropWhile isDigit) else none
  | [] => none

/-- The rest after the part of a number before the point: no leading zeros. -/
def skipInt (cs : List UInt8) : Option (List UInt8) :=
  match cs with
  | c :: rest => if c = 0x30 then some rest else skipDigits (c :: rest)
  | [] => none

def skipFrac (cs : List UInt8) : Option (List UInt8) :=
  match cs with
  | c :: rest => if c = 0x2e then skipDigits rest else some (c :: rest)
  | [] => some []

def skipSign (cs : List UInt8) : List UInt8 :=
  match cs with
  | c :: rest => if c = 0x2b ∨ c = 0x2d then rest else c :: rest
  | [] => []

def skipExp (cs : List UInt8) : Option (List UInt8) :=
  match cs with
  | c :: rest => if c = 0x65 ∨ c = 0x45 then skipDigits (skipSign rest) else some (c :: rest)
  | [] => some []

def skipMinus (cs : List UInt8) : List UInt8 :=
  match cs with
  | c :: rest => if c = 0x2d then rest else c :: rest
  | [] => []

def isNumber (cs : List UInt8) : Bool :=
  ((skipInt (skipMinus cs)).bind skipFrac).bind skipExp = some []

/-- A number or one of the three literal names. -/
def isScalar (cs : List UInt8) : Bool :=
  cs = bytes "true" ∨ cs = bytes "false" ∨ cs = bytes "null" ∨ isNumber cs

/-- Inside a string: not in an escape, after a backslash, or with hexadecimal digits to come. -/
inductive StringState
  | plain
  | escape
  | hex (digits : ℕ)
  deriving DecidableEq

def isShortEscape (c : UInt8) : Bool :=
  c = quote ∨ c = backslash ∨ c = 0x2f ∨ c = 0x62 ∨ c = 0x66 ∨ c = 0x6e ∨ c = 0x72 ∨ c = 0x74

/-- One byte of string content. -/
def StringState.step (s : StringState) (c : UInt8) : Option StringState :=
  match s with
  | .plain =>
    if c = backslash then some .escape
    else if c = quote ∨ c < 0x20 then none
    else some .plain
  | .escape =>
    if c = 0x75 then some (.hex 3)
    else if isShortEscape c then some .plain
    else none
  | .hex digits =>
    if isHexDigit c then
      match digits with
      | 0 => some .plain
      | n + 1 => some (.hex n)
    else none

/-- What stands between the quotes of a string. -/
def isContent (cs : List UInt8) : Bool := cs.foldlM StringState.step .plain = some .plain

abbrev Space := { cs : List UInt8 // cs.all isSpace }

theorem all_isSpace_nil : ([] : List UInt8).all isSpace = true := rfl

abbrev Scalar := { cs : List UInt8 // isScalar cs }

abbrev Content := { cs : List UInt8 // isContent cs }

/-! ## The grammar -/

mutual

inductive Value
  | scalar (text : Scalar)
  | string (content : Content)
  | emptyArray (space : Space)
  | array (elements : Elements)
  | emptyObject (space : Space)
  | object (members : Members)

/-- The elements of an array, with the white space around each. -/
inductive Elements
  | one (before : Space) (value : Value) (after : Space)
  | more (before : Space) (value : Value) (after : Space) (rest : Elements)

/-- The members of an object, with the white space around names and values. -/
inductive Members
  | one (before : Space) (name : Content) (afterName beforeValue : Space) (value : Value)
      (after : Space)
  | more (before : Space) (name : Content) (afterName beforeValue : Space) (value : Value)
      (after : Space) (rest : Members)

end

structure Document where
  before : Space
  value : Value
  after : Space

/-- A string with its quotes. -/
def quoted (content : List UInt8) : List UInt8 := quote :: (content ++ [quote])

mutual

def Value.text : Value → List UInt8
  | .scalar text => text.1
  | .string content => quoted content.1
  | .emptyArray space => lbracket :: (space.1 ++ [rbracket])
  | .array elements => lbracket :: (elements.text ++ [rbracket])
  | .emptyObject space => lbrace :: (space.1 ++ [rbrace])
  | .object members => lbrace :: (members.text ++ [rbrace])

def Elements.text : Elements → List UInt8
  | .one before value after => before.1 ++ (value.text ++ after.1)
  | .more before value after rest => before.1 ++ (value.text ++ (after.1 ++ comma :: rest.text))

def Members.text : Members → List UInt8
  | .one before name afterName beforeValue value after =>
    before.1 ++ (quoted name.1
      ++ (afterName.1 ++ colon :: (beforeValue.1 ++ (value.text ++ after.1))))
  | .more before name afterName beforeValue value after rest =>
    before.1 ++ (quoted name.1 ++ (afterName.1 ++ colon :: (beforeValue.1 ++ (value.text
      ++ (after.1 ++ comma :: rest.text)))))

end

def Document.text (d : Document) : List UInt8 := d.before.1 ++ (d.value.text ++ d.after.1)

/-! ## The parser -/

/-- Bytes that cannot be part of a number or a literal name. -/
def isDelimiter (c : UInt8) : Bool :=
  isSpace c ∨ c = comma ∨ c = colon ∨ c = rbrace ∨ c = rbracket ∨ c = quote ∨ c = lbrace
    ∨ c = lbracket

def takeSpace (cs : List UInt8) : Space := ⟨cs.takeWhile isSpace, List.all_takeWhile⟩

def dropSpace (cs : List UInt8) : List UInt8 := cs.dropWhile isSpace

/-- The content of a string up to the closing quote, and the text after that. -/
def splitContent : StringState → List UInt8 → Option (List UInt8 × List UInt8)
  | _, [] => none
  | s, c :: cs =>
    if s = .plain ∧ c = quote then some ([], cs)
    else (s.step c).bind fun s ↦ (splitContent s cs).map fun r ↦ (c :: r.1, r.2)

theorem foldlM_of_splitContent {s : StringState} {cs : List UInt8} {r : List UInt8 × List UInt8}
    (h : splitContent s cs = some r) : r.1.foldlM StringState.step s = some .plain := by
  induction cs generalizing s r with
  | nil => cases h
  | cons c cs ih =>
    rw [splitContent] at h
    split_ifs at h with hend
    · obtain rfl := Option.some.inj h
      rw [hend.1]
      rfl
    · obtain ⟨t, ht, h⟩ := Option.bind_eq_some_iff.mp h
      obtain ⟨q, hq, rfl⟩ := Option.map_eq_some_iff.mp h
      rw [List.foldlM_cons, ht]
      exact ih hq

/-- The string that a text starts with, after its opening quote. -/
def takeString (cs : List UInt8) : Option (Content × List UInt8) :=
  match h : splitContent .plain cs with
  | some r => some (⟨r.1, decide_eq_true (foldlM_of_splitContent h)⟩, r.2)
  | none => none

def takeScalar (cs : List UInt8) : Option (Scalar × List UInt8) :=
  if h : isScalar (cs.takeWhile fun c ↦ !isDelimiter c) then
    some (⟨_, h⟩, cs.dropWhile fun c ↦ !isDelimiter c)
  else none

/-- The text after the byte `c`. -/
def expect (c : UInt8) : List UInt8 → Option (List UInt8)
  | [] => none
  | d :: cs => if d = c then some cs else none

mutual

/-- The value that a text starts with. Every recursion consumes a byte, so the length of the text is
fuel enough. -/
def parseValue : ℕ → List UInt8 → Option (Value × List UInt8)
  | 0, _ => none
  | _, [] => none
  | fuel + 1, c :: cs =>
    if c = quote then (takeString cs).map fun r ↦ (.string r.1, r.2)
    else if c = lbracket then
      match expect rbracket (dropSpace cs) with
      | some rest => some (.emptyArray (takeSpace cs), rest)
      | none => (parseElements fuel cs).bind fun r ↦
        (expect rbracket r.2).map fun rest ↦ (.array r.1, rest)
    else if c = lbrace then
      match expect rbrace (dropSpace cs) with
      | some rest => some (.emptyObject (takeSpace cs), rest)
      | none => (parseMembers fuel cs).bind fun r ↦
        (expect rbrace r.2).map fun rest ↦ (.object r.1, rest)
    else (takeScalar (c :: cs)).map fun r ↦ (.scalar r.1, r.2)

def parseElements : ℕ → List UInt8 → Option (Elements × List UInt8)
  | 0, _ => none
  | fuel + 1, cs =>
    (parseValue fuel (dropSpace cs)).bind fun v ↦
      match expect comma (dropSpace v.2) with
      | some rest => (parseElements fuel rest).map fun r ↦
        (.more (takeSpace cs) v.1 (takeSpace v.2) r.1, r.2)
      | none => some (.one (takeSpace cs) v.1 (takeSpace v.2), dropSpace v.2)

def parseMembers : ℕ → List UInt8 → Option (Members × List UInt8)
  | 0, _ => none
  | fuel + 1, cs =>
    (expect quote (dropSpace cs)).bind fun name ↦ (takeString name).bind fun n ↦
      (expect colon (dropSpace n.2)).bind fun rest ↦
        (parseValue fuel (dropSpace rest)).bind fun v ↦
          match expect comma (dropSpace v.2) with
          | some more => (parseMembers fuel more).map fun r ↦
            (.more (takeSpace cs) n.1 (takeSpace n.2) (takeSpace rest) v.1 (takeSpace v.2) r.1, r.2)
          | none => some (.one (takeSpace cs) n.1 (takeSpace n.2) (takeSpace rest) v.1
            (takeSpace v.2), dropSpace v.2)

end

def parse (cs : List UInt8) : Option Document :=
  (parseValue cs.length (dropSpace cs)).bind fun v ↦
    if dropSpace v.2 = [] then some ⟨takeSpace cs, v.1, takeSpace v.2⟩ else none

/-- `json.Valid`. -/
def valid (cs : List UInt8) : Bool := (parse cs).isSome

/-! ## What is parsed is the text of a document -/

variable {c : UInt8} {cs rest : List UInt8}

theorem takeSpace_append_dropSpace (cs : List UInt8) : (takeSpace cs).1 ++ dropSpace cs = cs :=
  List.takeWhile_append_dropWhile

theorem expect_eq_some : expect c cs = some rest ↔ cs = c :: rest := by
  cases cs with
  | nil => exact ⟨nofun, nofun⟩
  | cons d cs =>
    rw [expect]
    constructor
    · intro h
      split_ifs at h with hd
      rw [hd, Option.some.inj h]
    · intro h
      obtain ⟨rfl, rfl⟩ := List.cons.inj h
      exact if_pos rfl

theorem eq_append_of_splitContent {s : StringState} {r : List UInt8 × List UInt8}
    (h : splitContent s cs = some r) : cs = r.1 ++ quote :: r.2 := by
  induction cs generalizing s r with
  | nil => cases h
  | cons c cs ih =>
    rw [splitContent] at h
    split_ifs at h with hend
    · obtain rfl := Option.some.inj h
      rw [hend.2]
      rfl
    · obtain ⟨t, -, h⟩ := Option.bind_eq_some_iff.mp h
      obtain ⟨q, hq, rfl⟩ := Option.map_eq_some_iff.mp h
      exact congrArg (c :: ·) (ih hq)

/-- String content never has a bare quote where an escape could end. -/
theorem splitContent_append {s : StringState} (h : cs.foldlM StringState.step s = some .plain)
    (rest : List UInt8) : splitContent s (cs ++ quote :: rest) = some (cs, rest) := by
  induction cs generalizing s with
  | nil =>
    obtain rfl := Option.some.inj h
    exact if_pos ⟨rfl, rfl⟩
  | cons c cs ih =>
    rw [List.foldlM_cons] at h
    obtain ⟨t, ht, h⟩ := Option.bind_eq_some_iff.mp h
    have hbare : ¬ (s = .plain ∧ c = quote) := by
      rintro ⟨rfl, rfl⟩
      exact absurd ht (by rw [show StringState.plain.step quote = none by decide]; exact nofun)
    rw [List.cons_append, splitContent, if_neg hbare, ht, Option.bind_some, ih h]
    rfl

/-- A byte of content that does not follow a backslash is no quote, and it is a backslash exactly if
an escape starts. -/
theorem escape_of_step {s t : StringState} (h : s.step c = some t) :
    ¬ (¬ s = .escape ∧ c = quote) ∧ (¬ s = .escape ∧ c = backslash ↔ t = .escape) := by
  cases s with
  | plain =>
    rw [StringState.step] at h
    split_ifs at h with hback hctl
    · obtain rfl := Option.some.inj h
      simp [hback, show backslash ≠ quote by decide]
    · obtain rfl := Option.some.inj h
      simp [hback, (not_or.mp hctl).1]
  | escape =>
    rw [StringState.step] at h
    split_ifs at h <;> obtain rfl := Option.some.inj h <;> simp
  | hex digits =>
    have hne : isHexDigit c → c ≠ quote ∧ c ≠ backslash := fun hhex ↦
      ⟨by rintro rfl; exact absurd hhex (by decide), by rintro rfl; exact absurd hhex (by decide)⟩
    cases digits with
    | zero =>
      rw [StringState.step] at h
      split_ifs at h with hhex
      obtain rfl := Option.some.inj h
      simp [hne hhex]
    | succ n =>
      rw [StringState.step] at h
      split_ifs at h with hhex
      obtain rfl := Option.some.inj h
      simp [hne hhex]

theorem takeString_eq_some {r : Content × List UInt8} :
    takeString cs = some r ↔ cs = r.1.1 ++ quote :: r.2 := by
  constructor
  · intro h
    rw [takeString] at h
    split at h
    · next q hq =>
      obtain rfl := Option.some.inj h
      exact eq_append_of_splitContent hq
    · cases h
  · rintro rfl
    have hsplit := splitContent_append (of_decide_eq_true r.1.2) r.2
    rw [takeString]
    split
    · next q hq =>
      obtain rfl := Option.some.inj (hsplit.symm.trans hq)
      rfl
    · next hq => exact nomatch hsplit.symm.trans hq

theorem eq_append_of_takeScalar {r : Scalar × List UInt8} (h : takeScalar cs = some r) :
    cs = r.1.1 ++ r.2 := by
  rw [takeScalar] at h
  split_ifs at h
  obtain rfl := Option.some.inj h
  exact List.takeWhile_append_dropWhile.symm

/-- White space up to a byte that is expected. -/
theorem eq_append_of_expect_dropSpace (h : expect c (dropSpace cs) = some rest) :
    cs = (takeSpace cs).1 ++ c :: rest := by
  rw [← expect_eq_some.mp h, takeSpace_append_dropSpace]

section Sound

variable {fuel : ℕ}
  (hvalue : ∀ cs r, parseValue fuel cs = some r → cs = r.1.text ++ r.2)
  (helements : ∀ cs r, parseElements fuel cs = some r → cs = r.1.text ++ r.2)
  (hmembers : ∀ cs r, parseMembers fuel cs = some r → cs = r.1.text ++ r.2)

include helements hmembers in
private theorem parseValue_sound {r : Value × List UInt8} (h : parseValue (fuel + 1) cs = some r) :
    cs = r.1.text ++ r.2 := by
  cases cs with
  | nil => cases h
  | cons c cs =>
    rw [parseValue] at h
    split_ifs at h with hquote harray hobject
    · obtain ⟨q, hq, rfl⟩ := Option.map_eq_some_iff.mp h
      rw [hquote, takeString_eq_some.mp hq]
      simp only [Value.text, quoted, List.cons_append, List.append_assoc, List.nil_append]
    · rw [harray]
      cases hempty : expect rbracket (dropSpace cs) with
      | some rest =>
        rw [hempty] at h
        obtain rfl := Option.some.inj h
        rw [Value.text, List.cons_append, List.append_assoc]
        exact congrArg (lbracket :: ·) (eq_append_of_expect_dropSpace hempty)
      | none =>
        rw [hempty] at h
        obtain ⟨q, hq, h⟩ := Option.bind_eq_some_iff.mp h
        obtain ⟨rest, hrest, rfl⟩ := Option.map_eq_some_iff.mp h
        rw [helements cs q hq, expect_eq_some.mp hrest, Value.text, List.cons_append,
          List.append_assoc]
        rfl
    · rw [hobject]
      cases hempty : expect rbrace (dropSpace cs) with
      | some rest =>
        rw [hempty] at h
        obtain rfl := Option.some.inj h
        rw [Value.text, List.cons_append, List.append_assoc]
        exact congrArg (lbrace :: ·) (eq_append_of_expect_dropSpace hempty)
      | none =>
        rw [hempty] at h
        obtain ⟨q, hq, h⟩ := Option.bind_eq_some_iff.mp h
        obtain ⟨rest, hrest, rfl⟩ := Option.map_eq_some_iff.mp h
        rw [hmembers cs q hq, expect_eq_some.mp hrest, Value.text, List.cons_append,
          List.append_assoc]
        rfl
    · obtain ⟨q, hq, rfl⟩ := Option.map_eq_some_iff.mp h
      exact eq_append_of_takeScalar hq

include hvalue helements in
private theorem parseElements_sound {r : Elements × List UInt8}
    (h : parseElements (fuel + 1) cs = some r) : cs = r.1.text ++ r.2 := by
  rw [parseElements] at h
  obtain ⟨v, hv, h⟩ := Option.bind_eq_some_iff.mp h
  have hcs : cs = (takeSpace cs).1 ++ (v.1.text ++ v.2) := by
    rw [← hvalue _ v hv, takeSpace_append_dropSpace]
  cases hcomma : expect comma (dropSpace v.2) with
  | some more =>
    rw [hcomma] at h
    obtain ⟨q, hq, rfl⟩ := Option.map_eq_some_iff.mp h
    conv_lhs => rw [hcs, eq_append_of_expect_dropSpace hcomma, helements more q hq]
    simp only [Elements.text, List.append_assoc, List.cons_append]
  | none =>
    rw [hcomma] at h
    obtain rfl := Option.some.inj h
    conv_lhs => rw [hcs, ← takeSpace_append_dropSpace v.2]
    simp only [Elements.text, List.append_assoc]

include hvalue hmembers in
private theorem parseMembers_sound {r : Members × List UInt8}
    (h : parseMembers (fuel + 1) cs = some r) : cs = r.1.text ++ r.2 := by
  rw [parseMembers] at h
  obtain ⟨name, hname, h⟩ := Option.bind_eq_some_iff.mp h
  obtain ⟨n, hn, h⟩ := Option.bind_eq_some_iff.mp h
  obtain ⟨tail, htail, h⟩ := Option.bind_eq_some_iff.mp h
  obtain ⟨v, hv, h⟩ := Option.bind_eq_some_iff.mp h
  have hcs : cs = (takeSpace cs).1 ++ (quoted n.1.1 ++ ((takeSpace n.2).1
      ++ colon :: ((takeSpace tail).1 ++ (v.1.text ++ v.2)))) := by
    rw [← hvalue _ v hv, takeSpace_append_dropSpace tail, ← eq_append_of_expect_dropSpace htail,
      quoted, List.cons_append, List.append_assoc, List.singleton_append,
        ← takeString_eq_some.mp hn]
    exact eq_append_of_expect_dropSpace hname
  cases hcomma : expect comma (dropSpace v.2) with
  | some more =>
    rw [hcomma] at h
    obtain ⟨q, hq, rfl⟩ := Option.map_eq_some_iff.mp h
    conv_lhs => rw [hcs, eq_append_of_expect_dropSpace hcomma, hmembers more q hq]
    simp only [Members.text, List.append_assoc, List.cons_append]
  | none =>
    rw [hcomma] at h
    obtain rfl := Option.some.inj h
    conv_lhs => rw [hcs, ← takeSpace_append_dropSpace v.2]
    simp only [Members.text, List.append_assoc, List.cons_append]

end Sound

theorem eq_append_of_parse (fuel : ℕ) :
    (∀ cs r, parseValue fuel cs = some r → cs = r.1.text ++ r.2)
      ∧ (∀ cs r, parseElements fuel cs = some r → cs = r.1.text ++ r.2)
      ∧ ∀ cs r, parseMembers fuel cs = some r → cs = r.1.text ++ r.2 := by
  induction fuel with
  | zero => exact ⟨nofun, nofun, nofun⟩
  | succ fuel ih =>
    obtain ⟨hvalue, helements, hmembers⟩ := ih
    exact ⟨fun cs r h ↦ parseValue_sound helements hmembers h,
      fun cs r h ↦ parseElements_sound hvalue helements h,
      fun cs r h ↦ parseMembers_sound hvalue hmembers h⟩

theorem text_of_parse {d : Document} (h : parse cs = some d) : d.text = cs := by
  rw [parse] at h
  obtain ⟨v, hv, h⟩ := Option.bind_eq_some_iff.mp h
  split_ifs at h with hend
  obtain rfl := Option.some.inj h
  have hafter : (takeSpace v.2).1 = v.2 := by
    conv_rhs => rw [← takeSpace_append_dropSpace v.2, hend, List.append_nil]
  rw [Document.text, hafter, ← (eq_append_of_parse _).1 _ v hv, takeSpace_append_dropSpace]

/-! ## The text of a document is parsed -/

def isNumberByte (c : UInt8) : Bool :=
  isDigit c ∨ c = 0x2d ∨ c = 0x2b ∨ c = 0x2e ∨ c = 0x65 ∨ c = 0x45

theorem isDelimiter_of_isNumberByte (h : isNumberByte c) : isDelimiter c = false := by
  refine eq_false_of_ne_true fun hdel ↦ ?_
  rw [isDelimiter, decide_eq_true_iff, isSpace, decide_eq_true_iff] at hdel
  rcases hdel with (rfl | rfl | rfl | rfl) | rfl | rfl | rfl | rfl | rfl | rfl | rfl <;>
    exact absurd h (by decide)

/-- A part of a number is skipped: `rest` comes after bytes that numbers are made of. -/
def Skips (cs rest : List UInt8) : Prop :=
  ∃ skipped, cs = skipped ++ rest ∧ skipped.all isNumberByte

theorem Skips.refl (cs : List UInt8) : Skips cs cs := ⟨[], rfl, rfl⟩

theorem Skips.cons (h : Skips cs rest) (hc : isNumberByte c) : Skips (c :: cs) rest := by
  obtain ⟨skipped, rfl, hall⟩ := h
  exact ⟨c :: skipped, rfl, by rw [List.all_cons, hc, hall]; rfl⟩

theorem Skips.trans {cs' : List UInt8} (h : Skips cs cs') (h' : Skips cs' rest) :
    Skips cs rest := by
  obtain ⟨skipped, rfl, hall⟩ := h
  obtain ⟨skipped', rfl, hall'⟩ := h'
  exact ⟨skipped ++ skipped',
    (List.append_assoc ..).symm, by rw [List.all_append, hall, hall']; rfl⟩

theorem isNumberByte_of_isDigit (h : isDigit c) : isNumberByte c := decide_eq_true (Or.inl h)

theorem skips_of_skipDigits (h : skipDigits cs = some rest) : Skips cs rest := by
  cases cs with
  | nil => cases h
  | cons c cs =>
    rw [skipDigits] at h
    split_ifs at h with hc
    obtain rfl := Option.some.inj h
    refine Skips.cons ⟨cs.takeWhile isDigit, List.takeWhile_append_dropWhile.symm, ?_⟩
      (isNumberByte_of_isDigit hc)
    exact List.all_eq_true.mpr fun d hd ↦
      isNumberByte_of_isDigit (List.all_eq_true.mp List.all_takeWhile d hd)

theorem skips_of_skipInt (h : skipInt cs = some rest) : Skips cs rest := by
  cases cs with
  | nil => cases h
  | cons c cs =>
    rw [skipInt] at h
    split_ifs at h with hc
    · obtain rfl := Option.some.inj h
      exact (Skips.refl _).cons (by rw [hc]; decide)
    · exact skips_of_skipDigits h

theorem skips_of_skipFrac (h : skipFrac cs = some rest) : Skips cs rest := by
  cases cs with
  | nil => exact Option.some.inj h ▸ Skips.refl _
  | cons c cs =>
    rw [skipFrac] at h
    split_ifs at h with hc
    · exact (skips_of_skipDigits h).cons (by rw [hc]; decide)
    · exact Option.some.inj h ▸ Skips.refl _

theorem skips_skipSign (cs : List UInt8) : Skips cs (skipSign cs) := by
  cases cs with
  | nil => exact Skips.refl _
  | cons c cs =>
    rw [skipSign]
    split_ifs with hc
    · refine (Skips.refl cs).cons ?_
      rcases hc with rfl | rfl <;> decide
    · exact Skips.refl _

theorem skips_of_skipExp (h : skipExp cs = some rest) : Skips cs rest := by
  cases cs with
  | nil => exact Option.some.inj h ▸ Skips.refl _
  | cons c cs =>
    rw [skipExp] at h
    split_ifs at h with hc
    · refine ((skips_skipSign cs).trans (skips_of_skipDigits h)).cons ?_
      rcases hc with rfl | rfl <;> decide
    · exact Option.some.inj h ▸ Skips.refl _

theorem skips_skipMinus (cs : List UInt8) : Skips cs (skipMinus cs) := by
  cases cs with
  | nil => exact Skips.refl _
  | cons c cs =>
    rw [skipMinus]
    split_ifs with hc
    · exact (Skips.refl cs).cons (by rw [hc]; decide)
    · exact Skips.refl _

theorem isNumberByte_of_isNumber (h : isNumber cs) : cs ≠ [] ∧ cs.all isNumberByte := by
  obtain ⟨afterFrac, hfrac, hexp⟩ := Option.bind_eq_some_iff.mp (of_decide_eq_true h)
  obtain ⟨afterInt, hint, hfrac⟩ := Option.bind_eq_some_iff.mp hfrac
  obtain ⟨skipped, hskipped, hall⟩ := (((skips_skipMinus cs).trans (skips_of_skipInt hint)).trans
    (skips_of_skipFrac hfrac)).trans (skips_of_skipExp hexp)
  refine ⟨?_, by rw [hskipped, List.append_nil]; exact hall⟩
  rintro rfl
  cases hint

theorem not_isDelimiter_of_isScalar (h : isScalar cs) :
    cs ≠ [] ∧ ∀ c ∈ cs, isDelimiter c = false := by
  rw [isScalar, decide_eq_true_iff] at h
  rcases h with rfl | rfl | rfl | h
  · decide +kernel
  · decide +kernel
  · decide +kernel
  · obtain ⟨hne, hall⟩ := isNumberByte_of_isNumber h
    exact ⟨hne, fun c hc ↦ isDelimiter_of_isNumberByte (List.all_eq_true.mp hall c hc)⟩

/-- A text that a scalar may stand before. -/
def Stops (cs : List UInt8) : Prop := ∀ c ∈ cs.head?, isDelimiter c

theorem takeScalar_append (t : Scalar) (hstops : Stops rest) :
    takeScalar (t.1 ++ rest) = some (t, rest) := by
  have hall : ∀ c ∈ t.1, (!isDelimiter c) = true := fun c hc ↦ by
    rw [(not_isDelimiter_of_isScalar t.2).2 c hc]
    rfl
  have htake : rest.takeWhile (fun c ↦ !isDelimiter c) = [] := by
    cases rest with
    | nil => rfl
    | cons c cs =>
      rw [List.takeWhile_cons_of_neg]
      rw [hstops c rfl]
      decide
  have hdrop : rest.dropWhile (fun c ↦ !isDelimiter c) = rest := by
    conv_rhs =>
      rw [← List.takeWhile_append_dropWhile (p := fun c ↦ !isDelimiter c) (l := rest), htake]
    rfl
  have hscalar : (t.1 ++ rest).takeWhile (fun c ↦ !isDelimiter c) = t.1 := by
    rw [List.takeWhile_append_of_pos hall, htake, List.append_nil]
  rw [takeScalar, dif_pos (by rw [hscalar]; exact t.2)]
  refine congrArg some (Prod.ext (Subtype.ext hscalar) ?_)
  exact (List.dropWhile_append_of_pos hall).trans hdrop

/-- A text that white space ends before. -/
def StartsToken (cs : List UInt8) : Prop := ∀ c ∈ cs.head?, isSpace c = false

theorem dropSpace_append (s : Space) (h : StartsToken rest) : dropSpace (s.1 ++ rest) = rest := by
  rw [dropSpace, List.dropWhile_append_of_pos (List.all_eq_true.mp s.2)]
  cases rest with
  | nil => rfl
  | cons c cs => exact List.dropWhile_cons_of_neg (by rw [h c rfl]; exact Bool.false_ne_true)

theorem takeSpace_append (s : Space) (h : StartsToken rest) : takeSpace (s.1 ++ rest) = s := by
  have hsplit := takeSpace_append_dropSpace (s.1 ++ rest)
  rw [dropSpace_append s h] at hsplit
  exact Subtype.ext (List.append_cancel_right hsplit)

/-- What a value starts with. -/
theorem exists_text_eq_cons (v : Value) :
    ∃ c cs, v.text = c :: cs ∧ isSpace c = false ∧ c ≠ rbracket := by
  cases v with
  | scalar t =>
    obtain ⟨hne, hall⟩ := not_isDelimiter_of_isScalar t.2
    obtain ⟨c, cs, hcs⟩ := List.exists_cons_of_ne_nil hne
    have hc := of_decide_eq_false (hall c (by rw [hcs]; exact List.mem_cons_self))
    simp only [not_or] at hc
    exact ⟨c, cs, hcs, eq_false_of_ne_true hc.1, hc.2.2.2.2.1⟩
  | string content => exact ⟨quote, _, rfl, by decide, by decide⟩
  | emptyArray space => exact ⟨lbracket, _, rfl, by decide, by decide⟩
  | array elements => exact ⟨lbracket, _, rfl, by decide, by decide⟩
  | emptyObject space => exact ⟨lbrace, _, rfl, by decide, by decide⟩
  | object members => exact ⟨lbrace, _, rfl, by decide, by decide⟩

theorem startsToken_value (v : Value) (rest : List UInt8) : StartsToken (v.text ++ rest) := by
  obtain ⟨c, cs, hcs, hspace, -⟩ := exists_text_eq_cons v
  rw [hcs]
  intro d hd
  rw [← Option.some.inj hd]
  exact hspace

theorem stops_space (s : Space) (h : Stops rest) : Stops (s.1 ++ rest) := by
  obtain ⟨cs, hcs⟩ := s
  cases cs with
  | nil => exact h
  | cons c cs =>
    intro d hd
    rw [← Option.some.inj hd]
    exact decide_eq_true (Or.inl (List.all_eq_true.mp hcs c List.mem_cons_self))

theorem stops_cons (hc : isDelimiter c) (cs : List UInt8) : Stops (c :: cs) := fun d hd ↦ by
  rw [← Option.some.inj hd]
  exact hc

theorem startsToken_cons (hc : isSpace c = false) (cs : List UInt8) : StartsToken (c :: cs) :=
  fun d hd ↦ by
    rw [← Option.some.inj hd]
    exact hc

theorem expect_cons (c : UInt8) (cs : List UInt8) : expect c (c :: cs) = some cs := if_pos rfl

theorem expect_cons_ne {d : UInt8} (h : d ≠ c) (cs : List UInt8) : expect c (d :: cs) = none :=
  if_neg h

theorem takeString_content (n : Content) (rest : List UInt8) :
    takeString (n.1 ++ quote :: rest) = some (n, rest) := takeString_eq_some.mpr rfl

theorem expect_dropSpace_elements (es : Elements) (rest : List UInt8) :
    expect rbracket (dropSpace (es.text ++ rest)) = none := by
  have hvalue : ∀ (s : Space) (v : Value) (cs : List UInt8),
      expect rbracket (dropSpace (s.1 ++ (v.text ++ cs))) = none := by
    intro s v cs
    rw [dropSpace_append s (startsToken_value v cs)]
    obtain ⟨c, ds, hcs, -, hc⟩ := exists_text_eq_cons v
    rw [hcs]
    exact expect_cons_ne hc _
  cases es with
  | one before value after =>
    rw [Elements.text, List.append_assoc, List.append_assoc]
    exact hvalue before value _
  | more before value after more =>
    rw [Elements.text, List.append_assoc, List.append_assoc]
    exact hvalue before value _

theorem startsToken_quoted (cs rest : List UInt8) : StartsToken (quoted cs ++ rest) :=
  startsToken_cons (by decide) _

theorem expect_dropSpace_members (ms : Members) (rest : List UInt8) :
    expect rbrace (dropSpace (ms.text ++ rest)) = none := by
  have hname : ∀ (s : Space) (name cs : List UInt8),
      expect rbrace (dropSpace (s.1 ++ (quoted name ++ cs))) = none := by
    intro s name cs
    rw [dropSpace_append s (startsToken_quoted name cs)]
    exact expect_cons_ne (by decide) _
  cases ms with
  | one before name afterName beforeValue value after =>
    rw [Members.text, List.append_assoc, List.append_assoc]
    exact hname before name.1 _
  | more before name afterName beforeValue value after more =>
    rw [Members.text, List.append_assoc, List.append_assoc]
    exact hname before name.1 _

/-- A text that starts with a closing bracket. -/
def Closes (cs : List UInt8) : Prop := cs.head? = some rbracket ∨ cs.head? = some rbrace

theorem Closes.stops (h : Closes rest) : Stops rest := fun c hc ↦ by
  rcases h with h | h <;>
  · obtain rfl := Option.some.inj (h.symm.trans hc)
    decide

theorem Closes.startsToken (h : Closes rest) : StartsToken rest := fun c hc ↦ by
  rcases h with h | h <;>
  · obtain rfl := Option.some.inj (h.symm.trans hc)
    decide

theorem Closes.expect_comma (h : Closes rest) : expect comma rest = none := by
  cases rest with
  | nil => rfl
  | cons c cs =>
    rcases h with h | h
    · rw [Option.some.inj h]
      exact expect_cons_ne (by decide) _
    · rw [Option.some.inj h]
      exact expect_cons_ne (by decide) _

theorem stops_comma (cs : List UInt8) : Stops (comma :: cs) := stops_cons (by decide) cs

theorem startsToken_comma (cs : List UInt8) : StartsToken (comma :: cs) :=
  startsToken_cons (by decide) cs

mutual

theorem parseValue_text (v : Value) (fuel : ℕ) (rest : List UInt8) (hfuel : v.text.length ≤ fuel)
    (hstops : Stops rest) : parseValue fuel (v.text ++ rest) = some (v, rest) := by
  cases fuel with
  | zero =>
    obtain ⟨c, cs, hcs, -⟩ := exists_text_eq_cons v
    rw [hcs] at hfuel
    cases hfuel
  | succ fuel =>
    cases v with
    | scalar t =>
      obtain ⟨hne, hall⟩ := not_isDelimiter_of_isScalar t.2
      obtain ⟨c, cs, hcs⟩ := List.exists_cons_of_ne_nil hne
      have hc := of_decide_eq_false (hall c (by rw [hcs]; exact List.mem_cons_self))
      simp only [not_or] at hc
      have htake := takeScalar_append t hstops
      rw [hcs, List.cons_append] at htake
      rw [Value.text, hcs, List.cons_append, parseValue, if_neg hc.2.2.2.2.2.1,
        if_neg hc.2.2.2.2.2.2.2, if_neg hc.2.2.2.2.2.2.1, htake]
      rfl
    | string content =>
      rw [Value.text, quoted, List.cons_append, List.append_assoc, List.singleton_append,
        parseValue, if_pos rfl, takeString_content]
      rfl
    | emptyArray space =>
      have hclose : StartsToken (rbracket :: rest) := startsToken_cons (by decide) rest
      rw [Value.text, List.cons_append, List.append_assoc, List.singleton_append, parseValue,
        if_neg (by decide), if_pos rfl, dropSpace_append space hclose, expect_cons,
        takeSpace_append space hclose]
    | emptyObject space =>
      have hclose : StartsToken (rbrace :: rest) := startsToken_cons (by decide) rest
      rw [Value.text, List.cons_append, List.append_assoc, List.singleton_append, parseValue,
        if_neg (by decide), if_neg (by decide), if_pos rfl, dropSpace_append space hclose,
        expect_cons, takeSpace_append space hclose]
    | array elements =>
      rw [Value.text, List.length_cons, List.length_append] at hfuel
      have hparse := parseElements_text elements fuel (rbracket :: rest) (by
        simp only [List.length_singleton] at hfuel
        omega) (Or.inl rfl)
      rw [Value.text, List.cons_append, List.append_assoc, List.singleton_append, parseValue,
        if_neg (by decide), if_pos rfl, expect_dropSpace_elements, hparse]
      simp only [Option.bind_some, expect_cons, Option.map_some]
    | object members =>
      rw [Value.text, List.length_cons, List.length_append] at hfuel
      have hparse := parseMembers_text members fuel (rbrace :: rest) (by
        simp only [List.length_singleton] at hfuel
        omega) (Or.inr rfl)
      rw [Value.text, List.cons_append, List.append_assoc, List.singleton_append, parseValue,
        if_neg (by decide), if_neg (by decide), if_pos rfl, expect_dropSpace_members, hparse]
      simp only [Option.bind_some, expect_cons, Option.map_some]

theorem parseElements_text (es : Elements) (fuel : ℕ) (rest : List UInt8)
    (hfuel : es.text.length < fuel) (hcloses : Closes rest) :
    parseElements fuel (es.text ++ rest) = some (es, rest) := by
  cases fuel with
  | zero => cases hfuel
  | succ fuel =>
    cases es with
    | one before value after =>
      simp only [Elements.text, List.length_append] at hfuel
      have hparse := parseValue_text value fuel (after.1 ++ rest) (by omega)
        (stops_space after hcloses.stops)
      simp only [Elements.text, List.append_assoc]
      rw [parseElements, dropSpace_append before (startsToken_value value _), hparse,
        Option.bind_some, dropSpace_append after hcloses.startsToken, hcloses.expect_comma,
        takeSpace_append before (startsToken_value value _),
          takeSpace_append after hcloses.startsToken]
    | more before value after more =>
      simp only [Elements.text, List.length_append, List.length_cons] at hfuel
      have hparse := parseValue_text value fuel (after.1 ++ comma :: (more.text ++ rest)) (by omega)
        (stops_space after (stops_comma _))
      have hmore := parseElements_text more fuel rest (by omega) hcloses
      simp only [Elements.text, List.append_assoc, List.cons_append]
      rw [parseElements, dropSpace_append before (startsToken_value value _), hparse,
        Option.bind_some, dropSpace_append after (startsToken_comma _), expect_cons,
        takeSpace_append before (startsToken_value value _),
        takeSpace_append after (startsToken_comma _)]
      simp only [hmore, Option.map_some]

theorem parseMembers_text (ms : Members) (fuel : ℕ) (rest : List UInt8)
    (hfuel : ms.text.length < fuel) (hcloses : Closes rest) :
    parseMembers fuel (ms.text ++ rest) = some (ms, rest) := by
  have hcolon : ∀ cs, StartsToken (colon :: cs) := startsToken_cons (by decide)
  cases fuel with
  | zero => cases hfuel
  | succ fuel =>
    cases ms with
    | one before name afterName beforeValue value after =>
      simp only [Members.text, List.length_append, List.length_cons] at hfuel
      have hparse := parseValue_text value fuel (after.1 ++ rest) (by omega)
        (stops_space after hcloses.stops)
      simp only [Members.text, List.append_assoc, List.cons_append]
      rw [parseMembers, dropSpace_append before (startsToken_quoted _ _),
        takeSpace_append before (startsToken_quoted _ _), quoted, List.cons_append,
        List.append_assoc, List.singleton_append, expect_cons, Option.bind_some, takeString_content,
          Option.bind_some]
      simp only [dropSpace_append afterName (hcolon _), takeSpace_append afterName (hcolon _),
        expect_cons, Option.bind_some, dropSpace_append beforeValue (startsToken_value value _),
        takeSpace_append beforeValue (startsToken_value value _), hparse,
        dropSpace_append after hcloses.startsToken, hcloses.expect_comma,
        takeSpace_append after hcloses.startsToken]
    | more before name afterName beforeValue value after more =>
      simp only [Members.text, List.length_append, List.length_cons] at hfuel
      have hparse := parseValue_text value fuel (after.1 ++ comma :: (more.text ++ rest)) (by omega)
        (stops_space after (stops_comma _))
      have hmore := parseMembers_text more fuel rest (by omega) hcloses
      simp only [Members.text, List.append_assoc, List.cons_append]
      rw [parseMembers, dropSpace_append before (startsToken_quoted _ _),
        takeSpace_append before (startsToken_quoted _ _), quoted, List.cons_append,
        List.append_assoc, List.singleton_append, expect_cons, Option.bind_some, takeString_content,
          Option.bind_some]
      simp only [dropSpace_append afterName (hcolon _), takeSpace_append afterName (hcolon _),
        expect_cons, Option.bind_some, dropSpace_append beforeValue (startsToken_value value _),
        takeSpace_append beforeValue (startsToken_value value _), hparse,
        dropSpace_append after (startsToken_comma _), takeSpace_append after (startsToken_comma _),
        hmore, Option.map_some]

end

theorem stops_of_space (s : Space) : Stops s.1 := by
  have := stops_space s (show Stops [] from nofun)
  rwa [List.append_nil] at this

theorem parse_text (d : Document) : parse d.text = some d := by
  have hspace : dropSpace d.after.1 = [] := by
    have := dropSpace_append d.after (show StartsToken [] from nofun)
    rwa [List.append_nil] at this
  have hafter : takeSpace d.after.1 = d.after := by
    have := takeSpace_append d.after (show StartsToken [] from nofun)
    rwa [List.append_nil] at this
  have hparse := parseValue_text d.value d.text.length d.after.1 (by
    rw [Document.text, List.length_append, List.length_append]
    omega) (stops_of_space d.after)
  rw [parse, Document.text, dropSpace_append d.before (startsToken_value _ _),
    takeSpace_append d.before (startsToken_value _ _), ← Document.text, hparse, Option.bind_some,
    if_pos hspace, hafter]

/-- A text is parsed as a document exactly if it is the text of that document. -/
theorem parse_eq_some_iff {d : Document} : parse cs = some d ↔ d.text = cs :=
  ⟨text_of_parse, fun h ↦ h ▸ parse_text d⟩

theorem valid_iff : valid cs = true ↔ ∃ d : Document, d.text = cs := by
  rw [valid, Option.isSome_iff_exists]
  exact exists_congr fun d ↦ parse_eq_some_iff

end JsonText
