import Kaalm.Foundation.Json
import Mathlib.Data.List.Infix

/-!
# JSON texts

The scanner of Go's `encoding/json`: a machine that reads a text character by character with a stack
of the objects and arrays it is inside of. `json.Unmarshal` runs it over the whole text before it
decodes anything, so a text the machine does not accept is an error whatever it is decoded into.

A raw value (`json.RawMessage`) is a text that the machine accepts, as `json.Marshal` writes it:
without space around it and without a line break. Objects and arrays are taken apart into raw values
(`objectMembers`, `arrayElements`). The limit of 10000 on the depth of the stack is not modelled.
-/

namespace Json

/-! ## The machine -/

/-- What the innermost open bracket waits for. -/
inductive Frame
  | objectKey
  | objectValue
  | arrayValue
  deriving DecidableEq

inductive ScanState
  | beginValue
  | beginValueOrEmpty
  | beginString
  | beginStringOrEmpty
  | endValue
  | inString
  | inStringEsc
  /-- Inside a `\u` escape, with the number of digits to come. -/
  | inStringEscU (digits : ℕ)
  | neg
  | zero
  | int
  | dot
  | frac
  | exp
  | expSign
  | expDigits
  /-- Inside one of the three literal names, with the characters to come. -/
  | literal (rest : List Char)
  deriving DecidableEq

structure Scanner where
  state : ScanState := .beginValue
  stack : List Frame := []
  deriving DecidableEq

def isDigit (c : Char) : Bool := '0' ≤ c ∧ c ≤ '9'

namespace Scanner

/-- The machine after a complete value. Outside all brackets only space may follow. -/
def stepEndValue (stack : List Frame) (c : Char) : Option Scanner :=
  match stack with
  | [] => if isSpace c then some ⟨.endValue, []⟩ else none
  | f :: rest =>
    if isSpace c then some ⟨.endValue, f :: rest⟩
    else match f with
      | .objectKey => if c = ':' then some ⟨.beginValue, .objectValue :: rest⟩ else none
      | .objectValue =>
        if c = ',' then some ⟨.beginString, .objectKey :: rest⟩
        else if c = '\x7d' then some ⟨.endValue, rest⟩ else none
      | .arrayValue =>
        if c = ',' then some ⟨.beginValue, .arrayValue :: rest⟩
        else if c = ']' then some ⟨.endValue, rest⟩ else none

def stepBeginValue (stack : List Frame) (c : Char) : Option Scanner :=
  if isSpace c then some ⟨.beginValue, stack⟩
  else if c = '\x7b' then some ⟨.beginStringOrEmpty, .objectKey :: stack⟩
  else if c = '[' then some ⟨.beginValueOrEmpty, .arrayValue :: stack⟩
  else if c = quote then some ⟨.inString, stack⟩
  else if c = '-' then some ⟨.neg, stack⟩
  else if c = '0' then some ⟨.zero, stack⟩
  else if c = 't' then some ⟨.literal ['r', 'u', 'e'], stack⟩
  else if c = 'f' then some ⟨.literal ['a', 'l', 's', 'e'], stack⟩
  else if c = 'n' then some ⟨.literal ['u', 'l', 'l'], stack⟩
  else if isDigit c then some ⟨.int, stack⟩
  else none

def stepBeginString (stack : List Frame) (c : Char) : Option Scanner :=
  if isSpace c then some ⟨.beginString, stack⟩
  else if c = quote then some ⟨.inString, stack⟩
  else none

/-- After a digit that may be the last of a number. -/
def stepNumber (next : ScanState) (stack : List Frame) (c : Char) : Option Scanner :=
  if isDigit c then some ⟨next, stack⟩
  else if next ≠ .expDigits ∧ (c = 'e' ∨ c = 'E') then some ⟨.exp, stack⟩
  else if next = .int ∧ c = '.' then some ⟨.dot, stack⟩
  else stepEndValue stack c

/-- One character. -/
def step (s : Scanner) (c : Char) : Option Scanner :=
  match s.state with
  | .beginValue => stepBeginValue s.stack c
  | .beginValueOrEmpty =>
    if isSpace c then some ⟨.beginValueOrEmpty, s.stack⟩
    else if c = ']' then stepEndValue s.stack c
    else stepBeginValue s.stack c
  | .beginString => stepBeginString s.stack c
  | .beginStringOrEmpty =>
    if isSpace c then some ⟨.beginStringOrEmpty, s.stack⟩
    else if c = '\x7d' then
      match s.stack with
      | [] => none
      | _ :: rest => stepEndValue (.objectValue :: rest) c
    else stepBeginString s.stack c
  | .endValue => stepEndValue s.stack c
  | .inString =>
    if c = quote then some ⟨.endValue, s.stack⟩
    else if c = '\\' then some ⟨.inStringEsc, s.stack⟩
    else if c.toNat < 0x20 then none
    else some s
  | .inStringEsc =>
    if c = 'u' then some ⟨.inStringEscU 4, s.stack⟩
    else if (shortEscape c).isSome then some ⟨.inString, s.stack⟩
    else none
  | .inStringEscU digits =>
    if (hexVal c).isSome then
      some ⟨if digits ≤ 1 then .inString else .inStringEscU (digits - 1), s.stack⟩
    else none
  | .neg =>
    if c = '0' then some ⟨.zero, s.stack⟩
    else if isDigit c then some ⟨.int, s.stack⟩
    else none
  | .zero =>
    if c = '.' then some ⟨.dot, s.stack⟩
    else if c = 'e' ∨ c = 'E' then some ⟨.exp, s.stack⟩
    else stepEndValue s.stack c
  | .int => stepNumber .int s.stack c
  | .dot => if isDigit c then some ⟨.frac, s.stack⟩ else none
  | .frac => stepNumber .frac s.stack c
  | .exp =>
    if c = '+' ∨ c = '-' then some ⟨.expSign, s.stack⟩
    else if isDigit c then some ⟨.expDigits, s.stack⟩
    else none
  | .expSign => if isDigit c then some ⟨.expDigits, s.stack⟩ else none
  | .expDigits => stepNumber .expDigits s.stack c
  | .literal rest =>
    match rest with
    | [] => none
    | [d] => if c = d then some ⟨.endValue, s.stack⟩ else none
    | d :: e :: rest => if c = d then some ⟨.literal (e :: rest), s.stack⟩ else none

def run (s : Scanner) (cs : List Char) : Option Scanner := cs.foldlM step s

/-- The states in which a text may end: after a complete value outside all brackets. -/
def done (s : Scanner) : Bool :=
  s.stack = [] ∧ s.state ∈ [ScanState.endValue, .zero, .int, .frac, .expDigits]

end Scanner

/-- `checkValid`. -/
def accepts (cs : List Char) : Bool := (Scanner.run {} cs).any Scanner.done

/-! ## Raw values -/

/-- The value the text starts with, and the text after it. -/
def takeValue (s : Scanner) : List Char → Option (List Char × List Char)
  | [] => if s.done then some ([], []) else none
  | c :: cs =>
    match s.step c with
    | some t => (takeValue t cs).map fun r ↦ (c :: r.1, r.2)
    | none => if s.done then some ([], c :: cs) else none

/-- The members of an object up to the closing brace, each value as raw text. -/
def rawMembers : ℕ → List Char → Option (List (String × List Char) × List Char)
  | 0, _ => none
  | fuel + 1, cs => do
    let (k, cs) ← readString cs
    let cs ← expect ':' cs
    let (v, cs) ← takeValue {} (skipSpace cs)
    match expect ',' cs with
    | some cs => (rawMembers fuel cs).map fun r ↦ ((k, v) :: r.1, r.2)
    | none => (expect '\x7d' cs).map fun rest ↦ ([(k, v)], rest)

/-- The elements of an array up to the closing bracket, as raw texts. -/
def rawElements : ℕ → List Char → Option (List (List Char) × List Char)
  | 0, _ => none
  | fuel + 1, cs => do
    let (v, cs) ← takeValue {} (skipSpace cs)
    match expect ',' cs with
    | some cs => (rawElements fuel cs).map fun r ↦ (v :: r.1, r.2)
    | none => (expect ']' cs).map fun rest ↦ ([v], rest)

/-- The members of the object a text holds. -/
def objectMembers (cs : List Char) : Option (List (String × List Char)) := do
  let cs ← expect '\x7b' cs
  match expect '\x7d' cs with
  | some _ => some []
  | none => (rawMembers cs.length cs).map Prod.fst

/-- The elements of the array a text holds. -/
def arrayElements (cs : List Char) : Option (List (List Char)) := do
  let cs ← expect '[' cs
  match expect ']' cs with
  | some _ => some []
  | none => (rawElements cs.length cs).map Prod.fst

def null : List Char := ['n', 'u', 'l', 'l']

/-- A text as `json.Marshal` writes it. -/
structure IsRaw (v : List Char) : Prop where
  accepts : accepts v
  head : skipSpace v = v
  line : '\n' ∉ v

end Json
