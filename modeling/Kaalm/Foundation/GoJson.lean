import Kaalm.Foundation.Decimal
import Kaalm.Foundation.Float64
import Kaalm.Foundation.Json
import Kaalm.Foundation.JsonText
import Kaalm.Foundation.Utf8

/-!
# Decoding JSON into Go values

`json.Unmarshal` after its syntax check. A text is read into a tree, with strings unquoted, and the
tree is decoded into a value that is already there: a `null` mostly changes nothing, a repeated
member is decoded on top of the earlier one, and a value of the wrong type is noted and skipped, so
that the rest is still decoded.

Field names are compared as `encoding/json` does, ignoring case with Unicode's simple folding. For a
field name of ASCII characters that is ASCII case, U+017F for `s` and U+212A for `k`.

The limit on nesting, the range of `float64` in an `any`, and what a slice has beyond its length are
not modelled.
-/

namespace GoJson

open JsonText

/-- The string that a string's content stands for. -/
def unquote (content : List UInt8) : String :=
  let cs := Utf8.decode content ++ [Json.quote]
  match Json.unquote cs.length cs with
  | some (s, _) => String.ofList s
  | none => ""

def foldChar (c : Char) : Char :=
  if c = '\u017f' then 's' else if c = '\u212a' then 'k' else c.toLower

/-- `strings.EqualFold`, for a field name of ASCII characters. -/
def nameMatches (name field : String) : Bool :=
  name.toList.map foldChar = field.toList.map foldChar

inductive Tree
  | null
  | bool (b : Bool)
  | number (text : List UInt8)
  | string (s : String)
  | array (elements : List Tree)
  | object (members : List (String × Tree))

mutual

def ofValue : Value → Tree
  | .scalar text =>
    if text.1 = Ascii.bytes "null" then .null
    else if text.1 = Ascii.bytes "true" then .bool true
    else if text.1 = Ascii.bytes "false" then .bool false
    else .number text.1
  | .string content => .string (unquote content.1)
  | .emptyArray _ => .array []
  | .array elements => .array (ofElements elements)
  | .emptyObject _ => .object []
  | .object members => .object (ofMembers members)

def ofElements : Elements → List Tree
  | .one _ value _ => [ofValue value]
  | .more _ value _ rest => ofValue value :: ofElements rest

def ofMembers : Members → List (String × Tree)
  | .one _ name _ _ value _ => [(unquote name.1, ofValue value)]
  | .more _ name _ _ value _ rest => (unquote name.1, ofValue value) :: ofMembers rest

end

/-- The member of a decoded `map[string]any`: the last one of the name. -/
def Tree.member (t : Tree) (name : String) : Tree :=
  match t with
  | .object members =>
    match members.findRev? fun m ↦ m.1 = name with
    | some m => m.2
    | none => .null
  | _ => .null

def Tree.isObject : Tree → Bool
  | .object _ => true
  | _ => false

def Tree.string? : Tree → Option String
  | .string s => some s
  | _ => none

/-- A number as Go reads it into a `float64` and then cuts off to an integer. -/
def Tree.int? : Tree → Option ℤ
  | .number text =>
    ((Decimal.parseFloat (String.ofList (Utf8.decode text))).bind Float64.round).map Float64.trunc
  | _ => none

/-- Decoding on top of a value. The flag is an error of type, which does not end the decoding. -/
abbrev Decoder (α : Type) := α → Tree → α × Bool

namespace Decoder

variable {α : Type}

def string : Decoder String
  | old, .null => (old, false)
  | _, .string s => (s, false)
  | old, _ => (old, true)

/-- `strconv.ParseInt` of a JSON number: an integer without point or exponent, and in range. -/
def parseInt (text : List UInt8) : Option ℤ :=
  let digits (cs : List Char) : Option ℤ :=
    if cs.all Char.isDigit then some (Nat.ofDigitChars 10 cs 0) else none
  (match Utf8.decode text with
    | '-' :: cs => (digits cs).map fun n ↦ -n
    | cs => digits cs).filter fun n ↦ -2 ^ 63 ≤ n ∧ n < 2 ^ 63

def int64 : Decoder ℤ
  | old, .null => (old, false)
  | old, .number text =>
    match parseInt text with
    | some n => (n, false)
    | none => (old, true)
  | old, _ => (old, true)

/-- A `float64` that is only used cut off to an integer. -/
def float64 : Decoder ℤ
  | old, .null => (old, false)
  | old, t =>
    match t.int? with
    | some n => (n, false)
    | none => (old, true)

def any : Decoder Tree := fun _ t ↦ (t, false)

/-- A pointer: `null` clears it, anything else is decoded into what it points to. -/
def pointer (zero : α) (d : Decoder α) : Decoder (Option α)
  | _, .null => (none, false)
  | old, t => ((some (d (old.getD zero) t).1), (d (old.getD zero) t).2)

/-- The elements are decoded on top of the earlier ones. -/
def elements (zero : α) (d : Decoder α) : List α → List Tree → List α × Bool
  | _, [] => ([], false)
  | old, t :: ts =>
    let first := d (old.headD zero) t
    let rest := elements zero d old.tail ts
    (first.1 :: rest.1, first.2 || rest.2)

def slice (zero : α) (d : Decoder α) : Decoder (List α)
  | _, .null => ([], false)
  | old, .array ts => elements zero d old ts
  | old, _ => (old, true)

/-- The members of an object, each decoded into the field that its name is for, if there is one. -/
def struct (fields : List (String × Decoder α)) : Decoder α
  | old, .null => (old, false)
  | old, .object members => members.foldl (fun r m ↦
      match fields.find? fun f ↦ nameMatches m.1 f.1 with
      | some f => ((f.2 r.1 m.2).1, r.2 || (f.2 r.1 m.2).2)
      | none => r) (old, false)
  | old, _ => (old, true)

/-- A field of a struct. -/
def field {β : Type} (get : α → β) (set : α → β → α) (d : Decoder β) : Decoder α := fun old t ↦
  (set old (d (get old) t).1, (d (get old) t).2)

end Decoder

/-! ## Encoding strings -/

/-- What `json.Marshal` of a string puts between the quotes. A byte that is not valid UTF-8 becomes
U+FFFD. -/
def marshalContent (s : List UInt8) : List UInt8 :=
  Utf8.encode ((Utf8.decode s).flatMap Json.escape)

/-- `json.Unmarshal` into a zero value: `none` is an error of syntax, and the flag one of type. -/
def unmarshal {α : Type} (zero : α) (d : Decoder α) (data : List UInt8) : Option (α × Bool) :=
  (parse data).map fun doc ↦ d zero (ofValue doc.value)

/-! ## Decoding an encoded string -/

/-- What stands for a string: the characters of `cs` are written as `enc` does, which reads back. -/
theorem unquote_encode {α : Type*} {enc : α → List Char} {dec : α → Char}
    (henc : ∀ a rest, ∃ d cs, enc a ++ rest = d :: cs ∧ d ≠ Json.quote
      ∧ Json.readChar d cs = some (dec a, rest)) (cs : List α) :
    unquote (Utf8.encode (cs.flatMap enc)) = String.ofList (cs.map dec) := by
  have hlen := Json.length_le_flatMap henc cs
  simp only [unquote, Utf8.decode_encode]
  rw [Json.unquote_flatMap henc cs [] _ (by
    rw [List.length_append, List.length_singleton]
    omega)]

theorem unquote_marshalContent (s : List UInt8) :
    unquote (marshalContent s) = String.ofList (Utf8.decode s) := by
  rw [marshalContent, unquote_encode Json.readChar_escape, List.map_id']

theorem isContent_append {bs cs : List UInt8} (hbs : isContent bs) (hcs : isContent cs) :
    isContent (bs ++ cs) := by
  rw [isContent, decide_eq_true_iff] at hbs hcs ⊢
  rw [List.foldlM_append, hbs]
  exact hcs

theorem isContent_of_forall {bs : List UInt8} (h : ∀ b ∈ bs, 0x80 ≤ b) : isContent bs := by
  induction bs with
  | nil => rfl
  | cons b bs ih =>
    have hb : StringState.plain.step b = some .plain := by
      have hle := h b List.mem_cons_self
      have hback : b ≠ Ascii.backslash := by
        rintro rfl
        exact absurd hle (by decide)
      have hquote : b ≠ Ascii.quote := by
        rintro rfl
        exact absurd hle (by decide)
      have hctl : ¬ b < 0x20 :=
        fun hlt ↦ absurd (UInt8.le_trans hle (UInt8.le_of_lt hlt)) (by decide)
      rw [StringState.step, if_neg hback, if_neg (not_or.mpr ⟨hquote, hctl⟩)]
    rw [isContent, List.foldlM_cons, hb]
    exact ih fun c hc ↦ h c (List.mem_cons_of_mem _ hc)

theorem isContent_encode {c : Char} (hquote : c ≠ Json.quote) (hback : c ≠ '\\')
    (hctl : ¬ c.toNat < 0x20) : isContent (Utf8.encode [c]) := by
  rw [Utf8.encode, List.flatMap_cons, List.flatMap_nil, List.append_nil]
  rcases Utf8.utf8EncodeChar_cases c with ⟨hascii, henc⟩ | hhigh
  · have hstep : ∀ n < 0x80, ¬ n < 0x20 → n ≠ 0x22 → n ≠ 0x5c → isContent [UInt8.ofNat n] := by
      decide
    rw [henc]
    refine hstep c.toNat hascii hctl ?_ ?_
    · intro h
      exact hquote (Char.ext (UInt32.toNat_inj.mp h))
    · intro h
      exact hback (Char.ext (UInt32.toNat_inj.mp h))
  · exact isContent_of_forall hhigh

theorem isContent_escape (c : Char) : isContent (Utf8.encode (Json.escape c)) := by
  rw [Json.escape]
  cases hshort : Json.shortCode c with
  | some e =>
    have hcode : ∀ e ∈ [Json.quote, '\\', 'b', 'f', 'n', 'r', 't'],
        isContent (Utf8.encode ['\\', e]) := by
      exact List.forall_iff_forall_mem.mp (by decide)
    refine hcode e ?_
    rw [Json.shortCode] at hshort
    split_ifs at hshort <;> obtain rfl := Option.some.inj hshort <;> decide
  | none =>
    obtain ⟨hquote, hback⟩ := Json.ne_of_shortCode_eq_none hshort
    simp only
    split_ifs with hlow h₁ h₂
    · have hcode : ∀ n < 0x40, isContent (Utf8.encode
          ['\\', 'u', '0', '0', Nat.digitChar (n / 16), Nat.digitChar (n % 16)]) := by
        decide
      refine hcode c.toNat ?_
      rcases of_decide_eq_true hlow with h | rfl | rfl | rfl
      · omega
      all_goals decide
    · decide
    · decide
    · exact isContent_encode hquote hback fun h ↦ hlow (decide_eq_true (Or.inl h))

theorem isContent_marshalContent (s : List UInt8) : isContent (marshalContent s) := by
  rw [marshalContent]
  induction Utf8.decode s with
  | nil => rfl
  | cons c cs ih =>
    rw [List.flatMap_cons, Utf8.encode_append]
    exact isContent_append (isContent_escape c) ih

/-- Bytes that are written as they are. -/
def isBare (b : UInt8) : Bool := 0x20 ≤ b ∧ b < 0x80 ∧ b ≠ Ascii.quote ∧ b ≠ Ascii.backslash

theorem isBare_of_isContent {content : List UInt8} (hcontent : isContent content)
    (hascii : ∀ b ∈ content, b ≠ Ascii.backslash ∧ b < 0x80) : ∀ b ∈ content, isBare b := by
  induction content with
  | nil => exact nofun
  | cons b content ih =>
    obtain ⟨hback, hb⟩ := hascii b List.mem_cons_self
    rw [isContent, decide_eq_true_iff, List.foldlM_cons, StringState.step, if_neg hback] at hcontent
    split_ifs at hcontent with hbare
    · cases hcontent
    · obtain ⟨hquote, hctl⟩ := not_or.mp hbare
      intro c hc
      rcases List.mem_cons.mp hc with rfl | hc
      · exact decide_eq_true ⟨UInt8.not_lt.mp hctl, hb, hquote, hback⟩
      · exact ih (decide_eq_true hcontent) (fun d hd ↦ hascii d (List.mem_cons_of_mem _ hd)) c hc

/-- The character that a bare byte is. -/
theorem char_of_isBare {b : UInt8} (h : isBare b) :
    String.utf8EncodeChar (Char.ofNat b.toNat) = [b] ∧ Char.ofNat b.toNat ≠ Json.quote
      ∧ Char.ofNat b.toNat ≠ '\\' ∧ ¬ (Char.ofNat b.toNat).toNat < 0x20 := by
  have hall : ∀ n < 0x80, isBare (UInt8.ofNat n) →
    String.utf8EncodeChar (Char.ofNat n) = [UInt8.ofNat n]
      ∧ Char.ofNat n ≠ Json.quote ∧ Char.ofNat n ≠ '\\' ∧ ¬ (Char.ofNat n).toNat < 0x20 := by
    decide
  have hlt : b.toNat < 0x80 := (of_decide_eq_true h).2.1
  have hb := hall b.toNat hlt
  rw [UInt8.ofNat_toNat] at hb
  exact hb h

/-- A string of ASCII characters without escapes stands for itself. -/
theorem unquote_of_ascii {content : List UInt8} (hcontent : isContent content)
    (hascii : ∀ b ∈ content, b ≠ Ascii.backslash ∧ b < 0x80) :
    unquote content = String.ofList (Utf8.decode content) := by
  have hread : ∀ (b : { b : UInt8 // isBare b }) (rest : List Char),
      ∃ d cs, [Char.ofNat b.1.toNat] ++ rest = d :: cs ∧ d ≠ Json.quote
        ∧ Json.readChar d cs = some (Char.ofNat b.1.toNat, rest) := by
    intro b rest
    obtain ⟨-, hquote, hback, hctl⟩ := char_of_isBare b.2
    exact ⟨_, rest, rfl, hquote, by simp only [Json.readChar, if_neg hback, if_neg hctl]⟩
  obtain ⟨bs, rfl⟩ : ∃ bs : List { b : UInt8 // isBare b }, bs.map Subtype.val = content :=
    CanLift.prf content (isBare_of_isContent hcontent hascii)
  have henc : Utf8.encode (bs.flatMap fun b ↦ [Char.ofNat b.1.toNat]) = bs.map Subtype.val := by
    clear hcontent hascii
    induction bs with
    | nil => rfl
    | cons b bs ih =>
      rw [List.flatMap_cons, Utf8.encode_append, ih, Utf8.encode, List.flatMap_singleton,
        (char_of_isBare b.2).1]
      rfl
  rw [← henc, unquote_encode hread, Utf8.decode_encode, List.map_eq_flatMap]

end GoJson
