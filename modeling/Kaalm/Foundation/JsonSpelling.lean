import Kaalm.Foundation.JsonEscape
import Kaalm.Foundation.JsonReader

/-!
# How a JSON text spells its strings

A string in a JSON text may be spelled in many ways. Without a `\u` escape there are few left: a
short escape stands for a control character, a quote, a slash or a backslash, and for nothing else.
So a string whose characters are none of these is in the text as it is (`content_eq_encode`), and a
search for its bytes finds it.
-/

namespace Utf8

/-- A character that was decoded is in the bytes, unless it may stand for a broken encoding. -/
theorem exists_of_decode_cons {bs : List UInt8} {c : Char} {cs : List Char}
    (h : decode bs = c :: cs) (hc : c ≠ replacement) :
    ∃ rest, bs = String.utf8EncodeChar c ++ rest ∧ decode rest = cs := by
  cases bs with
  | nil => cases h
  | cons b bs =>
    rw [decode_cons, decodeRune] at h
    cases hchar : decodeChar (b :: bs) with
    | none =>
      rw [hchar] at h
      exact absurd (List.cons.inj h).1.symm hc
    | some d =>
      obtain ⟨rest, hrest⟩ := decodeChar_eq_some_iff.mp hchar
      rw [hchar] at h
      obtain ⟨rfl, hcs⟩ := List.cons.inj h
      refine ⟨rest, hrest.symm, ?_⟩
      rw [← hcs, ← hrest]
      simp only [List.drop_left]

theorem eq_encode_of_decode {bs : List UInt8} (h : replacement ∉ decode bs) :
    bs = encode (decode bs) := by
  induction hcs : decode bs generalizing bs with
  | nil =>
    cases bs with
    | nil => rfl
    | cons b bs =>
      rw [decode_cons] at hcs
      cases hcs
  | cons c cs ih =>
    rw [hcs, List.mem_cons, not_or] at h
    obtain ⟨rest, hbs, hrest⟩ := exists_of_decode_cons hcs (Ne.symm h.1)
    have hcons : encode (c :: cs) = String.utf8EncodeChar c ++ encode cs := List.flatMap_cons
    rw [hcons, hbs, ← ih (by rw [hrest]; exact h.2) hrest]

/-- Characters that were decoded one after the other are so in the bytes. -/
theorem encode_infix_of_decode {bs : List UInt8} {before cs after : List Char}
    (h : decode bs = before ++ (cs ++ after)) (hcs : replacement ∉ cs) : encode cs <:+: bs := by
  induction before generalizing bs with
  | nil =>
    refine List.IsPrefix.isInfix ?_
    induction cs generalizing bs with
    | nil => exact List.nil_prefix
    | cons c cs ih =>
      rw [List.mem_cons, not_or] at hcs
      obtain ⟨rest, rfl, hrest⟩ := exists_of_decode_cons h (Ne.symm hcs.1)
      have hcons : encode (c :: cs) = String.utf8EncodeChar c ++ encode cs := List.flatMap_cons
      rw [hcons]
      exact List.prefix_append_right_inj _ |>.mpr (ih hcs.2 hrest)
  | cons d before ih =>
    cases bs with
    | nil => cases h
    | cons b bs =>
      rw [decode_cons] at h
      have htail : decode (decodeRune (b :: bs)).2 = before ++ (cs ++ after) := (List.cons.inj h).2
      have hsuffix : (decodeRune (b :: bs)).2 <:+ b :: bs := by
        rw [decodeRune]
        cases decodeChar (b :: bs) with
        | none => exact List.drop_suffix _ _
        | some c => exact List.drop_suffix _ _
      exact (ih htail).trans hsuffix.isInfix

end Utf8

namespace GoJson

open JsonText Utf8

/-! ## Strings without `\u` -/

/-- The start of a `\u` escape. -/
def unicodeMark : List UInt8 := [Ascii.backslash, 0x75]

/-- The character of a token that is not a `\u` escape. -/
def Token.plain? : Token → Option Char
  | .char c _ => some c
  | .short _ d _ => some d
  | .unicode .. => none

/-- A string without `\u` escapes is read token by token. -/
theorem unquote_of_plain {ts : List Token} {cs : List Char} (h : ts.map Token.plain? = cs.map some)
    (rest : List Char) {fuel : ℕ} (hfuel : ts.length < fuel) :
    Json.unquote fuel (ts.flatMap Token.chars ++ Json.quote :: rest) = some (cs, rest) := by
  induction ts generalizing cs fuel with
  | nil =>
    obtain rfl : cs = [] := by simpa using h.symm
    cases fuel with
    | zero => cases hfuel
    | succ fuel => exact if_pos rfl
  | cons t ts ih =>
    cases cs with
    | nil => cases h
    | cons c cs =>
      obtain ⟨ht, hts⟩ := List.cons.inj h
      cases fuel with
      | zero => cases hfuel
      | succ fuel =>
        have hnext : t.next ts = (c, ts) := by
          cases t with
          | char d hd =>
            obtain rfl := Option.some.inj ht
            rfl
          | short e d hd =>
            obtain rfl := Option.some.inj ht
            rfl
          | unicode digits u hu => cases ht
        obtain ⟨d, ds, hchars, hquote, hread⟩ := Token.readChar_chars t ts rest
        rw [hnext] at hread
        rw [List.flatMap_cons, List.append_assoc, hchars, Json.unquote, if_neg hquote, hread]
        simp only [Option.bind_eq_bind, Option.bind_some, ih hts (Nat.lt_of_succ_lt_succ hfuel)]
        rfl

/-- A character that no short escape stands for and no broken encoding. -/
def isDirect (c : Char) : Bool :=
  c ∉ [Json.quote, '\\', '/', '\x08', '\x0c', '\n', '\r', '\t', replacement]

theorem not_isDirect_of_shortEscape {e d : Char} (h : Json.shortEscape e = some d) :
    isDirect d = false := by
  rw [Json.shortEscape] at h
  split_ifs at h with h₁ h₂ h₃ h₄ h₅ h₆
  · obtain rfl := Option.some.inj h
    rcases h₁ with rfl | rfl | rfl <;> decide
  all_goals
    obtain rfl := Option.some.inj h
    decide

/-- Content without `\u` is made of tokens that are no `\u` escapes. -/
theorem exists_plain_tokens {content : List UInt8} (hcontent : isContent content)
    (hmark : ¬ unicodeMark <:+: content) :
    ∃ ts : List Token, ∃ cs : List Char, ts.flatMap Token.chars = decode content
      ∧ ts.map Token.plain? = cs.map some := by
  rw [isContent, decide_eq_true_iff, foldlM_step] at hcontent
  obtain ⟨ts, hts⟩ := exists_tokens hcontent
  have hsome : ∀ t ∈ ts, ∃ c, t.plain? = some c := by
    intro t ht
    cases t with
    | char c h => exact ⟨c, rfl⟩
    | short e d h => exact ⟨d, rfl⟩
    | unicode digits u h =>
      -- Its first two characters would be in the bytes.
      obtain ⟨before, after, rfl⟩ := List.append_of_mem ht
      refine absurd ?_ hmark
      have hdecode : decode content = before.flatMap Token.chars
          ++ (['\\', 'u'] ++ (digits ++ after.flatMap Token.chars)) := by
        rw [← hts, List.flatMap_append, List.flatMap_cons]
        rfl
      exact encode_infix_of_decode hdecode (by decide)
  refine ⟨ts, ts.filterMap Token.plain?, hts, ?_⟩
  clear hts
  induction ts with
  | nil => rfl
  | cons t ts ih =>
    obtain ⟨c, hc⟩ := hsome t List.mem_cons_self
    rw [List.filterMap_cons_some hc, List.map_cons, List.map_cons, hc,
      ih fun t ht ↦ hsome t (List.mem_cons_of_mem _ ht)]

/-- A string without `\u` escapes, whose characters are direct, is in the text as it is. -/
theorem content_eq_encode {content : List UInt8} (hcontent : isContent content)
    (hmark : ¬ unicodeMark <:+: content) (hdirect : ∀ c ∈ (unquote content).toList, isDirect c) :
    content = encode (unquote content).toList := by
  obtain ⟨ts, cs, hts, hplain⟩ := exists_plain_tokens hcontent hmark
  have hlen := Token.length_le_chars ts
  have hread : (unquote content).toList = cs := by
    simp only [unquote]
    rw [← hts, unquote_of_plain hplain [] (by
      rw [List.length_append, List.length_singleton]
      omega), String.toList_ofList]
  rw [hread] at hdirect ⊢
  -- Every token is a character that stands for itself.
  have hchars : ts.flatMap Token.chars = cs := by
    clear hts hlen hread
    induction ts generalizing cs with
    | nil =>
      cases cs with
      | nil => rfl
      | cons c cs => cases hplain
    | cons t ts ih =>
      cases cs with
      | nil => cases hplain
      | cons c cs =>
        obtain ⟨ht, hrest⟩ := List.cons.inj hplain
        rw [List.flatMap_cons, ih cs (fun d hd ↦ hdirect d (List.mem_cons_of_mem _ hd)) hrest]
        cases t with
        | char d hd =>
          obtain rfl := Option.some.inj ht
          rfl
        | short e d hd =>
          obtain rfl := Option.some.inj ht
          have hfalse := not_isDirect_of_shortEscape hd.1
          rw [hdirect d List.mem_cons_self] at hfalse
          cases hfalse
        | unicode digits u hu => cases ht
  rw [hchars] at hts
  rw [hts]
  refine eq_encode_of_decode fun hrep ↦ ?_
  rw [← hts] at hrep
  exact absurd (hdirect _ hrep) (by decide)

/-! ## Folded names -/

/-- A lowercase letter. -/
def isLower (c : Char) : Bool := 'a' ≤ c ∧ c ≤ 'z'

theorem foldChar_of_isLower {l : Char} (h : isLower l) : foldChar l = l := by
  have hall : ∀ n < 0x80, isLower (Char.ofNat n) →
    foldChar (Char.ofNat n) = Char.ofNat n := by decide
  have hlt : l.toNat < 0x80 := lt_of_le_of_lt (of_decide_eq_true h).2 (by decide)
  have hl := hall l.toNat hlt
  rw [Char.ofNat_toNat] at hl
  exact hl h

/-- What folds to a letter is no escape and no broken encoding. -/
theorem isDirect_of_foldChar {c : Char} (h : isLower (foldChar c)) : isDirect c := by
  by_contra hnot
  have hmem : c ∈ [Json.quote, '\\', '/', '\x08', '\x0c', '\n', '\r', '\t', replacement] := by
    by_contra hmem
    exact hnot (decide_eq_true hmem)
  have hall : ∀ c ∈ [Json.quote, '\\', '/', '\x08', '\x0c', '\n', '\r', '\t', replacement],
      isLower (foldChar c) = false :=
    List.forall_iff_forall_mem.mp (by decide)
  rw [hall c hmem] at h
  cases h

/-- The bytes of a character that folds to a letter. -/
theorem encode_of_foldChar {c : Char} (h : isLower (foldChar c)) :
    (∃ b, String.utf8EncodeChar c = [b] ∧ b ||| 0x20 = UInt8.ofNat (foldChar c).toNat)
      ∨ (foldChar c = 's' ∧ String.utf8EncodeChar c = [0xc5, 0xbf])
      ∨ foldChar c = 'k' ∧ String.utf8EncodeChar c = [0xe2, 0x84, 0xaa] := by
  by_cases hs : c = '\u017f'
  · rw [hs]
    exact .inr (.inl ⟨rfl, by decide⟩)
  by_cases hk : c = '\u212a'
  · rw [hk]
    exact .inr (.inr ⟨by decide, by decide⟩)
  have hfold : foldChar c = c.toLower := by rw [foldChar, if_neg hs, if_neg hk]
  have hascii : c.toNat < 0x80 := by
    by_contra hhigh
    have hlower : c.toLower = c := by
      refine dif_neg ?_
      rintro ⟨-, hle⟩
      exact hhigh (lt_of_le_of_lt (UInt32.le_iff_toNat_le.mp hle) (by decide))
    rw [hfold, hlower] at h
    exact hhigh (lt_of_le_of_lt (of_decide_eq_true h).2 (by decide))
  have hall : ∀ n < 0x80, isLower (Char.ofNat n).toLower →
      UInt8.ofNat n ||| 0x20 = UInt8.ofNat (Char.ofNat n).toLower.toNat := by decide
  have hbyte := hall c.toNat hascii
  rw [Char.ofNat_toNat] at hbyte
  rw [hfold] at h ⊢
  exact .inl ⟨_, if_pos (Nat.le_of_lt_succ hascii), hbyte h⟩

/-- A name that counts as a field of lowercase letters is in the text in a folded spelling. -/
theorem exists_folded {n : Content} {field : String} (hfield : ∀ c ∈ field.toList, isLower c)
    (hmark : ¬ unicodeMark <:+: n.1) (hname : nameMatches (unquote n.1) field) :
    ∃ cs : List Char, n.1 = encode cs ∧ cs.map foldChar = field.toList := by
  have hfold : (unquote n.1).toList.map foldChar = field.toList := by
    rw [of_decide_eq_true hname, List.map_congr_left fun c hc ↦ foldChar_of_isLower (hfield c hc),
      List.map_id']
  refine ⟨(unquote n.1).toList, content_eq_encode n.2 hmark fun c hc ↦ ?_, hfold⟩
  refine isDirect_of_foldChar (hfield _ ?_)
  rw [← hfold]
  exact List.mem_map_of_mem hc

end GoJson

/-! ## The strings of a text -/

namespace JsonText

mutual

/-- The names of the members of the objects in a value, at any depth. -/
def Value.names : Value → List Content
  | .array elements => elements.names
  | .object members => members.names
  | .scalar _ | .string _ | .emptyArray _ | .emptyObject _ => []

def Elements.names : Elements → List Content
  | .one _ value _ => value.names
  | .more _ value _ rest => value.names ++ rest.names

def Members.names : Members → List Content
  | .one _ name _ _ value _ => name :: value.names
  | .more _ name _ _ value _ rest => name :: (value.names ++ rest.names)

end

theorem infix_quoted (content : List UInt8) : content <:+: quoted content :=
  ⟨[Ascii.quote], [Ascii.quote], rfl⟩

mutual

theorem infix_of_mem_valueNames {n : Content} : ∀ {v : Value}, n ∈ v.names → n.1 <:+: v.text
  | .array _, h =>
    (infix_of_mem_elementsNames h).trans ⟨[Ascii.lbracket], [Ascii.rbracket], rfl⟩
  | .object _, h =>
    (infix_of_mem_membersNames h).trans ⟨[Ascii.lbrace], [Ascii.rbrace], rfl⟩

theorem infix_of_mem_elementsNames {n : Content} :
    ∀ {es : Elements}, n ∈ es.names → n.1 <:+: es.text
  | .one before value after, h =>
    (infix_of_mem_valueNames h).trans ⟨before.1, after.1, by simp [Elements.text]⟩
  | .more before value after rest, h => by
    rcases List.mem_append.mp h with h | h
    · exact (infix_of_mem_valueNames h).trans
        ⟨before.1, after.1 ++ Ascii.comma :: rest.text, by simp [Elements.text]⟩
    · exact (infix_of_mem_elementsNames h).trans
        ⟨before.1 ++ (value.text ++ (after.1 ++ [Ascii.comma])), [], by simp [Elements.text]⟩

theorem infix_of_mem_membersNames {n : Content} :
    ∀ {ms : Members}, n ∈ ms.names → n.1 <:+: ms.text
  | .one before name afterName beforeValue value after, h => by
    rcases List.mem_cons.mp h with rfl | h
    · exact (infix_quoted n.1).trans ⟨before.1, _, by rw [Members.text, List.append_assoc]⟩
    · exact (infix_of_mem_valueNames h).trans
        ⟨before.1 ++ (quoted name.1 ++ (afterName.1 ++ Ascii.colon :: beforeValue.1)), after.1,
          by simp [Members.text]⟩
  | .more before name afterName beforeValue value after rest, h => by
    rcases List.mem_cons.mp h with rfl | h
    · exact (infix_quoted n.1).trans ⟨before.1, _, by rw [Members.text, List.append_assoc]⟩
    rcases List.mem_append.mp h with h | h
    · exact (infix_of_mem_valueNames h).trans
        ⟨before.1 ++ (quoted name.1 ++ (afterName.1 ++ Ascii.colon :: beforeValue.1)),
          after.1 ++ Ascii.comma :: rest.text, by simp [Members.text]⟩
    · exact (infix_of_mem_membersNames h).trans
        ⟨before.1 ++ (quoted name.1 ++ (afterName.1 ++ Ascii.colon :: (beforeValue.1
          ++ (value.text ++ (after.1 ++ [Ascii.comma]))))), [], by simp [Members.text]⟩

end

/-- The name and the value of a member are in the text. -/
theorem mem_toList {ms : Members} {m : Member} (h : m ∈ ms.toList) :
    m.name ∈ ms.names ∧ m.value.text <:+: ms.text := by
  induction ms using Members.toList.induct with
  | case1 before name afterName beforeValue value after =>
    obtain rfl := List.mem_singleton.mp h
    exact ⟨List.mem_cons_self, before.1 ++ (quoted name.1 ++ (afterName.1 ++ Ascii.colon
      :: beforeValue.1)), after.1, by simp [Members.text]⟩
  | case2 before name afterName beforeValue value after rest ih =>
    rcases List.mem_cons.mp h with rfl | h
    · exact ⟨List.mem_cons_self, before.1 ++ (quoted name.1 ++ (afterName.1 ++ Ascii.colon
        :: beforeValue.1)), after.1 ++ Ascii.comma :: rest.text, by simp [Members.text]⟩
    · obtain ⟨hname, hvalue⟩ := ih h
      refine ⟨List.mem_cons_of_mem _ (List.mem_append_right _ hname), hvalue.trans ?_⟩
      exact ⟨before.1 ++ (quoted name.1 ++ (afterName.1 ++ Ascii.colon :: (beforeValue.1
        ++ (value.text ++ (after.1 ++ [Ascii.comma]))))), [], by simp [Members.text]⟩

theorem mem_members {v : Value} {m : Member} (h : m ∈ v.members) :
    m.name ∈ v.names ∧ m.value.text <:+: v.text := by
  cases v with
  | object ms =>
    obtain ⟨hname, hvalue⟩ := mem_toList h
    exact ⟨hname, hvalue.trans ⟨[Ascii.lbrace], [Ascii.rbrace], rfl⟩⟩
  | scalar t => cases h
  | string n => cases h
  | emptyArray s => cases h
  | array es => cases h
  | emptyObject s => cases h

theorem infix_document (d : Document) : d.value.text <:+: d.text :=
  ⟨d.before.1, d.after.1, by rw [Document.text, List.append_assoc]⟩

end JsonText
