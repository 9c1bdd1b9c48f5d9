import Kaalm.Foundation.GoJson

/-!
# Escaping inside a JSON string

`json.Marshal` escapes `<`, `>`, `&`, U+2028 and U+2029 in a text that is already encoded. What the
string stands for stays the same (`unquote_escapeHTML`).

The bytes of a string need not be valid UTF-8, and the escaping is on bytes. It is right on the
characters too, because none of the bytes that it looks for can be in the middle of a character
(`decode_escapeHTML`). The characters are then cut into tokens, on which reading is one equation
(`Token.readChar_chars`) that escaping does not disturb.
-/

namespace Utf8

theorem length_decodeRune (b : UInt8) (bs : List UInt8) :
    (decodeRune (b :: bs)).2.length ≤ bs.length := by
  rw [decodeRune]
  cases decodeChar (b :: bs) with
  | none => exact Nat.le_refl _
  | some c =>
    have hpos := c.utf8Size_pos
    rw [List.length_drop, String.length_utf8EncodeChar, List.length_cons]
    omega

theorem decodeFrom_congr {fuel fuel' : ℕ} {bs : List UInt8} (h : bs.length ≤ fuel)
    (h' : bs.length ≤ fuel') : decodeFrom fuel bs = decodeFrom fuel' bs := by
  induction fuel generalizing fuel' bs with
  | zero =>
    obtain rfl := List.eq_nil_of_length_eq_zero (Nat.le_zero.mp h)
    cases fuel' <;> rfl
  | succ fuel ih =>
    cases bs with
    | nil => cases fuel' <;> rfl
    | cons b bs =>
      cases fuel' with
      | zero => cases h'
      | succ fuel' =>
        have hlen := length_decodeRune b bs
        rw [decodeFrom, decodeFrom, ih (hlen.trans (Nat.le_of_succ_le_succ h))
          (hlen.trans (Nat.le_of_succ_le_succ h'))]

theorem decode_cons (b : UInt8) (bs : List UInt8) :
    decode (b :: bs) = (decodeRune (b :: bs)).1 :: decode (decodeRune (b :: bs)).2 := by
  rw [decode, List.length_cons, decodeFrom, decode,
    decodeFrom_congr (length_decodeRune b bs) (Nat.le_refl _)]

theorem decode_append (c : Char) (bs : List UInt8) :
    decode (String.utf8EncodeChar c ++ bs) = c :: decode bs := by
  have hpos : (String.utf8EncodeChar c).length ≠ 0 := by
    rw [String.length_utf8EncodeChar]
    exact Nat.ne_of_gt c.utf8Size_pos
  have hread := decodeRune_encode c bs
  obtain ⟨b, l, hcons⟩ := List.exists_cons_of_ne_nil (List.ne_nil_of_length_pos
    (Nat.pos_of_ne_zero hpos))
  rw [hcons, List.cons_append] at hread ⊢
  rw [decode_cons, hread]

theorem decode_encode_append (cs : List Char) (bs : List UInt8) :
    decode (encode cs ++ bs) = cs ++ decode bs := by
  induction cs with
  | nil => rfl
  | cons c cs ih =>
    have hcons : encode (c :: cs) = String.utf8EncodeChar c ++ encode cs := List.flatMap_cons
    rw [hcons, List.append_assoc, decode_append, ih, List.cons_append]

theorem length_lt_append (c : Char) (bs : List UInt8) :
    bs.length < (String.utf8EncodeChar c ++ bs).length := by
  rw [List.length_append, String.length_utf8EncodeChar]
  exact Nat.lt_add_of_pos_left c.utf8Size_pos

/-- What can stand in an encoding after its first byte. -/
def isTail (b : UInt8) : Bool := ¬ b.IsUTF8FirstByte

theorem exists_encode_eq (c : Char) :
    ∃ b l, String.utf8EncodeChar c = b :: l ∧ isTail b = false ∧ ∀ x ∈ l, isTail x := by
  have hfirst : ∀ i (hi : i < (String.utf8EncodeChar c).length),
      ((String.utf8EncodeChar c).get ⟨i, hi⟩).IsUTF8FirstByte ↔ i = 0 := fun i hi ↦
    UInt8.isUTF8FirstByte_getElem_utf8EncodeChar
  have hpos : 0 < (String.utf8EncodeChar c).length := by
    rw [String.length_utf8EncodeChar]
    exact c.utf8Size_pos
  generalize String.utf8EncodeChar c = l at hfirst hpos
  cases l with
  | nil => cases hpos
  | cons b l =>
    refine ⟨b, l, rfl, decide_eq_false (not_not.mpr ((hfirst 0 hpos).mpr rfl)), fun x hx ↦ ?_⟩
    obtain ⟨⟨i, hi⟩, rfl⟩ := List.get_of_mem hx
    exact decide_eq_true fun h ↦
      absurd ((hfirst (i + 1) (Nat.succ_lt_succ hi)).mp h) (Nat.succ_ne_zero i)

theorem decodeChar_eq_some_iff {bs : List UInt8} {c : Char} :
    decodeChar bs = some c ↔ String.utf8EncodeChar c <+: bs := by
  constructor
  · intro h
    obtain ⟨l, hl⟩ := ByteArray.exists_of_utf8DecodeChar?_eq_some h
    have htake : bs.take 4 = String.utf8EncodeChar c ++ l.data.toList := by
      have hdata := congrArg (fun b : ByteArray ↦ b.data.toList) hl
      rwa [List.toList_data_toByteArray, ByteArray.toList_data_append, List.toList_data_toByteArray]
        at hdata
    exact List.IsPrefix.trans ⟨l.data.toList, htake.symm⟩ ( List.take_prefix 4 bs)
  · rintro ⟨rest, rfl⟩
    exact decodeChar_encode c rest

end Utf8

namespace GoJson

open JsonText Utf8

/-! ## Escaping -/

/-- A byte, escaped if it is `<`, `>` or `&`. -/
def escapeByte (c : UInt8) : List UInt8 :=
  if c = 0x3c then Ascii.bytes "\\u003c"
  else if c = 0x3e then Ascii.bytes "\\u003e"
  else if c = 0x26 then Ascii.bytes "\\u0026"
  else [c]

/-- The content of a string with `<`, `>`, `&`, U+2028 and U+2029 escaped. -/
def escapeHTML : List UInt8 → List UInt8
  | c :: d :: e :: cs =>
    if c = 0xe2 ∧ d = 0x80 ∧ e = 0xa8 then Ascii.bytes "\\u2028" ++ escapeHTML cs
    else if c = 0xe2 ∧ d = 0x80 ∧ e = 0xa9 then Ascii.bytes "\\u2029" ++ escapeHTML cs
    else escapeByte c ++ escapeHTML (d :: e :: cs)
  | c :: cs => escapeByte c ++ escapeHTML cs
  | [] => []

/-- The same for a character. -/
def escapeChar (c : Char) : List Char :=
  if c = '<' then ['\\', 'u', '0', '0', '3', 'c']
  else if c = '>' then ['\\', 'u', '0', '0', '3', 'e']
  else if c = '&' then ['\\', 'u', '0', '0', '2', '6']
  else if c = '\u2028' then ['\\', 'u', '2', '0', '2', '8']
  else if c = '\u2029' then ['\\', 'u', '2', '0', '2', '9']
  else [c]

/-- The text starts with U+2028 or U+2029. -/
def startsSeparator (bs : List UInt8) : Prop :=
  String.utf8EncodeChar '\u2028' <+: bs ∨ String.utf8EncodeChar '\u2029' <+: bs

theorem escapeHTML_cons {c : UInt8} {cs : List UInt8} (h : ¬ startsSeparator (c :: cs)) :
    escapeHTML (c :: cs) = escapeByte c ++ escapeHTML cs := by
  have hline : String.utf8EncodeChar '\u2028' = [0xe2, 0x80, 0xa8] := by decide
  have hpara : String.utf8EncodeChar '\u2029' = [0xe2, 0x80, 0xa9] := by decide
  rw [startsSeparator, hline, hpara] at h
  match cs with
  | [] => rfl
  | [d] => rfl
  | d :: e :: cs =>
    rw [escapeHTML, if_neg, if_neg]
    · rintro ⟨rfl, rfl, rfl⟩
      exact h (Or.inr ⟨cs, rfl⟩)
    · rintro ⟨rfl, rfl, rfl⟩
      exact h (Or.inl ⟨cs, rfl⟩)

theorem escapeHTML_line (cs : List UInt8) :
    escapeHTML (String.utf8EncodeChar '\u2028' ++ cs) = encode (escapeChar '\u2028')
      ++ escapeHTML cs := by
  have hline : String.utf8EncodeChar '\u2028' = [0xe2, 0x80, 0xa8] := by decide
  have henc : encode (escapeChar '\u2028') = Ascii.bytes "\\u2028" := by decide
  rw [hline, henc]
  rfl

theorem escapeHTML_paragraph (cs : List UInt8) :
    escapeHTML (String.utf8EncodeChar '\u2029' ++ cs) = encode (escapeChar '\u2029')
      ++ escapeHTML cs := by
  have hpara : String.utf8EncodeChar '\u2029' = [0xe2, 0x80, 0xa9] := by decide
  have henc : encode (escapeChar '\u2029') = Ascii.bytes "\\u2029" := by decide
  rw [hpara, henc]
  rfl

section Tail

variable {c : UInt8} {bs l rest : List UInt8}

theorem not_startsSeparator (h : c ≠ 0xe2) : ¬ startsSeparator (c :: bs) := by
  have hline : String.utf8EncodeChar '\u2028' = [0xe2, 0x80, 0xa8] := by decide
  have hpara : String.utf8EncodeChar '\u2029' = [0xe2, 0x80, 0xa9] := by decide
  rw [startsSeparator, hline, hpara]
  rintro (⟨rest, h'⟩ | ⟨rest, h'⟩)
  · exact h (List.cons.inj h').1.symm
  · exact h (List.cons.inj h').1.symm

theorem escapeHTML_of_isTail (h : isTail c) : escapeHTML (c :: bs) = c :: escapeHTML bs := by
  have hne : ∀ d : UInt8, isTail d = false → c ≠ d := fun d hd heq ↦ by
    rw [heq, hd] at h
    cases h
  rw [escapeHTML_cons (not_startsSeparator (hne _ (by decide))), escapeByte,
    if_neg (hne _ (by decide)), if_neg (hne _ (by decide)), if_neg (hne _ (by decide))]
  rfl

theorem escapeHTML_append_of_isTail (h : ∀ x ∈ l, isTail x) :
    escapeHTML (l ++ rest) = l ++ escapeHTML rest := by
  induction l with
  | nil => rfl
  | cons x l ih =>
    rw [List.cons_append, escapeHTML_of_isTail (h x List.mem_cons_self),
      ih fun y hy ↦ h y (List.mem_cons_of_mem _ hy), List.cons_append]

/-- A byte that can start a character gives bytes that start with one. -/
theorem head?_escapeHTML (h : isTail c = false) :
    ∃ d ds, escapeHTML (c :: bs) = d :: ds ∧ isTail d = false := by
  by_cases hsep : startsSeparator (c :: bs)
  · rcases hsep with ⟨rest, hrest⟩ | ⟨rest, hrest⟩
    · rw [← hrest, escapeHTML_line]
      exact ⟨0x5c, _, rfl, by decide⟩
    · rw [← hrest, escapeHTML_paragraph]
      exact ⟨0x5c, _, rfl, by decide⟩
  · rw [escapeHTML_cons hsep, escapeByte]
    split_ifs
    · exact ⟨0x5c, _, rfl, by decide⟩
    · exact ⟨0x5c, _, rfl, by decide⟩
    · exact ⟨0x5c, _, rfl, by decide⟩
    · exact ⟨c, _, rfl, h⟩

theorem prefix_escapeHTML_iff (h : ∀ x ∈ l, isTail x) : l <+: escapeHTML bs ↔ l <+: bs := by
  induction l generalizing bs with
  | nil => exact ⟨fun _ ↦ List.nil_prefix, fun _ ↦ List.nil_prefix⟩
  | cons x l ih =>
    have hx := h x List.mem_cons_self
    cases bs with
    | nil => rfl
    | cons c bs =>
      by_cases hc : isTail c
      · rw [escapeHTML_of_isTail hc, List.cons_prefix_cons, List.cons_prefix_cons,
          ih fun y hy ↦ h y (List.mem_cons_of_mem _ hy)]
      · have hc : isTail c = false := eq_false_of_ne_true hc
        have hne : ∀ {d}, isTail d = false → x ≠ d := fun hd heq ↦ by
          rw [heq, hd] at hx
          cases hx
        obtain ⟨d, ds, hds, hd⟩ : ∃ d ds, escapeHTML (c :: bs) = d :: ds ∧ isTail d = false :=
          head?_escapeHTML hc
        rw [hds, List.cons_prefix_cons, List.cons_prefix_cons]
        exact ⟨fun hp ↦ absurd hp.1 (hne hd), fun hp ↦ absurd hp.1 (hne hc)⟩

/-- What follows a byte does not make it the start of a character by being escaped. -/
theorem decodeChar_escapeHTML : decodeChar (c :: escapeHTML bs) = decodeChar (c :: bs) := by
  refine Option.ext fun ch ↦ ?_
  obtain ⟨b, l, hbl, -, hl⟩ := exists_encode_eq ch
  rw [decodeChar_eq_some_iff, decodeChar_eq_some_iff, hbl, List.cons_prefix_cons,
    List.cons_prefix_cons, prefix_escapeHTML_iff hl]

end Tail

theorem escapeChar_eq {c : Char} (h₁ : c ≠ '<') (h₂ : c ≠ '>') (h₃ : c ≠ '&') (h₄ : c ≠ '\u2028')
    (h₅ : c ≠ '\u2029') : escapeChar c = [c] := by
  rw [escapeChar, if_neg h₁, if_neg h₂, if_neg h₃, if_neg h₄, if_neg h₅]

/-- One of the ASCII characters that are escaped. -/
private theorem decode_escapeByte {c : Char} {b : UInt8} {bs : List UInt8}
    (hb : String.utf8EncodeChar c = [b]) (he : escapeByte b = encode (escapeChar c))
    (ih : decode (escapeHTML bs) = (decode bs).flatMap escapeChar) :
    decode (escapeByte b ++ escapeHTML bs) = (decode (b :: bs)).flatMap escapeChar := by
  have hread := decode_append c bs
  rw [hb, List.singleton_append] at hread
  rw [he, decode_encode_append, ih, hread, List.flatMap_cons]

/-- Escaping the bytes is escaping the characters. -/
theorem decode_escapeHTML (bs : List UInt8) :
    decode (escapeHTML bs) = (decode bs).flatMap escapeChar := by
  induction hlen : bs.length using Nat.strong_induction_on generalizing bs with
  | _ n ih =>
    subst hlen
    cases bs with
    | nil => rfl
    | cons b bs =>
      by_cases hsep : startsSeparator (b :: bs)
      · rcases hsep with ⟨rest, hrest⟩ | ⟨rest, hrest⟩
        · rw [← hrest, escapeHTML_line, decode_encode_append, decode_append, List.flatMap_cons,
            ih rest.length (hrest ▸ length_lt_append _ rest) rest rfl]
        · rw [← hrest, escapeHTML_paragraph, decode_encode_append, decode_append, List.flatMap_cons,
            ih rest.length (hrest ▸ length_lt_append _ rest) rest rfl]
      have hrest := ih bs.length (Nat.lt_succ_self _) bs rfl
      rw [escapeHTML_cons hsep]
      by_cases h₁ : b = 0x3c
      · rw [h₁]
        exact decode_escapeByte (c := '<') (by decide) (by decide) hrest
      by_cases h₂ : b = 0x3e
      · rw [h₂]
        exact decode_escapeByte (c := '>') (by decide) (by decide) hrest
      by_cases h₃ : b = 0x26
      · rw [h₃]
        exact decode_escapeByte (c := '&') (by decide) (by decide) hrest
      rw [escapeByte, if_neg h₁, if_neg h₂, if_neg h₃, List.singleton_append]
      cases hchar : decodeChar (b :: bs) with
      | none =>
        have hrune : ∀ cs, decodeChar (b :: cs) = none →
            decode (b :: cs) = replacement :: decode cs := by
          intro cs hcs
          rw [decode_cons, decodeRune, hcs]
          rfl
        rw [hrune bs hchar, hrune _ (decodeChar_escapeHTML.trans hchar), hrest, List.flatMap_cons]
        rfl
      | some c =>
        obtain ⟨rest, hbs⟩ := decodeChar_eq_some_iff.mp hchar
        obtain ⟨b', l, hbl, -, hl⟩ := exists_encode_eq c
        have hcons := hbs
        rw [hbl, List.cons_append] at hcons
        obtain ⟨rfl, rfl⟩ := List.cons.inj hcons
        have hne : ∀ (d : Char) (x : UInt8), String.utf8EncodeChar d = [x] → b' ≠ x → c ≠ d := by
          intro d x hd hx heq
          rw [heq, hd] at hbl
          exact hx (List.cons.inj hbl).1.symm
        have hesc : escapeChar c = [c] := by
          refine escapeChar_eq (hne _ _ (by decide) h₁) (hne _ _ (by decide) h₂)
            (hne _ _ (by decide) h₃) ?_ ?_
          · exact fun h ↦ hsep (Or.inl ⟨rest, h ▸ hbs⟩)
          · exact fun h ↦ hsep (Or.inr ⟨rest, h ▸ hbs⟩)
        rw [escapeHTML_append_of_isTail hl, ← List.cons_append, ← List.cons_append, ← hbl,
          decode_append, decode_append, List.flatMap_cons, hesc,
          ih rest.length (by rw [List.length_cons, List.length_append]; omega) rest rfl]
        rfl

/-! ## The characters of a string -/

/-- One character of string content. Those that are not ASCII stand for themselves. -/
def stepChar (s : StringState) (c : Char) : Option StringState :=
  if c.toNat < 0x80 then s.step (UInt8.ofNat c.toNat) else if s = .plain then some .plain else none

theorem step_of_high {b : UInt8} (hb : 0x80 ≤ b) (s : StringState) :
    s.step b = if s = .plain then some .plain else none := by
  have hall : ∀ n < 0x100, 0x80 ≤ n → UInt8.ofNat n ≠ Ascii.backslash
      ∧ ¬ (UInt8.ofNat n = Ascii.quote ∨ UInt8.ofNat n < 0x20) ∧ UInt8.ofNat n ≠ 0x75
      ∧ ¬ isShortEscape (UInt8.ofNat n) ∧ ¬ isHexDigit (UInt8.ofNat n) := by
    decide +kernel
  have hn := hall b.toNat b.toNat_lt (UInt8.le_iff_toNat_le.mp hb)
  rw [UInt8.ofNat_toNat] at hn
  obtain ⟨hback, hbare, hu, hshort, hhex⟩ := hn
  cases s with
  | plain => rw [StringState.step, if_neg hback, if_neg hbare, if_pos rfl]
  | escape => rw [StringState.step, if_neg hu, if_neg hshort, if_neg (by decide)]
  | hex n =>
    have hne : StringState.hex n ≠ .plain := fun h ↦ by cases h
    simp only [StringState.step, if_neg hhex, if_neg hne]

theorem encodeChar_ofNat {b : UInt8} (hb : b < 0x80) :
    String.utf8EncodeChar (Char.ofNat b.toNat) = [b] := by
  have hall : ∀ n < 0x80, String.utf8EncodeChar (Char.ofNat n) = [UInt8.ofNat n] := by decide
  have henc := hall b.toNat (UInt8.lt_iff_toNat_lt.mp hb)
  rwa [UInt8.ofNat_toNat] at henc

theorem foldlM_high {bs : List UInt8} (hne : bs ≠ []) (h : ∀ b ∈ bs, 0x80 ≤ b) (s : StringState) :
    bs.foldlM StringState.step s = if s = .plain then some .plain else none := by
  cases bs with
  | nil => exact absurd rfl hne
  | cons b bs =>
    rw [List.foldlM_cons, step_of_high (h b List.mem_cons_self)]
    split_ifs
    · exact of_decide_eq_true (isContent_of_forall fun c hc ↦ h c (List.mem_cons_of_mem _ hc))
    · rfl

/-- A character has the effect of its bytes. -/
theorem foldlM_encodeChar (c : Char) (s : StringState) :
    (String.utf8EncodeChar c).foldlM StringState.step s = stepChar s c := by
  rw [stepChar]
  rcases utf8EncodeChar_cases c with ⟨hascii, henc⟩ | hhigh
  · rw [henc, if_pos hascii, List.foldlM_cons]
    exact bind_pure _
  · obtain ⟨b, l, hbl, -, -⟩ := exists_encode_eq c
    have hne : String.utf8EncodeChar c ≠ [] := by
      rw [hbl]
      exact List.cons_ne_nil _ _
    have hc : ¬ c.toNat < 0x80 := fun hlt ↦ by
      have henc : String.utf8EncodeChar c = [UInt8.ofNat c.toNat] := if_pos (Nat.le_of_lt_succ hlt)
      have hle := hhigh (UInt8.ofNat c.toNat) (henc ▸ List.mem_singleton_self _)
      rw [UInt8.le_iff_toNat_le, UInt8.toNat_ofNat', Nat.mod_eq_of_lt (hlt.trans (by decide))]
        at hle
      exact Nat.not_lt.mpr hle hlt
    rw [foldlM_high hne hhigh, if_neg hc]

theorem foldlM_step (bs : List UInt8) (s : StringState) :
    bs.foldlM StringState.step s = (decode bs).foldlM stepChar s := by
  induction hlen : bs.length using Nat.strong_induction_on generalizing bs s with
  | _ n ih =>
    subst hlen
    cases bs with
    | nil => rfl
    | cons b bs =>
      cases hchar : decodeChar (b :: bs) with
      | some c =>
        obtain ⟨rest, hbs⟩ := decodeChar_eq_some_iff.mp hchar
        rw [← hbs, decode_append, List.foldlM_append, foldlM_encodeChar, List.foldlM_cons]
        exact bind_congr fun t ↦ ih rest.length (hbs ▸ length_lt_append c rest) rest t rfl
      | none =>
        have hdecode : decode (b :: bs) = replacement :: decode bs := by
          rw [decode_cons, decodeRune, hchar]
          rfl
        have hb : 0x80 ≤ b := by
          by_contra hlt
          have hsome : decodeChar (b :: bs) = some _ :=
            decodeChar_eq_some_iff.mpr ⟨bs,
              congrArg (· ++ bs) (encodeChar_ofNat (UInt8.not_le.mp hlt))⟩
          rw [hsome] at hchar
          cases hchar
        have hrep : stepChar s replacement = if s = .plain then some .plain else none :=
          if_neg (by decide)
        have hstep : s.step b = stepChar s replacement := (step_of_high hb s).trans hrep.symm
        rw [hdecode, List.foldlM_cons, List.foldlM_cons, hstep]
        exact bind_congr fun t ↦ ih bs.length (Nat.lt_succ_self _) bs t rfl

theorem foldlM_escapeChar {s t : StringState} {c : Char} (h : stepChar s c = some t) :
    (escapeChar c).foldlM stepChar s = some t := by
  by_cases hesc : escapeChar c = [c]
  · rw [hesc, List.foldlM_cons, h]
    rfl
  · -- the characters that are escaped are not part of an escape
    have hmem : c ∈ ['<', '>', '&', '\u2028', '\u2029'] := by
      by_contra hmem
      simp only [List.mem_cons, List.not_mem_nil, or_false, not_or] at hmem
      exact hesc (escapeChar_eq hmem.1 hmem.2.1 hmem.2.2.1 hmem.2.2.2.1 hmem.2.2.2.2)
    have hplain : ∀ c ∈ ['<', '>', '&', '\u2028', '\u2029'], stepChar .plain c = some .plain
        ∧ (escapeChar c).foldlM stepChar .plain = some .plain ∧ stepChar .escape c = none := by
      exact List.forall_iff_forall_mem.mp (by decide)
    obtain ⟨hstep, hfold, hescape⟩ := hplain c hmem
    cases s with
    | plain =>
      rw [hstep] at h
      rw [hfold, h]
    | escape =>
      rw [hescape] at h
      cases h
    | hex n =>
      have hhex : ∀ c ∈ ['<', '>', '&', '\u2028', '\u2029'], stepChar (.hex n) c = none := by
        simp only [List.forall_mem_cons, stepChar]
        exact ⟨rfl, rfl, rfl, rfl, rfl, List.forall_mem_nil _⟩
      rw [hhex c hmem] at h
      cases h

theorem isContent_escapeHTML {bs : List UInt8} (h : isContent bs) : isContent (escapeHTML bs) := by
  rw [isContent, decide_eq_true_iff, foldlM_step] at h ⊢
  rw [decode_escapeHTML]
  generalize decode bs = cs at h
  suffices ∀ s, cs.foldlM stepChar s = some .plain →
      (cs.flatMap escapeChar).foldlM stepChar s = some .plain from this _ h
  clear h
  induction cs with
  | nil => exact fun s h ↦ h
  | cons c cs ih =>
    intro s h
    obtain ⟨t, ht, h⟩ := Option.bind_eq_some_iff.mp h
    rw [List.flatMap_cons, List.foldlM_append, foldlM_escapeChar ht]
    exact ih t h

/-- What a string's content is made of: characters that stand for themselves, one-letter escapes,
and `\u` escapes. -/
inductive Token
  | char (c : Char) (h : c ≠ Json.quote ∧ c ≠ '\\' ∧ ¬ c.toNat < 0x20)
  | short (e d : Char) (h : Json.shortEscape e = some d ∧ e ≠ 'u' ∧ escapeChar e = [e])
  | unicode (digits : List Char) (u : ℕ)
      (h : (∀ rest, Json.hex4 (digits ++ rest) = some (u, rest))
        ∧ digits.flatMap escapeChar = digits)

namespace Token

def chars : Token → List Char
  | .char c _ => [c]
  | .short e _ _ => ['\\', e]
  | .unicode digits _ _ => '\\' :: 'u' :: digits

/-- The second half of a surrogate pair, when the content goes on with one. -/
def low? : List Token → Option (ℕ × List Token)
  | .unicode _ v _ :: ts => if 0xDC00 ≤ v ∧ v < 0xE000 then some (v, ts) else none
  | _ => none

/-- A surrogate with the second half of a pair that may follow it. -/
def pair {α : Type} (u : ℕ) (low : Option (ℕ × α)) (after : α) : Char × α :=
  match low with
  | some (v, rest) =>
    if u < 0xDC00 then (Char.ofNat (0x10000 + (u - 0xD800) * 0x400 + (v - 0xDC00)), rest)
    else ('\ufffd', after)
  | none => ('\ufffd', after)

theorem pair_map {α β : Type} (f : α → β) (u : ℕ) (low : Option (ℕ × α)) (after : α) :
    pair u (low.map fun r ↦ (r.1, f r.2)) (f after)
      = ((pair u low after).1, f (pair u low after).2) := by
  cases low with
  | none => rfl
  | some r =>
    by_cases hu : u < 0xDC00
    · simp only [Option.map_some, pair, if_pos hu]
    · simp only [Option.map_some, pair, if_neg hu]

theorem unicodeEscape_eq {cs rest : List Char} {u : ℕ} (h : Json.hex4 cs = some (u, rest)) :
    Json.unicodeEscape cs = some (if u < 0xD800 ∨ 0xE000 ≤ u then (Char.ofNat u, rest)
      else pair u (Json.lowSurrogate rest) rest) := by
  simp only [Json.unicodeEscape, h, Option.bind_eq_bind, Option.bind_some]
  split_ifs with hu hhigh
  · rfl
  · cases Json.lowSurrogate rest with
    | none => rfl
    | some r => simp only [pair, if_pos hhigh, Option.pure_def]
  · cases Json.lowSurrogate rest with
    | none => rfl
    | some r => simp only [pair, if_neg hhigh, Option.pure_def]

/-- The character that comes next, and what follows. -/
def next : Token → List Token → Char × List Token
  | .char c _, ts => (c, ts)
  | .short _ d _, ts => (d, ts)
  | .unicode _ u _, ts =>
    if u < 0xD800 ∨ 0xE000 ≤ u then (Char.ofNat u, ts) else pair u (low? ts) ts

theorem lowSurrogate_of_ne {c : Char} (hc : c ≠ '\\') (cs : List Char) :
    Json.lowSurrogate (c :: cs) = none := by
  cases cs with
  | nil => rfl
  | cons d cs => exact if_neg fun h ↦ hc h.1

theorem lowSurrogate_chars (ts : List Token) (rest : List Char) :
    Json.lowSurrogate (ts.flatMap chars ++ Json.quote :: rest)
      = (low? ts).map fun r ↦ (r.1, r.2.flatMap chars ++ Json.quote :: rest) := by
  cases ts with
  | nil => exact lowSurrogate_of_ne (by decide) rest
  | cons t ts =>
    rw [List.flatMap_cons, List.append_assoc]
    cases t with
    | char c h => exact lowSurrogate_of_ne h.2.1 _
    | short e d h => exact if_neg fun heq ↦ h.2.1 heq.2
    | unicode digits v h =>
      rw [chars, List.cons_append, List.cons_append, Json.lowSurrogate, if_pos ⟨rfl, rfl⟩, h.1,
        low?]
      by_cases hv : 0xDC00 ≤ v ∧ v < 0xE000
      · rw [if_pos hv]
        exact if_pos (decide_eq_true hv)
      · rw [if_neg hv]
        exact if_neg fun h ↦ hv (of_decide_eq_true h)

/-- One character of the content is read as `next` has it. -/
theorem readChar_chars (t : Token) (ts : List Token) (rest : List Char) :
    ∃ d cs, t.chars ++ (ts.flatMap chars ++ Json.quote :: rest) = d :: cs ∧ d ≠ Json.quote
      ∧ Json.readChar d cs
        = some ((next t ts).1, (next t ts).2.flatMap chars ++ Json.quote :: rest) := by
  have hslash : '\\' ≠ Json.quote := by decide
  cases t with
  | char c h =>
    refine ⟨c, ts.flatMap chars ++ Json.quote :: rest, rfl, h.1, ?_⟩
    simp only [Json.readChar, if_neg h.2.1, if_neg h.2.2]
    rfl
  | short e d h =>
    refine ⟨'\\', e :: (ts.flatMap chars ++ Json.quote :: rest), rfl, hslash, ?_⟩
    simp only [Json.readChar, if_true, if_neg h.2.1, h.1]
    rfl
  | unicode digits u h =>
    refine ⟨'\\', 'u' :: (digits ++ (ts.flatMap chars ++ Json.quote :: rest)), rfl, hslash, ?_⟩
    have hpair := pair_map (fun ts ↦ ts.flatMap chars ++ Json.quote :: rest) u (low? ts) ts
    rw [← lowSurrogate_chars] at hpair
    simp only [Json.readChar, if_true, unicodeEscape_eq (h.1 _), hpair, next]
    split_ifs
    · rfl
    · rfl

theorem length_next (t : Token) (ts : List Token) : (next t ts).2.length ≤ ts.length := by
  cases t with
  | char c h => exact Nat.le_refl _
  | short e d h => exact Nat.le_refl _
  | unicode digits u h =>
    have hlow : ∀ v rest, low? ts = some (v, rest) → rest.length ≤ ts.length := by
      intro v rest hrest
      cases ts with
      | nil => cases hrest
      | cons t ts =>
        cases t with
        | char c h => cases hrest
        | short e d h => cases hrest
        | unicode digits v h =>
          rw [low?] at hrest
          split_ifs at hrest
          cases hrest
          exact Nat.le_succ _
    rw [next]
    split_ifs
    · exact Nat.le_refl _
    · cases hl : low? ts with
      | none => exact Nat.le_refl _
      | some r =>
        simp only [pair]
        split_ifs
        · exact hlow r.1 r.2 hl
        · exact Nat.le_refl _

/-- The token with what is to be escaped escaped. -/
def escape : Token → Token
  | .char c h =>
    if c = '<' then .unicode ['0', '0', '3', 'c'] 0x3c ⟨fun _ ↦ rfl, rfl⟩
    else if c = '>' then .unicode ['0', '0', '3', 'e'] 0x3e ⟨fun _ ↦ rfl, rfl⟩
    else if c = '&' then .unicode ['0', '0', '2', '6'] 0x26 ⟨fun _ ↦ rfl, rfl⟩
    else if c = '\u2028' then .unicode ['2', '0', '2', '8'] 0x2028 ⟨fun _ ↦ rfl, rfl⟩
    else if c = '\u2029' then .unicode ['2', '0', '2', '9'] 0x2029 ⟨fun _ ↦ rfl, rfl⟩
    else .char c h
  | t => t

theorem chars_escape (t : Token) : t.escape.chars = t.chars.flatMap escapeChar := by
  cases t with
  | char c h =>
    rw [escape, chars, List.flatMap_singleton, escapeChar]
    split_ifs <;> rfl
  | short e d h =>
    rw [chars, List.flatMap_cons, List.flatMap_singleton, h.2.2]
    rfl
  | unicode digits u h =>
    rw [chars, List.flatMap_cons, List.flatMap_cons, h.2]
    rfl

theorem low?_map_escape (ts : List Token) :
    low? (ts.map escape) = (low? ts).map fun r ↦ (r.1, r.2.map escape) := by
  cases ts with
  | nil => rfl
  | cons t ts =>
    rw [List.map_cons]
    cases t with
    | char c h =>
      rw [escape]
      split_ifs <;> rfl
    | short e d h => rfl
    | unicode digits v h =>
      rw [escape, low?, low?]
      · split_ifs
        · rfl
        · rfl
      · exact nofun

theorem next_escape (t : Token) (ts : List Token) :
    next t.escape (ts.map escape) = ((next t ts).1, (next t ts).2.map escape) := by
  cases t with
  | char c h =>
    rw [escape]
    split_ifs with h₁ h₂ h₃ h₄ h₅
    · subst h₁
      rfl
    · subst h₂
      rfl
    · subst h₃
      rfl
    · subst h₄
      rfl
    · subst h₅
      rfl
    · rfl
  | short e d h => rfl
  | unicode digits u h =>
    have hpair := pair_map (List.map escape) u (low? ts) ts
    rw [← low?_map_escape] at hpair
    simp only [escape, next, hpair]
    split_ifs
    · rfl
    · rfl

/-- Escaping does not change what the content stands for. -/
theorem unquote_escape (ts : List Token) (rest : List Char) {fuel fuel' : ℕ} (h : ts.length < fuel)
    (h' : ts.length < fuel') :
    Json.unquote fuel ((ts.map escape).flatMap chars ++ Json.quote :: rest)
      = Json.unquote fuel' (ts.flatMap chars ++ Json.quote :: rest) := by
  induction hlen : ts.length using Nat.strong_induction_on generalizing ts fuel fuel' with
  | _ n ih =>
    subst hlen
    obtain ⟨fuel, rfl⟩ := Nat.exists_eq_succ_of_ne_zero (Nat.ne_of_gt (Nat.zero_lt_of_lt h))
    obtain ⟨fuel', rfl⟩ := Nat.exists_eq_succ_of_ne_zero (Nat.ne_of_gt (Nat.zero_lt_of_lt h'))
    cases ts with
    | nil => rfl
    | cons t ts =>
      have hnext := length_next t ts
      obtain ⟨d, cs, hcs, hd, hread⟩ := readChar_chars t.escape (ts.map escape) rest
      obtain ⟨d', cs', hcs', hd', hread'⟩ := readChar_chars t ts rest
      rw [next_escape] at hread
      rw [List.map_cons, List.flatMap_cons, List.flatMap_cons, List.append_assoc, List.append_assoc,
        hcs, hcs', Json.unquote, Json.unquote, if_neg hd, if_neg hd', hread, hread']
      simp only [Option.bind_eq_bind, Option.bind_some]
      rw [ih (next t ts).2.length (Nat.lt_succ_of_le hnext) (next t ts).2
        (Nat.lt_of_le_of_lt hnext (Nat.lt_of_succ_lt_succ h))
        (Nat.lt_of_le_of_lt hnext (Nat.lt_of_succ_lt_succ h')) rfl]

theorem length_le_chars (ts : List Token) : ts.length ≤ (ts.flatMap chars).length := by
  induction ts with
  | nil => exact Nat.le_refl 0
  | cons t ts ih =>
    have hpos : 1 ≤ t.chars.length := by
      cases t with
      | char c h => exact Nat.le_refl 1
      | short e d h => exact Nat.le_succ 1
      | unicode digits u h => exact Nat.succ_le_succ (Nat.zero_le _)
    rw [List.flatMap_cons, List.length_append, List.length_cons]
    omega

theorem flatMap_chars_escape (ts : List Token) :
    (ts.map escape).flatMap chars = (ts.flatMap chars).flatMap escapeChar := by
  induction ts with
  | nil => rfl
  | cons t ts ih =>
      rw [List.map_cons, List.flatMap_cons, List.flatMap_cons, List.flatMap_append, ih,
        chars_escape]

end Token

/-! ## Content is made of tokens -/

theorem stepChar_plain {c : Char} {s : StringState} (h : stepChar .plain c = some s) :
    (c = '\\' ∧ s = .escape)
      ∨ (c ≠ Json.quote ∧ c ≠ '\\' ∧ ¬ c.toNat < 0x20) ∧ s = .plain := by
  have hall : ∀ n < 0x80, ∀ s ∈ StringState.plain.step (UInt8.ofNat n),
      (Char.ofNat n = '\\' ∧ s = .escape)
        ∨ (Char.ofNat n ≠ Json.quote ∧ Char.ofNat n ≠ '\\' ∧ ¬ n < 0x20) ∧ s = .plain := by
    decide
  rw [stepChar] at h
  split_ifs at h with hascii hplain
  · have hc := hall c.toNat hascii s h
    rwa [Char.ofNat_toNat] at hc
  · have hlow : ∀ d : Char, d.toNat < 0x80 → c ≠ d := fun d hd heq ↦ hascii (heq ▸ hd)
    exact Or.inr
      ⟨⟨hlow _ (by decide), hlow _ (by decide), fun hlt ↦ hascii (hlt.trans (by decide))⟩,
        (Option.some.inj h).symm⟩

theorem stepChar_escape {c : Char} {s : StringState} (h : stepChar .escape c = some s) :
    (c = 'u' ∧ s = .hex 3)
      ∨ (∃ d, Json.shortEscape c = some d ∧ c ≠ 'u' ∧ escapeChar c = [c]) ∧ s = .plain := by
  have hall : ∀ n < 0x80, ∀ s ∈ StringState.escape.step (UInt8.ofNat n),
      (Char.ofNat n = 'u' ∧ s = .hex 3)
        ∨ ((Json.shortEscape (Char.ofNat n)).isSome ∧ Char.ofNat n ≠ 'u'
          ∧ escapeChar (Char.ofNat n) = [Char.ofNat n]) ∧ s = .plain := by
    decide
  rw [stepChar] at h
  split_ifs at h with hascii hplain
  · have hc := hall c.toNat hascii s h
    rw [Char.ofNat_toNat] at hc
    rcases hc with hu | ⟨⟨hshort, hne, hesc⟩, hs⟩
    · exact Or.inl hu
    · obtain ⟨d, hd⟩ := Option.isSome_iff_exists.mp hshort
      exact Or.inr ⟨⟨d, hd, hne, hesc⟩, hs⟩
  · cases hplain

/-- The state after a digit of a `\u` escape. -/
def afterDigit : ℕ → StringState
  | 0 => .plain
  | n + 1 => .hex n

theorem stepChar_hex {n : ℕ} {c : Char} {s : StringState} (h : stepChar (.hex n) c = some s) :
    ((Json.hexVal c).isSome ∧ escapeChar c = [c]) ∧ s = afterDigit n := by
  have hall : ∀ n < 0x80, isHexDigit (UInt8.ofNat n) →
      (Json.hexVal (Char.ofNat n)).isSome ∧ escapeChar (Char.ofNat n) = [Char.ofNat n] := by
    decide
  rw [stepChar] at h
  split_ifs at h with hascii hplain
  · simp only [StringState.step] at h
    split_ifs at h with hhex
    have hc := hall c.toNat hascii hhex
    rw [Char.ofNat_toNat] at hc
    refine ⟨hc, ?_⟩
    cases n with
    | zero => exact (Option.some.inj h).symm
    | succ n => exact (Option.some.inj h).symm
  · cases hplain

/-- The digits of a `\u` escape. -/
theorem exists_digits {n : ℕ} {cs : List Char} (h : cs.foldlM stepChar (.hex n) = some .plain) :
    ∃ ds rest, cs = ds ++ rest ∧ ds.length = n + 1
      ∧ (∀ d ∈ ds, (Json.hexVal d).isSome ∧ escapeChar d = [d])
      ∧ rest.foldlM stepChar .plain = some .plain := by
  induction n generalizing cs with
  | zero =>
    cases cs with
    | nil => cases h
    | cons c cs =>
      obtain ⟨s, hs, h⟩ := Option.bind_eq_some_iff.mp h
      obtain ⟨hc, rfl⟩ := stepChar_hex hs
      exact ⟨[c], cs, rfl, rfl, List.forall_mem_singleton.mpr hc, h⟩
  | succ n ih =>
    cases cs with
    | nil => cases h
    | cons c cs =>
      obtain ⟨s, hs, h⟩ := Option.bind_eq_some_iff.mp h
      obtain ⟨hc, rfl⟩ := stepChar_hex hs
      obtain ⟨ds, rest, rfl, hlen, hds, hrest⟩ := ih h
      exact ⟨c :: ds, rest, rfl, congrArg (· + 1) hlen, List.forall_mem_cons.mpr ⟨hc, hds⟩, hrest⟩

theorem exists_hex4 {ds : List Char} (hlen : ds.length = 4) (h : ∀ d ∈ ds, (Json.hexVal d).isSome) :
    ∃ u, ∀ rest, Json.hex4 (ds ++ rest) = some (u, rest) := by
  match ds, hlen with
  | [a, b, c, d], _ =>
    obtain ⟨a', ha⟩ := Option.isSome_iff_exists.mp (h a (by simp))
    obtain ⟨b', hb⟩ := Option.isSome_iff_exists.mp (h b (by simp))
    obtain ⟨c', hc⟩ := Option.isSome_iff_exists.mp (h c (by simp))
    obtain ⟨d', hd⟩ := Option.isSome_iff_exists.mp (h d (by simp))
    refine ⟨((a' * 16 + b') * 16 + c') * 16 + d', fun rest ↦ ?_⟩
    simp only [List.cons_append, List.nil_append, Json.hex4, ha, hb, hc, hd]
    rfl

theorem exists_tokens {cs : List Char} (h : cs.foldlM stepChar .plain = some .plain) :
    ∃ ts : List Token, ts.flatMap Token.chars = cs := by
  induction hlen : cs.length using Nat.strong_induction_on generalizing cs with
  | _ n ih =>
    subst hlen
    cases cs with
    | nil => exact ⟨[], rfl⟩
    | cons c cs =>
      obtain ⟨s, hs, h⟩ := Option.bind_eq_some_iff.mp h
      rcases stepChar_plain hs with ⟨rfl, rfl⟩ | ⟨hc, rfl⟩
      · cases cs with
        | nil => cases h
        | cons e cs =>
          obtain ⟨s, hs, h⟩ := Option.bind_eq_some_iff.mp h
          rcases stepChar_escape hs with ⟨rfl, rfl⟩ | ⟨⟨d, hd⟩, rfl⟩
          · obtain ⟨ds, rest, rfl, hds, hall, hrest⟩ := exists_digits h
            obtain ⟨u, hu⟩ := exists_hex4 hds fun d hd ↦ (hall d hd).1
            obtain ⟨ts, hts⟩ := ih rest.length (by simp; omega) hrest rfl
            have hesc : ds.flatMap escapeChar = ds := by
              rw [List.flatMap_congr fun d hd ↦ (hall d hd).2, List.flatMap_singleton']
            exact ⟨.unicode ds u ⟨hu, hesc⟩ :: ts, by rw [List.flatMap_cons, hts]; rfl⟩
          · obtain ⟨ts, hts⟩ := ih cs.length (by simp only [List.length_cons]; omega) h rfl
            exact ⟨.short e d hd :: ts, by rw [List.flatMap_cons, hts]; rfl⟩
      · obtain ⟨ts, hts⟩ := ih cs.length (Nat.lt_succ_self _) h rfl
        exact ⟨.char c hc :: ts, by rw [List.flatMap_cons, hts]; rfl⟩

theorem unquote_escapeHTML {bs : List UInt8} (h : isContent bs) :
    unquote (escapeHTML bs) = unquote bs := by
  rw [isContent, decide_eq_true_iff, foldlM_step] at h
  obtain ⟨ts, hts⟩ := exists_tokens h
  have hlen := Token.length_le_chars ts
  have hlen' := Token.length_le_chars (ts.map Token.escape)
  rw [List.length_map, Token.flatMap_chars_escape] at hlen'
  simp only [unquote]
  rw [decode_escapeHTML, ← hts, ← Token.flatMap_chars_escape,
    Token.unquote_escape ts [] (by
      rw [Token.flatMap_chars_escape, List.length_append, List.length_singleton]
      omega) (show ts.length < (ts.flatMap Token.chars ++ [Json.quote]).length by
      rw [List.length_append, List.length_singleton]
      omega)]

end GoJson
