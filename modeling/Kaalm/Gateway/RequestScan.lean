import Kaalm.Gateway.RequestBody

/-!
# The walk over a request body

What the functions that walk over JSON do on the text of a document: each stops where its part of
the grammar ends. So the walk over an object sees its members one by one, at the offsets where their
texts are (`walkMembers_object`).
-/

namespace Kaalm.Gateway

open Ascii JsonText

variable {b rest : List UInt8} {i : ℕ}

theorem drop_of_append {l : List UInt8} (h : b.drop i = l ++ rest) :
    b.drop (i + l.length) = rest := by
  rw [← List.drop_drop, h, List.drop_left]

theorem drop_of_cons {c : UInt8} (h : b.drop i = c :: rest) : b.drop (i + 1) = rest :=
  drop_of_append (l := [c]) h

theorem getElem_of_cons {c : UInt8} (h : b.drop i = c :: rest) : b[i]? = some c := by
  rw [← List.head?_drop, h]
  rfl

theorem Span.bytes_of_append {cs : List UInt8} (h : b.drop i = cs ++ rest) :
    Span.bytes ⟨i, i + cs.length⟩ b = cs := by
  rw [Span.bytes, h, Nat.add_sub_cancel_left, List.take_left]

/-! ## Tokens -/

theorem skipJSONSpace_eq {s : Space} (h : b.drop i = s.1 ++ rest) (hrest : StartsToken rest) :
    skipJSONSpace b i = i + s.1.length := by
  rw [skipJSONSpace, h]
  exact congrArg (fun t : Space ↦ i + t.1.length) (takeSpace_append s hrest)

theorem stringLength_quote (cs : List UInt8) : stringLength (quote :: cs) = some 1 := by
  cases cs with
  | nil => rfl
  | cons d cs => rfl

theorem stringLength_cons {c : UInt8} (hback : c ≠ backslash) (hquote : c ≠ quote)
    (cs : List UInt8) :
    stringLength (c :: cs) = (stringLength cs).map (· + 1) := by
  cases cs with
  | nil => exact if_neg hquote
  | cons d cs => rw [stringLength, if_neg hback, if_neg hquote]

/-- The loop skips the byte after a backslash, so it stays where no escape has been left open. -/
theorem stringLength_of_foldlM {s : StringState} {cs : List UInt8} (hs : s ≠ .escape)
    (h : cs.foldlM StringState.step s = some .plain) (rest : List UInt8) :
    stringLength (cs ++ quote :: rest) = some (cs.length + 1) := by
  induction hlen : cs.length using Nat.strong_induction_on generalizing cs s with
  | _ n ih =>
    subst hlen
    cases cs with
    | nil => exact stringLength_quote rest
    | cons c cs =>
      obtain ⟨t, ht, h⟩ := Option.bind_eq_some_iff.mp h
      obtain ⟨hquote, hesc⟩ := escape_of_step ht
      by_cases hback : c = backslash
      · cases cs with
        | nil =>
          rw [hesc.mp ⟨hs, hback⟩] at h
          cases h
        | cons d cs =>
          obtain ⟨t', ht', h⟩ := Option.bind_eq_some_iff.mp h
          have ht'' : t' ≠ .escape := fun heq ↦
            ((escape_of_step ht').2.mpr heq).1 (hesc.mp ⟨hs, hback⟩)
          rw [List.cons_append, List.cons_append, stringLength, if_pos hback,
            ih cs.length (by simp only [List.length_cons]; omega) ht'' h rfl]
          rfl
      · have hc : c ≠ quote := fun heq ↦ hquote ⟨hs, heq⟩
        have ht' : t ≠ .escape := fun heq ↦ hback (hesc.mpr heq).2
        rw [List.cons_append, stringLength_cons hback hc,
          ih cs.length (by simp only [List.length_cons]; omega) ht' h rfl]
        rfl

theorem skipJSONString_quoted {n : Content} (h : b.drop i = quoted n.1 ++ rest) :
    skipJSONString b i = some (i + (quoted n.1).length) := by
  have hdrop : b.drop (i + 1) = n.1 ++ quote :: rest := by
    rw [quoted, List.cons_append, List.append_assoc, List.singleton_append] at h
    exact drop_of_cons h
  have hplain : StringState.plain ≠ .escape := by decide
  rw [skipJSONString, hdrop, stringLength_of_foldlM hplain (of_decide_eq_true n.2) rest]
  simp only [Option.map_some, quoted, List.length_cons, List.length_append, List.length_nil]
  congr 1
  omega

theorem jsonStringValue_quoted (n : Content) :
    jsonStringValue (quoted n.1) = GoJson.unquote n.1 := by
  have hcontent : (quoted n.1).tail.dropLast = n.1 := List.dropLast_concat
  rw [jsonStringValue, hcontent]
  split_ifs with hany
  · have hparse : parse (quoted n.1) = some ⟨⟨[], rfl⟩, .string n, ⟨[], rfl⟩⟩ := by
      refine parse_eq_some_iff.mpr ?_
      rw [Document.text, Value.text, List.nil_append, List.append_nil]
    rw [GoJson.unmarshal, hparse]
    rfl
  · refine (GoJson.unquote_of_ascii n.2 fun c hc ↦ ?_).symm
    have hbare : ¬ (c = backslash ∨ 0x80 ≤ c) := fun h ↦
      hany (List.any_eq_true.mpr ⟨c, hc, decide_eq_true h⟩)
    obtain ⟨hback, hhigh⟩ := not_or.mp hbare
    exact ⟨hback, UInt8.not_le.mp hhigh⟩

/-! ## Values -/

/-- What may follow a value inside an object or an array. -/
def EndsValue (cs : List UInt8) : Prop := ∀ c ∈ cs.head?, endsScalar c

theorem endsValue_cons {c : UInt8} (hc : endsScalar c) (cs : List UInt8) : EndsValue (c :: cs) :=
  fun d hd ↦ by
    rw [← Option.some.inj hd]
    exact hc

theorem endsValue_space (s : Space) (h : EndsValue rest) : EndsValue (s.1 ++ rest) := by
  obtain ⟨cs, hcs⟩ := s
  cases cs with
  | nil => exact h
  | cons c cs =>
    have hspace : isSpace c := List.all_eq_true.mp hcs c List.mem_cons_self
    exact endsValue_cons (decide_eq_true (Or.inr (Or.inr (Or.inr hspace)))) _

/-- The loop over a nested value comes to an end at `stop`, whatever fuel it has beyond the rest of
the text. -/
def NestedEnds (b : List UInt8) (j : ℕ) (depth : ℤ) (stop : ℕ) : Prop :=
  ∀ fuel, b.length - j ≤ fuel → skipNested b fuel j depth = some stop

theorem NestedEnds.of_eq {j j' stop : ℕ} {depth : ℤ} (h : NestedEnds b j depth stop) (hj : j = j') :
    NestedEnds b j' depth stop := hj ▸ h

section Nested

variable {j stop : ℕ} {depth : ℤ} {c : UInt8}

private theorem lt_length_of_cons (h : b.drop j = c :: rest) : j < b.length := by
  by_contra hle
  rw [List.drop_eq_nil_of_le (Nat.le_of_not_lt hle)] at h
  cases h

private theorem nestedEnds_of_step (h : b.drop j = c :: rest)
    (hstep : ∀ fuel, b.length - j ≤ fuel + 1 → skipNested b (fuel + 1) j depth = some stop) :
    NestedEnds b j depth stop := by
  intro fuel hfuel
  have hlt := lt_length_of_cons h
  cases fuel with
  | zero => omega
  | succ fuel => exact hstep fuel hfuel

theorem nestedEnds_string {n : Content} (h : b.drop j = quoted n.1 ++ rest)
    (hnext : NestedEnds b (j + (quoted n.1).length) depth stop) : NestedEnds b j depth stop := by
  refine nestedEnds_of_step h fun fuel hfuel ↦ ?_
  rw [skipNested, getElem_of_cons h]
  simp only [if_pos]
  rw [skipJSONString_quoted h, Option.bind_some]
  refine hnext fuel ?_
  simp only [quoted, List.length_cons]
  omega

theorem nestedEnds_open (hc : c = lbrace ∨ c = lbracket) (h : b.drop j = c :: rest)
    (hnext : NestedEnds b (j + 1) (depth + 1) stop) : NestedEnds b j depth stop := by
  refine nestedEnds_of_step h fun fuel hfuel ↦ ?_
  have hquote : c ≠ quote := by
    rcases hc with rfl | rfl <;> decide
  rw [skipNested, getElem_of_cons h]
  simp only [if_neg hquote, if_pos hc]
  exact hnext fuel (by omega)

theorem skipNested_close (hc : c = rbrace ∨ c = rbracket) (h : b.drop j = c :: rest) (fuel : ℕ) :
    skipNested b (fuel + 1) j depth
      = if depth - 1 = 0 then some (j + 1) else skipNested b fuel (j + 1) (depth - 1) := by
  have hne : c ≠ quote ∧ ¬ (c = lbrace ∨ c = lbracket) := by
    rcases hc with rfl | rfl <;> decide
  rw [skipNested, getElem_of_cons h]
  simp only [if_neg hne.1, if_neg hne.2, if_pos hc]

theorem nestedEnds_close (hdepth : 1 ≤ depth) (hc : c = rbrace ∨ c = rbracket)
    (h : b.drop j = c :: rest) (hnext : NestedEnds b (j + 1) depth stop) :
    NestedEnds b j (depth + 1) stop := by
  refine nestedEnds_of_step h fun fuel hfuel ↦ ?_
  rw [skipNested_close hc h, Int.add_sub_cancel, if_neg (by omega)]
  exact hnext fuel (by omega)

theorem nestedEnds_last (hc : c = rbrace ∨ c = rbracket) (h : b.drop j = c :: rest) :
    NestedEnds b j 1 (j + 1) := by
  refine nestedEnds_of_step h fun fuel _ ↦ ?_
  rw [skipNested_close hc h]
  rfl

/-- Bytes that neither open nor close anything. -/
def isFlat (c : UInt8) : Bool :=
  c ≠ quote ∧ c ≠ lbrace ∧ c ≠ lbracket ∧ c ≠ rbrace ∧ c ≠ rbracket

theorem nestedEnds_flat {l : List UInt8} (hcs : ∀ c ∈ l, isFlat c) (h : b.drop j = l ++ rest)
    (hnext : NestedEnds b (j + l.length) depth stop) : NestedEnds b j depth stop := by
  induction l generalizing j with
  | nil => exact hnext
  | cons c l ih =>
    have hdrop : b.drop (j + 1) = l ++ rest := drop_of_cons h
    have htail : NestedEnds b (j + 1) depth stop := by
      refine ih (fun d hd ↦ hcs d (List.mem_cons_of_mem _ hd)) hdrop ?_
      rw [Nat.add_assoc, Nat.add_comm 1]
      exact hnext
    obtain ⟨hquote, hlbrace, hlbracket, hrbrace, hrbracket⟩ :=
      of_decide_eq_true (hcs c List.mem_cons_self)
    refine nestedEnds_of_step h fun fuel hfuel ↦ ?_
    rw [skipNested, getElem_of_cons h]
    simp only [if_neg hquote, hlbrace, hlbracket, hrbrace, hrbracket, or_self, if_false]
    exact htail fuel (by omega)

theorem isFlat_of_space (s : Space) : ∀ c ∈ s.1, isFlat c := by
  intro c hc
  have hspace := of_decide_eq_true (List.all_eq_true.mp s.2 c hc)
  rcases hspace with rfl | rfl | rfl | rfl <;> decide

theorem isFlat_of_scalar (t : Scalar) : ∀ c ∈ t.1, isFlat c := by
  intro c hc
  have hdel := of_decide_eq_false ((not_isDelimiter_of_isScalar t.2).2 c hc)
  simp only [not_or] at hdel
  exact decide_eq_true ⟨hdel.2.2.2.2.2.1, hdel.2.2.2.2.2.2.1, hdel.2.2.2.2.2.2.2, hdel.2.2.2.1,
    hdel.2.2.2.2.1⟩

theorem nestedEnds_space (s : Space) (h : b.drop j = s.1 ++ rest)
    (hnext : NestedEnds b (j + s.1.length) depth stop) : NestedEnds b j depth stop :=
  nestedEnds_flat (isFlat_of_space s) h hnext

theorem nestedEnds_byte (hc : isFlat c) (h : b.drop j = c :: rest)
    (hnext : NestedEnds b (j + 1) depth stop) : NestedEnds b j depth stop :=
  nestedEnds_flat (l := [c]) (fun d hd ↦ by rw [List.mem_singleton.mp hd]; exact hc) h hnext

variable {inner : List UInt8} {o : UInt8}

theorem drop_of_open (h : b.drop j = o :: (inner ++ [c]) ++ rest) :
    b.drop (j + 1) = inner ++ c :: rest := by
  rw [List.cons_append, List.append_assoc] at h
  exact drop_of_cons h

/-- Brackets around what leaves the depth alone. -/
theorem nestedEnds_brackets (hdepth : 1 ≤ depth) (ho : o = lbrace ∨ o = lbracket)
    (hc : c = rbrace ∨ c = rbracket) (h : b.drop j = o :: (inner ++ [c]) ++ rest)
    (hinner : NestedEnds b (j + 1 + inner.length) (depth + 1) stop →
      NestedEnds b (j + 1) (depth + 1) stop)
    (hnext : NestedEnds b (j + (o :: (inner ++ [c])).length) depth stop) :
      NestedEnds b j depth stop := by
  refine nestedEnds_open ho h (hinner ?_)
  refine nestedEnds_close hdepth hc (drop_of_append (drop_of_open h)) (hnext.of_eq ?_)
  rw [List.length_cons, List.length_append, List.length_singleton]
  omega

/-- The outermost brackets. -/
theorem nestedEnds_outermost (ho : o = lbrace ∨ o = lbracket) (hc : c = rbrace ∨ c = rbracket)
    (h : b.drop j = o :: (inner ++ [c]) ++ rest)
    (hinner : ∀ stop, NestedEnds b (j + 1 + inner.length) 1 stop → NestedEnds b (j + 1) 1 stop) :
    NestedEnds b j 0 (j + (o :: (inner ++ [c])).length) := by
  refine nestedEnds_open ho h (hinner _ ?_)
  have hlast := nestedEnds_last hc (drop_of_append (drop_of_open h))
  rwa [show j + 1 + inner.length + 1 = j + (o :: (inner ++ [c])).length by
    rw [List.length_cons, List.length_append, List.length_singleton]
    omega] at hlast

mutual

/-- A value inside another one is passed over: the depth is the same after it. -/
theorem nestedEnds_value (v : Value) {j : ℕ} {depth : ℤ} {rest : List UInt8} (hdepth : 1 ≤ depth)
    (h : b.drop j = v.text ++ rest) (hnext : NestedEnds b (j + v.text.length) depth stop) :
    NestedEnds b j depth stop := by
  cases v with
  | scalar t => exact nestedEnds_flat (isFlat_of_scalar t) h hnext
  | string n => exact nestedEnds_string h hnext
  | emptyArray s =>
    refine nestedEnds_brackets hdepth (Or.inr rfl) (Or.inr rfl) h (fun hinner ↦ ?_) hnext
    exact nestedEnds_space s (drop_of_open h) hinner
  | array es =>
    refine nestedEnds_brackets hdepth (Or.inr rfl) (Or.inr rfl) h (fun hinner ↦ ?_) hnext
    exact nestedEnds_elements es (by omega) (drop_of_open h) hinner
  | emptyObject s =>
    refine nestedEnds_brackets hdepth (Or.inl rfl) (Or.inl rfl) h (fun hinner ↦ ?_) hnext
    exact nestedEnds_space s (drop_of_open h) hinner
  | object ms =>
    refine nestedEnds_brackets hdepth (Or.inl rfl) (Or.inl rfl) h (fun hinner ↦ ?_) hnext
    exact nestedEnds_members ms (by omega) (drop_of_open h) hinner

theorem nestedEnds_elements (es : Elements) {j : ℕ} {depth : ℤ} {rest : List UInt8}
    (hdepth : 1 ≤ depth) (h : b.drop j = es.text ++ rest)
    (hnext : NestedEnds b (j + es.text.length) depth stop) : NestedEnds b j depth stop := by
  cases es with
  | one before value after =>
    simp only [Elements.text, List.append_assoc] at h
    simp only [Elements.text, List.length_append, ← Nat.add_assoc] at hnext
    have h₁ := drop_of_append h
    have h₂ := drop_of_append h₁
    exact nestedEnds_space before h
      (nestedEnds_value value hdepth h₁ (nestedEnds_space after h₂ hnext))
  | more before value after more =>
    simp only [Elements.text, List.append_assoc, List.cons_append] at h
    simp only [Elements.text, List.length_append, List.length_cons, ← Nat.add_assoc] at hnext
    have h₁ := drop_of_append h
    have h₂ := drop_of_append h₁
    have h₃ := drop_of_append h₂
    have h₄ := drop_of_cons h₃
    refine nestedEnds_space before h
      (nestedEnds_value value hdepth h₁ (nestedEnds_space after h₂ ?_))
    refine nestedEnds_byte (by decide) h₃ (nestedEnds_elements more hdepth h₄ ?_)
    exact hnext.of_eq (by omega)

theorem nestedEnds_members (ms : Members) {j : ℕ} {depth : ℤ} {rest : List UInt8}
    (hdepth : 1 ≤ depth) (h : b.drop j = ms.text ++ rest)
    (hnext : NestedEnds b (j + ms.text.length) depth stop) : NestedEnds b j depth stop := by
  cases ms with
  | one before name afterName beforeValue value after =>
    simp only [Members.text, List.append_assoc, List.cons_append] at h
    simp only [Members.text, List.length_append, List.length_cons, ← Nat.add_assoc] at hnext
    have h₁ := drop_of_append h
    have h₂ := drop_of_append h₁
    have h₃ := drop_of_append h₂
    have h₄ := drop_of_cons h₃
    have h₅ := drop_of_append h₄
    have h₆ := drop_of_append h₅
    refine nestedEnds_space before h (nestedEnds_string h₁ (nestedEnds_space afterName h₂ ?_))
    refine nestedEnds_byte (by decide) h₃ (nestedEnds_space beforeValue h₄ ?_)
    refine nestedEnds_value value hdepth h₅ (nestedEnds_space after h₆ ?_)
    exact hnext.of_eq (by omega)
  | more before name afterName beforeValue value after more =>
    simp only [Members.text, List.append_assoc, List.cons_append] at h
    simp only [Members.text, List.length_append, List.length_cons, ← Nat.add_assoc] at hnext
    have h₁ := drop_of_append h
    have h₂ := drop_of_append h₁
    have h₃ := drop_of_append h₂
    have h₄ := drop_of_cons h₃
    have h₅ := drop_of_append h₄
    have h₆ := drop_of_append h₅
    have h₇ := drop_of_append h₆
    have h₈ := drop_of_cons h₇
    refine nestedEnds_space before h (nestedEnds_string h₁ (nestedEnds_space afterName h₂ ?_))
    refine nestedEnds_byte (by decide) h₃ (nestedEnds_space beforeValue h₄ ?_)
    refine nestedEnds_value value hdepth h₅ (nestedEnds_space after h₆ ?_)
    refine nestedEnds_byte (by decide) h₇ (nestedEnds_members more hdepth h₈ ?_)
    exact hnext.of_eq (by omega)

end

end Nested

theorem not_endsScalar_of_scalar (t : Scalar) : ∀ c ∈ t.1, endsScalar c = false := by
  intro c hc
  have hdel := of_decide_eq_false ((not_isDelimiter_of_isScalar t.2).2 c hc)
  simp only [not_or] at hdel
  refine decide_eq_false ?_
  rintro (h | h | h | h)
  · exact hdel.2.1 h
  · exact hdel.2.2.2.1 h
  · exact hdel.2.2.2.2.1 h
  · exact hdel.1 h

theorem skipJSONValue_brackets {o c : UInt8} {inner : List UInt8} (ho : o = lbrace ∨ o = lbracket)
    (hc : c = rbrace ∨ c = rbracket) (h : b.drop i = o :: (inner ++ [c]) ++ rest)
    (hinner : ∀ stop, NestedEnds b (i + 1 + inner.length) 1 stop → NestedEnds b (i + 1) 1 stop) :
    skipJSONValue b i = some (i + (o :: (inner ++ [c])).length) := by
  have hquote : o ≠ quote := by
    rcases ho with rfl | rfl <;> decide
  rw [skipJSONValue, getElem_of_cons h]
  simp only [if_neg hquote, if_pos ho]
  exact nestedEnds_outermost ho hc h hinner b.length (Nat.sub_le _ _)

theorem skipJSONValue_text (v : Value) (h : b.drop i = v.text ++ rest) (hrest : EndsValue rest) :
    skipJSONValue b i = some (i + v.text.length) := by
  cases v with
  | scalar t =>
    obtain ⟨c, cs, hcs⟩ := List.exists_cons_of_ne_nil (not_isDelimiter_of_isScalar t.2).1
    have hc := of_decide_eq_false ((not_isDelimiter_of_isScalar t.2).2 c (by
      rw [hcs]
      exact List.mem_cons_self))
    simp only [not_or] at hc
    have htake : (t.1 ++ rest).takeWhile (fun c ↦ !endsScalar c) = t.1 := by
      rw [List.takeWhile_append_of_pos fun c hc ↦ by rw [not_endsScalar_of_scalar t c hc]; rfl]
      cases rest with
      | nil => exact List.append_nil _
      | cons d ds => rw [List.takeWhile_cons_of_neg (by rw [hrest d rfl]; decide), List.append_nil]
    rw [Value.text] at h ⊢
    rw [skipJSONValue, getElem_of_cons (h.trans (congrArg (· ++ rest) hcs))]
    simp only [if_neg hc.2.2.2.2.2.1, hc.2.2.2.2.2.2.1, hc.2.2.2.2.2.2.2, or_self, if_false]
    rw [h, htake]
  | string n =>
    rw [Value.text] at h ⊢
    rw [skipJSONValue, getElem_of_cons h]
    simp only [if_true]
    exact skipJSONString_quoted h
  | emptyArray s =>
    exact skipJSONValue_brackets (Or.inr rfl) (Or.inr rfl) h fun _ hnext ↦
      nestedEnds_space s (drop_of_open h) hnext
  | array es =>
    exact skipJSONValue_brackets (Or.inr rfl) (Or.inr rfl) h fun _ hnext ↦
      nestedEnds_elements es (Int.le_refl 1) (drop_of_open h) hnext
  | emptyObject s =>
    exact skipJSONValue_brackets (Or.inl rfl) (Or.inl rfl) h fun _ hnext ↦
      nestedEnds_space s (drop_of_open h) hnext
  | object ms =>
    exact skipJSONValue_brackets (Or.inl rfl) (Or.inl rfl) h fun _ hnext ↦
      nestedEnds_members ms (Int.le_refl 1) (drop_of_open h) hnext

/-! ## Members -/

/-- Where the parts of a member are, whose name starts at `i`. -/
def spanAt (m : Member) (i : ℕ) : MemberSpan where
  key := ⟨i, i + (quoted m.name.1).length⟩
  name := GoJson.unquote m.name.1
  value := ⟨i + (quoted m.name.1).length + m.link.length, i + m.core.length⟩

/-- Where the members of an object are, whose text starts at `i`. -/
def spansFrom : ℕ → List Member → List MemberSpan
  | _, [] => []
  | i, m :: ms => spanAt m (i + m.before.1.length) :: spansFrom (i + m.text.length + 1) ms

theorem startsToken_core (m : Member) (rest : List UInt8) : StartsToken (m.core ++ rest) :=
  startsToken_cons (by decide) _

theorem memberAt_core {m : Member} (h : b.drop i = m.core ++ rest) (hrest : EndsValue rest) :
    memberAt b i = some (spanAt m i) := by
  rw [Member.core, List.append_assoc, List.append_assoc] at h
  have hkey := skipJSONString_quoted h
  have h₁ := drop_of_append h
  rw [Member.link, List.append_assoc, List.cons_append] at h₁
  have hcolon := skipJSONSpace_eq h₁ (startsToken_cons (by decide) _)
  have h₂ := drop_of_cons (drop_of_append h₁)
  have hspace := skipJSONSpace_eq h₂ (startsToken_value m.value rest)
  have h₃ := drop_of_append h₂
  have hvalue := skipJSONValue_text m.value h₃ hrest
  rw [memberAt, hkey, Option.bind_some, hcolon]
  simp only
  rw [hspace, hvalue, Option.map_some, Span.bytes_of_append h, jsonStringValue_quoted]
  simp only [spanAt, Member.core, Member.link, List.length_append, List.length_cons, Nat.add_assoc,
    Nat.add_comm 1]

theorem nextMember_close {s : Space} (h : b.drop i = s.1 ++ rbrace :: rest) :
    nextMember b i = some (.close (i + s.1.length)) := by
  simp only [nextMember, skipJSONSpace_eq h (startsToken_cons (by decide) _),
    getElem_of_cons (drop_of_append h), if_true]

theorem nextMember_first {m : Member} (h : b.drop i = m.text ++ rest) (hrest : EndsValue rest) :
    nextMember b i = some (.member (spanAt m (i + m.before.1.length))) := by
  rw [Member.text, List.append_assoc, List.append_assoc] at h
  have hdrop := drop_of_append h
  have hquote : b[i + m.before.1.length]? = some quote := getElem_of_cons hdrop
  rw [nextMember, skipJSONSpace_eq h (startsToken_core m _)]
  simp only [hquote]
  rw [if_neg (by decide), if_neg (by decide), memberAt_core hdrop (endsValue_space m.after hrest)]
  rfl

theorem nextMember_further {s : Space} {m : Member}
    (h : b.drop i = s.1 ++ comma :: (m.text ++ rest))
    (hrest : EndsValue rest) :
    nextMember b i = some (.member (spanAt m (i + s.1.length + 1 + m.before.1.length))) := by
  have hcomma := drop_of_append h
  have hmember := drop_of_cons hcomma
  rw [Member.text, List.append_assoc, List.append_assoc] at hmember
  rw [nextMember, skipJSONSpace_eq h (startsToken_comma _)]
  simp only [getElem_of_cons hcomma, if_true]
  rw [if_neg (by decide), skipJSONSpace_eq hmember (startsToken_core m _),
    memberAt_core (drop_of_append hmember) (endsValue_space m.after hrest)]
  rfl

theorem endsValue_further (ms : List Member) (rest : List UInt8) :
    EndsValue (furtherText ms ++ rbrace :: rest) := by
  cases ms with
  | nil => exact endsValue_cons (by decide) _
  | cons m ms => exact endsValue_cons (by decide) _

section Walk

variable {σ ε : Type} (step : σ → MemberSpan → Except ε σ)

/-- What the walk from `i` on gives if the next member is at `p` and `ms` are the members to
come. -/
def WalksFrom (b : List UInt8) (ms : List Member) (acc : σ) (fuel i p close : ℕ) : Prop :=
  walkMembers b step fuel i acc
    = some (((spansFrom p ms).foldlM step acc).map fun acc ↦ (acc, close))

variable {step}

/-- One member, which has been found, and then the rest. -/
theorem WalksFrom.cons {m : Member} {ms : List Member} {acc : σ} {fuel p close : ℕ}
    (hnext : nextMember b i = some (.member (spanAt m (p + m.before.1.length))))
    (hrest : ∀ acc, WalksFrom step b ms acc fuel (p + m.before.1.length + m.core.length)
      (p + m.text.length + 1) close) : WalksFrom step b (m :: ms) acc (fuel + 1) i p close := by
  rw [WalksFrom, walkMembers, hnext, spansFrom, List.foldlM_cons]
  simp only
  cases step acc (spanAt m (p + m.before.1.length)) with
  | error e => rfl
  | ok acc => exact hrest acc

theorem length_text (m : Member) :
    m.text.length = m.before.1.length + m.core.length + m.after.1.length := by
  rw [Member.text, List.length_append, List.length_append, Nat.add_assoc]

theorem drop_of_member {p : ℕ} {m : Member} (h : b.drop p = m.text ++ rest) :
    b.drop (p + m.before.1.length + m.core.length) = m.after.1 ++ rest := by
  rw [Member.text, List.append_assoc, List.append_assoc] at h
  exact drop_of_append (drop_of_append h)

/-- The walk from the end of a value on, with further members to come. -/
theorem walksFrom_further (ms : List Member) {s : Space} {acc : σ} {fuel : ℕ}
    (h : b.drop i = s.1 ++ (furtherText ms ++ rbrace :: rest)) (hfuel : ms.length < fuel) :
    WalksFrom step b ms acc fuel i (i + s.1.length + 1)
      (i + s.1.length + (furtherText ms).length) := by
  induction ms generalizing i s acc fuel with
  | nil =>
    cases fuel with
    | zero => cases hfuel
    | succ fuel =>
      rw [WalksFrom, walkMembers, nextMember_close h]
      rfl
  | cons m ms ih =>
    cases fuel with
    | zero => cases hfuel
    | succ fuel =>
      rw [furtherText, List.flatMap_cons, List.append_assoc, List.cons_append] at h
      refine WalksFrom.cons (nextMember_further h (endsValue_further ms rest)) fun acc ↦ ?_
      have hafter := drop_of_member (drop_of_cons (drop_of_append h))
      have hwalk : WalksFrom step b ms acc fuel _ _ _ := ih hafter (Nat.lt_of_succ_lt_succ hfuel)
      rw [show i + s.1.length + (furtherText (m :: ms)).length
          = i + s.1.length + 1 + m.text.length + (furtherText ms).length by
        rw [furtherText, List.flatMap_cons, List.length_append, List.length_cons, furtherText]
        omega, length_text m, ← Nat.add_assoc, ← Nat.add_assoc]
      exact hwalk

theorem length_le_furtherText (ms : List Member) : ms.length ≤ (furtherText ms).length := by
  induction ms with
  | nil => exact Nat.le_refl 0
  | cons m ms ih =>
    rw [furtherText] at ih ⊢
    rw [List.flatMap_cons, List.length_append, List.length_cons, List.length_cons]
    omega

theorem two_le_length_core (m : Member) : 2 ≤ m.core.length := by
  rw [Member.core, quoted, List.length_append, List.length_cons, List.length_append,
    List.length_singleton]
  omega

/-- What starts like an object is one. -/
theorem object_of_head {v : Value} (hv : v.text.head? = some lbrace) :
    (∃ s, v = .emptyObject s) ∨ ∃ m ms, v = .object (.ofList m ms) := by
  cases v with
  | scalar t =>
    obtain ⟨c, cs, hcs⟩ := List.exists_cons_of_ne_nil (not_isDelimiter_of_isScalar t.2).1
    have hc := (not_isDelimiter_of_isScalar t.2).2 c (by rw [hcs]; exact List.mem_cons_self)
    rw [Value.text, hcs] at hv
    rw [Option.some.inj hv] at hc
    exact absurd hc (by decide)
  | string n => exact absurd (Option.some.inj hv) (by decide)
  | emptyArray s => exact absurd (Option.some.inj hv) (by decide)
  | array es => exact absurd (Option.some.inj hv) (by decide)
  | emptyObject s => exact Or.inl ⟨s, rfl⟩
  | object ms =>
    obtain ⟨m, l, rfl⟩ := ms.exists_ofList
    exact Or.inr ⟨m, l, rfl⟩

theorem drop_of_object {m : Member} {ms : List Member}
    (h : b.drop i = (Value.object (.ofList m ms)).text ++ rest) :
    b.drop (i + 1) = m.text ++ (furtherText ms ++ rbrace :: rest) := by
  rw [← List.append_assoc, ← Members.text_ofList]
  exact drop_of_open h

/-- The walk over an object sees its members, where they are. -/
theorem walksFrom_object {v : Value} {acc : σ} (h : b.drop i = v.text ++ rest)
    (hv : v.text.head? = some lbrace) :
    WalksFrom step b v.members acc b.length (i + 1) (i + 1) (i + v.text.length - 1) := by
  have hlen : v.text.length ≤ b.length := by
    have := congrArg List.length h
    rw [List.length_drop, List.length_append] at this
    omega
  rcases object_of_head hv with ⟨s, rfl⟩ | ⟨m, ms, rfl⟩
  · simp only [Value.text, List.length_cons, List.length_append, List.length_nil] at hlen ⊢
    have hclose : i + (s.1.length + (0 + 1) + 1) - 1 = i + 1 + s.1.length := by omega
    rw [hclose]
    exact walksFrom_further [] (drop_of_open h) (by rw [List.length_nil]; omega)
  · have htext := drop_of_object h
    rw [Value.text, Members.text_ofList] at hlen ⊢
    simp only [List.length_cons, List.length_append, List.length_nil] at hlen ⊢
    have hfurther := length_le_furtherText ms
    have hcore := two_le_length_core m
    have htextlen := length_text m
    obtain ⟨fuel, hfuel⟩ : ∃ fuel, b.length = fuel + 1 := ⟨b.length - 1, by omega⟩
    rw [hfuel, Value.members, Members.toList_ofList]
    refine WalksFrom.cons (nextMember_first htext (endsValue_further ms rest)) fun acc ↦ ?_
    have hwalk : WalksFrom step b ms acc fuel _ _ _ :=
      walksFrom_further ms (drop_of_member htext) (by omega)
    have hclose : i + (m.text.length + (furtherText ms).length + (0 + 1) + 1) - 1
        = i + 1 + m.text.length + (furtherText ms).length := by omega
    rw [hclose, length_text m, ← Nat.add_assoc, ← Nat.add_assoc]
    exact hwalk

end Walk

/-! ## Documents -/

theorem skipJSONSpace_text (d : Document) : skipJSONSpace d.text 0 = d.before.1.length := by
  have hspace : d.text.drop 0 = d.before.1 ++ (d.value.text ++ d.after.1) := rfl
  rw [skipJSONSpace_eq hspace (startsToken_value d.value d.after.1), Nat.zero_add]

theorem drop_text (d : Document) : d.text.drop d.before.1.length = d.value.text ++ d.after.1 :=
  List.drop_left

theorem getElem_text (d : Document) : d.text[d.before.1.length]? = d.value.text.head? := by
  obtain ⟨c, cs, hcs, -⟩ := exists_text_eq_cons d.value
  have hdrop := drop_text d
  rw [hcs, List.cons_append] at hdrop
  rw [getElem_of_cons hdrop, hcs]
  rfl

theorem members_eq_nil {v : Value} (hv : v.text.head? ≠ some lbrace) : v.members = [] := by
  cases v with
  | object ms => exact absurd rfl hv
  | scalar t => rfl
  | string n => rfl
  | emptyArray s => rfl
  | array es => rfl
  | emptyObject s => rfl

section Spans

variable {p : ℕ} {sp : MemberSpan} {m : Member}

/-- The span is where the body has the member. -/
def SpanOf (b : List UInt8) (sp : MemberSpan) (m : Member) : Prop :=
  ∃ q rest, sp = spanAt m (q + m.before.1.length) ∧ b.drop q = m.text ++ rest

theorem SpanOf.drop_value (h : SpanOf b sp m) :
    ∃ rest, b.drop sp.value.start = m.value.text ++ rest := by
  obtain ⟨q, rest, rfl, h⟩ := h
  rw [Member.text, List.append_assoc, List.append_assoc] at h
  have hcore := drop_of_append h
  rw [Member.core, List.append_assoc, List.append_assoc] at hcore
  exact ⟨_, drop_of_append (drop_of_append hcore)⟩

theorem SpanOf.bytes_value (h : SpanOf b sp m) : sp.value.bytes b = m.value.text := by
  obtain ⟨rest, hrest⟩ := h.drop_value
  have hstop : sp.value = ⟨sp.value.start, sp.value.start + m.value.text.length⟩ := by
    obtain ⟨q, -, rfl, -⟩ := h
    simp only [spanAt, Member.core, List.length_append, Nat.add_assoc]
  rw [hstop]
  exact Span.bytes_of_append hrest

theorem forall₂_spansFrom (ms : List Member) (h : b.drop p = furtherText ms ++ rest) :
    List.Forall₂ (SpanOf b) (spansFrom (p + 1) ms) ms := by
  induction ms generalizing p with
  | nil => exact List.Forall₂.nil
  | cons m ms ih =>
    rw [furtherText, List.flatMap_cons, List.append_assoc, List.cons_append] at h
    have hmember := drop_of_cons h
    exact List.Forall₂.cons ⟨p + 1, _, rfl, hmember⟩ (ih (drop_of_append hmember))

theorem forall₂_spansFrom_object {v : Value} (h : b.drop i = v.text ++ rest)
    (hv : v.text.head? = some lbrace) :
    List.Forall₂ (SpanOf b) (spansFrom (i + 1) v.members) v.members := by
  rcases object_of_head hv with ⟨s, rfl⟩ | ⟨m, ms, rfl⟩
  · exact List.Forall₂.nil
  · have hmember := drop_of_object h
    rw [Value.members, Members.toList_ofList]
    exact List.Forall₂.cons ⟨i + 1, _, rfl, hmember⟩ (forall₂_spansFrom ms (drop_of_append hmember))

end Spans

end Kaalm.Gateway
