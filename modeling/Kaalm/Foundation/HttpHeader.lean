import Kaalm.Foundation.Ascii
import Kaalm.Foundation.GoMap

/-!
# HTTP headers

A header is a map from names to the values of their lines. The names of HTTP have no case: Go keeps
each name in one canonical spelling, and the methods of `http.Header` make their argument canonical
first. `IsName` is what the names of a header that Go has read are like. For such a name the
comparison of canonical spellings is the comparison without case (`canonicalKey_eq_iff`).
-/

namespace HttpHeader

abbrev Header := GoMap (List UInt8) (List (List UInt8))

/-! ## Names -/

/-- The bytes of a token. -/
def isTokenByte (c : UInt8) : Bool :=
  (0x30 ≤ c ∧ c ≤ 0x39) ∨ (0x41 ≤ c ∧ c ≤ 0x5a) ∨ (0x61 ≤ c ∧ c ≤ 0x7a)
    ∨ c ∈ Ascii.bytes "!#$%&'*+-.^_\x60|~"

def dash : UInt8 := 0x2d

/-- A letter in upper case, or in lower case. -/
def canonicalByte (upper : Bool) (c : UInt8) : UInt8 :=
  if upper ∧ 0x61 ≤ c ∧ c ≤ 0x7a then c - 0x20
  else if !upper ∧ 0x41 ≤ c ∧ c ≤ 0x5a then c + 0x20
  else c

/-- The first letter and each letter after a dash are in upper case. -/
def canonicalBytes : Bool → List UInt8 → List UInt8
  | _, [] => []
  | upper, c :: cs =>
    canonicalByte upper c :: canonicalBytes (canonicalByte upper c = dash) cs

/-- A name that is not a token stays as it is. -/
def canonicalKey (name : List UInt8) : List UInt8 :=
  if name.all isTokenByte then canonicalBytes true name else name

def lowerByte (c : UInt8) : UInt8 := if 0x41 ≤ c ∧ c ≤ 0x5a then c + 0x20 else c

def lower (name : List UInt8) : List UInt8 := name.map lowerByte

/-- The names are the same but for case. -/
def SameName (a b : List UInt8) : Prop := lower a = lower b

instance (a b : List UInt8) : Decidable (SameName a b) :=
  inferInstanceAs (Decidable (lower a = lower b))

/-- A token in canonical spelling. -/
structure IsName (name : List UInt8) : Prop where
  ne_nil : name ≠ []
  token : name.all isTokenByte = true
  canonical : canonicalKey name = name

instance (name : List UInt8) : Decidable (IsName name) :=
  decidable_of_iff (name ≠ [] ∧ name.all isTokenByte = true ∧ canonicalKey name = name)
    ⟨fun h ↦ ⟨h.1, h.2.1, h.2.2⟩, fun h ↦ ⟨h.ne_nil, h.token, h.canonical⟩⟩

private theorem forall_byte {P : UInt8 → Prop} (h : ∀ n < 256, P (UInt8.ofNat n)) (c : UInt8) :
    P c := by
  have hc := h c.toNat c.toNat_lt
  rwa [UInt8.ofNat_toNat] at hc

theorem isTokenByte_lowerByte : ∀ c, isTokenByte (lowerByte c) = isTokenByte c :=
  forall_byte (by decide +kernel)

theorem lowerByte_canonicalByte (upper : Bool) :
    ∀ c, lowerByte (canonicalByte upper c) = lowerByte c := by
  cases upper with
  | false => exact forall_byte (by decide +kernel)
  | true => exact forall_byte (by decide +kernel)

theorem canonicalByte_lowerByte (upper : Bool) :
    ∀ c, canonicalByte upper (lowerByte c) = canonicalByte upper c := by
  cases upper with
  | false => exact forall_byte (by decide +kernel)
  | true => exact forall_byte (by decide +kernel)

theorem lower_canonicalBytes (upper : Bool) (name : List UInt8) :
    lower (canonicalBytes upper name) = lower name := by
  induction name generalizing upper with
  | nil => rfl
  | cons c cs ih =>
    rw [canonicalBytes, lower, List.map_cons, lowerByte_canonicalByte, ← lower, ih]
    rfl

theorem canonicalBytes_lower (upper : Bool) (name : List UInt8) :
    canonicalBytes upper (lower name) = canonicalBytes upper name := by
  induction name generalizing upper with
  | nil => rfl
  | cons c cs ih =>
    rw [lower, List.map_cons, ← lower, canonicalBytes, canonicalBytes, canonicalByte_lowerByte, ih]

theorem lower_canonicalKey (name : List UInt8) : lower (canonicalKey name) = lower name := by
  rw [canonicalKey]
  split_ifs
  · exact lower_canonicalBytes true name
  · rfl

theorem all_isTokenByte_lower (name : List UInt8) :
    (lower name).all isTokenByte = name.all isTokenByte := by
  rw [lower, List.all_map]
  congr 1
  funext c
  exact isTokenByte_lowerByte c

/-- A name has one canonical spelling. -/
theorem canonicalKey_eq_iff {name k : List UInt8} (hk : IsName k) :
    canonicalKey name = k ↔ SameName name k := by
  constructor
  · rintro rfl
    exact (lower_canonicalKey name).symm
  · intro h
    have htoken : name.all isTokenByte = true := by
      rw [← all_isTokenByte_lower, h, all_isTokenByte_lower]
      exact hk.token
    have hcanonical := hk.canonical
    rw [canonicalKey, if_pos hk.token] at hcanonical
    rw [canonicalKey, if_pos htoken, ← canonicalBytes_lower, h, canonicalBytes_lower, hcanonical]

/-! ## The methods of a header -/

def Header.del (h : Header) (name : List UInt8) : Header := h.erase (canonicalKey name)

def Header.set (h : Header) (name value : List UInt8) : Header :=
  h.insert (canonicalKey name) [value]

/-- The lines of a header. -/
def Header.values (h : Header) (name : List UInt8) : List (List UInt8) :=
  (h.lookup (canonicalKey name)).getD []

/-- The first line. -/
def Header.get (h : Header) (name : List UInt8) : List UInt8 := (Header.values h name).headD []

theorem lookup_del (h : Header) (name k : List UInt8) :
    (Header.del h name).lookup k = if k = canonicalKey name then none else h.lookup k :=
  AList.lookup_erase_ite h _ _

theorem lookup_set (h : Header) (name value k : List UInt8) :
    (Header.set h name value).lookup k
      = if k = canonicalKey name then some [value] else h.lookup k :=
  AList.lookup_insert_ite h _ _ _

/-- A loop that deletes name after name. -/
theorem lookup_foldl_del (names : List (List UInt8)) (h : Header) (k : List UInt8) :
    (names.foldl Header.del h).lookup k
      = if k ∈ names.map canonicalKey then none else h.lookup k := by
  induction names generalizing h with
  | nil => rfl
  | cons name names ih =>
    rw [List.foldl_cons, ih, lookup_del, List.map_cons]
    by_cases hname : k = canonicalKey name
    · rw [if_pos hname, ite_self, if_pos (List.mem_cons.mpr (Or.inl hname))]
    · simp only [List.mem_cons, hname, false_or, if_false]

end HttpHeader
