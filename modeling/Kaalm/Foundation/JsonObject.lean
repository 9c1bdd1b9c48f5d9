import Kaalm.Foundation.GoJson

/-!
# The members of a JSON object

An object as the list of its members, each with every byte of its text, and what a reader gets for a
name. Readers differ: they compare names exactly or ignoring case, and of several members of a name
they keep the first or the last. `read_eq` is when all of them get the same.
-/

namespace JsonText

open Ascii

/-- A member with the white space around its name and its value. -/
structure Member where
  before : Space
  name : Content
  afterName : Space
  beforeValue : Space
  value : Value
  after : Space

namespace Member

/-- From the end of the name to the value. -/
def link (m : Member) : List UInt8 := m.afterName.1 ++ colon :: m.beforeValue.1

/-- From the name to the end of the value. -/
def core (m : Member) : List UInt8 := quoted m.name.1 ++ (m.link ++ m.value.text)

def text (m : Member) : List UInt8 := m.before.1 ++ (m.core ++ m.after.1)

/-- A member without white space. -/
def bare (name : Content) (value : Value) : Member :=
  { before := ⟨[], all_isSpace_nil⟩, name, afterName := ⟨[], all_isSpace_nil⟩,
    beforeValue := ⟨[], all_isSpace_nil⟩, value, after := ⟨[], all_isSpace_nil⟩ }

end Member

def Members.toList : Members → List Member
  | .one before name afterName beforeValue value after =>
    [⟨before, name, afterName, beforeValue, value, after⟩]
  | .more before name afterName beforeValue value after rest =>
    ⟨before, name, afterName, beforeValue, value, after⟩ :: rest.toList

def Members.ofList : Member → List Member → Members
  | m, [] => .one m.before m.name m.afterName m.beforeValue m.value m.after
  | m, n :: ms => .more m.before m.name m.afterName m.beforeValue m.value m.after (ofList n ms)

/-- Further members, each after a comma. -/
def furtherText (ms : List Member) : List UInt8 := ms.flatMap fun m ↦ comma :: m.text

/-- The object of these members. -/
def Value.ofMembers : List Member → Value
  | [] => .emptyObject ⟨[], all_isSpace_nil⟩
  | m :: ms => .object (.ofList m ms)

/-- The members of an object; other values have none. -/
def Value.members : Value → List Member
  | .object ms => ms.toList
  | _ => []

theorem Members.toList_ofList (m : Member) (ms : List Member) : (ofList m ms).toList = m :: ms := by
  induction ms generalizing m with
  | nil => rfl
  | cons n ms ih => exact congrArg (m :: ·) (ih n)

theorem Members.exists_ofList (ms : Members) : ∃ m l, ms = ofList m l := by
  cases ms with
  | one before name afterName beforeValue value after =>
    exact ⟨⟨before, name, afterName, beforeValue, value, after⟩, [], rfl⟩
  | more before name afterName beforeValue value after rest =>
    obtain ⟨n, l, rfl⟩ := rest.exists_ofList
    exact ⟨⟨before, name, afterName, beforeValue, value, after⟩, n :: l, rfl⟩

theorem Members.text_ofList (m : Member) (ms : List Member) :
    (ofList m ms).text = m.text ++ furtherText ms := by
  have htext : ∀ (m : Member) (rest : List UInt8), m.before.1 ++ (quoted m.name.1 ++ (m.afterName.1
      ++ colon :: (m.beforeValue.1 ++ (m.value.text ++ (m.after.1 ++ rest))))) = m.text
        ++ rest := by
    intro m rest
    simp only [Member.text, Member.core, Member.link, List.append_assoc, List.cons_append]
  induction ms generalizing m with
  | nil =>
    have hone := htext m []
    rw [List.append_nil] at hone
    rw [ofList, Members.text, hone]
    rfl
  | cons n ms ih =>
      rw [ofList, Members.text, ih n, htext, furtherText, furtherText, List.flatMap_cons,
        List.cons_append]

theorem Value.members_ofMembers (ms : List Member) : (Value.ofMembers ms).members = ms := by
  cases ms with
  | nil => rfl
  | cons m ms => exact Members.toList_ofList m ms

theorem Value.text_ofMembers (m : Member) (ms : List Member) :
    (Value.ofMembers (m :: ms)).text = lbrace :: (m.text ++ (furtherText ms ++ [rbrace])) := by
  rw [Value.ofMembers, Value.text, Members.text_ofList, List.append_assoc]

/-- The members with the commas counted with what comes before them. -/
theorem text_append_furtherText (m u : Member) (ms : List Member) :
    m.text ++ furtherText (ms ++ [u]) = (m :: ms).flatMap (fun m ↦ m.text ++ [comma])
      ++ u.text := by
  induction ms generalizing m with
  | nil => simp only [furtherText, List.nil_append, List.flatMap_singleton, List.append_assoc,
      List.singleton_append]
  | cons n ms ih =>
    rw [List.flatMap_cons, List.append_assoc, ← ih n, List.cons_append, furtherText,
      List.flatMap_cons, furtherText, List.append_assoc, List.singleton_append, List.cons_append]

theorem Value.text_ofMembers_concat (ms : List Member) (u : Member) :
    (Value.ofMembers (ms ++ [u])).text
      = lbrace :: (ms.flatMap (fun m ↦ m.text ++ [comma]) ++ (u.text ++ [rbrace])) := by
  cases ms with
  | nil => exact Value.text_ofMembers u []
  | cons m ms => rw [List.cons_append, Value.text_ofMembers, ← List.append_assoc,
      text_append_furtherText, List.append_assoc]

end JsonText

namespace GoJson

open JsonText

/-- The members whose name counts as `field`. -/
def named (foldCase : Bool) (field : String) (m : Member) : Bool :=
  if foldCase then nameMatches (unquote m.name.1) field else unquote m.name.1 = field

/-- What a reader does with names: whether it ignores case, and whether it keeps the last member of
a name or the first. -/
structure NamePolicy where
  foldCase : Bool
  keepLast : Bool
  deriving DecidableEq

def NamePolicy.read (r : NamePolicy) (field : String) (ms : List Member) : Option Tree :=
  let found := ms.filter (named r.foldCase field)
  (if r.keepLast then found.getLast? else found.head?).map fun m ↦ ofValue m.value

theorem named_true_of_eq {field : String} {m : Member} (h : unquote m.name.1 = field)
    (foldCase : Bool) :
    named foldCase field m := by
  cases foldCase with
  | true =>
    rw [named, if_pos rfl, h, nameMatches]
    exact decide_eq_true rfl
  | false =>
    rw [named, if_neg Bool.false_ne_true]
    exact decide_eq_true h

/-- If ignoring case finds at most one member, and that one has the very name, then all readers find
the same. -/
theorem read_eq (r : NamePolicy) {field : String} {ms : List Member}
    (honce : (ms.filter (named true field)).length ≤ 1)
    (hexact : ∀ m ∈ ms, named true field m → unquote m.name.1 = field) :
    r.read field ms = (ms.find? (named true field)).map fun m ↦ ofValue m.value := by
  have hfound : ms.filter (named r.foldCase field) = ms.filter (named true field) := by
    refine List.filter_congr fun m hm ↦ ?_
    by_cases h : named true field m
    · rw [h, named_true_of_eq (hexact m hm h)]
    · have hne : unquote m.name.1 ≠ field := fun heq ↦ h (named_true_of_eq heq true)
      rw [eq_false_of_ne_true h, named]
      split_ifs with hfold
      · rw [named, if_pos rfl] at h
        exact eq_false_of_ne_true h
      · exact decide_eq_false hne
  rw [NamePolicy.read, hfound, ← List.head?_filter]
  cases hlist : ms.filter (named true field) with
  | nil => simp
  | cons m rest =>
    rw [hlist] at honce
    have hrest : rest = [] := List.eq_nil_of_length_eq_zero (by simpa using honce)
    rw [hrest]
    simp

end GoJson
