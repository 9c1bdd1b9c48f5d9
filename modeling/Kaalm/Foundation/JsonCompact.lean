import Kaalm.Foundation.JsonEscape
import Kaalm.Foundation.JsonReader

/-!
# Compacting a JSON text

`json.Marshal` writes a value that is already encoded without the white space between its tokens,
and with the characters of `escapeHTML` escaped. What the text means stays the same
(`ofValue_compact`), and so does what a reader takes for a field (`pick_compact`).
-/

namespace JsonText

def noSpace : Space := ⟨[], all_isSpace_nil⟩

def Elements.toList : Elements → List Value
  | .one _ value _ => [value]
  | .more _ value _ rest => value :: rest.toList

def Elements.ofList : Value → List Value → Elements
  | v, [] => .one noSpace v noSpace
  | v, w :: vs => .more noSpace v noSpace (ofList w vs)

/-- The elements of an array; other values have none. -/
def Value.elements : Value → List Value
  | .array es => es.toList
  | _ => []

/-- The array of these elements. -/
def Value.ofElements : List Value → Value
  | [] => .emptyArray noSpace
  | v :: vs => .array (.ofList v vs)

theorem Elements.toList_ofList (v : Value) (vs : List Value) : (ofList v vs).toList = v :: vs := by
  induction vs generalizing v with
  | nil => rfl
  | cons w vs ih => exact congrArg (v :: ·) (ih w)

theorem Value.elements_ofElements (vs : List Value) : (Value.ofElements vs).elements = vs := by
  cases vs with
  | nil => rfl
  | cons v vs => exact Elements.toList_ofList v vs

end JsonText

namespace GoJson

open JsonText

def escapeContent (c : Content) : Content := ⟨escapeHTML c.1, isContent_escapeHTML c.2⟩

mutual

/-- What `json.Marshal` makes of an encoded value. -/
def compact : Value → Value
  | .scalar text => .scalar text
  | .string content => .string (escapeContent content)
  | .emptyArray _ => .emptyArray noSpace
  | .array elements => .array (compactElements elements)
  | .emptyObject _ => .emptyObject noSpace
  | .object members => .object (compactMembers members)

def compactElements : Elements → Elements
  | .one _ value _ => .one noSpace (compact value) noSpace
  | .more _ value _ rest => .more noSpace (compact value) noSpace (compactElements rest)

def compactMembers : Members → Members
  | .one _ name _ _ value _ =>
    .one noSpace (escapeContent name) noSpace noSpace (compact value) noSpace
  | .more _ name _ _ value _ rest =>
    .more noSpace (escapeContent name) noSpace noSpace (compact value) noSpace (compactMembers rest)

end

mutual

/-- Compacting does not change what a text means. -/
theorem ofValue_compact (v : Value) : ofValue (compact v) = ofValue v :=
  match v with
  | .scalar _ => rfl
  | .string content => congrArg Tree.string (unquote_escapeHTML content.2)
  | .emptyArray _ => rfl
  | .array elements => congrArg Tree.array (ofElements_compact elements)
  | .emptyObject _ => rfl
  | .object members => congrArg Tree.object (ofMembers_compact members)

theorem ofElements_compact (es : Elements) : ofElements (compactElements es) = ofElements es :=
  match es with
  | .one _ value _ => congrArg (fun t ↦ [t]) (ofValue_compact value)
  | .more _ value _ rest => congrArg₂ List.cons (ofValue_compact value) (ofElements_compact rest)

theorem ofMembers_compact (ms : Members) : ofMembers (compactMembers ms) = ofMembers ms :=
  match ms with
  | .one _ name _ _ value _ =>
    congrArg₂ (fun n t ↦ [(n, t)]) (unquote_escapeHTML name.2) (ofValue_compact value)
  | .more _ name _ _ value _ rest =>
    congrArg₂ List.cons (congrArg₂ Prod.mk (unquote_escapeHTML name.2) (ofValue_compact value))
      (ofMembers_compact rest)

end

def compactMember (m : Member) : Member := .bare (escapeContent m.name) (compact m.value)

theorem toList_compactMembers (ms : Members) :
    (compactMembers ms).toList = ms.toList.map compactMember := by
  induction ms using Members.toList.induct with
  | case1 => rfl
  | case2 before name afterName beforeValue value after rest ih => exact congrArg (_ :: ·) ih

theorem members_compact (v : Value) : (compact v).members = v.members.map compactMember := by
  cases v with
  | object ms => exact toList_compactMembers ms
  | scalar t => rfl
  | string n => rfl
  | emptyArray s => rfl
  | array es => rfl
  | emptyObject s => rfl

theorem named_compactMember (foldCase : Bool) (field : String) (m : Member) :
    named foldCase field (compactMember m) = named foldCase field m := by
  have hname : unquote (compactMember m).name.1 = unquote m.name.1 := unquote_escapeHTML m.name.2
  rw [named, named, hname]

/-- A reader takes the same member of a compacted object. -/
theorem NamePolicy.pick_compact (r : NamePolicy) (field : String) (v : Value) :
    r.pick field (compact v).members = (r.pick field v.members).map compactMember := by
  have hfilter : (compact v).members.filter (named r.foldCase field)
      = (v.members.filter (named r.foldCase field)).map compactMember := by
    rw [members_compact, List.filter_map]
    congr 1
    exact List.filter_congr fun m _ ↦ named_compactMember r.foldCase field m
  simp only [NamePolicy.pick, hfilter]
  split_ifs
  · exact List.getLast?_map
  · exact List.head?_map

theorem toList_compactElements (es : Elements) :
    (compactElements es).toList = es.toList.map compact := by
  induction es using Elements.toList.induct with
  | case1 => rfl
  | case2 before value after rest ih => exact congrArg (_ :: ·) ih

theorem elements_compact (v : Value) : (compact v).elements = v.elements.map compact := by
  cases v with
  | array es => exact toList_compactElements es
  | scalar t => rfl
  | string n => rfl
  | emptyArray s => rfl
  | object ms => rfl
  | emptyObject s => rfl

end GoJson
