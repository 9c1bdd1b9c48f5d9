import Kaalm.Foundation.GoJson
import Mathlib.Data.List.Sort

/-!
# What a JSON text means, and what Go keeps of it

A `JsonValue` is what a text says: the order of an object's members does not count, of several
members of a name the last one does, and a number is the number it denotes, however it is written.

Go decodes a text of unknown shape into an `any`, in which every number is a `float64`. So a text
that goes through an `any` comes out with the same value except for its numbers, and with all of it
if each number survives (`marshalled_toAny`).
-/

namespace GoJson

/-! ## Values -/

inductive JsonValue
  | null
  | bool (b : Bool)
  | number (x : ℚ)
  | string (s : String)
  | array (elements : List JsonValue)
  | object (members : List (String × JsonValue))

/-- Of several members of a name the last one counts. -/
def lastWins {α : Type} : List (String × α) → List (String × α)
  | [] => []
  | m :: ms => if ms.any (fun n ↦ n.1 = m.1) then lastWins ms else m :: lastWins ms

/-- The members that count, in the order of their names. -/
def canonical {α : Type} (ms : List (String × α)) : List (String × α) :=
  (lastWins ms).insertionSort fun a b ↦ a.1 ≤ b.1

/-- The number that a text denotes. -/
def numberValue (text : List UInt8) : ℚ :=
  (Decimal.parseFloat (String.ofList (Utf8.decode text))).getD 0

mutual

def Tree.value : Tree → JsonValue
  | .null => .null
  | .bool b => .bool b
  | .number text => .number (numberValue text)
  | .string s => .string s
  | .array elements => .array (valueElements elements)
  | .object members => .object (canonical (valueMembers members))

def valueElements : List Tree → List JsonValue
  | [] => []
  | t :: ts => t.value :: valueElements ts

def valueMembers : List (String × Tree) → List (String × JsonValue)
  | [] => []
  | m :: ms => (m.1, m.2.value) :: valueMembers ms

end

/-- The entry of a map; a missing one reads as `nil`. -/
def JsonValue.member (v : JsonValue) (name : String) : JsonValue :=
  match v with
  | .object members => (members.lookup name).getD .null
  | _ => .null

def JsonValue.string? : JsonValue → Option String
  | .string s => some s
  | _ => none

/-! ## Values that went through an `any` -/

mutual

/-- A value with its numbers changed. -/
def JsonValue.mapNumbers (f : ℚ → ℚ) : JsonValue → JsonValue
  | .null => .null
  | .bool b => .bool b
  | .number x => .number (f x)
  | .string s => .string s
  | .array elements => .array (mapElements f elements)
  | .object members => .object (mapMembers f members)

def mapElements (f : ℚ → ℚ) : List JsonValue → List JsonValue
  | [] => []
  | v :: vs => v.mapNumbers f :: mapElements f vs

def mapMembers (f : ℚ → ℚ) : List (String × JsonValue) → List (String × JsonValue)
  | [] => []
  | m :: ms => (m.1, m.2.mapNumbers f) :: mapMembers f ms

end

mutual

/-- Every number that counts has the property. -/
def JsonValue.AllNumbers (P : ℚ → Prop) : JsonValue → Prop
  | .number x => P x
  | .array elements => AllElements P elements
  | .object members => AllMembers P members
  | _ => True

def AllElements (P : ℚ → Prop) : List JsonValue → Prop
  | [] => True
  | v :: vs => v.AllNumbers P ∧ AllElements P vs

def AllMembers (P : ℚ → Prop) : List (String × JsonValue) → Prop
  | [] => True
  | m :: ms => m.2.AllNumbers P ∧ AllMembers P ms

end

mutual

/-- Every number in the text is in the range of `float64`, those that do not count too: Go decodes
them all. -/
def Tree.inRange : Tree → Bool
  | .number text => (Float64.round (numberValue text)).isSome
  | .array elements => elementsInRange elements
  | .object members => membersInRange members
  | _ => true

def elementsInRange : List Tree → Bool
  | [] => true
  | t :: ts => t.inRange && elementsInRange ts

def membersInRange : List (String × Tree) → Bool
  | [] => true
  | m :: ms => m.2.inRange && membersInRange ms

end

/-- `json.Unmarshal` into an `any`; `none` is a number out of range. -/
def Tree.toAny (t : Tree) : Option JsonValue :=
  if t.inRange then some (t.value.mapNumbers Float64.nearest) else none

/-- Into an `any`. -/
def Decoder.value : Decoder JsonValue := fun _ t ↦
  (t.value.mapNumbers Float64.nearest, !t.inRange)

/-- Into a `map[string]any`, which keeps the entries it has. -/
def Decoder.map : Decoder JsonValue
  | _, .null => (.null, false)
  | old, .object members =>
    let before := match old with
      | .object entries => entries
      | _ => []
    (.object (canonical (before ++ mapMembers Float64.nearest (valueMembers members))),
      !membersInRange members)
  | old, _ => (old, true)

/-- What the text says that `json.Marshal` writes for an `any`. -/
def JsonValue.marshalled (v : JsonValue) : JsonValue := v.mapNumbers Float64.shortest

/-- What a text says. -/
def textValue (text : List UInt8) : Option JsonValue :=
  (JsonText.parse text).map fun d ↦ (ofValue d.value).value

mutual

theorem mapNumbers_mapNumbers (f g : ℚ → ℚ) (v : JsonValue) :
    (v.mapNumbers f).mapNumbers g = v.mapNumbers fun x ↦ g (f x) :=
  match v with
  | .null => rfl
  | .bool _ => rfl
  | .number _ => rfl
  | .string _ => rfl
  | .array elements => congrArg JsonValue.array (mapElements_mapElements f g elements)
  | .object members => congrArg JsonValue.object (mapMembers_mapMembers f g members)

theorem mapElements_mapElements (f g : ℚ → ℚ) (vs : List JsonValue) :
    mapElements g (mapElements f vs) = mapElements (fun x ↦ g (f x)) vs :=
  match vs with
  | [] => rfl
  | v :: vs => congrArg₂ List.cons (mapNumbers_mapNumbers f g v) (mapElements_mapElements f g vs)

theorem mapMembers_mapMembers (f g : ℚ → ℚ) (ms : List (String × JsonValue)) :
    mapMembers g (mapMembers f ms) = mapMembers (fun x ↦ g (f x)) ms :=
  match ms with
  | [] => rfl
  | m :: ms => congrArg₂ List.cons (congrArg (Prod.mk m.1) (mapNumbers_mapNumbers f g m.2))
      (mapMembers_mapMembers f g ms)

end

mutual

theorem mapNumbers_of_all {f : ℚ → ℚ} (v : JsonValue) (h : v.AllNumbers fun x ↦ f x = x) :
    v.mapNumbers f = v :=
  match v with
  | .null => rfl
  | .bool _ => rfl
  | .number _ => congrArg JsonValue.number h
  | .string _ => rfl
  | .array elements => congrArg JsonValue.array (mapElements_of_all elements h)
  | .object members => congrArg JsonValue.object (mapMembers_of_all members h)

theorem mapElements_of_all {f : ℚ → ℚ} (vs : List JsonValue)
    (h : AllElements (fun x ↦ f x = x) vs) :
    mapElements f vs = vs :=
  match vs with
  | [] => rfl
  | v :: vs => congrArg₂ List.cons (mapNumbers_of_all v h.1) (mapElements_of_all vs h.2)

theorem mapMembers_of_all {f : ℚ → ℚ} (ms : List (String × JsonValue))
    (h : AllMembers (fun x ↦ f x = x) ms) : mapMembers f ms = ms :=
  match ms with
  | [] => rfl
  | m :: ms => congrArg₂ List.cons (congrArg (Prod.mk m.1) (mapNumbers_of_all m.2 h.1))
      (mapMembers_of_all ms h.2)

end

/-- Nothing is lost in an `any` but digits of numbers. -/
theorem marshalled_toAny {t : Tree} {v : JsonValue} (h : t.toAny = some v)
    (hexact : t.value.AllNumbers Float64.Exact) : v.marshalled = t.value := by
  rw [Tree.toAny] at h
  split_ifs at h
  rw [← Option.some.inj h, JsonValue.marshalled, mapNumbers_mapNumbers]
  exact mapNumbers_of_all t.value hexact

end GoJson
