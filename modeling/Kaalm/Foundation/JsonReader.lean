import Kaalm.Foundation.JsonObject

/-!
# Readers that differ in how they select a member

A reader of an object takes one of the members that it counts as a field. If ignoring case there is
at most one, then every reader takes that one or none (`eq_of_pick`), and so does a Go `struct`
(`struct_eq_of_pick`): what the struct has in the field is what any other reader finds there.
-/

namespace GoJson

open JsonText

variable {field : String} {ms : List Member} {m : Member}

/-- The member that the reader takes. -/
def NamePolicy.pick (r : NamePolicy) (field : String) (ms : List Member) : Option Member :=
  let found := ms.filter (named r.foldCase field)
  if r.keepLast then found.getLast? else found.head?

theorem named_fold {foldCase : Bool} (h : named foldCase field m) : named true field m := by
  cases foldCase with
  | true => exact h
  | false => exact named_true_of_eq (of_decide_eq_true h) true

/-- Whatever the reader does, it takes a member that counts as the field. -/
theorem NamePolicy.mem_of_pick {r : NamePolicy} (h : r.pick field ms = some m) :
    m ∈ ms ∧ named true field m := by
  have hmem : m ∈ ms.filter (named r.foldCase field) := by
    simp only [NamePolicy.pick] at h
    split_ifs at h
    · exact List.mem_of_getLast? h
    · exact List.mem_of_head? h
  obtain ⟨hms, hnamed⟩ := List.mem_filter.mp hmem
  exact ⟨hms, named_fold hnamed⟩

theorem filter_eq_of_pick {r : NamePolicy} (honce : ms.countP (named true field) ≤ 1)
    (h : r.pick field ms = some m) : ms.filter (named true field) = [m] := by
  have hmem := List.mem_filter.mpr (NamePolicy.mem_of_pick h)
  rw [List.countP_eq_length_filter] at honce
  cases hlist : ms.filter (named true field) with
  | nil =>
    rw [hlist] at hmem
    cases hmem
  | cons n rest =>
    rw [hlist] at honce hmem
    obtain rfl : rest = [] := List.eq_nil_of_length_eq_zero (by simpa using honce)
    rw [List.mem_singleton.mp hmem]

/-- A field with one candidate, which has the very name: every reader takes it. -/
theorem NamePolicy.pick_eq (r : NamePolicy) (honce : ms.countP (named true field) ≤ 1) (hm : m ∈ ms)
    (hname : unquote m.name.1 = field) : r.pick field ms = some m := by
  have hle : (ms.filter (named r.foldCase field)).length ≤ 1 := by
    rw [← List.countP_eq_length_filter]
    exact (List.countP_mono_left fun _ _ h ↦ named_fold h).trans honce
  have hmem : m ∈ ms.filter (named r.foldCase field) :=
    List.mem_filter.mpr ⟨hm, named_true_of_eq hname r.foldCase⟩
  simp only [NamePolicy.pick]
  cases hlist : ms.filter (named r.foldCase field) with
  | nil =>
    rw [hlist] at hmem
    cases hmem
  | cons n rest =>
    rw [hlist] at hle hmem
    obtain rfl : rest = [] := List.eq_nil_of_length_eq_zero (by simpa using hle)
    rw [List.mem_singleton.mp hmem]
    split_ifs
    · rfl
    · rfl

/-! ## What a struct gets -/

/-- The members of an object as its tree has them. -/
def pairs (ms : List Member) : List (String × Tree) :=
  ms.map fun m ↦ (unquote m.name.1, ofValue m.value)

theorem ofMembers_eq (ms : Members) : ofMembers ms = pairs ms.toList := by
  induction ms using Members.toList.induct with
  | case1 => rfl
  | case2 before name afterName beforeValue value after rest ih =>
    rw [ofMembers, ih]
    rfl

theorem ofValue_of_mem {v : Value} (h : m ∈ v.members) : ofValue v = .object (pairs v.members) := by
  cases v with
  | object ms => exact congrArg Tree.object (ofMembers_eq ms)
  | scalar t => cases h
  | string n => cases h
  | emptyArray s => cases h
  | array es => cases h
  | emptyObject s => cases h

section Struct

variable {α β : Type} {fields : List (String × Decoder α)} {get : α → β} {d : Decoder β}

/-- The field `field` of the struct is what `get` gets, and it is decoded by `d`; the other fields
are elsewhere. -/
def HasField (fields : List (String × Decoder α)) (field : String) (get : α → β) (d : Decoder β) :
    Prop :=
  ∀ (name : String) (a : α) (t : Tree),
    get ((fields.find? fun f ↦ nameMatches name f.1).elim a fun f ↦ (f.2 a t).1)
      = if nameMatches name field then (d (get a) t).1 else get a

theorem nameMatches_congr {name name' : String} (h : nameMatches name name') (field : String) :
    nameMatches name field = nameMatches name' field := by
  rw [nameMatches, of_decide_eq_true h, nameMatches]

theorem hasField_of_forall
    (hall : ∀ f ∈ fields, ∀ a t, get (f.2 a t).1
      = if nameMatches f.1 field then (d (get a) t).1 else get a)
    (hsome : ∃ f ∈ fields, nameMatches f.1 field) : HasField fields field get d := by
  intro name a t
  cases hfind : fields.find? fun f ↦ nameMatches name f.1 with
  | some f =>
    have hname := List.find?_some hfind
    rw [Option.elim_some, hall f (List.mem_of_find?_eq_some hfind), nameMatches_congr hname]
  | none =>
    obtain ⟨f, hf, hmatch⟩ := hsome
    have hname : ¬ nameMatches name field := fun h ↦ by
      refine List.find?_eq_none.mp hfind f hf (decide_eq_true ?_)
      rw [of_decide_eq_true h, of_decide_eq_true hmatch]
    rw [Option.elim_none, if_neg hname]

theorem get_foldl (h : HasField fields field get d) (ms : List Member) (r : α × Bool) :
    get ((pairs ms).foldl (fun r m ↦
        match fields.find? fun f ↦ nameMatches m.1 f.1 with
        | some f => ((f.2 r.1 m.2).1, r.2 || (f.2 r.1 m.2).2)
        | none => r) r).1
      = (ms.filter (named true field)).foldl (fun b m ↦ (d b (ofValue m.value)).1) (get r.1) := by
  induction ms generalizing r with
  | nil => rfl
  | cons m ms ih =>
    have hm := h (unquote m.name.1) r.1 (ofValue m.value)
    have hnamed : named true field m = nameMatches (unquote m.name.1) field := if_pos rfl
    rw [pairs, List.map_cons, List.foldl_cons, ← pairs, ih, List.filter_cons, hnamed]
    cases hfind : fields.find? fun f ↦ nameMatches (unquote m.name.1) f.1 with
    | none =>
      rw [hfind] at hm
      simp only [Option.elim_none] at hm ⊢
      split_ifs at hm ⊢
      · rw [List.foldl_cons, ← hm]
      · rfl
    | some f =>
      rw [hfind] at hm
      simp only [Option.elim_some] at hm ⊢
      rw [hm]
      split_ifs
      · rfl
      · rfl

/-- What a struct has in a field: the members of its name, one on top of the other. -/
theorem get_struct (h : HasField fields field get d) (v : Value) (old : α) :
    get (Decoder.struct fields old (ofValue v)).1
      = (v.members.filter (named true field)).foldl (fun b m ↦ (d b (ofValue m.value)).1)
        (get old) := by
  cases v with
  | object ms =>
    rw [ofValue, ofMembers_eq]
    exact get_foldl h ms.toList (old, false)
  | scalar t =>
    rw [ofValue]
    split_ifs <;> rfl
  | string n => rfl
  | emptyArray s => rfl
  | array es => rfl
  | emptyObject s => rfl

/-- A struct leaves alone what none of its fields is. -/
theorem get_struct_of_forall (h : ∀ f ∈ fields, ∀ a t, get (f.2 a t).1 = get a) (old : α)
    (t : Tree) :
    get (Decoder.struct fields old t).1 = get old := by
  cases t with
  | object members =>
    rw [Decoder.struct]
    suffices ∀ r : α × Bool, get (members.foldl (fun r m ↦
        match fields.find? fun f ↦ nameMatches m.1 f.1 with
        | some f => ((f.2 r.1 m.2).1, r.2 || (f.2 r.1 m.2).2)
        | none => r) r).1 = get r.1 from this (old, false)
    induction members with
    | nil => exact fun _ ↦ rfl
    | cons m members ih =>
      intro r
      rw [List.foldl_cons, ih]
      cases hfind : fields.find? fun f ↦ nameMatches m.1 f.1 with
      | none => rfl
      | some f => exact h f (List.mem_of_find?_eq_some hfind) r.1 m.2
  | null => rfl
  | bool b => rfl
  | number text => rfl
  | string s => rfl
  | array elements => rfl

/-- If there is but one candidate for the field, then the struct has what any reader takes. -/
theorem struct_eq_of_pick {v : Value} {r : NamePolicy} {old : α} (h : HasField fields field get d)
    (honce : v.members.countP (named true field) ≤ 1) (hpick : r.pick field v.members = some m) :
    get (Decoder.struct fields old (ofValue v)).1 = (d (get old) (ofValue m.value)).1 := by
  rw [get_struct h, filter_eq_of_pick honce hpick]
  rfl

/-- A struct of one field sees only the members of its name. -/
theorem struct_single {v : Value} {d : Decoder α} {old : α} (hm : m ∈ v.members) :
    Decoder.struct [(field, d)] old (ofValue v)
      = (v.members.filter (named true field)).foldl (fun r m ↦
          ((d r.1 (ofValue m.value)).1, r.2 || (d r.1 (ofValue m.value)).2)) (old, false) := by
  rw [ofValue_of_mem hm]
  simp only [Decoder.struct]
  generalize (old, false) = r
  clear hm
  induction v.members generalizing r with
  | nil => rfl
  | cons m ms ih =>
    have hnamed : named true field m = nameMatches (unquote m.name.1) field := if_pos rfl
    rw [pairs, List.map_cons, List.foldl_cons, ← pairs, ih, List.filter_cons, hnamed,
      List.find?_cons]
    cases nameMatches (unquote m.name.1) field with
    | true => rfl
    | false => rfl

end Struct

end GoJson
