import Kaalm.Foundation.GoMap
import Kaalm.Foundation.JsonCompact
import Kaalm.Gateway.Broker

/-!
# Narrowing a tools/list result

The broker shows a caller only the tools that it was granted. `narrowToolsResult` keeps the entries
of the list that the filter permits, puts them under the exact name `tools`, drops every other
member that a client could take for the list, and marks the answer as private.

The entries are not decoded and encoded again, so what the filter has read in an entry must be what
every client reads there. An entry with two candidates for `name` is dropped for that reason.

A `json.RawMessage` is the value of its text here. `json.Marshal` writes it compacted.
-/

namespace Kaalm.Gateway

open Ascii JsonText GoJson

/-- `json.Unmarshal` into a `map[string]json.RawMessage`, for an object. -/
def rawMembers (ms : List Member) : GoMap String Value :=
  ms.foldl (fun m x ↦ m.insert (unquote x.name.1) x.value) ∅

theorem isContent_marshalName (k : String) : isContent (marshalContent (Utf8.encode k.toList)) :=
  isContent_marshalContent _

/-- A member as `json.Marshal` writes it. -/
def marshalMember (k : String) (v : Value) : Member :=
  .bare ⟨marshalContent (Utf8.encode k.toList), isContent_marshalName k⟩ (compact v)

/-- `json.Marshal` of a `map[string]json.RawMessage`: the members in key order. -/
def marshalRaw (m : GoMap String Value) : Value :=
  .ofMembers ((m.entries.insertionSort fun a b ↦ a.1 ≤ b.1).map fun e ↦ marshalMember e.1 e.2)

/-- The entry is kept: it decodes, its name is permitted, and it has no other candidate for a
name. -/
def keepsEntry (filter : ToolFilter) (entry : Value) : Option Bool :=
  let t := Decoder.struct toolNameFields "" (ofValue entry)
  if t.2 || !filter.permits t.1 then some false
  else if entry.text.head? = some lbrace then (repeatsJSONMember entry.text 0 "name").map not
  else some true

/-- The loop over the entries. -/
def keptEntries (filter : ToolFilter) : List Value → Option (List Value)
  | [] => some []
  | entry :: entries =>
    (keepsEntry filter entry).bind fun keep ↦ (keptEntries filter entries).map fun kept ↦
      if keep then entry :: kept else kept

/-- The member that the list is taken from: the one named exactly `tools`, or else the one that
`encoding/json` reads as `tools`. -/
def toolsSource (m : GoMap String Value) (ms : List Member) : Option Value :=
  match m.lookup "tools" with
  | some v => some v
  | none => ((ms.filter (named true "tools")).getLast?).map Member.value

/-- Deletes every key that matches the field. -/
def dropNamed (field : String) (m : GoMap String Value) : GoMap String Value :=
  m.keys.foldl (fun m k ↦ if jsonNameMatches k field then m.erase k else m) m

/-- Sets the value of every key that matches the field. -/
def setNamed (field : String) (v : Value) (m : GoMap String Value) : GoMap String Value :=
  m.keys.foldl (fun m k ↦ if jsonNameMatches k field then m.insert k v else m) m

def privateScope : Value := .string ⟨bytes "private", by decide⟩

/-- The narrowed result, or `none` for a result that is not an object. -/
def narrowToolsResult (result : List UInt8) (filter : ToolFilter) : Option (List UInt8) :=
  (parse result).bind fun d ↦
    if d.value.text.head? ≠ some lbrace then none
    else
      let m := rawMembers d.value.members
      let tools := toolsSource m d.value.members
      (keptEntries filter ((tools.map Value.elements).getD [])).map fun kept ↦
        let m := (dropNamed "tools" m).insert "tools" (.ofElements kept)
        (marshalRaw (setNamed "cacheScope" privateScope m)).text

/-! ## The entries that are kept -/

section Entries

variable {filter : ToolFilter} {entry : Value} {name : String}

/-- The name that a client reads in an entry. -/
def readName (r : NamePolicy) (entry : Value) : Option String :=
  (r.pick "name" entry.members).bind fun m ↦ (ofValue m.value).string?

theorem readName_compact (r : NamePolicy) (entry : Value) :
    readName r (compact entry) = readName r entry := by
  rw [readName, readName, NamePolicy.pick_compact]
  cases r.pick "name" entry.members with
  | none => rfl
  | some m =>
    rw [Option.map_some, Option.bind_some, Option.bind_some]
    exact congrArg Tree.string? (ofValue_compact m.value)

/-- An entry with one candidate for a name, which is a tool that the filter permits. -/
def isGranted (filter : ToolFilter) (entry : Value) : Bool :=
  match entry.members.filter (named true "name") with
  | [m] => (ofValue m.value).string?.any filter.permits
  | _ => false

/-- What the loop decides for an entry. -/
def keeps (filter : ToolFilter) (entry : Value) : Bool :=
  let t := Decoder.struct toolNameFields "" (ofValue entry)
  !t.2 && filter.permits t.1 && entry.members.countP (named true "name") ≤ 1

theorem keepsEntry_eq (filter : ToolFilter) (entry : Value) :
    keepsEntry filter entry = some (keeps filter entry) := by
  have hdrop : entry.text.drop 0 = entry.text ++ [] := (List.append_nil _).symm
  simp only [keepsEntry, keeps]
  cases (Decoder.struct toolNameFields "" (ofValue entry)).2 with
  | true => rfl
  | false =>
    cases filter.permits (Decoder.struct toolNameFields "" (ofValue entry)).1 with
    | false => rfl
    | true =>
      simp only [Bool.or_self, Bool.not_true, Bool.false_eq_true, if_false, Bool.not_false,
        Bool.and_self, Bool.true_and]
      split_ifs with hbrace
      · rw [repeatsJSONMember_eq hdrop hbrace, Option.map_some, ← decide_not]
        simp only [Nat.not_lt]
      · rw [members_eq_nil hbrace]
        rfl

theorem keptEntries_eq (filter : ToolFilter) (entries : List Value) :
    keptEntries filter entries = some (entries.filter (keeps filter)) := by
  induction entries with
  | nil => rfl
  | cons entry entries ih =>
    rw [keptEntries, keepsEntry_eq, Option.bind_some, ih, Option.map_some, List.filter_cons]

/-- Whatever a client takes for the name of a kept entry is permitted. -/
theorem permits_of_keeps {r : NamePolicy} (h : keeps filter entry)
    (hname : readName r entry = some name) :
    filter.permits name := by
  obtain ⟨m, hm, hstring⟩ := Option.bind_eq_some_iff.mp hname
  simp only [keeps, Bool.and_eq_true, decide_eq_true_eq] at h
  have hread : (Decoder.struct toolNameFields "" (ofValue entry)).1
      = (Decoder.string "" (ofValue m.value)).1 := struct_eq_of_pick hasField_name h.2 hm
  rw [eq_string_of_string? hstring] at hread
  have hpermits := h.1.2
  rwa [show (Decoder.struct toolNameFields "" (ofValue entry)).1 = name from hread] at hpermits

theorem keeps_of_isGranted (h : isGranted filter entry) : keeps filter entry := by
  rw [isGranted] at h
  split at h
  · next m hm =>
    obtain ⟨name, hname, hpermits⟩ := (Option.any_eq_true _ _).mp h
    have hmem : m ∈ entry.members := (List.mem_filter.mp (hm ▸ List.mem_singleton_self m)).1
    have hread : Decoder.struct toolNameFields "" (ofValue entry) = (name, false) := by
      rw [toolNameFields, struct_single hmem, hm, List.foldl_cons, eq_string_of_string? hname]
      rfl
    rw [keeps, hread, List.countP_eq_length_filter, hm]
    simp only [Bool.not_false, hpermits]
    rfl
  · cases h

end Entries

/-! ## The members of the result -/

section Members

variable {field k : String} {v : Value} {m : GoMap String Value}

/-- The member that a Go map keeps: the last one of the very name. -/
def lastExact : NamePolicy := ⟨false, true⟩

theorem lookup_rawMembers (ms : List Member) (k : String) :
    (rawMembers ms).lookup k = (lastExact.pick k ms).map Member.value := by
  suffices ∀ m : GoMap String Value,
      (ms.foldl (fun m x ↦ m.insert (unquote x.name.1) x.value) m).lookup k
      = ((lastExact.pick k ms).map Member.value).or (m.lookup k) by
    rw [rawMembers, this, AList.lookup_empty, Option.or_none]
  induction ms with
  | nil => exact fun m ↦ rfl
  | cons x ms ih =>
    intro m
    have hpick : ∀ l, lastExact.pick k l = (l.filter (named false k)).getLast? := fun l ↦ rfl
    rw [List.foldl_cons, ih, AList.lookup_insert_ite, hpick, hpick, List.filter_cons]
    by_cases hx : unquote x.name.1 = k
    · rw [if_pos hx.symm, if_pos (named_true_of_eq hx false), List.getLast?_cons, Option.map_some]
      cases (ms.filter (named false k)).getLast? with
      | none => rfl
      | some y => rfl
    · have hnamed : ¬ named false k x := fun h ↦ hx (of_decide_eq_true h)
      rw [if_neg fun h ↦ hx h.symm, if_neg hnamed]

/-- A loop over keys that gives those of a kind the new lookup `w`. -/
theorem lookup_foldl_guarded {c : String → Bool}
    {update : GoMap String Value → String → GoMap String Value}
    {w : Option Value}
    (hupdate : ∀ m j k, (update m j).lookup k = if k = j then w else m.lookup k)
    (ks : List String) (m : GoMap String Value) (k : String) :
    (ks.foldl (fun m k ↦ if c k then update m k else m) m).lookup k
      = if k ∈ ks ∧ c k then w else m.lookup k := by
  induction ks generalizing m with
  | nil => exact (if_neg fun h ↦ List.not_mem_nil h.1).symm
  | cons j ks ih =>
    have hguard : (if c j then update m j else m).lookup k = if k = j ∧ c k then w
        else m.lookup k := by
      by_cases hk : k = j
      · subst hk
        by_cases hc : c k
        · rw [if_pos hc, hupdate, if_pos rfl, if_pos ⟨rfl, hc⟩]
        · rw [if_neg hc, if_neg fun h ↦ hc h.2]
      · have hkept : (if c j then update m j else m).lookup k = m.lookup k := by
          split_ifs
          · rw [hupdate, if_neg hk]
          · rfl
        rw [hkept, if_neg fun h ↦ hk h.1]
    rw [List.foldl_cons, ih, hguard]
    by_cases hks : k ∈ ks ∧ c k
    · rw [if_pos hks, if_pos ⟨List.mem_cons_of_mem j hks.1, hks.2⟩]
    · rw [if_neg hks]
      refine if_congr ⟨fun h ↦ ⟨List.mem_cons.mpr (Or.inl h.1), h.2⟩, fun h ↦ ?_⟩ rfl rfl
      exact ⟨(List.mem_cons.mp h.1).resolve_right fun hmem ↦ hks ⟨hmem, h.2⟩, h.2⟩

theorem lookup_dropNamed (field : String) (m : GoMap String Value) (k : String) :
    (dropNamed field m).lookup k = if jsonNameMatches k field then none else m.lookup k := by
  rw [dropNamed, lookup_foldl_guarded fun m j k ↦ AList.lookup_erase_ite m j k]
  by_cases hk : k ∈ m
  · exact if_congr ⟨fun h ↦ h.2, fun h ↦ ⟨hk, h⟩⟩ rfl rfl
  · rw [if_neg fun h ↦ hk h.1, AList.lookup_eq_none.mpr hk, ite_self]

theorem lookup_setNamed (field : String) (v : Value) (m : GoMap String Value) (k : String) :
    (setNamed field v m).lookup k
      = if jsonNameMatches k field then (m.lookup k).map fun _ ↦ v else m.lookup k := by
  rw [setNamed, lookup_foldl_guarded fun m j k ↦ AList.lookup_insert_ite m j k v]
  by_cases hk : k ∈ m
  · obtain ⟨w, hw⟩ := AList.exists_lookup_of_mem hk
    rw [hw, Option.map_some]
    exact if_congr ⟨fun h ↦ h.2, fun h ↦ ⟨hk, h⟩⟩ rfl rfl
  · rw [if_neg fun h ↦ hk h.1, AList.lookup_eq_none.mpr hk, Option.map_none, ite_self]

theorem members_marshalRaw (m : GoMap String Value) : (marshalRaw m).members
    = (m.entries.insertionSort fun a b ↦ a.1 ≤ b.1).map fun e ↦ marshalMember e.1 e.2 :=
  Value.members_ofMembers _

theorem mem_members_marshalRaw {x : Member} :
    x ∈ (marshalRaw m).members ↔ ∃ k v, m.lookup k = some v ∧ x = marshalMember k v := by
  rw [members_marshalRaw, List.mem_map]
  constructor
  · rintro ⟨⟨k, v⟩, he, rfl⟩
    rw [List.mem_insertionSort] at he
    exact ⟨k, v, AList.mem_lookup_iff.mpr he, rfl⟩
  · rintro ⟨k, v, hlookup, rfl⟩
    exact ⟨⟨k, v⟩, (List.mem_insertionSort _).mpr (AList.mem_lookup_iff.mp hlookup), rfl⟩

theorem unquote_marshalMember (k : String) (v : Value) :
    unquote (marshalMember k v).name.1 = k := by
  have hname : unquote (marshalMember k v).name.1
      = String.ofList (Utf8.decode (Utf8.encode k.toList)) := unquote_marshalContent _
  rw [hname, Utf8.decode_encode, String.ofList_toList]

/-- A field that only one key matches has one candidate. -/
theorem countP_marshalRaw (h : ∀ k v, m.lookup k = some v → jsonNameMatches k field → k = field) :
    (marshalRaw m).members.countP (named true field) ≤ 1 := by
  have hnamed : (named true field ∘ fun e : Sigma fun _ : String ↦ Value ↦ marshalMember e.1 e.2)
      = fun e ↦ jsonNameMatches e.1 field := by
    funext e
    rw [Function.comp_apply, named, if_pos rfl, unquote_marshalMember, jsonNameMatches]
  rw [members_marshalRaw, List.countP_map, hnamed,
    (List.perm_insertionSort _ m.entries).countP_eq, List.countP_eq_length_filter]
  have hnodup : (m.entries.filter fun e ↦ jsonNameMatches e.1 field).NodupKeys :=
    List.NodupKeys.sublist List.filter_sublist m.nodupKeys
  have hkeys : ∀ e ∈ m.entries.filter fun e ↦ jsonNameMatches e.1 field, e.1 = field := by
    rintro ⟨k, v⟩ he
    obtain ⟨hmem, hmatch⟩ := List.mem_filter.mp he
    exact h k v (AList.mem_lookup_iff.mpr hmem) hmatch
  generalize m.entries.filter (fun e ↦ jsonNameMatches e.1 field) = l at hnodup hkeys
  rcases l with _ | ⟨e, _ | ⟨f, l⟩⟩
  · exact Nat.zero_le 1
  · exact Nat.le_refl 1
  · have hne := (List.nodupKeys_cons.mp hnodup).1
    rw [hkeys e (by simp), ← hkeys f (by simp)] at hne
    exact absurd (List.mem_keys_of_mem (List.mem_cons_self)) hne

end Members

/-! ## What a client sees -/

/-- The entries of the list that a result is narrowed from: the last member named exactly `tools`
has it, or else the last one that matches `tools`. -/
def sourceEntries (result : Value) : List Value :=
  (((lastExact.pick "tools" result.members).or
    (NamePolicy.pick ⟨true, true⟩ "tools" result.members)).map fun m ↦ m.value.elements).getD []

/-- The narrowed result `out` of `result`, for every client. -/
structure Narrowed (filter : ToolFilter) (result out : Value) : Prop where
  /-- Whatever a client takes for the list, and for the name of an entry, the name is permitted. -/
  granted : ∀ (r r' : NamePolicy) (list : Member), r.pick "tools" out.members = some list →
    ∀ entry ∈ list.value.elements, ∀ name, readName r' entry = some name → filter.permits name
  /-- All clients take the same list, and it has every granted entry, compacted, in order. -/
  kept : ∃ list, (∀ r : NamePolicy, r.pick "tools" out.members = some list)
    ∧ (((sourceEntries result).filter (isGranted filter)).map compact).Sublist list.value.elements
  cacheScope : ∀ m ∈ out.members, named true "cacheScope" m → ofValue m.value = .string "private"

theorem toolsSource_eq (ms : List Member) : toolsSource (rawMembers ms) ms
    = ((lastExact.pick "tools" ms).or (NamePolicy.pick ⟨true, true⟩ "tools" ms)).map
      Member.value := by
  rw [toolsSource, lookup_rawMembers]
  cases lastExact.pick "tools" ms with
  | none => rfl
  | some m => rfl

theorem narrowed_marshalRaw {filter : ToolFilter} {result : Value} {m : GoMap String Value}
    (htools : m.lookup "tools"
      = some (.ofElements ((sourceEntries result).filter (keeps filter))))
    (hother : ∀ k v, m.lookup k = some v → jsonNameMatches k "tools" → k = "tools")
    (hscope : ∀ k v, m.lookup k = some v → jsonNameMatches k "cacheScope" → v = privateScope) :
    Narrowed filter result (marshalRaw m) := by
  have hmem := mem_members_marshalRaw.mpr ⟨_, _, htools, rfl⟩
  have hpick : ∀ r : NamePolicy, r.pick "tools" (marshalRaw m).members = some _ := fun r ↦
    r.pick_eq (countP_marshalRaw hother) hmem (unquote_marshalMember _ _)
  have helements : (marshalMember "tools"
      (.ofElements ((sourceEntries result).filter (keeps filter)))).value.elements
        = ((sourceEntries result).filter (keeps filter)).map compact :=
    (elements_compact _).trans (congrArg _ (Value.elements_ofElements _))
  refine ⟨fun r r' list hlist entry hentry name hname ↦ ?_, ⟨_, hpick, ?_⟩, fun x hx hnamed ↦ ?_⟩
  · rw [hpick r] at hlist
    obtain rfl := Option.some.inj hlist
    rw [helements] at hentry
    obtain ⟨e, he, rfl⟩ := List.mem_map.mp hentry
    rw [readName_compact] at hname
    exact permits_of_keeps (List.mem_filter.mp he).2 hname
  · rw [helements]
    exact (List.monotone_filter_right _ fun _ h ↦ keeps_of_isGranted h).map compact
  · obtain ⟨k, v, hlookup, rfl⟩ := mem_members_marshalRaw.mp hx
    rw [named, if_pos rfl, unquote_marshalMember] at hnamed
    have hvalue : ofValue (marshalMember k v).value = ofValue v := ofValue_compact v
    rw [hvalue, hscope k v hlookup hnamed]
    rfl

/-- The map that is marshalled. -/
def narrowedMap (filter : ToolFilter) (result : Value) : GoMap String Value :=
  setNamed "cacheScope" privateScope ((dropNamed "tools" (rawMembers result.members)).insert "tools"
    (.ofElements ((sourceEntries result).filter (keeps filter))))

theorem narrowToolsResult_eq {result : List UInt8} {d : Document} (hparse : parse result = some d)
    (hobject : d.value.text.head? = some lbrace) (filter : ToolFilter) :
    narrowToolsResult result filter = some (marshalRaw (narrowedMap filter d.value)).text := by
  have hsource :
    ((toolsSource (rawMembers d.value.members) d.value.members).map Value.elements).getD []
      = sourceEntries d.value := by
    rw [toolsSource_eq, Option.map_map]
    rfl
  rw [narrowToolsResult, hparse, Option.bind_some, if_neg (not_not.mpr hobject)]
  simp only [hsource, keptEntries_eq]
  rfl

theorem narrowed_narrowedMap (filter : ToolFilter) (result : Value) :
    Narrowed filter result (marshalRaw (narrowedMap filter result)) := by
  refine narrowed_marshalRaw ?_ ?_ ?_
  · rw [narrowedMap, lookup_setNamed, if_neg (by decide), AList.lookup_insert]
  · intro k v hlookup hmatch
    by_contra hk
    have hscope : ¬ jsonNameMatches k "cacheScope" := by
      rw [jsonNameMatches, nameMatches_congr hmatch]
      decide
    rw [narrowedMap, lookup_setNamed, if_neg hscope, AList.lookup_insert_ite, if_neg hk,
      lookup_dropNamed, if_pos hmatch] at hlookup
    cases hlookup
  · intro k v hlookup hmatch
    rw [narrowedMap, lookup_setNamed, if_pos hmatch] at hlookup
    obtain ⟨w, -, hw⟩ := Option.map_eq_some_iff.mp hlookup
    exact hw.symm

/-- Every result that is an object is narrowed: no client reads a tool that was not granted, the
granted entries are all there, and the answer is private. -/
theorem narrowToolsResult_narrowed {result : List UInt8} {d : Document}
    (hparse : parse result = some d)
    (hobject : d.value.text.head? = some lbrace) (filter : ToolFilter) :
    ∃ out d', narrowToolsResult result filter = some out ∧ parse out = some d'
      ∧ Narrowed filter d.value d'.value := by
  refine ⟨_, ⟨noSpace, marshalRaw (narrowedMap filter d.value), noSpace⟩,
    narrowToolsResult_eq hparse hobject filter, parse_eq_some_iff.mpr ?_,
    narrowed_narrowedMap filter d.value⟩
  rw [Document.text, noSpace, List.nil_append, List.append_nil]

/-- A list under two names, with entries that only some clients read as the tool `b`. -/
def mixedResult : List UInt8 :=
  bytes ("\x7b\"tools\":[\x7b\"name\":\"a\"\x7d,\x7b\"name\":\"a\",\"Name\":\"b\"\x7d],"
    ++ "\"Tools\":[\x7b\"name\":\"b\"\x7d]\x7d")

theorem narrowToolsResult_narrowed_mixed :
    ∃ d, parse mixedResult = some d ∧ d.value.text.head? = some lbrace
      ∧ ∃ out d', narrowToolsResult mixedResult ⟨some {"a"}⟩ = some out ∧ parse out = some d'
        ∧ Narrowed ⟨some {"a"}⟩ d.value d'.value := by
  obtain ⟨d, hparse, hobject⟩ : ∃ d, parse mixedResult = some d
      ∧ decide (d.value.text.head? = some lbrace) = true :=
    (Option.any_eq_true _ _).mp (by decide +kernel : (parse mixedResult).any
      (fun d ↦ d.value.text.head? = some lbrace) = true)
  have hobject := of_decide_eq_true hobject
  exact ⟨d, hparse, hobject, narrowToolsResult_narrowed hparse hobject ⟨some {"a"}⟩⟩

/-- An entry with white space in it. -/
def spacedEntry : List UInt8 := bytes "\x7b\"name\": \"a\"\x7d"

def spacedResult : List UInt8 := bytes "\x7b\"tools\":[" ++ spacedEntry ++ bytes "]\x7d"

/-- The bytes of a granted entry need not be in the result. -/
theorem narrowToolsResult_compacts :
    ∃ d out, parse spacedResult = some d ∧ (sourceEntries d.value).map Value.text = [spacedEntry]
      ∧ (∀ entry ∈ sourceEntries d.value, isGranted ⟨some {"a"}⟩ entry)
      ∧ narrowToolsResult spacedResult ⟨some {"a"}⟩ = some out ∧ ¬ spacedEntry <:+: out := by
  have hrun : (parse spacedResult).any (fun d ↦
      (sourceEntries d.value).map Value.text = [spacedEntry]
        ∧ (sourceEntries d.value).all (isGranted ⟨some {"a"}⟩)
        ∧ (narrowToolsResult spacedResult ⟨some {"a"}⟩).any fun out ↦ ¬ spacedEntry <:+: out)
          = true := by
    decide +kernel
  obtain ⟨d, hd, hrun⟩ := (Option.any_eq_true _ _).mp hrun
  obtain ⟨htext, hgranted, hout⟩ := of_decide_eq_true hrun
  obtain ⟨out, hout, hbytes⟩ := (Option.any_eq_true _ _).mp hout
  exact ⟨d, out, hd, htext, List.all_eq_true.mp hgranted, hout, of_decide_eq_true hbytes⟩

end Kaalm.Gateway
