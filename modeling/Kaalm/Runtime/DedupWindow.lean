import Kaalm.Runtime.Codec

/-!
# The window of answered messages

The runtime keeps the replies it has given in a map, and the ids of the map in a list, oldest first,
from which it takes the id to evict. The two are read from a state file that another runtime may
have written, and are then changed by the replayed log, by new replies, and by messages that are
delivered again.

The list of a state file may name an id twice. Loading the file drops the ids without a reply and
adds the ids that are missing, but it takes an id that stands twice for two ids: it keeps both, and
another id stays out of the list (`enumerates_ofLoaded` and `nodup_knownOrder` have what is needed
of the file). A file may also have more ids than the window; the first remembered reply evicts the
oldest of them, even if one of these is the id just answered (`recall_rememberLocked_of_overdue`).
-/

namespace Kaalm.AgentRuntime

open PersistedState

/-- The size of the window, for remembering and for replaying. -/
def dedupBufferSize : ℕ := 1024

/-! ## Delivering a message again -/

namespace PersistedState

/-- Move a known id to the newest end of the order. -/
def touchLocked (s : PersistedState) (id : String) : PersistedState :=
  if id ∈ s.dedupOrder then { s with dedupOrder := s.dedupOrder.erase id ++ [id] } else s

def «recall» (s : PersistedState) (id : String) : Option Response × PersistedState :=
  match s.dedup.lookup id with
  | some reply => (some reply, s.touchLocked id)
  | none => (none, s)

/-- The ids that the next remembered reply evicts if it adds none: those beyond the window. -/
def overdue (s : PersistedState) : List String :=
  s.dedupOrder.take (s.dedupOrder.length - dedupBufferSize)

end PersistedState

/-- The calls of the runtime that change the state. -/
inductive Call
  | write (w : Write)
  | «recall» (id : String)
  deriving DecidableEq

def PersistedState.call (s : PersistedState) : Call → PersistedState
  | .write w => s.apply dedupBufferSize w
  | .«recall» id => (s.«recall» id).2

/-- The state after a file has been read, a log replayed and some calls made. -/
def reached (loaded : LoadedState) (log : List Write) (calls : List Call) : PersistedState :=
  calls.foldl call (replay dedupBufferSize log loaded.state)

variable {s : PersistedState} {loaded : LoadedState}

/-! ## The order list has the ids of the map -/

/-- A file whose order list does not name a known id twice is read as a proper window. -/
theorem enumerates_ofLoaded (h : loaded.knownOrder.Nodup) : loaded.state.Enumerates := by
  have hknown : ∀ id, id ∈ loaded.knownOrder → id ∈ loaded.replies := fun id hid ↦
    of_decide_eq_true (List.mem_filter.mp hid).2
  have horder : loaded.state.dedupOrder
      = if loaded.knownOrder.length < loaded.replies.keys.length then
          loaded.knownOrder ++ loaded.replies.keys.filter fun id ↦ id ∉ loaded.knownOrder
        else loaded.knownOrder := rfl
  have hdedup : loaded.state.dedup = loaded.replies := rfl
  by_cases hshort : loaded.knownOrder.length < loaded.replies.keys.length
  · rw [if_pos hshort] at horder
    refine ⟨fun id ↦ ?_, ?_⟩
    · rw [horder, hdedup, List.mem_append, List.mem_filter, AList.mem_keys, decide_eq_true_iff]
      constructor
      · intro hid
        by_cases hin : id ∈ loaded.knownOrder
        · exact Or.inl hin
        · exact Or.inr ⟨hid, hin⟩
      · rintro (hid | hid)
        · exact hknown id hid
        · exact hid.1
    · rw [horder, List.nodup_append]
      refine ⟨h, loaded.replies.keys_nodup.filter _, fun a ha b hb hab ↦ ?_⟩
      exact of_decide_eq_true (List.mem_filter.mp hb).2 (hab ▸ ha)
  · rw [if_neg hshort] at horder
    rw [← horder] at h
    refine ⟨fun id ↦ ?_, h⟩
    -- As many different ids as there are replies, each with a reply, are all of them.
    have hsubperm := List.subperm_of_subset (horder ▸ h)
      fun id hid ↦ AList.mem_keys.mp (hknown id hid)
    have hperm := hsubperm.perm_of_length_le (Nat.le_of_not_lt hshort)
    rw [horder, hdedup, AList.mem_keys, hperm.mem_iff]

/-- And only such a file. -/
theorem nodup_knownOrder (h : loaded.state.dedupOrder.Nodup) : loaded.knownOrder.Nodup := by
  refine h.sublist ?_
  show loaded.knownOrder.Sublist (if _ then loaded.knownOrder ++ _ else loaded.knownOrder)
  split_ifs
  · exact List.sublist_append_left _ _
  · exact List.Sublist.refl _

namespace PersistedState.Enumerates

theorem touchLocked (h : s.Enumerates) (id : String) : (s.touchLocked id).Enumerates := by
  rw [PersistedState.touchLocked]
  split_ifs with hid
  · have hperm : (s.dedupOrder.erase id ++ [id]).Perm s.dedupOrder :=
      (List.perm_append_singleton id _).trans (List.perm_cons_erase hid).symm
    exact ⟨fun id' ↦ (h.mem_iff id').trans hperm.mem_iff.symm, hperm.nodup_iff.mpr h.nodup⟩
  · exact h

theorem «recall» (h : s.Enumerates) (id : String) : (s.«recall» id).2.Enumerates := by
  rw [PersistedState.«recall»]
  cases s.dedup.lookup id with
  | none => exact h
  | some reply => exact h.touchLocked id

theorem apply (h : s.Enumerates) (w : Write) : (s.apply dedupBufferSize w).Enumerates := by
  cases w with
  | remember id reply =>
    obtain ⟨order, -, -, henum, -⟩ := h.remember dedupBufferSize id reply
    exact henum
  | set key value => exact ⟨h.mem_iff, h.nodup⟩
  | delete key => exact ⟨h.mem_iff, h.nodup⟩

theorem replay (h : s.Enumerates) (log : List Write) :
    (replay dedupBufferSize log s).Enumerates := by
  induction log generalizing s with
  | nil => exact h
  | cons w log ih => exact ih (h.apply w)

theorem call (h : s.Enumerates) (c : Call) : (s.call c).Enumerates := by
  cases c with
  | write w => exact h.apply w
  | «recall» id => exact h.«recall» id

theorem calls (h : s.Enumerates) (cs : List Call) :
    (cs.foldl PersistedState.call s).Enumerates := by
  induction cs generalizing s with
  | nil => exact h
  | cons c cs ih => exact ih (h.call c)

end PersistedState.Enumerates

/-! ## What remembering a reply leaves -/

theorem recall_fst (s : PersistedState) (id : String) : (s.«recall» id).1 = s.dedup.lookup id := by
  rw [«recall»]
  cases s.dedup.lookup id <;> rfl

/-- At most the window is left, whatever was there before. -/
theorem length_rememberLocked (h : s.Enumerates) (id : String) (reply : Response) :
    (s.rememberLocked id reply dedupBufferSize).dedupOrder.length ≤ dedupBufferSize := by
  obtain ⟨order, -, horder, -, -⟩ := h.remember dedupBufferSize id reply
  rw [horder, List.rtake, List.length_drop]
  omega

/-- The id just remembered is in the window unless it was overdue. -/
private theorem mem_rtake_iff (h : s.Enumerates) (id : String) :
    id ∈ (if id ∈ s.dedupOrder then s.dedupOrder else s.dedupOrder ++ [id]).rtake dedupBufferSize
      ↔ id ∉ s.overdue := by
  split_ifs with hid
  · have hsplit := List.take_append_drop (s.dedupOrder.length - dedupBufferSize) s.dedupOrder
    have hdisjoint := List.disjoint_of_nodup_append (hsplit.symm ▸ h.nodup)
    rw [← hsplit, List.mem_append] at hid
    constructor
    · exact fun hkept hover ↦ hdisjoint hover hkept
    · exact fun hover ↦ hid.resolve_left hover
  · refine iff_of_true ?_ fun hover ↦ hid (List.mem_of_mem_take hover)
    rw [List.rtake, List.length_append, List.length_singleton,
      List.drop_append_of_le_length (by rw [dedupBufferSize]; omega)]
    exact List.mem_append_right _ List.mem_cons_self

theorem recall_rememberLocked (h : s.Enumerates) {id : String} (hid : id ∉ s.overdue)
    (reply : Response) :
    ((s.rememberLocked id reply dedupBufferSize).«recall» id).1 = some reply := by
  obtain ⟨order, hpushed, -, -, hlookup⟩ := h.remember dedupBufferSize id reply
  rw [recall_fst, hlookup, hpushed, if_pos ((mem_rtake_iff h id).mpr hid), if_pos rfl]

/-- A reply to an overdue id is forgotten at once. -/
theorem recall_rememberLocked_of_overdue (h : s.Enumerates) {id : String} (hid : id ∈ s.overdue)
    (reply : Response) : ((s.rememberLocked id reply dedupBufferSize).«recall» id).1 = none := by
  obtain ⟨order, hpushed, -, -, hlookup⟩ := h.remember dedupBufferSize id reply
  rw [recall_fst, hlookup, hpushed, if_neg fun hkept ↦ (mem_rtake_iff h id).mp hkept hid]

/-- A state file that does not name a known id twice is read, and its log replayed, into a window
that stays an enumeration of the replies; a remembered reply leaves at most `dedupBufferSize` ids,
and is recalled if its id was not among those beyond the window. -/
theorem dedupOrder_enumerates_dedup (loaded : LoadedState) (hknown : loaded.knownOrder.Nodup)
    (log : List Write) (calls : List Call) :
    (reached loaded log calls).dedupOrder.Nodup
      ∧ (∀ id, id ∈ (reached loaded log calls).dedupOrder
          ↔ id ∈ (reached loaded log calls).dedup)
      ∧ ∀ id reply,
          ((reached loaded log calls).rememberLocked id reply dedupBufferSize).dedupOrder.length
              ≤ dedupBufferSize
            ∧ (id ∉ (reached loaded log calls).overdue →
                (((reached loaded log calls).rememberLocked id reply dedupBufferSize).«recall» id).1
                  = some reply) := by
  have h : (reached loaded log calls).Enumerates :=
    ((enumerates_ofLoaded hknown).replay log).calls calls
  refine ⟨h.nodup, fun id ↦ (h.mem_iff id).symm, fun id reply ↦ ⟨?_, fun hid ↦ ?_⟩⟩
  · exact length_rememberLocked h id reply
  · exact recall_rememberLocked h hid reply

/-- A file without an order list. -/
private def unorderedFile : LoadedState where
  kv := none
  dedup := some ((∅ : GoMap String Response).insert "a" { content := "hello" })
  dedupOrder := none

theorem dedupOrder_enumerates_dedup_unordered :
    let s := reached unorderedFile [.remember "b" { content := "again" }] [.«recall» "a"]
    s.dedupOrder = ["b", "a"] ∧ (∀ id, id ∈ s.dedupOrder ↔ id ∈ s.dedup)
      ∧ ((s.rememberLocked "b" { content := "bye" } dedupBufferSize).«recall» "b").1
        = some { content := "bye" } := by
  obtain ⟨-, hmem, hremember⟩ := dedupOrder_enumerates_dedup unorderedFile (by decide)
    [.remember "b" { content := "again" }] [.«recall» "a"]
  exact ⟨by decide, hmem, (hremember "b" { content := "bye" }).2 (by decide)⟩

/-- A state file with two replies whose order list names one of them twice. -/
private def repeatedFile : List Char :=
  ("\x7b\"dedup\":\x7b\"a\":\x7b\"content\":\"x\"\x7d,\"b\":\x7b\"content\":\"y\"\x7d\x7d,"
    ++ "\"dedupOrder\":[\"a\",\"a\"]\x7d").toList

/-- The id named twice stays in the list twice, and the other reply is not in it at all. -/
theorem load_of_repeated_id :
    ¬ (load id (some (Journal.utf8 repeatedFile))).dedupOrder.Nodup
      ∧ "b" ∈ (load id (some (Journal.utf8 repeatedFile))).dedup
      ∧ "b" ∉ (load id (some (Journal.utf8 repeatedFile))).dedupOrder := by
  decide +kernel

/-! ## How long a reply stays -/

/-- The id that a call remembers or recalls. -/
def Call.touched : Call → Option String
  | .write (.remember id _) | .«recall» id => some id
  | .write _ => none

/-- The reply is in the window, and the ids that are newer than its own are among `newer`. -/
def PersistedState.Holds (s : PersistedState) (id : String) (reply : Response)
    (newer : Finset String) : Prop :=
  s.dedup.lookup id = some reply
    ∧ ∃ older rest, s.dedupOrder = older ++ id :: rest ∧ ∀ x ∈ rest, x ∈ newer

section

variable {id : String} {reply : Response} {newer : Finset String}

/-- So few ids are newer that the eviction does not come to the id. -/
theorem rtake_of_newer {older rest : List String} (hnodup : (older ++ id :: rest).Nodup)
    (hrest : ∀ x ∈ rest, x ∈ newer) (hcard : newer.card < dedupBufferSize) :
    ∃ older', (older ++ id :: rest).rtake dedupBufferSize = older' ++ id :: rest := by
  have hlength : rest.length ≤ newer.card := by
    rw [← List.toFinset_card_of_nodup (List.nodup_cons.mp hnodup.of_append_right).2]
    exact Finset.card_le_card fun x hx ↦ hrest x (List.mem_toFinset.mp hx)
  refine ⟨older.drop ((older ++ id :: rest).length - dedupBufferSize), ?_⟩
  rw [List.rtake, List.drop_append_of_le_length]
  rw [List.length_append, List.length_cons]
  omega

theorem PersistedState.Holds.remember (h : s.Holds id reply newer) (henum : s.Enumerates)
    {id' : String} (hne : id' ≠ id) (hmem : id' ∈ newer) (hcard : newer.card < dedupBufferSize)
    (reply' : Response) : (s.rememberLocked id' reply' dedupBufferSize).Holds id reply newer := by
  obtain ⟨hlookup, older, rest, horder, hrest⟩ := h
  have hnodup := henum.nodup
  obtain ⟨order, hpushed, horder', -, hlookup'⟩ := henum.remember dedupBufferSize id' reply'
  obtain ⟨rest', hsplit, hrest', hnodup'⟩ : ∃ rest', order = older ++ id :: rest'
      ∧ (∀ x ∈ rest', x ∈ newer) ∧ order.Nodup := by
    rw [hpushed, horder]
    split_ifs with hknown
    · exact ⟨rest, rfl, hrest, horder ▸ hnodup⟩
    · exact ⟨rest ++ [id'], by grind, by grind, by grind⟩
  obtain ⟨older', hkept⟩ := rtake_of_newer (hsplit ▸ hnodup') hrest' hcard
  rw [hsplit, hkept] at horder' hlookup'
  refine ⟨?_, older', rest', horder', hrest'⟩
  rw [hlookup', if_pos (by simp), if_neg hne.symm, hlookup]

theorem PersistedState.Holds.touchLocked (h : s.Holds id reply newer) (henum : s.Enumerates)
    {id' : String} (hmem : id' ≠ id → id' ∈ newer) : (s.touchLocked id').Holds id reply newer := by
  rw [PersistedState.touchLocked]
  split_ifs with hknown
  · obtain ⟨hlookup, older, rest, horder, hrest⟩ := h
    have hnodup := henum.nodup
    refine ⟨hlookup, ?_⟩
    simp only [horder] at hnodup ⊢
    by_cases heq : id' = id
    · exact ⟨older ++ rest, [], by grind, by simp⟩
    · by_cases hold : id' ∈ older
      · exact ⟨older.erase id', rest ++ [id'], by grind, by grind⟩
      · exact ⟨older, rest.erase id' ++ [id'], by grind, by grind⟩
  · exact h

theorem PersistedState.Holds.call (h : s.Holds id reply newer) (henum : s.Enumerates) {c : Call}
    (hother : ∀ r, c ≠ .write (.remember id r)) (hnewer : ∀ x ∈ c.touched, x ≠ id → x ∈ newer)
    (hcard : newer.card < dedupBufferSize) : (s.call c).Holds id reply newer := by
  cases c with
  | write w =>
    cases w with
    | remember id' reply' =>
      have hne : id' ≠ id := fun heq ↦ hother reply' (heq ▸ rfl)
      exact h.remember henum hne (hnewer id' rfl hne) hcard reply'
    | set key value => exact h
    | delete key => exact h
  | «recall» id' =>
    rw [PersistedState.call, PersistedState.«recall»]
    cases s.dedup.lookup id' with
    | none => exact h
    | some reply' => exact h.touchLocked henum (hnewer id' rfl)

end

/-- A reply whose id is the newest of the window is recalled until `dedupBufferSize` other ids have
been remembered or recalled after it. -/
theorem recall_of_newest (loaded : LoadedState) (hknown : loaded.knownOrder.Nodup)
    (log : List Write) (calls later : List Call) {id : String} {reply : Response}
    (hnewest : (reached loaded log calls).dedupOrder.getLast? = some id)
    (hreply : ((reached loaded log calls).«recall» id).1 = some reply)
    (hother : ∀ r, .write (.remember id r) ∉ later)
    (hfew : ((later.filterMap Call.touched).toFinset.erase id).card < dedupBufferSize) :
    ((reached loaded log (calls ++ later)).«recall» id).1 = some reply := by
  obtain ⟨older, horder⟩ := List.getLast?_eq_some_iff.mp hnewest
  have henum : (reached loaded log calls).Enumerates :=
    ((enumerates_ofLoaded hknown).replay log).calls calls
  have hholds : (reached loaded log calls).Holds id reply
      ((later.filterMap Call.touched).toFinset.erase id) :=
    ⟨(recall_fst _ id).symm.trans hreply, older, [], horder, by simp⟩
  have hcalls : ∀ cs ⊆ later, ∀ s : PersistedState, s.Enumerates →
      s.Holds id reply ((later.filterMap Call.touched).toFinset.erase id) →
      (cs.foldl call s).dedup.lookup id = some reply := by
    intro cs
    induction cs with
    | nil => exact fun _ s _ hs ↦ hs.1
    | cons c cs ih =>
      intro hsub s henum hs
      obtain ⟨hc, hsub⟩ := List.cons_subset.mp hsub
      refine ih hsub _ (henum.call c)
        (hs.call henum (fun r heq ↦ hother r (heq ▸ hc)) (fun x hx hne ↦ ?_) hfew)
      exact Finset.mem_erase.mpr ⟨hne, List.mem_toFinset.mpr (List.mem_filterMap.mpr ⟨c, hc, hx⟩)⟩
  rw [reached, List.foldl_append, recall_fst]
  exact hcalls later (List.Subset.refl _) _ henum hholds

theorem recall_of_newest_again :
    ((reached unorderedFile [] ([.«recall» "a"] ++ [.write (.remember "b" { content := "bye" }),
      .«recall» "b"])).«recall» "a").1 = some { content := "hello" } :=
  recall_of_newest unorderedFile (by decide) [] [.«recall» "a"]
    [.write (.remember "b" { content := "bye" }), .«recall» "b"] (by decide) (by decide)
    (by simp) (by decide)

end Kaalm.AgentRuntime
