import Kaalm.Foundation.GoMap
import Kaalm.Foundation.JsonScan
import Mathlib.Data.List.DropRight

/-!
# The state of the agent runtime

What an agent carries across a restart: the key-value map of its handler, and the window of the
messages it has answered, with their replies, oldest first. Writes to it are remembered replies, set
keys and deleted keys.
-/

namespace Kaalm.AgentRuntime

/-- `json.RawMessage`, as `json.Marshal` returns it. -/
structure RawMessage where
  text : List Char
  raw : Json.IsRaw text
  deriving DecidableEq

/-- The reply to a message. A nil slice or map is `none`; the members of the metadata are in the
order in which they are encoded, and each value is its encoding. -/
structure Response where
  content : String
  attachments : Option (List RawMessage) := none
  metadata : Option (List (String × RawMessage)) := none
  deriving DecidableEq

/-- The writes of the runtime. -/
inductive Write
  | remember (id : String) (reply : Response)
  | set (key : String) (value : RawMessage)
  | delete (key : String)
  deriving DecidableEq

structure PersistedState where
  kv : GoMap String RawMessage := ∅
  /-- The reply to each message of the window. -/
  dedup : GoMap String Response := ∅
  /-- The ids of the window, oldest first. -/
  dedupOrder : List String := []
  deriving DecidableEq

namespace PersistedState

/-- Drop the oldest ids until at most `size` are left. -/
def evict (size : ℕ) : List String → GoMap String Response → List String × GoMap String Response
  | [], dedup => ([], dedup)
  | id :: order, dedup =>
    if size < (id :: order).length then evict size order (dedup.erase id) else (id :: order, dedup)

/-- Remembering a known id replaces its reply and leaves its place in the window. -/
def rememberLocked (s : PersistedState) (id : String) (reply : Response) (size : ℕ) :
    PersistedState :=
  let order := if id ∈ s.dedup then s.dedupOrder else s.dedupOrder ++ [id]
  let (order, dedup) := evict size order (s.dedup.insert id reply)
  { s with dedup := dedup, dedupOrder := order }

def apply (size : ℕ) (s : PersistedState) : Write → PersistedState
  | .remember id reply => s.rememberLocked id reply size
  | .set key value => { s with kv := s.kv.insert key value }
  | .delete key => { s with kv := s.kv.erase key }

def replay (size : ℕ) (ws : List Write) (s : PersistedState) : PersistedState :=
  ws.foldl (apply size) s

/-- The window has each of its ids once, with a reply. -/
structure Enumerates (s : PersistedState) : Prop where
  mem_iff : ∀ id, id ∈ s.dedup ↔ id ∈ s.dedupOrder
  nodup : s.dedupOrder.Nodup

end PersistedState

open PersistedState

variable {s : PersistedState}

/-! ## The window -/

/-- Eviction keeps the newest ids and their replies. -/
private theorem evict_spec (size : ℕ) {order : List String} (hnodup : order.Nodup)
    (m : GoMap String Response) :
    (evict size order m).1 = order.rtake size
      ∧ ∀ id, (evict size order m).2.lookup id
        = if id ∈ order ∧ id ∉ order.rtake size then none else m.lookup id := by
  induction order generalizing m with
  | nil => exact ⟨(List.rtake_nil _).symm, fun id ↦ (if_neg fun h ↦ List.not_mem_nil h.1).symm⟩
  | cons id order ih =>
    obtain ⟨hid, hnodup⟩ := List.nodup_cons.mp hnodup
    rw [evict]
    split_ifs with hlong
    · obtain ⟨hfst, hsnd⟩ := ih hnodup (m.erase id)
      have hrtake : (id :: order).rtake size = order.rtake size := by
        rw [List.length_cons] at hlong
        rw [List.rtake, List.rtake, List.length_cons, Nat.succ_sub (Nat.le_of_lt_succ hlong),
          List.drop_succ_cons]
      rw [hrtake]
      refine ⟨hfst, fun id' ↦ ?_⟩
      rw [hsnd id']
      by_cases hne : id' = id
      · subst hne
        have hgone : id' ∉ order.rtake size := fun h ↦ hid (List.mem_of_mem_drop h)
        rw [if_neg fun h ↦ hid h.1, if_pos ⟨List.mem_cons_self, hgone⟩, AList.lookup_erase]
      · simp only [AList.lookup_erase_ne hne, List.mem_cons, hne, false_or]
    · have hrtake : (id :: order).rtake size = id :: order := by
        rw [List.rtake, Nat.sub_eq_zero_of_le (Nat.le_of_not_lt hlong), List.drop_zero]
      rw [hrtake]
      exact ⟨rfl, fun id' ↦ (if_neg fun h ↦ h.2 h.1).symm⟩

/-- The ids of the window after one remembered reply, before the eviction. -/
private theorem exists_order (hs : s.Enumerates) (id : String) :
    ∃ order, (if id ∈ s.dedup then s.dedupOrder else s.dedupOrder ++ [id]) = order
      ∧ order = (if id ∈ s.dedupOrder then s.dedupOrder else s.dedupOrder ++ [id])
      ∧ order.Nodup ∧ ∀ id', id' ∈ order ↔ id' = id ∨ id' ∈ s.dedupOrder := by
  by_cases hid : id ∈ s.dedup
  · have hmem := (hs.mem_iff id).mp hid
    refine ⟨s.dedupOrder, if_pos hid, (if_pos hmem).symm, hs.nodup, fun id' ↦ ⟨Or.inr, ?_⟩⟩
    rintro (rfl | h)
    · exact hmem
    · exact h
  · have hmem : id ∉ s.dedupOrder := fun h ↦ hid ((hs.mem_iff id).mpr h)
    refine ⟨s.dedupOrder ++ [id], if_neg hid, (if_neg hmem).symm, ?_, fun id' ↦ ?_⟩
    · exact List.nodup_append.mpr ⟨hs.nodup, List.nodup_singleton _, fun a ha b hb hab ↦
        hmem (List.mem_singleton.mp hb ▸ hab ▸ ha)⟩
    · rw [List.mem_append, List.mem_singleton, or_comm]

/-- One remembered reply: the newest ids are left, and each of them has its reply. -/
theorem PersistedState.Enumerates.remember (hs : s.Enumerates) (size : ℕ) (id : String)
    (reply : Response) :
    ∃ order, order = (if id ∈ s.dedupOrder then s.dedupOrder else s.dedupOrder ++ [id])
      ∧ (s.rememberLocked id reply size).dedupOrder = order.rtake size
      ∧ (s.rememberLocked id reply size).Enumerates
      ∧ ∀ id', (s.rememberLocked id reply size).dedup.lookup id'
          = if id' ∈ order.rtake size then if id' = id then some reply else s.dedup.lookup id'
            else none := by
  obtain ⟨order, horder, hpushed, hnodup, hmem⟩ := exists_order hs id
  obtain ⟨hfst, hsnd⟩ := evict_spec size hnodup (s.dedup.insert id reply)
  have hremember : s.rememberLocked id reply size
      = { s with
          dedup := (evict size order (s.dedup.insert id reply)).2
          dedupOrder := order.rtake size } := by
    rw [rememberLocked, horder, ← hfst]
  have hlookup : ∀ id', (evict size order (s.dedup.insert id reply)).2.lookup id'
      = if id' ∈ order.rtake size then if id' = id then some reply else s.dedup.lookup id'
        else none := by
    intro id'
    rw [hsnd, AList.lookup_insert_ite]
    by_cases hkept : id' ∈ order.rtake size
    · rw [if_pos hkept, if_neg fun h ↦ h.2 hkept]
    · rw [if_neg hkept]
      by_cases hold : id' ∈ order
      · rw [if_pos ⟨hold, hkept⟩]
      · have hnew := not_or.mp (mt (hmem id').mpr hold)
        rw [if_neg fun h ↦ hold h.1, if_neg hnew.1, AList.lookup_eq_none, hs.mem_iff]
        exact hnew.2
  refine ⟨order, hpushed, ?_⟩
  rw [hremember]
  refine ⟨rfl, ⟨fun id' ↦ ?_, hnodup.sublist (List.drop_sublist _ _)⟩, hlookup⟩
  rw [← AList.lookup_isSome, hlookup]
  by_cases hkept : id' ∈ order.rtake size
  · refine iff_of_true ?_ hkept
    rw [if_pos hkept]
    by_cases hne : id' = id
    · rw [if_pos hne]
      rfl
    · rw [if_neg hne, AList.lookup_isSome, hs.mem_iff]
      exact ((hmem id').mp (List.mem_of_mem_drop hkept)).resolve_left hne
  · rw [if_neg hkept]
    exact iff_of_false Bool.false_ne_true hkept

end Kaalm.AgentRuntime
