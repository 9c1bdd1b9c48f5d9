import Kaalm.Foundation.GoJson
import Kaalm.Foundation.Journal
import Kaalm.Runtime.State

/-!
# The snapshot of the agent runtime

How the runtime reads the whole state from the snapshot in `state.json`.

Metadata values are decoded into Go's `any`, so a number becomes a `float64`, and what is encoded
again is not always the text that was read. `readAny` stands for decoding and encoding such a value;
all other values keep their text, without the white space that encoding them drops.
-/

namespace Kaalm.AgentRuntime

open Json

instance (t : List Char) : Decidable (IsRaw t) :=
  decidable_of_iff (accepts t ∧ skipSpace t = t ∧ '\n' ∉ t)
    ⟨fun h ↦ ⟨h.1, h.2.1, h.2.2⟩, fun h ↦ ⟨h.accepts, h.head, h.line⟩⟩

/-! ## Values -/

def RawMessage.ofText (t : List Char) : Option RawMessage :=
  if h : IsRaw t then some ⟨t, h⟩ else none

/-- The text without the white space between its tokens. The flag says whether it starts in a
string. -/
def withoutSpace : Bool → List Char → List Char
  | _, [] => []
  | false, c :: cs => if isSpace c then withoutSpace false cs else c :: withoutSpace (c = quote) cs
  | true, '\\' :: c :: cs => '\\' :: c :: withoutSpace true cs
  | true, c :: cs => c :: withoutSpace (c ≠ quote) cs

/-- The values that are decoded into a field, one after the other. Names count without their
case. -/
def field (name : String) (ms : List (String × List Char)) : List (List Char) :=
  (ms.filter fun m ↦ GoJson.nameMatches m.1 name).map Prod.snd

/-- A field that may be nil, as `null` makes it. -/
def optional {α : Type} (decode : Option α → List Char → Option α) (values : List (List Char)) :
    Option (Option α) :=
  values.foldlM (fun old t ↦ if t = null then some none else (decode old t).map some) none

/-- A value of type `string`, which `null` leaves as it is. -/
def unquoteText (old : String) (t : List Char) : Option String :=
  if t = null then some old else (readString t).bind fun r ↦ if r.2 = [] then some r.1 else none

/-- The members of a struct; `null` leaves all fields at their zero values. -/
def structMembers (t : List Char) : Option (List (String × List Char)) :=
  if t = null then some [] else objectMembers t

/-- A field of type `string`. -/
def stringField (name : String) (ms : List (String × List Char)) : Option String :=
  (field name ms).foldlM unquoteText ""

/-! ## Maps -/

section Map

variable {V : Type} (decode : List Char → Option V)

/-- The members are added to the map that is there. -/
def unmarshalMap (old : Option (GoMap String V)) (t : List Char) : Option (GoMap String V) :=
  (objectMembers t).bind fun ms ↦
    ms.foldlM (fun out m ↦ (decode m.2).map fun v ↦ out.insert m.1 v) (old.getD ∅)

end Map

/-! ## Replies -/

section Reply

variable (readAny : RawMessage → RawMessage)

def unmarshalAttachments (t : List Char) : Option (List RawMessage) :=
  (arrayElements t).bind fun vs ↦ vs.mapM RawMessage.ofText

def unmarshalMetadata (t : List Char) : Option (List (String × RawMessage)) :=
  (objectMembers t).bind fun ms ↦ ms.mapM fun m ↦
    (RawMessage.ofText m.2).map fun v ↦ (m.1, readAny v)

def unmarshalResponse (t : List Char) : Option Response := do
  let ms ← structMembers t
  let content ← stringField "content" ms
  let attachments ← optional (fun _ ↦ unmarshalAttachments) (field "attachments" ms)
  let metadata ← optional (fun _ ↦ unmarshalMetadata readAny) (field "metadata" ms)
  return { content := content, attachments := attachments, metadata := metadata }

end Reply

/-! ## The snapshot -/

/-- A decoded state file. -/
structure LoadedState where
  kv : Option (GoMap String RawMessage)
  dedup : Option (GoMap String Response)
  dedupOrder : Option (List String)

/-- The order list of a state file without the ids that have no reply, and with those it lacks. -/
def reconcileOrder (order : List String) (dedup : GoMap String Response) : List String :=
  let known := order.filter fun id ↦ id ∈ dedup
  if known.length < dedup.keys.length then known ++ dedup.keys.filter fun id ↦ id ∉ known else known

namespace LoadedState

/-- The replies of the file. -/
def replies (loaded : LoadedState) : GoMap String Response := loaded.dedup.getD ∅

/-- The ids of the file's order list that have a reply. -/
def knownOrder (loaded : LoadedState) : List String :=
  (loaded.dedupOrder.getD []).filter fun id ↦ id ∈ loaded.replies

/-- The state that is made of a file. -/
def state (loaded : LoadedState) : PersistedState where
  kv := loaded.kv.getD ∅
  dedup := loaded.replies
  dedupOrder := reconcileOrder (loaded.dedupOrder.getD []) loaded.replies

end LoadedState

section Snapshot

variable (readAny : RawMessage → RawMessage)

def unmarshalOrder (t : List Char) : Option (List String) :=
  (arrayElements t).bind fun ids ↦ ids.mapM (unquoteText "")

def unmarshalState (t : List Char) : Option LoadedState := do
  guard (accepts t)
  let ms ← structMembers (withoutSpace false t)
  let kv ← optional (unmarshalMap RawMessage.ofText) (field "kv" ms)
  let dedup ← optional (unmarshalMap (unmarshalResponse readAny)) (field "dedup" ms)
  let order ← optional (fun _ ↦ unmarshalOrder) (field "dedupOrder" ms)
  return { kv := kv, dedup := dedup, dedupOrder := order }

/-- A missing or corrupt file gives the empty state. -/
def load (file : Option (List UInt8)) : PersistedState :=
  ((file.bind fun bs ↦ unmarshalState readAny (Journal.runes 0 bs)).map LoadedState.state).getD {}

end Snapshot

end Kaalm.AgentRuntime
