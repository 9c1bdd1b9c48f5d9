import Kaalm.Foundation.AnyValue
import Kaalm.Foundation.Cut

/-!
# Whose session a message belongs to

The webhook adapter takes the user id from the request, as the channel says, and derives the id of
the session from the path of the channel and the user id. The derivation is the UUIDv5 of both with
a colon between them; the UUID is a function of that name, arbitrary here, and results assume that
it is injective.

A path may hold colons, and a user id is whatever the caller sends. So a name can be taken apart in
two ways when one path goes on after the other one and a colon. In all other cases it determines the
channel and the user.
-/

namespace Kaalm.Gateway

open GoJson Ascii

/-! ## Channels and requests -/

structure ChannelExtractor where
  fromHeader : Option String := none
  fromBody : Option String := none
  fallback : Option String := none

/-- A path that the schema of a channel admits. -/
structure ChannelPath where
  text : String
  notReserved : ¬"/v1/".toList <+: text.toList

structure WebhookChannel where
  path : ChannelPath
  userID : ChannelExtractor := {}
  content : ChannelExtractor := {}
  session : Bool := false

/-- A request with the first value of each of its headers. -/
structure WebhookRequest where
  header : String → List UInt8 := fun _ ↦ []
  body : List UInt8 := []

/-! ## Reading the user -/

/-- The entry at the end of a dotted path. -/
def walkPath : List String → JsonValue → Option JsonValue
  | [], v => some v
  | part :: parts, v => (v.entry? part).bind (walkPath parts)

/-- `dottedLookup`. -/
def dottedLookup (body : JsonValue) (path : String) : String :=
  match walkPath ((path.toList.splitOn '.').map String.ofList) body with
  | some (.string s) => s
  | some (.number x) => (JsonValue.number x).sprint
  | some (.bool b) => (JsonValue.bool b).sprint
  | _ => ""

def extract (e : ChannelExtractor) (r : WebhookRequest) (body : JsonValue) : List UInt8 :=
  let value := match e.fromHeader with
    | some name => r.header name
    | none =>
      match e.fromBody with
      | some path => bytes (dottedLookup body path)
      | none => []
  if value = [] then (e.fallback.map bytes).getD [] else value

/-- The body as a map, if an extractor reads it; `none` is a body that does not decode. -/
def parsedBody (c : WebhookChannel) (r : WebhookRequest) : Option JsonValue :=
  if c.userID.fromBody.isSome ∨ c.content.fromBody.isSome then
    match unmarshal .null Decoder.map r.body with
    | some (v, false) => some v
    | _ => none
  else some .null

/-- `SessionID`, on the bytes of both texts. -/
def sessionID {α : Type} (newSHA1 : List UInt8 → α) (channelID userID : List UInt8) : α :=
  newSHA1 (channelID ++ bytes ":" ++ userID)

/-- What an envelope says of its sender. -/
structure Sender (α : Type) where
  channelID : List UInt8
  userID : List UInt8
  sessionID : Option α
  deriving DecidableEq

/-- The part of `normalize` that reads the sender. -/
def normalizeSender {α : Type} (newSHA1 : List UInt8 → α) (c : WebhookChannel)
    (r : WebhookRequest) :
    Option (Sender α) :=
  (parsedBody c r).map fun body ↦
    let channelID := bytes c.path.text
    let userID := extract c.userID r body
    { channelID, userID
      sessionID := if c.session then some (sessionID newSHA1 channelID userID) else none }

/-! ## Sessions -/

/-- Neither path goes on after the other one and a colon. -/
def ChannelPath.Apart (p q : ChannelPath) : Prop :=
  ¬bytes p.text ++ bytes ":" <+: bytes q.text ∧ ¬bytes q.text ++ bytes ":" <+: bytes p.text

theorem bytes_inj {s t : String} (h : bytes s = bytes t) : s = t := by
  rw [bytes, bytes, Array.toList_inj] at h
  exact String.toByteArray_inj.mp (ByteArray.ext h)

/-- Different users, or channels whose paths are apart, have different sessions. -/
theorem sessionID_ne {α : Type} {newSHA1 : List UInt8 → α} (hinj : Function.Injective newSHA1)
    {p q : ChannelPath} {u v : List UInt8} (hapart : p.Apart q) (hne : (p.text, u) ≠ (q.text, v)) :
    sessionID newSHA1 (bytes p.text) u ≠ sessionID newSHA1 (bytes q.text) v := by
  intro h
  obtain ⟨hpath, huser⟩ := Cut.append_inj_of_not_prefix hapart.1 hapart.2 (hinj h)
  exact hne (Prod.ext (bytes_inj hpath) huser)

/-- A channel that takes the user id from a header. -/
def headerChannel (path : ChannelPath) : WebhookChannel where
  path := path
  userID := { fromHeader := some "X-User" }
  session := true

def userRequest (user : String) : WebhookRequest where
  header := fun _ ↦ bytes user

def supportPath : ChannelPath := ⟨"/channels/a/x", by decide⟩

def colonPath : ChannelPath := ⟨"/channels/a/x:b", by decide⟩

theorem sessionID_ne_apart : supportPath.Apart ⟨"/channels/a/y", by decide⟩
    ∧ sessionID (fun name ↦ name) (bytes "/channels/a/x") (bytes "b:c")
      ≠ sessionID (fun name ↦ name) (bytes "/channels/a/y") (bytes "c") :=
  have hapart : supportPath.Apart ⟨"/channels/a/y", by decide⟩ := by
    refine ⟨?_, ?_⟩
    · decide
    · decide
  ⟨hapart, sessionID_ne Function.injective_id hapart (by decide)⟩

/-- The user `b:c` of one channel has the session of the user `c` of another one: the two names are
the same, whatever function makes the id of them. -/
theorem sessionID_collides : Function.Injective (id : List UInt8 → List UInt8)
    ∧ ∃ e f, normalizeSender id (headerChannel supportPath) (userRequest "b:c") = some e
      ∧ normalizeSender id (headerChannel colonPath) (userRequest "c") = some f
      ∧ e.channelID ≠ f.channelID ∧ e.userID ≠ f.userID
      ∧ e.sessionID.isSome ∧ e.sessionID = f.sessionID := by
  have hname : bytes "/channels/a/x" ++ bytes ":" ++ bytes "b:c"
      = bytes "/channels/a/x:b" ++ bytes ":" ++ bytes "c" := by decide
  have hchannel : bytes "/channels/a/x" ≠ bytes "/channels/a/x:b" := by decide
  have huser : bytes "b:c" ≠ bytes "c" := by decide
  exact ⟨Function.injective_id, _, _, rfl, rfl, hchannel, huser, rfl, congrArg some hname⟩

end Kaalm.Gateway
