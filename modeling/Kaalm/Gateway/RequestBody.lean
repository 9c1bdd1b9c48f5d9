import Kaalm.Foundation.JsonObject
import Kaalm.Foundation.Splice

/-!
# The request body of the LLM proxy

The gateway forwards the agent's request body as sent, apart from the value of `model`, the names of
the members that it routes by, and the `stream_options` of a streaming request. It never decodes the
body: `scanRequestFields` walks over the bytes of the top-level object and notes where these members
are, and `rewriteRequestBody` edits the body at these offsets.

The walk relies on the body being valid JSON. On other bodies it can run off the end, where Go
panics; such a result is `none` here. Strings that have been decoded are `String`; the model that is
written is a Go string, so any bytes.
-/

namespace Kaalm.Gateway

open Ascii JsonText Splice

/-! ## Walking over JSON -/

structure Span where
  start : ℕ
  stop : ℕ
  deriving DecidableEq

def Span.bytes (s : Span) (b : List UInt8) : List UInt8 := (b.drop s.start).take (s.stop - s.start)

/-- The offset of the first non-space byte at or after `i`. -/
def skipJSONSpace (b : List UInt8) (i : ℕ) : ℕ := i + ((b.drop i).takeWhile isSpace).length

/-- The number of bytes up to the closing quote, which is included. -/
def stringLength : List UInt8 → Option ℕ
  | [] => none
  | [c] => if c = quote then some 1 else none
  | c :: d :: cs =>
    if c = backslash then (stringLength cs).map (· + 2)
    else if c = quote then some 1
    else (stringLength (d :: cs)).map (· + 1)

/-- The offset just past the string that opens at `i`. -/
def skipJSONString (b : List UInt8) (i : ℕ) : Option ℕ :=
  (stringLength (b.drop (i + 1))).map fun n ↦ i + 1 + n

/-- The loop over a nested value: the offset just past the bracket that closes the last open one.
Every round consumes a byte. -/
def skipNested (b : List UInt8) : ℕ → ℕ → ℤ → Option ℕ
  | 0, _, _ => none
  | fuel + 1, j, depth =>
    match b[j]? with
    | none => none
    | some c =>
      if c = quote then (skipJSONString b j).bind fun j ↦ skipNested b fuel j depth
      else if c = lbrace ∨ c = lbracket then skipNested b fuel (j + 1) (depth + 1)
      else if c = rbrace ∨ c = rbracket then
        if depth - 1 = 0 then some (j + 1) else skipNested b fuel (j + 1) (depth - 1)
      else skipNested b fuel (j + 1) depth

def endsScalar (c : UInt8) : Bool := c = comma ∨ c = rbrace ∨ c = rbracket ∨ isSpace c

/-- The offset just past the value that starts at `i`. -/
def skipJSONValue (b : List UInt8) (i : ℕ) : Option ℕ :=
  match b[i]? with
  | none => none
  | some c =>
    if c = quote then skipJSONString b i
    else if c = lbrace ∨ c = lbracket then skipNested b b.length i 0
    else some (i + ((b.drop i).takeWhile fun c ↦ !endsScalar c).length)

/-- The string that a token stands for. Only a token with an escape or a byte that is not ASCII goes
through the decoder. -/
def jsonStringValue (token : List UInt8) : String :=
  let content := token.tail.dropLast
  if content.any fun c ↦ c = backslash ∨ 0x80 ≤ c then
    match GoJson.unmarshal "" GoJson.Decoder.string token with
    | some r => r.1
    | none => ""
  else String.ofList (Utf8.decode content)

def jsonNameMatches (name field : String) : Bool := GoJson.nameMatches name field

/-- Where a member is: its name with the quotes, and its value. -/
structure MemberSpan where
  key : Span
  name : String
  value : Span

inductive Next
  | close (offset : ℕ)
  | member (m : MemberSpan)

/-- The member whose name starts at `i`. -/
def memberAt (b : List UInt8) (i : ℕ) : Option MemberSpan :=
  (skipJSONString b i).bind fun keyEnd ↦
    let valueStart := skipJSONSpace b (skipJSONSpace b keyEnd + 1)
    (skipJSONValue b valueStart).map fun valueEnd ↦
      { key := ⟨i, keyEnd⟩
        name := jsonStringValue (Span.bytes ⟨i, keyEnd⟩ b)
        value := ⟨valueStart, valueEnd⟩ }

/-- What comes next inside an object. -/
def nextMember (b : List UInt8) (i : ℕ) : Option Next :=
  let i := skipJSONSpace b i
  match b[i]? with
  | none => none
  | some c =>
    if c = rbrace then some (.close i)
    else (memberAt b (if c = comma then skipJSONSpace b (i + 1) else i)).map .member

/-- The loop over the members of an object, from `i` on: a step on each, and at the end the offset
of the closing brace. -/
def walkMembers {σ ε : Type} (b : List UInt8) (step : σ → MemberSpan → Except ε σ) :
    ℕ → ℕ → σ → Option (Except ε (σ × ℕ))
  | 0, _, _ => none
  | fuel + 1, i, s =>
    match nextMember b i with
    | none => none
    | some (.close offset) => some (.ok (s, offset))
    | some (.member m) =>
      match step s m with
      | .error e => some (.error e)
      | .ok s => walkMembers b step fuel m.value.stop s

/-! ## The members that the gateway routes by -/

/-- The index of a routing member. -/
inductive Routing
  | model
  | stream
  | streamOptions
  deriving DecidableEq

namespace Routing

def all : List Routing := [.model, .stream, .streamOptions]

/-- `routingNames`. -/
def name : Routing → String
  | .model => "model"
  | .stream => "stream"
  | .streamOptions => "stream_options"

/-- `routingKeys`. -/
def key (r : Routing) : List UInt8 := quoted (bytes r.name)

end Routing

structure RequestFields where
  /-- The name of each routing member, with its quotes. -/
  keys : Routing → Option Span := fun _ ↦ none
  /-- The value of the model member. -/
  model : Option Span := none
  /-- The stream member is the literal `true`. -/
  streamTrue : Bool := false
  /-- The value of the stream_options member. -/
  options : Option Span := none
  members : ℕ := 0
  closeBrace : Option ℕ := none

inductive FieldError
  | duplicateField (r : Routing)
  | streamNotBoolean
  | notObject
  deriving DecidableEq

def FieldError.error : FieldError → String
  | .duplicateField r => "request body has more than one \"" ++ r.name ++ "\" field"
  | .streamNotBoolean => "stream must be a boolean"
  | .notObject => "request body is not a JSON object"

/-- The fields so far, and whether a stream member is not a boolean. -/
structure Scan where
  fields : RequestFields := {}
  badStream : Bool := false

def MemberSpan.routing (m : MemberSpan) : Option Routing :=
  Routing.all.find? fun r ↦ jsonNameMatches m.name r.name

/-- What the scan does with the member of a routing name that it has not seen before. -/
def Scan.note (b : List UInt8) (s : Scan) (m : MemberSpan) : Routing → Scan
  | .model => { s with fields := { s.fields with model := some m.value } }
  | .stream =>
    let v := m.value.bytes b
    { fields := { s.fields with streamTrue := v = bytes "true" }
      badStream := ¬ v = bytes "true" ∧ ¬ v = bytes "false" ∧ ¬ v = bytes "null" }
  | .streamOptions => { s with fields := { s.fields with options := some m.value } }

def Scan.record (b : List UInt8) (s : Scan) (m : MemberSpan) : Except FieldError Scan :=
  let f := { s.fields with members := s.fields.members + 1 }
  match m.routing with
  | none => .ok { s with fields := f }
  | some r =>
    if (f.keys r).isSome then .error (.duplicateField r)
    else .ok (Scan.note b
      { s with fields := { f with keys := Function.update f.keys r (some m.key) } } m r)

/-- The end of the scan, at the closing brace. -/
def Scan.close : Except FieldError (Scan × ℕ) → Except FieldError RequestFields
  | .error e => .error e
  | .ok (s, offset) =>
    if s.badStream then .error .streamNotBoolean
    else .ok { s.fields with closeBrace := some offset }

/-- The routing members of a body, which must be valid JSON. -/
def scanRequestFields (body : List UInt8) : Option (Except FieldError RequestFields) :=
  let i := skipJSONSpace body 0
  match body[i]? with
  | none => none
  | some c =>
    if c = 0x6e then some (.ok {})
    else if c ≠ lbrace then some (.error .notObject)
    else (walkMembers body (Scan.record body) body.length (i + 1) {}).map Scan.close

/-! ## The rewrite -/

def includeUsage : List UInt8 := bytes "\"include_usage\":true"

def streamOptionsOpen : List UInt8 := bytes "\"stream_options\":\x7b"

/-- The member that a streaming request without `stream_options` gets. -/
def streamOptionsMember : List UInt8 := streamOptionsOpen ++ (includeUsage ++ [rbrace])

/-- A member of the agent's `stream_options` is kept, unless it is an `include_usage`. -/
def keepOption (b : List UInt8) (out : List UInt8 × Bool) (m : MemberSpan) :
    Except Empty (List UInt8 × Bool) :=
  if jsonNameMatches m.name "include_usage" then .ok out
  else .ok (out.1 ++ ((if out.2 then [comma] else []) ++ Span.bytes ⟨m.key.start, m.value.stop⟩ b),
    true)

/-- The `stream_options` member that replaces the body's own, whose value starts at `start`. -/
def streamOptionsWithUsage (b : List UInt8) (start : ℕ) : Option (List UInt8) :=
  match b[start]? with
  | none => none
  | some c =>
    if c ≠ lbrace then some streamOptionsMember
    else (walkMembers b (keepOption b) b.length (start + 1) (streamOptionsOpen, false)).map fun
      | .ok ((out, kept), _) =>
        out ++ ((if kept then [comma] else []) ++ (includeUsage ++ [rbrace]))
      | .error e => nomatch e

/-- The edit that writes the name of a routing member exactly. -/
def keyEdit (body : List UInt8) (r : Routing) (key : Option Span) : List (Edit UInt8) :=
  match key with
  | none => []
  | some k => if k.bytes body ≠ r.key then [⟨k.start, k.stop, r.key⟩] else []

def keyEdits (body : List UInt8) (f : RequestFields) (forceUsage : Bool) : List (Edit UInt8) :=
  Routing.all.flatMap fun r ↦
    -- The edit of the whole member writes the name too.
    if r = .streamOptions ∧ forceUsage ∧ f.options.isSome then [] else keyEdit body r (f.keys r)

/-- The edit that writes the model, encoded by `json.Marshal`. -/
def modelEdit (f : RequestFields) (model : List UInt8) : List (Edit UInt8) :=
  match f.model with
  | none => []
  | some v => [⟨v.start, v.stop, quoted (GoJson.marshalContent model)⟩]

/-- With `forceUsage`, the `stream_options` member is rewritten, or appended if there is none. -/
def optionsEdit (body : List UInt8) (f : RequestFields) (forceUsage : Bool) :
    Option (List (Edit UInt8)) :=
  if forceUsage then
    match f.options, f.keys .streamOptions, f.closeBrace with
    | some v, some k, _ =>
      (streamOptionsWithUsage body v.start).map fun text ↦ [⟨k.start, v.stop, text⟩]
    | none, _, some brace =>
      some [⟨brace, brace, if f.members = 0 then streamOptionsMember
        else comma :: streamOptionsMember⟩]
    | _, _, _ => none
  else some []

/-- The body with the value of the model member replaced by `model` and the name of each routing
member written exactly. -/
def rewriteRequestBody (body : List UInt8) (f : RequestFields) (model : List UInt8)
    (forceUsage : Bool) : Option (List UInt8) :=
  (optionsEdit body f forceUsage).bind fun edits ↦
    Splice.apply body (keyEdits body f forceUsage ++ (modelEdit f model ++ edits))

end Kaalm.Gateway
