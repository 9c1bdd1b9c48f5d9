import Kaalm.Budget.Hard
import Kaalm.Foundation.Glob
import Kaalm.Gateway.RequestBody

/-!
# The fallback walk

One LLM request in the gateway: the walk over the providers that the primary names as fallbacks,
depth first and in the order in which they are declared. What the walk does not decide is in
`World`: which providers there are, how a forwarded request ends, what the budget ledger answers,
whether a request can be translated for a provider of another format, and when the caller leaves.
The answers may depend on all that has happened before, which is the trace; so a statement about
every world covers every behaviour of the providers, of the ledger and of the caller.

`visit` is what the walk does at a provider before it turns to the provider's own fallbacks, and
`tryWithFallbacks` is the recursion over them. It has fuel. Each level of the recursion uses up an
attempt, so one level more than there are attempts is enough.
-/

namespace Kaalm.Gateway.Fallback

open JsonText Calendar

/-! ## Providers -/

inductive ProviderType
  | anthropic
  | openai
  | openaiCompatible
  | googleVertex
  | other (text : String)
  deriving DecidableEq

def ProviderType.text : ProviderType → String
  | .anthropic => "anthropic"
  | .openai => "openai"
  | .openaiCompatible => "openai-compatible"
  | .googleVertex => "google-vertex"
  | .other text => text

def providerFormat : ProviderType → ProviderType
  | .openaiCompatible => .openai
  | t => t

def translatableFormat : ProviderType → Bool
  | .anthropic | .openai | .openaiCompatible => true
  | _ => false

/-- An edge may join providers of the same type, or of two types that the gateway translates
between. -/
def fallbackFormatCompatible (parent child : ProviderType) : Bool :=
  parent = child ∨ (translatableFormat parent ∧ translatableFormat child)

def fallbackCrossesFormat (parent child : ProviderType) : Bool :=
  providerFormat parent ≠ providerFormat child

/-- The formats that the translator speaks. -/
inductive Format
  | anthropic
  | openai
  deriving DecidableEq

def formatForType (t : ProviderType) : Option Format :=
  match providerFormat t with
  | .anthropic => some .anthropic
  | .openai => some .openai
  | _ => none

/-- A streaming request in this format reports its usage only if it asks for it. -/
def streamUsageOption (t : ProviderType) : Bool := formatForType t = some .openai

/-- An entry of `spec.fallback`. -/
structure FallbackRef where
  name : String
  modelMap : GoMap String String := ∅

/-- The model that the edge asks the next provider for. -/
def FallbackRef.mapModel (ref : FallbackRef) (parentModel : String) : String :=
  match ref.modelMap.lookup parentModel with
  | some mapped => if mapped ≠ "" then mapped else parentModel
  | none => parentModel

/-- An entry of `spec.models`. -/
structure Model where
  id : String
  costPer1MInputTokens : String := ""
  costPer1MOutputTokens : String := ""

structure Provider extends ModelProvider where
  type : ProviderType
  allowedNamespaces : List String
  models : List Model
  fallback : List FallbackRef

/-- The provider's catalog has the model. -/
def Provider.offers (p : Provider) (model : String) : Bool := p.models.any fun m ↦ m.id = model

/-- Exact names or patterns. An empty list allows none. -/
def namespaceGlobAllowed (ns : String) (allowed : List String) : Bool :=
  allowed.any fun pattern ↦ Glob.pathMatch pattern ns

/-! ## Attempts -/

inductive FailClass
  | none
  | connect
  | timeout
  | upstream
  | budget
  | nonFallle
  | budgetUnavailable
  deriving DecidableEq

def isFallbackable (status : ℕ) : Bool × FailClass :=
  if 200 ≤ status ∧ status ≤ 299 then (false, .none)
  else if status = 429 ∨ (500 ≤ status ∧ status ≤ 599) then (true, .upstream)
  else if status = 401 ∨ status = 403 then (true, .upstream)
  else if status = 400 ∨ status = 422 then (false, .nonFallle)
  else if 400 ≤ status ∧ status ≤ 499 then (false, .nonFallle)
  else (true, .upstream)

structure Response where
  status : ℕ
  /-- The content type is `text/event-stream`. -/
  sse : Bool
  deriving DecidableEq

/-- The status is a 2xx. -/
def Response.ok (r : Response) : Bool := 200 ≤ r.status ∧ r.status ≤ 299

/-- How the read of the body of an answer that is no 2xx ends. -/
inductive BodyRead
  | done
  | callerLeft
  | failed (idle : Bool)
  deriving DecidableEq

/-- How a forwarded request ends. -/
inductive Upstream
  /-- The store refuses the credential, the key does not parse, or the request cannot be built. -/
  | unready
  /-- The token endpoint refuses the key. -/
  | tokenRejected
  | tokenFailed (timeout : Bool)
  /-- There are no response headers. -/
  | noResponse (timeout : Bool)
  | answer (response : Response) (read : BodyRead)
  deriving DecidableEq

/-- A settle callback of `Admit`, by the number of callbacks that the request got before it. -/
abbrev SettleId := ℕ

structure ForwardResult where
  resp : Option Response := none
  fallilable : Bool := false
  failClass : FailClass := .none
  err : Bool := false
  /-- The candidate that answered. -/
  chosen : Option Provider := none
  model : String := ""
  credentialRejected : Bool := false
  settle : Option SettleId := none

/-- The result of an attempt, by how the request ended. -/
def forwardOnce (p : Provider) (model : String) : Upstream → ForwardResult
  | .unready => { fallilable := true, failClass := .connect, err := true, model := model }
  | .tokenRejected =>
    { fallilable := true, failClass := .upstream, err := true, model := model,
      credentialRejected := true }
  | .tokenFailed timeout | .noResponse timeout =>
    { fallilable := true, failClass := if timeout then .timeout else .connect, err := true,
      model := model }
  | .answer response read =>
    let fr : ForwardResult :=
      { resp := some response, fallilable := (isFallbackable response.status).1,
        failClass := (isFallbackable response.status).2, chosen := some p, model := model }
    -- A 2xx goes to the relay unread.
    if (isFallbackable response.status).2 = .none then fr
    else
      match read with
      | .done | .callerLeft => fr
      | .failed idle =>
        { fallilable := true, failClass := if idle then .timeout else .connect, err := true,
          model := model }

/-! ## Admission -/

/-- An answer of `Admit`. A callback comes only with a decision that lets the request through. -/
structure Admission where
  decision : BudgetDecision
  engaged : Bool
  passed : engaged = true → decision.refused = false

/-! ## The request -/

/-- All that a body calls its model is this model. -/
def NamesModel (d : Document) (model : String) : Prop :=
  ∀ m ∈ d.value.members, GoJson.named true "model" m → GoJson.ofValue m.value = .string model

/-- The body that the handler has prepared for the model: it passes the scan. -/
structure Prepared (model : String) where
  doc : Document
  scans : ∃ f, scanRequestFields doc.text = some (.ok f)
  names : NamesModel doc model

/-- The rewrite of a valid body, which is never `none`. -/
def rewritten (d : Document) (f : RequestFields) (model : String) (forceUsage : Bool) :
    List UInt8 :=
  (rewriteRequestBody d.text f (Utf8.encode model.toList) forceUsage).getD d.text

/-! ## The walk -/

/-- Why a fallback is skipped without using up an attempt. -/
inductive Ineligible
  | missing
  | type (child primary : ProviderType)
  | cannotCross (child : ProviderType)
  | namespaceDenied (ns : String)
  | notOffered (model : String)
  | untranslatable (reason : String)
  deriving DecidableEq

def Ineligible.reason : Ineligible → String
  | .missing => "provider does not exist"
  | .type child primary =>
    "type \"" ++ child.text ++ "\" cannot follow primary type \"" ++ primary.text ++ "\" (rule 12)"
  | .cannotCross child => "the request's format cannot cross into type \"" ++ child.text ++ "\""
  | .namespaceDenied ns => "namespace \"" ++ ns ++ "\" not in allowedNamespaces"
  | .notOffered model => "model \"" ++ model ++ "\" not offered"
  | .untranslatable reason => reason

/-- One upstream attempt: who is asked, for which model, with which body, and along which edges the
walk came. -/
structure Attempt where
  provider : Provider
  model : String
  body : List UInt8
  path : List FallbackRef

/-- What happens in a request. -/
inductive Event
  | admitted (provider : String) (admission : Admission) (settle : Option SettleId)
  | skip (provider : String) (reason : Ineligible)
  | attempt (a : Attempt)
  | answer (provider : String) (outcome : Upstream)
  | credentialsInvalid (provider : String)
  | settle (id : SettleId) (cost : ℚ)
  | add (provider : String) (cost : ℚ)
  | walked

abbrev Trace := List Event

/-- A call of a settle callback, if there is one. -/
def invoke (settle : Option SettleId) (cost : ℚ) : Trace :=
  settle.toList.map fun id ↦ .settle id cost

/-- What the walk does not decide. -/
structure World where
  /-- The providers that the store has at this point. -/
  store : Trace → List Provider
  upstream : Trace → Provider → Upstream
  admits : Trace → Provider → Admission
  /-- The request for a provider of another format, or why there is none. -/
  translate : Provider → String → Except String Document
  /-- The caller leaves when the trace has this length. -/
  leavesAt : Option ℕ

def World.left (w : World) (t : Trace) : Bool := w.leavesAt.any fun n ↦ n ≤ t.length

/-- What stays the same during a walk. The primary has been admitted. -/
structure Walk where
  world : World
  primary : Provider
  admission : Admission
  admitted : admission.decision.refused = false
  ns : String
  modelID : String
  maxDepth : ℤ
  body : Prepared modelID
  /-- The body decodes to a map. -/
  decodes : Bool
  /-- The format of the request, if it can cross. -/
  inboundFormat : Option Format

structure WalkState where
  attemptCount : ℕ := 0
  visited : Finset String := ∅
  observed : Finset FailClass := ∅
  maxRetryAfter : ℤ := 0
  budgetBlocked : Bool := false
  modelFor : GoMap String String
  translated : GoMap String Document := ∅
  /-- The number of settle callbacks so far. -/
  issued : ℕ
  trace : Trace

def WalkState.log (st : WalkState) (e : Event) : WalkState := { st with trace := st.trace ++ [e] }

/-- What the walk has at its end, with whether it is for the handler to relay. -/
structure WalkResult where
  st : WalkState
  res : ForwardResult := {}
  ok : Bool := false

/-- What comes after a visit. -/
inductive Visit
  | done (r : WalkResult)
  /-- The children are next. If none of them has a result, it is this one. -/
  | descend (st : WalkState) (res : ForwardResult)

namespace Walk

variable (w : Walk)

def providerByName (t : Trace) (name : String) : Option Provider :=
  (w.world.store t).find? fun p ↦ p.name = name

def primarySettle : Option SettleId := if w.admission.engaged then some 0 else none

/-- The state in which the handler starts the walk. -/
def start : WalkState where
  modelFor := (∅ : GoMap String String).insert w.primary.name w.modelID
  issued := if w.admission.engaged then 1 else 0
  trace := [.admitted w.primary.name w.admission w.primarySettle]

def candidateModel (st : WalkState) (p : Provider) : String :=
  match st.modelFor.lookup p.name with
  | some m => if m ≠ "" then m else w.modelID
  | none => w.modelID

/-- Reaching the provider from the format of the request needs translation. -/
def crosses (p : Provider) : Bool :=
  w.inboundFormat.isSome ∧ (formatForType p.type).isSome ∧ formatForType p.type ≠ w.inboundFormat

/-- The checks that depend on the configuration alone. -/
def configIneligible (st : WalkState) (p : Provider) : Option Ineligible :=
  if p.name ≠ w.primary.name ∧ !fallbackFormatCompatible w.primary.type p.type then
    some (.type p.type w.primary.type)
  else if p.name ≠ w.primary.name ∧ fallbackCrossesFormat w.primary.type p.type
      ∧ w.inboundFormat = none then
    some (.cannotCross p.type)
  else if !namespaceGlobAllowed w.ns p.allowedNamespaces then some (.namespaceDenied w.ns)
  else if !p.offers (w.candidateModel st p) then some (.notOffered (w.candidateModel st p))
  else none

/-- The checks that use up no attempt. A translation is kept for the attempt. -/
def staticallyIneligible (st : WalkState) (p : Provider) : WalkState × Option Ineligible :=
  match w.configIneligible st p with
  | some reason => (st, some reason)
  | none =>
    if w.crosses p ∧ w.decodes ∧ p.name ∉ st.translated then
      match w.world.translate p (w.candidateModel st p) with
      | .error reason => (st, some (.untranslatable reason))
      | .ok d => ({ st with translated := st.translated.insert p.name d }, none)
    else (st, none)

/-- The caller's body for a candidate: only the model differs. -/
def sameFormatBody (model : String) : List UInt8 :=
  if model ≠ w.modelID ∧ w.body.doc.text ≠ [] then
    match scanRequestFields w.body.doc.text with
    | some (.ok f) => rewritten w.body.doc f model false
    | _ => w.body.doc.text
  else w.body.doc.text

/-- The body that a candidate is forwarded, with its model. -/
def candidateRequest (st : WalkState) (p : Provider) : List UInt8 × String :=
  let model := w.candidateModel st p
  if w.crosses p then
    match st.translated.lookup p.name with
    | some d =>
      match scanRequestFields d.text with
      | some (.ok f) => (rewritten d f model (streamUsageOption p.type && f.streamTrue), model)
      | _ => (w.sameFormatBody model, model)
    | none => (w.sameFormatBody model, model)
  else (w.sameFormatBody model, model)

/-- What a refused admission leaves behind, with the class of the failure. -/
def refuse (st : WalkState) (d : BudgetDecision) : WalkState × FailClass :=
  if d.unavailable then
    ({ st with observed := insert .budgetUnavailable st.observed }, .budgetUnavailable)
  else if d.throttled then
    ({ st with
        observed := insert .budget st.observed
        maxRetryAfter := if st.maxRetryAfter < 1 then 1 else st.maxRetryAfter }, .budget)
  else
    ({ st with
        observed := insert .budget st.observed
        budgetBlocked := true
        maxRetryAfter := if st.maxRetryAfter < d.retryAfter then d.retryAfter
          else st.maxRetryAfter }, .budget)

/-- The callback that comes with an admission. -/
def callback (st : WalkState) (a : Admission) : Option SettleId :=
  if a.engaged then some st.issued else none

def admitCandidate (st : WalkState) (p : Provider) (a : Admission) : WalkState :=
  { st with issued := if a.engaged then st.issued + 1 else st.issued }.log
    (.admitted p.name a (callback st a))

/-- The attempt on a candidate. A failure after the caller left is not the candidate's. -/
def attempt (path : List FallbackRef) (p : Provider) (st : WalkState) : WalkState × ForwardResult :=
  let (body, model) := w.candidateRequest st p
  let asked := st.log (.attempt ⟨p, model, body, path⟩)
  let outcome := w.world.upstream asked.trace p
  let res := forwardOnce p model outcome
  let answered := asked.log (.answer p.name outcome)
  if !w.world.left asked.trace ∧ res.failClass ≠ .none then
    ({ answered with observed := insert res.failClass answered.observed }, res)
  else (answered, res)

/-- The walk ends with this attempt: the caller left, or the answer is to be relayed. -/
def isFinal (st : WalkState) (res : ForwardResult) : Bool :=
  w.world.left st.trace
    ∨ (res.failClass = .none ∧ !res.err ∧ res.resp.any Response.ok) ∨ !res.fallilable

/-- The candidate's slot is freed. -/
def settleZero (st : WalkState) (settle : Option SettleId) : WalkState :=
  { st with trace := st.trace ++ invoke settle 0 }

def recordCredentialFailure (st : WalkState) (p : Provider) (res : ForwardResult) : WalkState :=
  if res.failClass = .upstream ∧ (res.credentialRejected
      ∨ res.resp.any fun r ↦ r.status = 401 ∨ r.status = 403) then
    st.log (.credentialsInvalid p.name)
  else st

/-- The visit of a provider that has been admitted. -/
def visitAdmitted (path : List FallbackRef) (p : Provider) (st : WalkState)
    (settle : Option SettleId) : Visit :=
  let (st, res) := w.attempt path p st
  if w.isFinal st res then .done { st, res := { res with settle }, ok := true }
  else .descend (recordCredentialFailure (settleZero st settle) p res) res

/-- The visit of a provider that uses up an attempt. The primary was admitted before the walk. -/
def visitEligible (path : List FallbackRef) (p : Provider) (st : WalkState) : Visit :=
  if p.name = w.primary.name then w.visitAdmitted path p st w.primarySettle
  else
    let a := w.world.admits st.trace p
    let admitted := admitCandidate st p a
    if a.decision.refused then
      let (st, failClass) := refuse admitted a.decision
      .descend st { failClass }
    else w.visitAdmitted path p admitted (callback st a)

/-- What happens at a provider before the walk turns to its fallbacks. -/
def visit (path : List FallbackRef) (p : Provider) (st : WalkState) : Visit :=
  if p.name ∈ st.visited then .done { st }
  else
    match w.staticallyIneligible { st with visited := insert p.name st.visited } p with
    | (st, some reason) => .done { st := st.log (.skip p.name reason) }
    | (st, none) =>
      if w.maxDepth ≤ st.attemptCount then .done { st }
      else w.visitEligible path p { st with attemptCount := st.attemptCount + 1 }

/-- The state in which the walk goes down an edge. -/
def enter (st : WalkState) (p : Provider) (model : String) : WalkState :=
  { st with modelFor := st.modelFor.insert p.name model }

/-- The loop over the fallbacks of a provider. -/
def walkRefs (next : List FallbackRef → Provider → WalkState → Option WalkResult)
    (path : List FallbackRef) (parentModel : String) :
    List FallbackRef → WalkState → Option WalkResult
  | [], st => some { st }
  | ref :: refs, st =>
    match w.providerByName st.trace ref.name with
    | none => walkRefs next path parentModel refs (st.log (.skip ref.name .missing))
    | some p =>
      match next (path ++ [ref]) p (enter st p (ref.mapModel parentModel)) with
      | none => none
      | some r => if r.ok then some r else walkRefs next path parentModel refs r.st

def walkChildren (next : List FallbackRef → Provider → WalkState → Option WalkResult)
    (path : List FallbackRef) (p : Provider) (st : WalkState) : Option WalkResult :=
  w.walkRefs next path (w.candidateModel st p) p.fallback st

def tryWithFallbacks : ℕ → List FallbackRef → Provider → WalkState → Option WalkResult
  | 0, _, _, _ => none
  | fuel + 1, path, p, st =>
    match w.visit path p st with
    | .done r => some r
    | .descend st res => (w.walkChildren (tryWithFallbacks fuel) path p st).map fun r ↦
        if r.ok then r else { r with res := res }

end Walk

end Kaalm.Gateway.Fallback
