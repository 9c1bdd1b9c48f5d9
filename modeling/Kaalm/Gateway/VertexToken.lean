import Kaalm.Foundation.Calendar
import Kaalm.Foundation.Run
import Kaalm.Foundation.Sha256
import Kaalm.Foundation.Singleflight

/-!
# Whose credential a Vertex token is from

The gateway mints access tokens from the service-account key of a provider, the credential. A token
is cached under the name of the provider with the SHA-256 hash of its credential, and calls that
miss the cache at the same time share one mint. Flights are keyed by the provider alone.

The cache is a `Singleflight.Service`: a mint ends with any result, and time passes between any two
steps. A result carries the credential it was minted from, which no step reads.

A call with a new credential that misses the cache while a mint from the old one is going on takes
the result of that mint (`token_of_old_credential`). If calls only join flights of their own
credential, and no two credentials have one hash, what a call returns was minted from its credential
(`token_mintedFrom`).
-/

namespace Kaalm.Gateway.Vertex

open Sha256 Singleflight

/-! ## The cache -/

/-- The text of a service-account key. -/
abbrev Credential := List UInt8

def tokenRefreshMargin : ℤ := 300 * Calendar.second

def defaultTokenLifetime : ℤ := 3600 * Calendar.second

/-- A value with the credential that it was minted from. The program has only the value. -/
structure Minted (α : Type) where
  value : α
  origin : Credential
  deriving DecidableEq

inductive MintError where
  /-- `ErrInvalidKey`. -/
  | invalidKey
  /-- `ErrRejected`. -/
  | rejected
  | failed
  deriving DecidableEq

/-- What a mint of a token ends with: the token or an error. -/
inductive MintResult where
  | token (text : String)
  | error (err : MintError)
  deriving DecidableEq

/-- `gcpauth.Token`. A token without an expiry has the zero time. -/
structure Token where
  accessToken : String
  expiry : Option Time
  deriving DecidableEq

structure CachedToken where
  keyHash : List UInt8
  token : Minted String
  expiry : Time
  deriving DecidableEq

/-- What a call of `token` is for. -/
structure TokenRequest where
  provider : String
  credential : Credential
  deriving DecidableEq

/-- `gcpauth.TokenCache`, with the clock. -/
structure Tokens where
  clock : Time := 0
  tokens : GoMap String CachedToken := ∅
  deriving DecidableEq

namespace Tokens

variable (s : Tokens)

/-- `Cached`. -/
def cached (name : String) (credential : Credential) : Option (Minted String) :=
  match s.tokens.lookup name with
  | some t =>
    if t.keyHash ≠ sum256 credential ∨ ¬s.clock + tokenRefreshMargin < t.expiry then none
    else some t.token
  | none => none

/-- The entry that `Store` makes. -/
def entry (credential : Credential) (tok : Minted Token) : CachedToken where
  keyHash := sum256 credential
  token := ⟨tok.value.accessToken, tok.origin⟩
  expiry := tok.value.expiry.getD (s.clock + defaultTokenLifetime)

end Tokens

/-- `vertexTokenCache`, with the calls so far. -/
abbrev TokenCache :=
  Group Tokens TokenRequest String (Minted Token) (Minted MintResult) (Minted MintResult)

/-- The work of a flight ends with a token, or with an error of the key or of the mint. Time passes
beside the calls. -/
abbrev TokenStep := Step TokenRequest String (Except MintError Token) ℕ

/-- `token`. -/
def TokenCache.token : Service Tokens TokenRequest String (Minted Token) (Minted MintResult)
    (Minted MintResult) (Except MintError Token) ℕ where
  key q := q.provider
  cached s q := (s.cached q.provider q.credential).map fun tok ↦ ⟨.token tok.value, tok.origin⟩
  outcome q minted :=
    match minted with
    | .ok token => .inl ⟨token, q.credential⟩
    | .error err => .inr ⟨.error err, q.credential⟩
  worked s _ _ := s
  store s q tok := { s with tokens := s.tokens.insert q.provider (s.entry q.credential tok) }
  result tok := ⟨.token tok.value.accessToken, tok.origin⟩
  answer _ result := result
  checksContext := false
  other s d := { s with clock := s.clock + d }

/-- The credentials that were passed so far. -/
def credentials (g : TokenCache) : List Credential := g.questions.map TokenRequest.credential

/-! ## Where results are from -/

/-- Whatever is for a request was minted from its credential. -/
def promise : Promise Tokens TokenRequest (Minted Token) (Minted MintResult) (Minted MintResult)
    where
  result _ q r := r.origin = q.credential
  work _ q tok := tok.origin = q.credential
  answer _ q r := r.origin = q.credential

theorem kept (s s' : Tokens) : promise.Kept s s' := ⟨fun _ _ h ↦ h, fun _ _ h ↦ h, fun _ _ h ↦ h⟩

theorem lawful_token : Lawful TokenCache.token promise where
  answer _ _ _ h := h
  worked _ _ _ := kept _ _
  outcome s q minted tok h := by
    cases minted with
    | ok token => cases h; rfl
    | error err => cases h
  failed s q minted r h := by
    cases minted with
    | ok token => cases h
    | error err => cases h; rfl
  stored _ _ _ := kept _ _
  result _ _ _ h := h

/-- What the cache has was minted from credentials that were passed, and the hash tells these
apart. -/
structure Apart (s : Tokens) (passed : List Credential) : Prop where
  tokens : ∀ p t, s.tokens.lookup p = some t → t.keyHash = sum256 t.token.origin
    ∧ t.token.origin ∈ passed
  apart : ∀ c ∈ passed, ∀ c' ∈ passed, sum256 c = sum256 c' → c = c'

section

variable {s : Tokens} {passed : List Credential}

/-- A hit in the cache is a token from the credential. -/
theorem Apart.origin_of_cached (h : Apart s passed) {name : String} {credential : Credential}
    (hmem : credential ∈ passed) {tok : Minted String}
    (hcached : s.cached name credential = some tok) : tok.origin = credential := by
  rw [Tokens.cached] at hcached
  split at hcached
  · rename_i t ht
    obtain ⟨hhash, horigin⟩ := h.tokens name t ht
    split_ifs at hcached with hfresh
    have hsame : t.keyHash = sum256 credential := not_not.mp (not_or.mp hfresh).1
    cases hcached
    exact h.apart _ horigin _ hmem (hhash.symm.trans hsame)
  · cases hcached

theorem Apart.store (h : Apart s passed) {q : TokenRequest} {tok : Minted Token}
    (hmem : q.credential ∈ passed) (horigin : tok.origin = q.credential) :
    Apart (TokenCache.token.store s q tok) passed where
  tokens p t ht := by
    rw [TokenCache.token, AList.lookup_insert_ite] at ht
    split_ifs at ht
    · cases ht
      exact ⟨congrArg sum256 horigin.symm, horigin.symm ▸ hmem⟩
    · exact h.tokens p t ht
  apart := h.apart

theorem Apart.call (h : Apart s passed) {credential : Credential}
    (hseparate : ∀ c ∈ passed, sum256 c = sum256 credential → c = credential) :
    Apart s (passed ++ [credential]) where
  tokens p t ht := ⟨(h.tokens p t ht).1, List.mem_append_left _ (h.tokens p t ht).2⟩
  apart c hc c' hc' hhash := by
    rw [List.mem_append, List.mem_singleton] at hc hc'
    rcases hc with hc | rfl <;> rcases hc' with hc' | rfl
    · exact h.apart c hc c' hc' hhash
    · exact hseparate c hc hhash
    · exact (hseparate c' hc' hhash.symm).symm
    · rfl

end

/-! ## Runs -/

section

variable {g g' : TokenCache} {a : TokenStep}

/-- No credential that comes in has the hash of another one, and a call joins only a flight of its
own credential. -/
def Separate (g : TokenCache) : TokenStep → Prop
  | .call q => ∀ c ∈ credentials g, sum256 c = sum256 q.credential → c = q.credential
  | .caller c .join => ∀ call ∈ g.calls[c]?, ∀ f ∈ g.flights.lookup call.question.provider,
      f.question.credential = call.question.credential
  | _ => True

instance : ∀ a, Decidable (Separate g a)
  | .call q => inferInstanceAs (Decidable (∀ c ∈ credentials g,
      sum256 c = sum256 q.credential → c = q.credential))
  | .caller c .join => inferInstanceAs (Decidable (∀ call ∈ g.calls[c]?,
      ∀ f ∈ g.flights.lookup call.question.provider,
        f.question.credential = call.question.credential))
  | .caller _ .lookup | .caller _ .leave | .caller _ .take | .flight _ _ | .other _ =>
    isTrue trivial

/-- The credentials that results are minted from were passed by calls. -/
structure Inv (g : TokenCache) : Prop where
  sound : Sound TokenCache.token promise g
  apart : Apart g.shared (credentials g)
  asked : ∀ q ∈ g.asked, q.credential ∈ credentials g

theorem credentials_of_step (hstep : TokenCache.token.step g a = some g') :
    credentials g' = credentials g ++ a.asks.map TokenRequest.credential := by
  rw [credentials, Service.questions_of_step hstep, List.map_append, credentials]

theorem Inv.asked_step (h : Inv g) (hstep : TokenCache.token.step g a = some g') :
    ∀ q ∈ g'.asked, q.credential ∈ credentials g' := by
  intro q hq
  rw [credentials_of_step hstep]
  rcases Service.asked_of_step hstep hq with hq | hq
  · exact List.mem_append_left _ (h.asked q hq)
  · exact List.mem_append_right _ (List.mem_map_of_mem hq)

theorem Inv.apart_step (h : Inv g) (hseparate : Separate g a)
    (hstep : TokenCache.token.step g a = some g') : Apart g'.shared (credentials g') := by
  have heffect := Service.effect_of_step hstep
  have hsame (hasks : a.asks = []) : credentials g' = credentials g := by
    rw [credentials_of_step hstep, hasks, List.map_nil, List.append_nil]
  generalize g'.shared = s at heffect ⊢
  cases heffect with
  | none =>
    cases a with
    | call q =>
      rw [credentials_of_step hstep]
      exact h.apart.call hseparate
    | _ => exact hsame rfl ▸ h.apart
  | work _ _ => exact hsame rfl ▸ h.apart
  | store hflight hphase =>
    have hwork := (h.sound.flights _ _ hflight).2
    rw [hphase] at hwork
    rw [hsame rfl]
    exact h.apart.store (h.asked _ (Service.asked_of_flight hflight)) hwork
  | other d =>
    rw [hsame rfl]
    exact ⟨h.apart.tokens, h.apart.apart⟩

theorem Inv.sound_step (h : Inv g) (hseparate : Separate g a)
    (hstep : TokenCache.token.step g a = some g') : Sound TokenCache.token promise g' := by
  refine h.sound.step lawful_token hstep ?_ ?_ ?_
  · intro q hq r hcached
    obtain ⟨tok, hhit, rfl⟩ := Option.map_eq_some_iff.mp hcached
    exact h.apart.origin_of_cached (h.asked q hq) hhit
  · rintro c rfl call hcall - f hflight s r hr
    exact hr.trans (hseparate call hcall f hflight)
  · rintro d rfl
    exact h.sound.kept (kept _ _)

end

/-- In every run in which calls join only flights of their own credential, and no two credentials
have one hash, the token or the error of a mint that a call returns was minted from the credential
that the call passed. -/
theorem token_mintedFrom {steps : List TokenStep} {g : TokenCache}
    (hrun : Run.Runs TokenCache.token.step { shared := {} } steps g)
    (hseparate : Run.AllSteps TokenCache.token.step Separate { shared := {} } steps)
    {call : Call TokenRequest (Minted MintResult) (Minted MintResult)} (hcall : call ∈ g.calls)
    {result : Minted MintResult} (hreturned : call.phase = .returned result) :
    result.origin = call.question.credential := by
  have hinit : Inv { shared := {} } :=
    ⟨.init _, ⟨fun p t ht ↦ absurd ht AList.lookup_empty_ne,
      fun c hc ↦ absurd hc List.not_mem_nil⟩, fun q hq ↦ absurd hq List.not_mem_nil⟩
  have hinv : Inv g := hrun.invariant_of_allSteps (fun _ _ _ h hG hstep ↦
    ⟨h.sound_step hG hstep, h.apart_step hG hstep, h.asked_step hstep⟩) hseparate hinit
  have hfrom := hinv.sound.calls call hcall
  rw [hreturned] at hfrom
  exact hfrom

private def oldKey : Credential := "key-1".toUTF8.toList

private def newKey : Credential := "key-2".toUTF8.toList

/-- A call that starts a flight and returns its token. -/
private def mintedCall (credential : Credential) (token : String) (c : ℕ) : List TokenStep :=
  [.call ⟨"vertex", credential⟩, .caller c .lookup, .caller c .join, .flight "vertex" .recheck,
    .flight "vertex" (.work (.ok ⟨token, none⟩)), .flight "vertex" .store,
    .flight "vertex" .finish, .caller c .take]

private def rotated : TokenCache where
  shared :=
    { clock := 60
      tokens := AList.singleton "vertex"
        ⟨sum256 newKey, ⟨"token-2", newKey⟩, 60 + defaultTokenLifetime⟩ }
  calls := [⟨⟨"vertex", oldKey⟩, .returned ⟨.token "token-1", oldKey⟩⟩,
    ⟨⟨"vertex", newKey⟩, .returned ⟨.token "token-2", newKey⟩⟩]

/-- After a rotation the next call mints from the new credential. -/
theorem token_mintedFrom_rotated :
    Run.Runs TokenCache.token.step { shared := {} }
      (mintedCall oldKey "token-1" 0 ++ .other 60 :: mintedCall newKey "token-2" 1) rotated
    ∧ Run.AllSteps TokenCache.token.step Separate { shared := {} }
        (mintedCall oldKey "token-1" 0 ++ .other 60 :: mintedCall newKey "token-2" 1)
    ∧ (⟨.token "token-2", newKey⟩ : Minted MintResult).origin = newKey := by
  have hrun : Run.Runs TokenCache.token.step { shared := {} }
      (mintedCall oldKey "token-1" 0 ++ .other 60 :: mintedCall newKey "token-2" 1) rotated := by
    decide +kernel
  have hseparate : Run.AllSteps TokenCache.token.step Separate { shared := {} }
      (mintedCall oldKey "token-1" 0 ++ .other 60 :: mintedCall newKey "token-2" 1) := by
    decide +kernel
  have hcall : ⟨⟨"vertex", newKey⟩, .returned ⟨.token "token-2", newKey⟩⟩ ∈ rotated.calls := by
    decide +kernel
  exact ⟨hrun, hseparate, token_mintedFrom hrun hseparate hcall rfl⟩

/-- A call with the new credential comes in while the mint from the old one is going on. -/
private def joinedMint : List TokenStep :=
  [.call ⟨"vertex", oldKey⟩, .caller 0 .lookup, .caller 0 .join, .flight "vertex" .recheck,
    .call ⟨"vertex", newKey⟩, .caller 1 .lookup, .caller 1 .join,
    .flight "vertex" (.work (.ok ⟨"token-1", none⟩)), .flight "vertex" .store,
    .flight "vertex" .finish, .caller 0 .take, .caller 1 .take]

private def joined : TokenCache where
  shared :=
    { tokens := AList.singleton "vertex"
        ⟨sum256 oldKey, ⟨"token-1", oldKey⟩, defaultTokenLifetime⟩ }
  calls := [⟨⟨"vertex", oldKey⟩, .returned ⟨.token "token-1", oldKey⟩⟩,
    ⟨⟨"vertex", newKey⟩, .returned ⟨.token "token-1", oldKey⟩⟩]

/-- The call with the new credential joins the flight of the old one, and returns its token. -/
theorem token_of_old_credential : ¬∀ (steps : List TokenStep) (g : TokenCache),
    Run.Runs TokenCache.token.step { shared := {} } steps g → ∀ call ∈ g.calls, ∀ result,
      call.phase = .returned result → result.origin = call.question.credential := by
  intro h
  have hrun : Run.Runs TokenCache.token.step { shared := {} } joinedMint joined := by
    decide +kernel
  have horigin : oldKey = newKey := h joinedMint joined hrun
    ⟨⟨"vertex", newKey⟩, .returned ⟨.token "token-1", oldKey⟩⟩ (by decide +kernel) _ rfl
  exact absurd horigin (by decide +kernel)

end Kaalm.Gateway.Vertex
