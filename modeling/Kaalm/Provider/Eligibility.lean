import Kaalm.Gateway.FallbackCover
import Mathlib.Data.Finset.Card
import Mathlib.Data.List.Sort
import Mathlib.Data.String.Basic

/-!
# The eligibility scan

The controller tells ahead of time which fallbacks of a provider the gateway is going to skip. For
each namespace that uses the provider and each of its models it walks the fallbacks as the gateway
does for a request, and notes the candidates that do not admit the namespace or do not offer the
model.

The scan has its own recursion: it carries the model in its arguments and checks a candidate before
it goes down, while the walk of the gateway keeps the models in a map that it overwrites, also for
candidates that it has visited. `Agrees` relates their states. If every attempt of the gateway fails
and the depth limit stops nothing, a turn of the one agrees with a turn of the other
(`agrees_tryWithFallbacks`), so they skip the same candidates.

The scan has fuel. Each level of the recursion visits a provider, so one level more than there are
providers is enough (`exists_scanTry`).
-/

namespace Kaalm.ModelProviders

open Gateway.Fallback

/-! ## The scan -/

/-- `namespaceAllowed`, which is the check of the gateway again. -/
def namespaceAllowed (ns : String) (allowed : List String) : Bool := namespaceGlobAllowed ns allowed

def findModel (p : Provider) (id : String) : Option Model := p.models.find? fun m ↦ m.id = id

/-- What the scan notes. -/
inductive Ineligibility where
  | notAdmitted (child ns : String)
  | notOffered (child model primaryModel : String)
  deriving DecidableEq

structure FallbackFinding where
  key : String
  message : String
  deriving DecidableEq

namespace Ineligibility

def candidate : Ineligibility → String
  | notAdmitted child _ => child
  | notOffered child _ _ => child

def key : Ineligibility → String
  | notAdmitted child ns => "ns\x00" ++ child ++ "\x00" ++ ns
  | notOffered child model primaryModel =>
      "model\x00" ++ child ++ "\x00" ++ model ++ "\x00" ++ primaryModel

def message (quotedEntry : String → String) : Ineligibility → String
  | notAdmitted child ns =>
      "fallback " ++ quotedEntry child ++ " does not admit namespace " ++ quotedEntry ns
  | notOffered child model primaryModel =>
      "fallback " ++ quotedEntry child ++ " does not offer model " ++ quotedEntry model
        ++ " (primary model " ++ quotedEntry primaryModel ++ ")"

end Ineligibility

structure ScanState where
  visited : Finset String
  found : List Ineligibility := []
  deriving DecidableEq

section

variable (providers : List Provider) (ns primaryModel : String)

/-- The checks of a candidate. -/
def checkChild (child : Provider) (model : String) : List Ineligibility :=
  (if ns ≠ "" ∧ !namespaceAllowed ns child.allowedNamespaces then [.notAdmitted child.name ns]
    else [])
  ++ if (findModel child model).isNone then [.notOffered child.name model primaryModel] else []

/-- The loop over the fallbacks of a provider. -/
def scanRefs (next : Provider → String → ScanState → Option ScanState) (parentModel : String) :
    List FallbackRef → ScanState → Option ScanState
  | [], s => some s
  | ref :: refs, s =>
    match providers.find? fun p ↦ p.name = ref.name with
    | none => scanRefs next parentModel refs s
    | some child => (next child (ref.mapModel parentModel) s).bind (scanRefs next parentModel refs)

/-- The turn of a candidate in the loop, with the walk below it. -/
def scanTry : ℕ → Provider → String → ScanState → Option ScanState
  | 0, _, _, _ => none
  | fuel + 1, child, model, s =>
    if child.name ∈ s.visited then some s
    else
      let bad := checkChild ns primaryModel child model
      let s := { visited := insert child.name s.visited, found := s.found ++ bad }
      if bad = [] then scanRefs providers (scanTry fuel) model child.fallback s else some s

end

/-- What the walk for one namespace and one model of the primary finds, in order. -/
def findingsFor (primary : Provider) (providers : List Provider) (ns : String) (m : Model) :
    Option (List Ineligibility) :=
  (scanRefs providers (scanTry providers ns m.id (providers.length + 1)) m.id primary.fallback
    { visited := {primary.name} }).map ScanState.found

/-- By message, then by key. -/
def FallbackFinding.le (f g : FallbackFinding) : Prop :=
  f.message < g.message ∨ (f.message = g.message ∧ f.key ≤ g.key)

instance : DecidableRel FallbackFinding.le := fun f g ↦
  inferInstanceAs (Decidable (f.message < g.message ∨ (f.message = g.message ∧ f.key ≤ g.key)))

/-- What is found, by its key. -/
def foundMap (quotedEntry : String → String) (found : List Ineligibility) : GoMap String String :=
  found.foldl (fun m f ↦ m.insert f.key (f.message quotedEntry)) ∅

/-- The namespaces and models that the scan walks for. -/
def scanWalks (primary : Provider) (callers : List String) : List (String × Model) :=
  (if callers = [] then [""] else callers).flatMap fun ns ↦ primary.models.map fun m ↦ (ns, m)

/-- `fallbackIneligibility`. -/
def fallbackIneligibility (quotedEntry : String → String) (primary : Provider)
    (providers : List Provider) (callers : List String) : Option (List FallbackFinding) :=
  ((scanWalks primary callers).mapM fun e ↦ findingsFor primary providers e.1 e.2).map
    fun found : List (List Ineligibility) ↦
      ((foundMap quotedEntry found.flatten).entries.map fun e ↦
        (⟨e.1, e.2⟩ : FallbackFinding)).insertionSort FallbackFinding.le

/-- The namespaces of the Agents and AgentTasks that reference the provider and that it admits. -/
def callerNamespaces (mp : Provider) (agents tasks : List String) : List String :=
  ((agents ++ tasks).dedup.filter fun ns ↦ namespaceAllowed ns mp.allowedNamespaces).insertionSort
    (· ≤ ·)

/-! ## The scan ends -/

section

variable {providers : List Provider} {ns primaryModel parentModel model : String}
  {next next' : Provider → String → ScanState → Option ScanState} {s s' : ScanState}
  {child : Provider}

theorem scanRefs_visited
    (hnext : ∀ {child model s s'}, next child model s = some s' → s.visited ⊆ s'.visited)
    (refs : List FallbackRef) (h : scanRefs providers next parentModel refs s = some s') :
    s.visited ⊆ s'.visited := by
  induction refs generalizing s with
  | nil =>
    obtain rfl := Option.some.inj h
    exact subset_rfl
  | cons ref refs ih =>
    rw [scanRefs] at h
    split at h
    · exact ih h
    · obtain ⟨s₁, hs₁, h⟩ := Option.bind_eq_some_iff.mp h
      exact (hnext hs₁).trans (ih h)

/-- What is visited stays so. -/
theorem scanTry_visited {fuel : ℕ} (h : scanTry providers ns primaryModel fuel child model s
    = some s') :
    s.visited ⊆ s'.visited := by
  induction fuel generalizing child model s s' with
  | zero => cases h
  | succ fuel ih =>
    rw [scanTry] at h
    split at h
    · obtain rfl := Option.some.inj h
      exact subset_rfl
    · have hinsert : s.visited ⊆ insert child.name s.visited := Finset.subset_insert _ _
      dsimp only at h
      split at h
      · exact hinsert.trans (scanRefs_visited (fun h ↦ ih h) child.fallback h)
      · obtain rfl := Option.some.inj h
        exact hinsert

theorem scanRefs_mono
    (hnext : ∀ {child model s s'}, next child model s = some s' → next' child model s = some s')
    (refs : List FallbackRef) (h : scanRefs providers next parentModel refs s = some s') :
    scanRefs providers next' parentModel refs s = some s' := by
  induction refs generalizing s with
  | nil => exact h
  | cons ref refs ih =>
    rw [scanRefs] at h ⊢
    cases hchild : providers.find? fun p ↦ p.name = ref.name with
    | none =>
      rw [hchild] at h
      exact ih h
    | some child =>
      rw [hchild] at h
      obtain ⟨s₁, hs₁, h⟩ := Option.bind_eq_some_iff.mp h
      exact Option.bind_eq_some_iff.mpr ⟨s₁, hnext hs₁, ih h⟩

/-- More fuel does not change a result. -/
theorem scanTry_mono {m n : ℕ} (hmn : m ≤ n)
    (h : scanTry providers ns primaryModel m child model s = some s') :
    scanTry providers ns primaryModel n child model s = some s' := by
  induction m generalizing n child model s s' with
  | zero => cases h
  | succ m ih =>
    obtain ⟨n, rfl⟩ : ∃ k, n = k + 1 := ⟨n - 1, by omega⟩
    rw [scanTry] at h ⊢
    split at h
    · rwa [if_pos ‹_›]
    · rw [if_neg ‹_›]
      dsimp only at h ⊢
      split at h
      · rw [if_pos ‹_›]
        exact scanRefs_mono (fun h ↦ ih (Nat.le_of_succ_le_succ hmn) h) child.fallback h
      · rwa [if_neg ‹_›]

/-- The providers that the scan has not come to. -/
def unvisited (providers : List Provider) (visited : Finset String) : Finset String :=
  (providers.map fun p ↦ p.name).toFinset \ visited

theorem card_unvisited_le {visited visited' : Finset String} (h : visited ⊆ visited') :
    (unvisited providers visited').card ≤ (unvisited providers visited).card :=
  Finset.card_le_card (Finset.sdiff_subset_sdiff subset_rfl h)

theorem card_unvisited_insert (hchild : child ∈ providers) {visited : Finset String}
    (hfresh : child.name ∉ visited) :
    (unvisited providers (insert child.name visited)).card
      < (unvisited providers visited).card := by
  refine Finset.card_lt_card ⟨Finset.sdiff_subset_sdiff subset_rfl (Finset.subset_insert _ _), ?_⟩
  intro hsub
  have hmem : child.name ∈ unvisited providers visited :=
    Finset.mem_sdiff.mpr ⟨List.mem_toFinset.mpr (List.mem_map_of_mem hchild), hfresh⟩
  exact (Finset.mem_sdiff.mp (hsub hmem)).2 (Finset.mem_insert_self _ _)

theorem exists_scanRefs {n : ℕ}
    (hnext : ∀ child ∈ providers, ∀ model s, (unvisited providers s.visited).card < n →
      ∃ s', next child model s = some s' ∧ s.visited ⊆ s'.visited)
    (refs : List FallbackRef) (hn : (unvisited providers s.visited).card < n) :
    ∃ s', scanRefs providers next parentModel refs s = some s' := by
  induction refs generalizing s with
  | nil => exact ⟨s, rfl⟩
  | cons ref refs ih =>
    rw [scanRefs]
    cases hchild : providers.find? fun p ↦ p.name = ref.name with
    | none => exact ih hn
    | some child =>
      obtain ⟨s₁, hs₁, hvisited⟩ :=
        hnext child (List.mem_of_find?_eq_some hchild) (ref.mapModel parentModel) s hn
      obtain ⟨s', hs'⟩ := ih ((card_unvisited_le hvisited).trans_lt hn)
      exact ⟨s', Option.bind_eq_some_iff.mpr ⟨s₁, hs₁, hs'⟩⟩

/-- Enough fuel for the providers that are left. -/
theorem exists_scanTry (fuel : ℕ) (model : String) (hchild : child ∈ providers)
    (hfuel : (unvisited providers s.visited).card < fuel) :
    ∃ s', scanTry providers ns primaryModel fuel child model s = some s' := by
  induction fuel generalizing child model s with
  | zero => exact absurd hfuel (Nat.not_lt_zero _)
  | succ fuel ih =>
    rw [scanTry]
    by_cases hvisited : child.name ∈ s.visited
    · exact ⟨s, if_pos hvisited⟩
    rw [if_neg hvisited]
    dsimp only
    split
    · have hcard := card_unvisited_insert hchild hvisited
      refine exists_scanRefs (n := fuel) (fun q hq model s₁ hs₁ ↦ ?_) child.fallback
        (show (unvisited providers (insert child.name s.visited)).card < fuel by omega)
      obtain ⟨s', hs'⟩ := ih model hq hs₁
      exact ⟨s', hs', scanTry_visited hs'⟩
    · exact ⟨_, rfl⟩

theorem card_unvisited_lt (visited : Finset String) :
    (unvisited providers visited).card < providers.length + 1 := by
  have hle : (unvisited providers visited).card ≤ (providers.map fun p ↦ p.name).length :=
    (Finset.card_le_card Finset.sdiff_subset).trans (List.toFinset_card_le _)
  rw [List.length_map] at hle
  omega

theorem exists_findingsFor (primary : Provider) (providers : List Provider) (ns : String)
    (m : Model) : ∃ found, findingsFor primary providers ns m = some found := by
  have hscan : ∃ s', scanRefs providers (scanTry providers ns m.id (providers.length + 1)) m.id
      primary.fallback { visited := {primary.name} } = some s' := by
    refine exists_scanRefs (n := providers.length + 1) (fun q hq model s hs ↦ ?_) primary.fallback
      (card_unvisited_lt _)
    obtain ⟨s', hs'⟩ := exists_scanTry _ model hq hs
    exact ⟨s', hs', scanTry_visited hs'⟩
  obtain ⟨s', hs'⟩ := hscan
  exact ⟨s'.found, congrArg (Option.map ScanState.found) hs'⟩

end

/-! ## The walk of the gateway when everything fails -/

/-- The reason is the namespace or the model. -/
def isMisfit : Ineligible → Bool
  | .namespaceDenied _ | .notOffered _ => true
  | _ => false

/-- The walk has skipped the provider because of the namespace or the model. -/
def Misfit (name : String) (t : Trace) : Prop := ∃ reason, .skip name reason ∈ t ∧ isMisfit reason

/-- The depth limit stops the walk at a provider that it would attempt. -/
def Cut (w : Walk) (t : Turn) : Prop :=
  t.provider.name ∉ t.st.visited ∧ w.suits t.provider (t.model w) = true
    ∧ w.maxDepth ≤ t.st.attemptCount

instance (w : Walk) (t : Turn) : Decidable (Cut w t) :=
  inferInstanceAs (Decidable (_ ∧ _ ∧ _))

/-- The fallback tree: a chain of fallbacks leads from the primary to the provider. -/
inductive InTree (primary : Provider) (providers : List Provider) : Provider → Prop where
  | primary : InTree primary providers primary
  | fallback {p q : Provider} {ref : FallbackRef} (hp : InTree primary providers p)
      (href : ref ∈ p.fallback) (hq : (providers.find? fun p ↦ p.name = ref.name) = some q) :
      InTree primary providers q

/-- A request that every provider fails in a way that goes on to the fallbacks, that no budget
refuses and that can be translated for every provider of the tree. -/
structure AllFail (w : Walk) (providers : List Provider) : Prop where
  store : ∀ t, w.world.store t = providers
  stays : w.world.leavesAt = none
  fails : ∀ t p model, (forwardOnce p model (w.world.upstream t p)).fallilable = true
  admits : ∀ t p, (w.world.admits t p).decision.refused = false
  compatible : ∀ p, InTree w.primary providers p →
    fallbackFormatCompatible w.primary.type p.type = true
  crosses : ∀ p, InTree w.primary providers p →
    fallbackCrossesFormat w.primary.type p.type = true → w.inboundFormat ≠ none
  translates : ∀ p, InTree w.primary providers p → ∀ model, w.crosses p = true →
    w.decodes = true → (w.world.translate p model).isOk = true

section

variable {w : Walk} {providers : List Provider} {path : List FallbackRef} {p q : Provider}
  {st st' : WalkState} {r : WalkResult} {settle : Option SettleId}

theorem isFallbackable_snd {status : ℕ} (h : (isFallbackable status).1 = true) :
    (isFallbackable status).2 ≠ .none := by
  rw [isFallbackable] at h ⊢
  split_ifs at h ⊢ <;> decide

theorem failClass_of_fallilable {model : String} {outcome : Upstream}
    (h : (forwardOnce p model outcome).fallilable = true) :
    (forwardOnce p model outcome).failClass ≠ .none := by
  cases outcome with
  | unready => nofun
  | tokenRejected => nofun
  | tokenFailed timeout => cases timeout <;> nofun
  | noResponse timeout => cases timeout <;> nofun
  | answer response read =>
    rw [forwardOnce.eq_def] at h ⊢
    dsimp only at h ⊢
    by_cases hnone : (isFallbackable response.status).2 = .none
    · rw [if_pos hnone] at h
      exact absurd hnone (isFallbackable_snd h)
    · rw [if_neg hnone]
      cases read with
      | done => exact hnone
      | callerLeft => exact hnone
      | failed idle => cases idle <;> nofun

/-- No attempt ends the walk. -/
theorem AllFail.isFinal (h : AllFail w providers) (path : List FallbackRef) (p : Provider)
    (st : WalkState) : w.isFinal (w.attempt path p st).1 (w.attempt path p st).2 = false := by
  have hres : ∃ t, (w.attempt path p st).2
      = forwardOnce p (w.candidateRequest st p).2 (w.world.upstream t p) := by
    rw [Walk.attempt]
    dsimp only
    split <;> exact ⟨_, rfl⟩
  obtain ⟨t, hres⟩ := hres
  have hfails := h.fails t p (w.candidateRequest st p).2
  rw [Walk.isFinal, decide_eq_false_iff_not, World.left, h.stays, hres, hfails]
  rintro (hleft | ⟨hnone, -⟩ | hfallilable)
  · cases hleft
  · exact failClass_of_fallilable hfails hnone
  · cases hfallilable

/-- What a visit that goes on to the children leaves. -/
structure Descends (st st' : WalkState) : Prop where
  visited : st'.visited = st.visited
  modelFor : st'.modelFor = st.modelFor
  skips : ∀ name reason, .skip name reason ∈ st'.trace ↔ .skip name reason ∈ st.trace

theorem skip_mem_append {t es : Trace} (hes : ∀ name reason, .skip name reason ∉ es) (name : String)
    (reason : Ineligible) : .skip name reason ∈ t ++ es ↔ .skip name reason ∈ t := by
  rw [List.mem_append]
  exact or_iff_left (hes name reason)

theorem AllFail.visitAdmitted (h : AllFail w providers) (path : List FallbackRef) (p : Provider)
    (st : WalkState) (settle : Option SettleId) :
    ∃ st' res, w.visitAdmitted path p st settle = .descend st' res ∧ Descends st st' := by
  have hfinal := h.isFinal path p st
  obtain ⟨outcome, observed, hattempt⟩ := w.attempt_eq path p st
  rw [hattempt] at hfinal
  rw [Walk.visitAdmitted, hattempt]
  dsimp only at hfinal ⊢
  rw [hfinal, if_neg Bool.false_ne_true]
  obtain ⟨es, hes, hgiveUp⟩ := Walk.giveUp_eq
    (Walk.attempted st (w.attemptOf path p st) outcome observed) p
    (forwardOnce p (w.candidateRequest st p).2 outcome) settle
  rw [hgiveUp]
  refine ⟨_, _, rfl, ⟨rfl, rfl, fun name reason ↦ ?_⟩⟩
  have hinvoke : ∀ name reason, Event.skip name reason ∉ invoke settle 0 := by
    intro name reason hmem
    obtain ⟨id, -, hid⟩ := List.mem_map.mp hmem
    cases hid
  have hinvalid : ∀ name reason, Event.skip name reason ∉ es := by
    intro name reason hmem
    rcases hes with rfl | rfl
    · cases hmem
    · cases List.mem_singleton.mp hmem
  rw [skip_mem_append hinvalid, skip_mem_append hinvoke]
  show .skip name reason ∈ (st.trace ++ [_]) ++ [_] ↔ _
  rw [skip_mem_append, skip_mem_append]
  · intro name reason hmem
    cases List.mem_singleton.mp hmem
  · intro name reason hmem
    cases List.mem_singleton.mp hmem

theorem AllFail.visitEligible (h : AllFail w providers) (path : List FallbackRef) (p : Provider)
    (st : WalkState) : ∃ st' res, w.visitEligible path p st = .descend st' res
    ∧ Descends st st' := by
  rw [Walk.visitEligible]
  split
  · exact h.visitAdmitted path p st _
  · dsimp only
    rw [h.admits, if_neg Bool.false_ne_true]
    obtain ⟨st', res, hvisit, hdescends⟩ := h.visitAdmitted path p
      (Walk.admitCandidate st p (w.world.admits st.trace p))
      (Walk.callback st (w.world.admits st.trace p))
    refine ⟨st', res, hvisit, hdescends.visited, hdescends.modelFor, fun name reason ↦ ?_⟩
    rw [hdescends.skips]
    refine skip_mem_append (fun name reason hmem ↦ ?_) name reason
    cases List.mem_singleton.mp hmem

/-- The candidate admits the namespace and offers the model. -/
def Fits (w : Walk) (p : Provider) (model : String) : Prop :=
  namespaceGlobAllowed w.ns p.allowedNamespaces = true ∧ p.offers model = true

theorem AllFail.suits (h : AllFail w providers) (hp : InTree w.primary providers p) {model : String}
    (hfits : Fits w p model) : w.suits p model = true := by
  rw [Walk.suits, decide_eq_true_iff]
  exact ⟨Or.inr ⟨h.compatible p hp, h.crosses p hp⟩, hfits.1, hfits.2, h.translates p hp model⟩

theorem AllFail.visit_of_fits (h : AllFail w providers) (hp : InTree w.primary providers p)
    (hfresh : p.name ∉ st.visited) (hfits : Fits w p (w.candidateModel st p))
    (hcut : ¬Cut w ⟨path, p, st⟩) : ∃ st' res, w.visit path p st = .descend st' res
      ∧ Descends { st with visited := insert p.name st.visited } st' := by
  have hsuits := h.suits hp hfits
  have hdepth : ¬w.maxDepth ≤ st.attemptCount := fun hdepth ↦ hcut ⟨hfresh, hsuits, hdepth⟩
  obtain ⟨translated, hstatic⟩ := Walk.staticallyIneligible_of_suits
    (show w.suits p (w.candidateModel { st with visited := insert p.name st.visited } p) = true
      from hsuits)
  obtain ⟨st', res, hvisit, hdescends⟩ := h.visitEligible path p
    (Walk.takeSlot (Walk.reach st p translated))
  refine ⟨st', res, ?_, hdescends.visited, hdescends.modelFor, hdescends.skips⟩
  rw [Walk.visit, if_neg hfresh, hstatic]
  exact (if_neg hdepth).trans hvisit

theorem AllFail.visit_of_not_fits (h : AllFail w providers) (path : List FallbackRef)
    (hp : InTree w.primary providers p)
    (hfresh : p.name ∉ st.visited) (hfits : ¬Fits w p (w.candidateModel st p)) :
    ∃ reason, isMisfit reason ∧ w.visit path p st = .done
      { st := ({ st with visited := insert p.name st.visited } : WalkState).log
          (.skip p.name reason) } := by
  have hconfig : ∃ reason, isMisfit reason ∧
      w.configIneligible { st with visited := insert p.name st.visited } p = some reason := by
    rw [Walk.configIneligible, if_neg, if_neg]
    · by_cases hns : namespaceGlobAllowed w.ns p.allowedNamespaces = true
      · rw [if_neg (by rw [hns]; decide), if_pos]
        · exact ⟨_, rfl, rfl⟩
        · rw [Bool.not_eq_true']
          exact Bool.eq_false_iff.mpr fun hoffers ↦ hfits ⟨hns, hoffers⟩
      · rw [if_pos (by rw [Bool.eq_false_iff.mpr hns]; rfl)]
        exact ⟨_, rfl, rfl⟩
    · rintro ⟨-, hcrosses, hformat⟩
      exact h.crosses p hp hcrosses hformat
    · rw [h.compatible p hp]
      rintro ⟨-, hincompatible⟩
      cases hincompatible
  obtain ⟨reason, hmisfit, hconfig⟩ := hconfig
  refine ⟨reason, hmisfit, ?_⟩
  rw [Walk.visit, if_neg hfresh, Walk.staticallyIneligible, hconfig]

/-! ## The two walks agree -/

/-- The scan and the walk have visited the same providers and noted the same candidates. -/
structure Agrees (s : ScanState) (st : WalkState) : Prop where
  visited : s.visited = st.visited
  found : ∀ name, (∃ f ∈ s.found, f.candidate = name) ↔ Misfit name st.trace

theorem checkChild_eq_nil {ns primaryModel model : String} (hns : ns ≠ "") :
    checkChild ns primaryModel p model = []
      ↔ namespaceGlobAllowed ns p.allowedNamespaces = true ∧ p.offers model = true := by
  have hoffers : (findModel p model).isNone = !p.offers model := by
    rw [findModel, Provider.offers, Bool.eq_iff_iff, Option.isNone_iff_eq_none, List.find?_eq_none]
    simp
  rw [checkChild, List.append_eq_nil_iff, hoffers, namespaceAllowed]
  cases namespaceGlobAllowed ns p.allowedNamespaces <;> cases p.offers model <;> simp [hns]

theorem candidate_of_mem_checkChild {ns primaryModel model : String} {f : Ineligibility}
    (hf : f ∈ checkChild ns primaryModel p model) : f.candidate = p.name := by
  rw [checkChild, List.mem_append] at hf
  rcases hf with hf | hf
  · split at hf
    · rw [List.mem_singleton.mp hf]
      rfl
    · cases hf
  · split at hf
    · rw [List.mem_singleton.mp hf]
      rfl
    · cases hf

theorem Agrees.descend {s : ScanState} (h : Agrees s st)
    (hdescends : Descends { st with visited := insert p.name st.visited } st') :
    Agrees { visited := insert p.name s.visited, found := s.found ++ [] } st' := by
  refine ⟨?_, fun name ↦ ?_⟩
  · rw [hdescends.visited, h.visited]
  · rw [List.append_nil, h.found, Misfit, Misfit]
    exact exists_congr fun reason ↦ and_congr_left' (hdescends.skips name reason).symm

theorem Agrees.skip {s : ScanState} (h : Agrees s st) {bad : List Ineligibility} (hbad : bad ≠ [])
    (hcandidate : ∀ f ∈ bad, f.candidate = p.name) {reason : Ineligible}
    (hmisfit : isMisfit reason) :
    Agrees { visited := insert p.name s.visited, found := s.found ++ bad }
      (({ st with visited := insert p.name st.visited } : WalkState).log
      (.skip p.name reason)) := by
  refine ⟨by rw [h.visited]; rfl, fun name ↦ ?_⟩
  constructor
  · rintro ⟨f, hf, rfl⟩
    rcases List.mem_append.mp hf with hf | hf
    · obtain ⟨reason', hmem, hreason'⟩ := (h.found _).mp ⟨f, hf, rfl⟩
      exact ⟨reason', List.mem_append_left _ hmem, hreason'⟩
    · rw [hcandidate f hf]
      exact ⟨reason, List.mem_append_right _ (List.mem_singleton_self _), hmisfit⟩
  · rintro ⟨reason', hmem, hreason'⟩
    rcases List.mem_append.mp hmem with hmem | hmem
    · obtain ⟨f, hf, hname⟩ := (h.found name).mpr ⟨reason', hmem, hreason'⟩
      exact ⟨f, List.mem_append_left _ hf, hname⟩
    · obtain ⟨f, hf⟩ := List.exists_mem_of_ne_nil bad hbad
      cases List.mem_singleton.mp hmem
      exact ⟨f, List.mem_append_right _ hf, hcandidate f hf⟩

/-- A fallback that does not exist is no misfit. -/
theorem Agrees.missing {s : ScanState} (h : Agrees s st) (name : String) :
    Agrees s (st.log (.skip name .missing)) := by
  refine ⟨h.visited, fun name' ↦ ?_⟩
  rw [h.found]
  refine exists_congr fun reason ↦ ?_
  constructor
  · rintro ⟨hmem, hmisfit⟩
    exact ⟨List.mem_append_left _ hmem, hmisfit⟩
  · rintro ⟨hmem, hmisfit⟩
    rcases List.mem_append.mp hmem with hmem | hmem
    · exact ⟨hmem, hmisfit⟩
    · cases List.mem_singleton.mp hmem
      cases hmisfit

variable {next : List FallbackRef → Provider → WalkState → Option WalkResult}
  {turnsOf : List FallbackRef → Provider → WalkState → List Turn}
  {scanNext : Provider → String → ScanState → Option ScanState} {model : String}

/-- The loops agree if the turns of the fallbacks do. -/
theorem agrees_walkRefs (hfail : AllFail w providers)
    (hnext : ∀ {path q st r s}, InTree w.primary providers q → Agrees s st →
      next path q st = some r →
      (∀ t ∈ turnsOf path q st, ¬Cut w t) →
      ∃ s', scanNext q (w.candidateModel st q) s = some s' ∧ Agrees s' r.st ∧ r.ok = false)
    (hmodel : model = "" → w.modelID = "") (hp : InTree w.primary providers p)
    (refs : List FallbackRef) (hrefs : ∀ ref ∈ refs, ref ∈ p.fallback) {s : ScanState}
    (h : Agrees s st) (hwalk : w.walkRefs next path model refs st = some r)
    (hcut : ∀ t ∈ w.turnsOfRefs next turnsOf path model refs st, ¬Cut w t) :
    ∃ s', scanRefs providers scanNext model refs s = some s' ∧ Agrees s' r.st ∧ r.ok = false := by
  induction refs generalizing st s with
  | nil =>
    obtain rfl := Option.some.inj hwalk
    exact ⟨s, rfl, h, rfl⟩
  | cons ref refs ih =>
    rw [Walk.walkRefs] at hwalk
    rw [Walk.turnsOfRefs] at hcut
    rw [scanRefs]
    have hrest : ∀ ref' ∈ refs, ref' ∈ p.fallback := fun ref' h ↦ hrefs ref' (.tail _ h)
    have hfind : w.providerByName st.trace ref.name
        = providers.find? fun p ↦ p.name = ref.name := by
      rw [Walk.providerByName, hfail.store]
    rw [hfind] at hwalk hcut
    cases hq : providers.find? fun p ↦ p.name = ref.name with
    | none =>
      rw [hq] at hwalk hcut
      exact ih hrest (h.missing ref.name) hwalk hcut
    | some q =>
      rw [hq] at hwalk hcut
      dsimp only at hwalk hcut ⊢
      cases hr : next (path ++ [ref]) q (Walk.enter st q (ref.mapModel model)) with
      | none =>
        rw [hr] at hwalk
        cases hwalk
      | some r₁ =>
        rw [hr] at hwalk hcut
        have henter : Agrees s (Walk.enter st q (ref.mapModel model)) := ⟨h.visited, h.found⟩
        obtain ⟨s₁, hs₁, hagrees, hok⟩ := hnext (hp.fallback (hrefs ref (.head _)) hq) henter hr
          fun t ht ↦ hcut t (List.mem_append_left _ ht)
        rw [Walk.candidateModel_enter_mapModel hmodel] at hs₁
        dsimp only at hwalk hcut
        rw [hok, if_neg Bool.false_ne_true] at hwalk hcut
        obtain ⟨s', hs', hagrees'⟩ := ih hrest hagrees hwalk fun t ht ↦
          hcut t (List.mem_append_right _ ht)
        exact ⟨s', Option.bind_eq_some_iff.mpr ⟨s₁, hs₁, hs'⟩, hagrees'⟩

/-- A turn of the walk agrees with a turn of the scan. -/
theorem agrees_tryWithFallbacks (hfail : AllFail w providers) (hns : w.ns ≠ "")
    (primaryModel : String) {fuel : ℕ} (hp : InTree w.primary providers p) {s : ScanState}
    (h : Agrees s st)
    (hwalk : w.tryWithFallbacks fuel path p st = some r)
    (hcut : ∀ t ∈ w.turns fuel path p st, ¬Cut w t) :
    ∃ s', scanTry providers w.ns primaryModel fuel p (w.candidateModel st p) s = some s'
      ∧ Agrees s' r.st ∧ r.ok = false := by
  induction fuel generalizing path p st r s with
  | zero => cases hwalk
  | succ fuel ih =>
    rw [scanTry]
    by_cases hvisited : p.name ∈ st.visited
    · have hvisit : w.visit path p st = .done { st } := if_pos hvisited
      rw [Walk.tryWithFallbacks, hvisit] at hwalk
      obtain rfl := Option.some.inj hwalk
      rw [if_pos (h.visited ▸ hvisited)]
      exact ⟨s, rfl, h, rfl⟩
    rw [if_neg (h.visited ▸ hvisited)]
    dsimp only
    by_cases hfits : Fits w p (w.candidateModel st p)
    · obtain ⟨st', res, hvisit, hdescends⟩ := hfail.visit_of_fits hp hvisited hfits
        (hcut _ (by rw [Walk.turns]; exact List.mem_cons_self))
      rw [Walk.turns_of_descend hvisit] at hcut
      rw [Walk.tryWithFallbacks, hvisit] at hwalk
      obtain ⟨r₁, hr₁, rfl⟩ := Option.map_eq_some_iff.mp hwalk
      have hmodel : w.candidateModel st' p = w.candidateModel st p := by
        rw [Walk.candidateModel, hdescends.modelFor, Walk.candidateModel]
      rw [(checkChild_eq_nil hns).mpr hfits, if_pos rfl]
      obtain ⟨s', hs', hagrees, hok⟩ := agrees_walkRefs hfail
        (fun hq hagrees hwalk hcut ↦ ih hq hagrees hwalk hcut)
        Walk.eq_empty_of_candidateModel hp p.fallback (fun _ h ↦ h) (h.descend hdescends) hr₁
        fun t ht ↦ hcut t (List.mem_cons_of_mem _ ht)
      rw [hmodel] at hs'
      rw [hok, if_neg Bool.false_ne_true]
      exact ⟨s', hs', hagrees, rfl⟩
    · obtain ⟨reason, hmisfit, hvisit⟩ := hfail.visit_of_not_fits path hp hvisited hfits
      rw [Walk.tryWithFallbacks, hvisit] at hwalk
      obtain rfl := Option.some.inj hwalk
      have hbad : checkChild w.ns primaryModel p (w.candidateModel st p) ≠ [] :=
        fun hnil ↦ hfits ((checkChild_eq_nil hns).mp hnil)
      rw [if_neg hbad]
      exact ⟨_, rfl, h.skip hbad (fun f hf ↦ candidate_of_mem_checkChild hf) hmisfit, rfl⟩

theorem agrees_start (w : Walk) : Agrees { visited := ∅ } w.start := by
  refine ⟨rfl, fun name ↦ ⟨?_, ?_⟩⟩
  · rintro ⟨f, hf, -⟩
    cases hf
  · rintro ⟨reason, hmem, -⟩
    cases List.mem_singleton.mp hmem

theorem candidateModel_start (w : Walk) : w.candidateModel w.start w.primary = w.modelID := by
  rw [Walk.candidateModel, Walk.start, AList.lookup_insert]
  dsimp only
  split <;> rfl

/-- The walk from the primary finds what the scan finds. -/
theorem agrees_primary (hfail : AllFail w providers) (hns : w.ns ≠ "")
    (hfits : Fits w w.primary w.modelID) {fuel : ℕ}
    (hwalk : w.tryWithFallbacks fuel [] w.primary w.start = some r)
    (hcut : ∀ t ∈ w.turns fuel [] w.primary w.start, ¬Cut w t) :
    ∃ n s', scanRefs providers (scanTry providers w.ns w.modelID n) w.modelID w.primary.fallback
      { visited := {w.primary.name} } = some s' ∧ Agrees s' r.st := by
  cases fuel with
  | zero => cases hwalk
  | succ fuel =>
    have hmodel := candidateModel_start w
    obtain ⟨st', res, hvisit, hdescends⟩ := hfail.visit_of_fits .primary (Finset.notMem_empty _)
      (hmodel.symm ▸ hfits) (hcut _ (by rw [Walk.turns]; exact List.mem_cons_self))
    rw [Walk.turns_of_descend hvisit] at hcut
    rw [Walk.tryWithFallbacks, hvisit] at hwalk
    obtain ⟨r₁, hr₁, rfl⟩ := Option.map_eq_some_iff.mp hwalk
    have hmodel' : w.candidateModel st' w.primary = w.modelID := by
      rw [Walk.candidateModel, hdescends.modelFor]
      exact hmodel
    obtain ⟨s', hs', hagrees, hok⟩ := agrees_walkRefs hfail
      (fun hq hagrees hwalk hcut ↦ agrees_tryWithFallbacks hfail hns w.modelID hq hagrees hwalk
      hcut)
      Walk.eq_empty_of_candidateModel .primary w.primary.fallback (fun _ h ↦ h)
      ((agrees_start w).descend hdescends) hr₁
      fun t ht ↦ hcut t (List.mem_cons_of_mem _ ht)
    rw [hmodel'] at hs'
    rw [hok, if_neg Bool.false_ne_true]
    exact ⟨fuel, s', hs', hagrees⟩

end

/-! ## What is reported -/

theorem lookup_foundMap (quotedEntry : String → String) (found : List Ineligibility)
    (key : String) : key ∈ foundMap quotedEntry found ↔ ∃ f ∈ found, f.key = key := by
  have hloop : ∀ m : GoMap String String,
      key ∈ found.foldl (fun m f ↦ m.insert f.key (f.message quotedEntry)) m
        ↔ key ∈ m ∨ ∃ f ∈ found, f.key = key := by
    induction found with
    | nil => simp
    | cons f found ih =>
      intro m
      rw [List.foldl_cons, ih, AList.mem_insert]
      simp only [List.mem_cons, exists_eq_or_imp, eq_comm (a := key)]
      tauto
  rw [foundMap, hloop]
  simp

/-- The findings are those of the walks for the namespaces and the models. -/
theorem exists_fallbackIneligibility (quotedEntry : String → String) (primary : Provider)
    (providers : List Provider) (callers : List String) :
    ∃ findings, fallbackIneligibility quotedEntry primary providers callers = some findings
      ∧ ∀ key, (∃ f ∈ findings, f.key = key) ↔ ∃ e ∈ scanWalks primary callers, ∃ found,
        findingsFor primary providers e.1 e.2 = some found ∧ ∃ f ∈ found, f.key = key := by
  have hmapM : ∀ l : List (String × Model), ∃ found : List (List Ineligibility),
      (l.mapM fun e ↦ findingsFor primary providers e.1 e.2) = some found
        ∧ ∀ f, f ∈ found.flatten ↔ ∃ e ∈ l, ∃ found',
          findingsFor primary providers e.1 e.2 = some found' ∧ f ∈ found' := by
    intro l
    induction l with
    | nil => exact ⟨[], rfl, by simp⟩
    | cons e l ih =>
      obtain ⟨found, hfound, hmem⟩ := ih
      obtain ⟨found₁, hfound₁⟩ := exists_findingsFor primary providers e.1 e.2
      refine ⟨found₁ :: found, by rw [List.mapM_cons, hfound₁, hfound]; rfl, fun f ↦ ?_⟩
      rw [List.flatten_cons, List.mem_append, hmem]
      simp [hfound₁]
  obtain ⟨found, hfound, hmem⟩ := hmapM (scanWalks primary callers)
  refine ⟨_, congrArg (Option.map _) hfound, fun key ↦ ?_⟩
  have hkeys : (∃ f ∈ ((foundMap quotedEntry found.flatten).entries.map fun e ↦
      (⟨e.1, e.2⟩ : FallbackFinding)).insertionSort FallbackFinding.le, f.key = key)
      ↔ key ∈ foundMap quotedEntry found.flatten := by
    rw [AList.mem_keys, AList.keys, List.keys, List.mem_map]
    simp only [List.mem_insertionSort, List.mem_map]
    constructor
    · rintro ⟨f, ⟨e, he, rfl⟩, rfl⟩
      exact ⟨e, he, rfl⟩
    · rintro ⟨e, he, rfl⟩
      exact ⟨_, ⟨e, he, rfl⟩, rfl⟩
  rw [hkeys, lookup_foundMap]
  constructor
  · rintro ⟨f, hf, rfl⟩
    obtain ⟨e, he, found', hfound', hf'⟩ := (hmem f).mp hf
    exact ⟨e, he, found', hfound', f, hf', rfl⟩
  · rintro ⟨e, he, found', hfound', f, hf', rfl⟩
    exact ⟨f, (hmem f).mpr ⟨e, he, found', hfound', hf'⟩, rfl⟩

/-- For a namespace that may use the primary and one of its models, the scan finds the candidates
that the walk of the gateway skips because of the namespace or the model, when every attempt fails
and the depth limit stops nothing. What `fallbackIneligibility` reports is what it finds for all
namespaces and models. -/
theorem scan_finds_skipped {w : Walk} {providers : List Provider} {agents tasks : List String}
    {m : Model} (hfail : AllFail w providers)
    (hcaller : w.ns ∈ callerNamespaces w.primary agents tasks) (hns : w.ns ≠ "")
    (hm : m ∈ w.primary.models) (hmodel : w.modelID = m.id)
    (hcut : ∀ t ∈ w.turns (w.maxDepth.toNat + 1) [] w.primary w.start, ¬Cut w t)
    (quotedEntry : String → String) :
    (∃ r found, w.tryWithFallbacks (w.maxDepth.toNat + 1) [] w.primary w.start = some r
      ∧ findingsFor w.primary providers w.ns m = some found
      ∧ ∀ name, (∃ f ∈ found, f.candidate = name) ↔ Misfit name r.st.trace)
    ∧ ∃ findings, fallbackIneligibility quotedEntry w.primary providers
        (callerNamespaces w.primary agents tasks) = some findings
      ∧ ∀ key, (∃ g ∈ findings, g.key = key) ↔ ∃ ns ∈ callerNamespaces w.primary agents tasks,
        ∃ m' ∈ w.primary.models, ∃ found, findingsFor w.primary providers ns m' = some found
          ∧ ∃ f ∈ found, f.key = key := by
  constructor
  · have hallowed : namespaceGlobAllowed w.ns w.primary.allowedNamespaces = true := by
      rw [callerNamespaces, List.mem_insertionSort, List.mem_filter] at hcaller
      exact hcaller.2
    have hoffers : w.primary.offers w.modelID = true :=
      List.any_eq_true.mpr ⟨m, hm, decide_eq_true hmodel.symm⟩
    obtain ⟨r, hr⟩ : ∃ r, w.tryWithFallbacks (w.maxDepth.toNat + 1) [] w.primary w.start = some r :=
      Walk.exists_tryWithFallbacks w.maxDepth.toNat (Nat.le_add_left _ _)
    obtain ⟨n, s, hs, hagrees⟩ :=
      agrees_primary hfail hns ⟨hallowed, hoffers⟩ hr hcut
    obtain ⟨found, hfound⟩ := exists_findingsFor w.primary providers w.ns m
    refine ⟨r, found, hr, hfound, ?_⟩
    -- Both scans end, so they end in the same state.
    obtain ⟨s', hs', rfl⟩ := Option.map_eq_some_iff.mp hfound
    rw [hmodel] at hs
    have hmax := scanRefs_mono (fun h ↦ scanTry_mono (le_max_left n (providers.length + 1)) h) _ hs
    have hmax' := scanRefs_mono (fun h ↦ scanTry_mono (le_max_right n (providers.length + 1)) h)
      _ hs'
    cases hmax.symm.trans hmax'
    exact hagrees.found
  · obtain ⟨findings, hfindings, hkeys⟩ := exists_fallbackIneligibility quotedEntry w.primary
      providers (callerNamespaces w.primary agents tasks)
    refine ⟨findings, hfindings, fun key ↦ ?_⟩
    rw [hkeys, scanWalks, if_neg (List.ne_nil_of_mem hcaller)]
    constructor
    · rintro ⟨e, he, hfound⟩
      obtain ⟨ns, hns', he⟩ := List.mem_flatMap.mp he
      obtain ⟨m', hm', rfl⟩ := List.mem_map.mp he
      exact ⟨ns, hns', m', hm', hfound⟩
    · rintro ⟨ns, hns', m', hm', hfound⟩
      exact ⟨(ns, m'), List.mem_flatMap.mpr ⟨ns, hns', List.mem_map.mpr ⟨m', hm', rfl⟩⟩, hfound⟩

open Walk (oneModel mappingFallback lostFallback outage)

/-- The primary asks `c` for the model `m`, which it does not offer; `b` asks it for the model that
it has. -/
private def diamond : Provider := oneModel "a" "m" [{ name := "c" }, { name := "b" }]

private def diamondProviders : List Provider := [diamond, mappingFallback, lostFallback]

theorem scan_finds_skipped_diamond :
    AllFail (outage diamondProviders diamond) diamondProviders
    ∧ (∀ t ∈ (outage diamondProviders diamond).turns 6 [] diamond
        (outage diamondProviders diamond).start, ¬Cut (outage diamondProviders diamond) t)
    ∧ ∃ r, (outage diamondProviders diamond).tryWithFallbacks 6 [] diamond
        (outage diamondProviders diamond).start = some r ∧ Misfit "c" r.st.trace := by
  have hfail : AllFail (outage diamondProviders diamond) diamondProviders := by
    have hmem : ∀ p, InTree diamond diamondProviders p → p ∈ diamondProviders := by
      intro p hp
      cases hp with
      | primary => exact List.mem_cons_self
      | fallback _ _ hq => exact List.mem_of_find?_eq_some hq
    refine ⟨fun _ ↦ rfl, rfl, fun _ _ _ ↦ rfl, fun _ _ ↦ rfl, fun p hp ↦ ?_, ?_, ?_⟩
    · exact (by decide +kernel : ∀ p ∈ diamondProviders,
        fallbackFormatCompatible diamond.type p.type = true) p (hmem p hp)
    · intro p _ _
      nofun
    · intro p hp model hcrosses
      have hnone : ∀ p ∈ diamondProviders, (outage diamondProviders diamond).crosses p = false := by
        decide +kernel
      rw [hnone p (hmem p hp)] at hcrosses
      cases hcrosses
  have hcut : ∀ t ∈ (outage diamondProviders diamond).turns 6 [] diamond
      (outage diamondProviders diamond).start, ¬Cut (outage diamondProviders diamond) t := by
    decide +kernel
  have hcaller : "team-a" ∈ callerNamespaces diamond ["team-a"] [] := by decide +kernel
  obtain ⟨⟨r, found, hr, hfound, hsame⟩, -⟩ := scan_finds_skipped hfail hcaller
    (by decide) List.mem_cons_self rfl hcut id
  refine ⟨hfail, hcut, r, hr, (hsame "c").mp ?_⟩
  have heval : findingsFor diamond diamondProviders "team-a" { id := "m" }
      = some [.notOffered "c" "m" "m"] := by decide +kernel
  cases hfound.symm.trans heval
  exact ⟨_, List.mem_singleton_self _, rfl⟩

end Kaalm.ModelProviders
