import Kaalm.Gateway.FallbackWalk

/-!
# Fallbacks that the walk passes over

When the walk ends without a result and with attempts left, it has gone down every edge of every
candidate that used up an attempt. Whether such an edge leads to an attempt depends on the edge,
since it decides the model that the next provider is asked for. But the set of visited providers
does not know of edges: a provider that was skipped because one edge asked it for a model that it
does not offer is passed over on every later edge, among them edges that ask for a model that it
has.

`turns` lists the calls of the recursion with their states. The result about it is that this is the
only way in which an eligible fallback is lost.
-/

namespace Kaalm.Gateway.Fallback

open JsonText

/-- No chain of fallbacks returns to its start. -/
def Acyclic (providers : List Provider) : Prop :=
  ∃ rank : String → ℕ, ∀ p ∈ providers, ∀ ref ∈ p.fallback, rank ref.name < rank p.name

def Event.isSkipOf (name : String) : Event → Bool
  | .skip provider _ => provider = name
  | _ => false

/-- The walk has skipped the provider. -/
def skipped (name : String) (t : Trace) : Bool := t.any (Event.isSkipOf name)

theorem skipped_append {name : String} {t : Trace} (h : skipped name t = true) (t' : Trace) :
    skipped name (t ++ t') = true := by
  rw [skipped, List.any_append, ← skipped, h, Bool.true_or]

theorem skipped_skip (name : String) (t : Trace) (reason : Ineligible) :
    skipped name (t ++ [.skip name reason]) = true := by
  rw [skipped, List.any_append, List.any_cons, Event.isSkipOf]
  simp only [decide_true, Bool.true_or, Bool.or_true]

/-- The walk turns to a provider, in this state. -/
structure Turn where
  path : List FallbackRef
  provider : Provider
  st : WalkState

/-- The state after a visit. -/
def Visit.state : Visit → WalkState
  | .done r => r.st
  | .descend st _ => st

namespace Walk

variable (w : Walk)

/-- The provider offers the model, in a format that the request has or can be translated to, and the
namespace may use it. -/
def suits (p : Provider) (model : String) : Bool :=
  (p.name = w.primary.name ∨ (fallbackFormatCompatible w.primary.type p.type
      ∧ (fallbackCrossesFormat w.primary.type p.type → w.inboundFormat ≠ none)))
    ∧ namespaceGlobAllowed w.ns p.allowedNamespaces ∧ p.offers model
    ∧ (w.crosses p → w.decodes → (w.world.translate p model).isOk)

/-- The turns of the loop over fallbacks. -/
def turnsOfRefs (next : List FallbackRef → Provider → WalkState → Option WalkResult)
    (turns : List FallbackRef → Provider → WalkState → List Turn) (path : List FallbackRef)
    (parentModel : String) : List FallbackRef → WalkState → List Turn
  | [], _ => []
  | ref :: refs, st =>
    match w.providerByName st.trace ref.name with
    | none => turnsOfRefs next turns path parentModel refs (st.log (.skip ref.name .missing))
    | some p =>
      turns (path ++ [ref]) p (enter st p (ref.mapModel parentModel))
        ++ match next (path ++ [ref]) p (enter st p (ref.mapModel parentModel)) with
          | none => []
          | some r => if r.ok then [] else turnsOfRefs next turns path parentModel refs r.st

/-- The turns of a walk, in order. -/
def turns : ℕ → List FallbackRef → Provider → WalkState → List Turn
  | 0, _, _, _ => []
  | fuel + 1, path, p, st =>
    ⟨path, p, st⟩ :: match w.visit path p st with
      | .done _ => []
      | .descend st' _ => w.turnsOfRefs (w.tryWithFallbacks fuel) (turns fuel) path
          (w.candidateModel st' p) p.fallback st'

end Walk

/-- The model that the provider is asked for. -/
def Turn.model (w : Walk) (t : Turn) : String := w.candidateModel t.st t.provider

/-- The turn uses up an attempt. -/
def Turn.takesSlot (w : Walk) (t : Turn) : Bool :=
  t.st.attemptCount < (w.visit t.path t.provider t.st).state.attemptCount

namespace Walk

variable {w : Walk} {path : List FallbackRef} {p : Provider} {st st' : WalkState} {r : WalkResult}
  {settle : Option SettleId} {res : ForwardResult}

/-! ## What a turn does -/

theorem staticallyIneligible_of_suits (h : w.suits p (w.candidateModel st p) = true) :
    ∃ translated, w.staticallyIneligible st p = ({ st with translated }, none) := by
  simp only [suits, decide_eq_true_iff] at h
  obtain ⟨htype, hns, hoffers, htranslate⟩ := h
  have hconfig : w.configIneligible st p = none := by
    rw [configIneligible, if_neg, if_neg, if_neg, if_neg]
    · simpa using hoffers
    · simpa using hns
    · rintro ⟨hname, hcrosses, hformat⟩
      rcases htype with htype | ⟨-, htype⟩
      · exact hname htype
      · exact htype hcrosses hformat
    · rintro ⟨hname, hcompatible⟩
      rcases htype with htype | ⟨htype, -⟩
      · exact hname htype
      · rw [htype] at hcompatible
        cases hcompatible
  rw [staticallyIneligible, hconfig]
  simp only
  split_ifs with hcross
  · have hok := htranslate hcross.1 hcross.2.1
    cases htr : w.world.translate p (w.candidateModel st p) with
    | error reason =>
      rw [htr] at hok
      cases hok
    | ok d => exact ⟨_, rfl⟩
  · exact ⟨st.translated, rfl⟩

theorem attemptCount_visitAdmitted (path : List FallbackRef) (p : Provider) (st : WalkState)
    (settle : Option SettleId) :
    (w.visitAdmitted path p st settle).state.attemptCount = st.attemptCount := by
  obtain ⟨outcome, observed, hattempt⟩ := w.attempt_eq path p st
  rw [visitAdmitted, hattempt]
  simp only
  split_ifs
  · rfl
  · obtain ⟨es, -, hgiveUp⟩ := giveUp_eq (attempted st (w.attemptOf path p st) outcome observed) p
      (forwardOnce p (w.candidateRequest st p).2 outcome) settle
    rw [hgiveUp]
    rfl

theorem attemptCount_visitEligible (path : List FallbackRef) (p : Provider) (st : WalkState) :
    (w.visitEligible path p st).state.attemptCount = st.attemptCount := by
  rw [visitEligible]
  by_cases hprimary : p.name = w.primary.name
  · rw [if_pos hprimary]
    exact attemptCount_visitAdmitted path p st _
  rw [if_neg hprimary]
  simp only
  split_ifs
  · obtain ⟨observed, blocked, retryAfter, hrefuse⟩ :=
      refuse_fst (admitCandidate st p (w.world.admits st.trace p))
        (w.world.admits st.trace p).decision
    rw [Visit.state, hrefuse]
    rfl
  · exact attemptCount_visitAdmitted path p _ _

/-- A turn is passed over, skips its provider, comes after the last attempt or uses up an attempt.
Only the first three are without one. -/
theorem visit_cases (w : Walk) (path : List FallbackRef) (p : Provider) (st : WalkState) :
    (p.name ∈ st.visited ∧ w.visit path p st = .done { st })
      ∨ (w.suits p (w.candidateModel st p) = false ∧ ∃ translated reason,
        w.visit path p st = .done { st := (reach st p translated).log (.skip p.name reason) })
      ∨ (w.maxDepth ≤ st.attemptCount
        ∧ ∃ translated, w.visit path p st = .done { st := reach st p translated })
      ∨ (⟨path, p, st⟩ : Turn).takesSlot w = true := by
  by_cases hvisited : p.name ∈ st.visited
  · exact Or.inl ⟨hvisited, if_pos hvisited⟩
  have hvisit : w.visit path p st = _ := if_neg hvisited
  obtain ⟨translated, reason, hstatic, -⟩ :=
    w.staticallyIneligible_cases { st with visited := insert p.name st.visited } p
  rw [hstatic] at hvisit
  cases reason with
  | some reason =>
    refine Or.inr (Or.inl ⟨eq_false_of_ne_true fun hsuits ↦ ?_, translated, reason, hvisit⟩)
    obtain ⟨_, hnone⟩ := staticallyIneligible_of_suits
      (show w.suits p (w.candidateModel { st with visited := insert p.name st.visited } p) = true
        from hsuits)
    rw [hnone] at hstatic
    cases (Prod.ext_iff.mp hstatic).2
  | none =>
    simp only at hvisit
    by_cases hdepth : w.maxDepth ≤ st.attemptCount
    · rw [if_pos hdepth] at hvisit
      exact Or.inr (Or.inr (Or.inl ⟨hdepth, translated, hvisit⟩))
    · rw [if_neg hdepth] at hvisit
      refine Or.inr (Or.inr (Or.inr ?_))
      rw [Turn.takesSlot, hvisit, attemptCount_visitEligible]
      exact decide_eq_true (Nat.lt_succ_self _)

/-- The events of a trace stay. -/
theorem skipped_rule (w : Walk) (name : String) : w.Rule (fun st ↦ skipped name st.trace = true)
    (fun _ _ st ↦ skipped name st.trace = true) (fun _ r ↦ skipped name r.st.trace = true) where
  done := by
    intro path p st r hskipped hvisit
    cases visits_of_eq hvisit with
    | seen => exact hskipped
    | skipped fresh translated reason => exact skipped_append hskipped _
    | spent => exact hskipped
    | final heligible translated hadmits outcome observed hst₂ =>
      rw [hst₂]
      refine skipped_append (skipped_append ?_ _) _
      cases hadmits with
      | primary hname => exact hskipped
      | candidate hname a ha => exact skipped_append hskipped _
  descend := by
    intro path p st st' res hskipped hvisit
    cases visits_of_eq hvisit with
    | refused => exact skipped_append hskipped _
    | failed heligible translated hadmits outcome observed hst₂ =>
      obtain ⟨es, -, hgiveUp⟩ := giveUp_eq _ p _ _
      rw [hgiveUp, hst₂]
      refine skipped_append (skipped_append (skipped_append (skipped_append ?_ _) _) _) _
      cases hadmits with
      | primary hname => exact hskipped
      | candidate hname a ha => exact skipped_append hskipped _
  child := fun _ _ _ _ _ _ hI _ ↦ hI
  missing := fun hI ↦ skipped_append hI _
  exhausted := fun _ hI ↦ hI
  back := fun hpost _ ↦ hpost
  up := fun hpost _ ↦ hpost

theorem eq_empty_of_candidateModel (h : w.candidateModel st p = "") : w.modelID = "" := by
  rw [candidateModel] at h
  split at h
  · split_ifs at h with hne
    · exact absurd h hne
    · exact h
  · exact h

theorem candidateModel_enter_mapModel {model : String} (hmodel : model = "" → w.modelID = "")
    (st : WalkState) (q : Provider) (ref : FallbackRef) :
    w.candidateModel (enter st q (ref.mapModel model)) q = ref.mapModel model := by
  rw [candidateModel, enter]
  simp only [AList.lookup_insert]
  split_ifs with hne
  · rfl
  · have hempty : ref.mapModel model = "" := Classical.not_not.mp hne
    rw [hempty]
    exact hmodel (ref.eq_empty_of_mapModel hempty)

/-! ## What an exhausted walk has gone through -/

/-- A provider of this name has used up an attempt. -/
def Took (w : Walk) (ts : List Turn) (name : String) : Prop :=
  ∃ t ∈ ts, t.takesSlot w = true ∧ t.provider.name = name

/-- No turn leads, by an edge that suits it, to a provider that has been skipped before. -/
def Unhidden (w : Walk) (ts : List Turn) : Prop :=
  ∀ t ∈ ts, skipped t.provider.name t.st.trace = true → w.suits t.provider (t.model w) = false

/-- What is visited after the turns `ts` was skipped or has used up an attempt. -/
def Accounted (w : Walk) (ts : List Turn) (st : WalkState) : Prop :=
  ∀ name ∈ st.visited, skipped name st.trace = true ∨ Took w ts name

/-- The fallbacks that an edge of the turn suits have used up an attempt. -/
def Covers (w : Walk) (providers : List Provider) (ts : List Turn) (t : Turn) : Prop :=
  ∀ ref ∈ t.provider.fallback, ∀ q, (providers.find? fun p ↦ p.name = ref.name) = some q →
    w.suits q (ref.mapModel (t.model w)) = true → Took w ts q.name

theorem Took.append {ts : List Turn} {name : String} (h : Took w ts name) (ts' : List Turn) :
    Took w (ts ++ ts') name := by
  obtain ⟨t, ht, htakes⟩ := h
  exact ⟨t, List.mem_append_left _ ht, htakes⟩

theorem Covers.append {providers : List Provider} {ts : List Turn} {t : Turn}
    (h : Covers w providers ts t) (ts' : List Turn) : Covers w providers (ts ++ ts') t :=
  fun ref href q hq hsuits ↦ (h ref href q hq hsuits).append ts'

theorem Unhidden.left {ts ts' : List Turn} (h : Unhidden w (ts ++ ts')) : Unhidden w ts :=
  fun t ht ↦ h t (List.mem_append_left _ ht)

theorem Unhidden.right {ts ts' : List Turn} (h : Unhidden w (ts ++ ts')) : Unhidden w ts' :=
  fun t ht ↦ h t (List.mem_append_right _ ht)

/-- What is true after the turns `ts` that came after the turns `past`. -/
structure Covered (w : Walk) (providers : List Provider) (past ts : List Turn) (st : WalkState) :
    Prop where
  accounted : Accounted w (past ++ ts) st
  covers : ∀ t ∈ ts, t.takesSlot w = true → Covers w providers (past ++ ts) t

theorem Covered.trans {providers : List Provider} {past ts ts' : List Turn}
    (h : Covered w providers past ts st) (h' : Covered w providers (past ++ ts) ts' st') :
    Covered w providers past (ts ++ ts') st' where
  accounted := by
    rw [← List.append_assoc]
    exact h'.accounted
  covers := by
    intro t ht htakes
    rw [← List.append_assoc]
    rcases List.mem_append.mp ht with ht | ht
    · exact (h.covers t ht htakes).append ts'
    · exact h'.covers t ht htakes

section Graph

variable {providers : List Provider} (hstore : ∀ t, w.world.store t = providers)
  {next : List FallbackRef → Provider → WalkState → Option WalkResult}
  {turnsOf : List FallbackRef → Provider → WalkState → List Turn}

include hstore in
theorem providerByName_eq (t : Trace) (name : String) :
    w.providerByName t name = providers.find? fun p ↦ p.name = name := by
  rw [providerByName, hstore]

/-- What an exhausted turn leaves: its provider, if it suits the edge, has used up an attempt. -/
structure TurnCovered (w : Walk) (providers : List Provider) (past ts : List Turn) (p : Provider)
    (st st' : WalkState) : Prop extends Covered w providers past ts st' where
  took : w.suits p (w.candidateModel st p) = true → Took w (past ++ ts) p.name

theorem attemptCount_le_walkRefs {model : String}
    (hcount : ∀ {path p st r}, next path p st = some r → st.attemptCount ≤ r.st.attemptCount)
    (refs : List FallbackRef) (h : w.walkRefs next path model refs st = some r) :
    st.attemptCount ≤ r.st.attemptCount := by
  rcases (w.attemptCount_rule st.attemptCount).walkRefs (fun hle h ↦ hle.trans (hcount h)) refs
    (Nat.le_refl _) (fun _ hle _ ↦ hle) h with ⟨-, hle⟩ | ⟨-, hle⟩
  · exact hle
  · exact hle

include hstore in
/-- The loop over fallbacks, if each of the walks below it does its part. -/
theorem covered_walkRefs {model : String} (hmodel : model = "" → w.modelID = "")
    (hcount : ∀ {path p st r}, next path p st = some r → st.attemptCount ≤ r.st.attemptCount)
    (hnext : ∀ {path p st r past}, Accounted w past st → next path p st = some r → r.ok = false →
      (r.st.attemptCount : ℤ) < w.maxDepth → Unhidden w (turnsOf path p st) →
      TurnCovered w providers past (turnsOf path p st) p st r.st)
    (refs : List FallbackRef) {past : List Turn} (haccounted : Accounted w past st)
    (h : w.walkRefs next path model refs st = some r) (hexhausted : r.ok = false)
    (hslots : (r.st.attemptCount : ℤ) < w.maxDepth)
    (hunhidden : Unhidden w (w.turnsOfRefs next turnsOf path model refs st)) :
    Covered w providers past (w.turnsOfRefs next turnsOf path model refs st) r.st
      ∧ ∀ ref ∈ refs, ∀ q, (providers.find? fun p ↦ p.name = ref.name) = some q →
        w.suits q (ref.mapModel model) = true →
        Took w (past ++ w.turnsOfRefs next turnsOf path model refs st) q.name := by
  induction refs generalizing st past with
  | nil =>
    obtain rfl := Option.some.inj h
    refine ⟨⟨?_, fun t ht ↦ absurd ht List.not_mem_nil⟩, fun ref href ↦
      absurd href List.not_mem_nil⟩
    rw [turnsOfRefs, List.append_nil]
    exact haccounted
  | cons ref refs ih =>
    rw [walkRefs] at h
    rw [turnsOfRefs] at hunhidden ⊢
    cases hq : w.providerByName st.trace ref.name with
    | none =>
      rw [hq] at h hunhidden
      simp only at h hunhidden ⊢
      have hlogged : Accounted w past (st.log (.skip ref.name .missing)) :=
        fun name hname ↦ (haccounted name hname).imp (fun hskipped ↦ skipped_append hskipped _) id
      obtain ⟨hcovered, hedges⟩ := ih hlogged h hunhidden
      refine ⟨hcovered, fun ref' href' q hfind hsuits ↦ ?_⟩
      rcases List.mem_cons.mp href' with rfl | href'
      · rw [← providerByName_eq hstore st.trace, hq] at hfind
        cases hfind
      · exact hedges ref' href' q hfind hsuits
    | some q =>
      rw [hq] at h hunhidden
      simp only at h hunhidden ⊢
      cases hr : next (path ++ [ref]) q (enter st q (ref.mapModel model)) with
      | none =>
        rw [hr] at h
        cases h
      | some r₁ =>
        rw [hr] at h hunhidden
        simp only at h hunhidden ⊢
        cases hok : r₁.ok with
        | true =>
          rw [if_pos hok] at h
          obtain rfl := Option.some.inj h
          rw [hok] at hexhausted
          cases hexhausted
        | false =>
          rw [if_neg (by rw [hok]; exact Bool.false_ne_true)] at h
          simp only [hok, Bool.false_eq_true, if_false] at hunhidden ⊢
          have hle : r₁.st.attemptCount ≤ r.st.attemptCount :=
            attemptCount_le_walkRefs hcount refs h
          have hentered : Accounted w past (enter st q (ref.mapModel model)) := haccounted
          have hfirst := hnext hentered hr hok
            (lt_of_le_of_lt (Int.ofNat_le.mpr hle) hslots) hunhidden.left
          obtain ⟨hrest, hedges⟩ := ih hfirst.accounted h hunhidden.right
          refine ⟨hfirst.toCovered.trans hrest, fun ref' href' q' hfind hsuits ↦ ?_⟩
          rw [← List.append_assoc]
          rcases List.mem_cons.mp href' with rfl | href'
          · rw [← providerByName_eq hstore st.trace, hq] at hfind
            obtain rfl := Option.some.inj hfind
            rw [← candidateModel_enter_mapModel hmodel st q ref'] at hsuits
            exact (hfirst.took hsuits).append _
          · exact hedges ref' href' q' hfind hsuits

theorem turns_of_done {fuel : ℕ} (hvisit : w.visit path p st = .done r) :
    w.turns (fuel + 1) path p st = [⟨path, p, st⟩] := by
  rw [turns, hvisit]

theorem turns_of_descend {fuel : ℕ} (hvisit : w.visit path p st = .descend st' res) :
    w.turns (fuel + 1) path p st = ⟨path, p, st⟩ :: w.turnsOfRefs (w.tryWithFallbacks fuel)
      (w.turns fuel) path (w.candidateModel st' p) p.fallback st' := by
  rw [turns, hvisit]

/-- A turn without an attempt has no others below it. -/
theorem turnCovered_of_done {past : List Turn} (hvisit : w.visit path p st = .done r)
    (hcount : r.st.attemptCount = st.attemptCount) (haccounted : Accounted w past r.st)
    (htook : w.suits p (w.candidateModel st p) = true → Took w past p.name) :
    TurnCovered w providers past [⟨path, p, st⟩] p st r.st := by
  refine ⟨⟨fun name hname ↦ (haccounted name hname).imp id fun h ↦ h.append _, ?_⟩,
    fun hsuits ↦ (htook hsuits).append _⟩
  intro t ht htakes
  rw [List.mem_singleton.mp ht, Turn.takesSlot, hvisit, Visit.state, hcount,
    decide_eq_true_iff] at htakes
  exact absurd htakes (Nat.lt_irrefl _)

/-- A turn that uses up an attempt ends the walk or goes on with the fallbacks. -/
theorem ok_of_takesSlot (htakes : (⟨path, p, st⟩ : Turn).takesSlot w = true)
    (hvisit : w.visit path p st = .done r) : r.ok = true := by
  rw [Turn.takesSlot, hvisit, Visit.state, decide_eq_true_iff] at htakes
  cases visits_of_eq hvisit with
  | seen => exact absurd htakes (Nat.lt_irrefl _)
  | skipped => exact absurd htakes (Nat.lt_irrefl _)
  | spent => exact absurd htakes (Nat.lt_irrefl _)
  | final => rfl

theorem accounted_insert {past : List Turn} (haccounted : Accounted w past st)
    (hvisited : st'.visited = insert p.name st.visited)
    (htrace : ∀ name, skipped name st.trace = true → skipped name st'.trace = true)
    {ts : List Turn} (hp : skipped p.name st'.trace = true ∨ Took w (past ++ ts) p.name) :
    Accounted w (past ++ ts) st' := by
  intro name hname
  rw [hvisited] at hname
  rcases Finset.mem_insert.mp hname with rfl | hname
  · exact hp
  · exact (haccounted name hname).imp (htrace name) fun h ↦ h.append _

include hstore in
/-- A turn that ends exhausted and with attempts left. The induction is on the depth of the
recursion, and what is visited when it starts is accounted for by the turns before it. -/
theorem covered_tryWithFallbacks (fuel : ℕ) {past : List Turn} (haccounted : Accounted w past st)
    (h : w.tryWithFallbacks fuel path p st = some r) (hexhausted : r.ok = false)
    (hslots : (r.st.attemptCount : ℤ) < w.maxDepth)
    (hunhidden : Unhidden w (w.turns fuel path p st)) :
    TurnCovered w providers past (w.turns fuel path p st) p st r.st := by
  induction fuel generalizing path p st r past with
  | zero => cases h
  | succ fuel ih =>
    rw [tryWithFallbacks] at h
    rcases w.visit_cases path p st with ⟨hvisited, hvisit⟩ | ⟨hsuits, translated, reason, hvisit⟩
      | ⟨hdepth, translated, hvisit⟩ | htakes
    · rw [turns_of_done hvisit] at hunhidden ⊢
      rw [hvisit] at h
      obtain rfl := Option.some.inj h
      refine turnCovered_of_done hvisit rfl haccounted fun hsuits ↦ ?_
      rcases haccounted p.name hvisited with hskipped | htook
      · -- This is where a fallback is lost, and what is assumed not to happen.
        have hnot : w.suits p (w.candidateModel st p) = false :=
          hunhidden ⟨path, p, st⟩ List.mem_cons_self hskipped
        rw [hnot] at hsuits
        cases hsuits
      · exact htook
    · rw [turns_of_done hvisit]
      rw [hvisit] at h
      obtain rfl := Option.some.inj h
      refine turnCovered_of_done hvisit rfl ?_ fun htrue ↦ ?_
      · rw [← List.append_nil past]
        exact accounted_insert haccounted rfl (fun name h ↦ skipped_append h _)
          (Or.inl (skipped_skip p.name st.trace reason))
      · rw [hsuits] at htrue
        cases htrue
    · rw [hvisit] at h
      obtain rfl := Option.some.inj h
      exact absurd hdepth (not_le.mpr hslots)
    · cases hvisit : w.visit path p st with
      | done r₁ =>
        rw [hvisit] at h
        obtain rfl := Option.some.inj h
        rw [ok_of_takesSlot htakes hvisit] at hexhausted
        cases hexhausted
      | descend st' res =>
        rw [turns_of_descend hvisit] at hunhidden ⊢
        rw [hvisit] at h
        obtain ⟨r₁, hr₁, hr⟩ := Option.map_eq_some_iff.mp h
        have hok : r₁.ok = false := by
          by_contra htrue
          rw [if_pos (eq_true_of_ne_false htrue)] at hr
          rw [hr, hexhausted] at htrue
          exact htrue rfl
        rw [if_neg (by rw [hok]; exact Bool.false_ne_true)] at hr
        rw [← hr] at hslots ⊢
        have hself : Took w (past ++ [⟨path, p, st⟩]) p.name :=
          ⟨_, List.mem_append_right _ List.mem_cons_self, htakes, rfl⟩
        have hstarted : Accounted w (past ++ [⟨path, p, st⟩]) st' :=
          accounted_insert haccounted (visited_of_visit hvisit)
            (fun name h ↦ (skipped_rule w name).descend h hvisit) (Or.inr hself)
        obtain ⟨hcovered, hedges⟩ := covered_walkRefs hstore eq_empty_of_candidateModel
          (fun h ↦ (attemptCount_rule _).tryWithFallbacks (Nat.le_refl _) h)
          (fun haccounted h hok hslots hunhidden ↦ ih haccounted h hok hslots hunhidden) p.fallback
          hstarted hr₁ hok hslots fun t ht ↦ hunhidden t (List.mem_cons_of_mem _ ht)
        have hmodel : w.candidateModel st' p = w.candidateModel st p := by
          rw [candidateModel, candidateModel, modelFor_of_descend hvisit]
        obtain ⟨haccounted', hcovers⟩ := hcovered
        rw [List.append_assoc, List.singleton_append] at haccounted' hedges hcovers
        refine ⟨⟨haccounted', fun t ht htakes' ↦ ?_⟩, fun _ ↦ ?_⟩
        · rcases List.mem_cons.mp ht with rfl | ht
          · rw [Covers, Turn.model, ← hmodel]
            exact hedges
          · exact hcovers t ht htakes'
        · have := hself.append (w.turnsOfRefs (w.tryWithFallbacks fuel) (w.turns fuel) path
            (w.candidateModel st' p) p.fallback st')
          rwa [List.append_assoc, List.singleton_append] at this

/-! ## The providers of the turns -/

/-- The provider is the one that the store has under its name. -/
def Known (providers : List Provider) (p : Provider) : Prop :=
  (providers.find? fun q ↦ q.name = p.name) = some p

theorem known_of_find? {name : String} {q : Provider}
    (h : (providers.find? fun p ↦ p.name = name) = some q) : Known providers q := by
  have hname : q.name = name := by simpa using List.find?_some h
  rw [Known, hname]
  exact h

theorem Known.eq {p q : Provider} (hp : Known providers p) (hq : Known providers q)
    (hname : p.name = q.name) : p = q := by
  rw [Known, hname] at hp
  exact Option.some.inj (hp.symm.trans hq)

include hstore in
theorem known_turnsOfRefs {model : String} (refs : List FallbackRef)
    (hturns : ∀ {path p st}, Known providers p → ∀ t ∈ turnsOf path p st,
    Known providers t.provider) :
    ∀ t ∈ w.turnsOfRefs next turnsOf path model refs st, Known providers t.provider := by
  induction refs generalizing st with
  | nil => exact fun t ht ↦ absurd ht List.not_mem_nil
  | cons ref refs ih =>
    rw [turnsOfRefs]
    cases hq : w.providerByName st.trace ref.name with
    | none => exact ih
    | some q =>
      simp only
      rw [providerByName_eq hstore] at hq
      intro t ht
      rcases List.mem_append.mp ht with ht | ht
      · exact hturns (known_of_find? hq) t ht
      · split at ht
        · cases ht
        · split_ifs at ht
          · cases ht
          · exact ih t ht

include hstore in
theorem known_turns (fuel : ℕ) (hp : Known providers p) :
    ∀ t ∈ w.turns fuel path p st, Known providers t.provider := by
  induction fuel generalizing path p st with
  | zero => exact fun t ht ↦ absurd ht List.not_mem_nil
  | succ fuel ih =>
    intro t ht
    cases hvisit : w.visit path p st with
    | done r =>
      rw [turns_of_done hvisit] at ht
      rw [List.mem_singleton.mp ht]
      exact hp
    | descend st' res =>
      rw [turns_of_descend hvisit] at ht
      rcases List.mem_cons.mp ht with rfl | ht
      · exact hp
      · exact known_turnsOfRefs hstore p.fallback (fun hp ↦ ih hp) t ht

end Graph

/-- A provider whose catalog has one model. -/
def oneModel (name model : String) (fallback : List FallbackRef) : Provider :=
  { name, uid := name, budget := hardProvider.budget, type := .openai, allowedNamespaces :=
    ["team-a"],
    models := [{ id := model }], fallback }

/-- The request for the model `m` whose providers all are down. -/
def outage (providers : List Provider) (primary : Provider) : Walk where
  world :=
    { store := fun _ ↦ providers
      upstream := fun _ _ ↦ .answer ⟨503, false⟩ .done
      admits := fun _ _ ↦ ⟨{}, false, nofun⟩
      translate := fun _ _ ↦ .error ""
      leavesAt := none }
  primary := primary
  admission := ⟨{}, false, nofun⟩
  admitted := rfl
  ns := "team-a"
  modelID := "m"
  maxDepth := 5
  body :=
    { doc := ⟨⟨[], all_isSpace_nil⟩, .emptyObject ⟨[], all_isSpace_nil⟩, ⟨[], all_isSpace_nil⟩⟩
      scans := ⟨{ closeBrace := some 1 }, rfl⟩
      names := fun _ hm ↦ absurd hm List.not_mem_nil }
  decodes := true
  inboundFormat := some .openai

/-- Only offers the model `n`. -/
def lostFallback : Provider := oneModel "c" "n" []

/-- Maps the model `m` to the one that `c` offers. -/
def mappingFallback : Provider :=
  oneModel "b" "m" [{ name := "c", modelMap := (∅ : GoMap String String).insert "m" "n" }]

/-- In a walk that is exhausted with attempts left, a provider that suits an edge of a candidate has
used up an attempt, if no edge leads to a provider that the walk skipped before and now would not
skip. -/
theorem tryWithFallbacks_covers (w : Walk) {providers : List Provider} {fuel : ℕ} {r : WalkResult}
    (hstore : ∀ t, w.world.store t = providers) (hprimary : Known providers w.primary)
    (hrun : w.tryWithFallbacks fuel [] w.primary w.start = some r) (hexhausted : r.ok = false)
    (hslots : (r.st.attemptCount : ℤ) < w.maxDepth)
    (hunhidden : Unhidden w (w.turns fuel [] w.primary w.start)) :
    ∀ t ∈ w.turns fuel [] w.primary w.start, t.takesSlot w = true →
      ∀ ref ∈ t.provider.fallback, ∀ q, (providers.find? fun p ↦ p.name = ref.name) = some q →
        w.suits q (ref.mapModel (t.model w)) = true →
        ∃ t' ∈ w.turns fuel [] w.primary w.start, t'.takesSlot w = true ∧ t'.provider = q := by
  intro t ht htakes ref href q hq hsuits
  have hstart : Accounted w [] w.start := fun name hname ↦ absurd hname (Finset.notMem_empty name)
  have hcovered := covered_tryWithFallbacks hstore fuel hstart hrun hexhausted hslots hunhidden
  obtain ⟨t', ht', htakes', hname⟩ := hcovered.covers t ht htakes ref href q hq hsuits
  exact ⟨t', ht', htakes',
    (known_turns hstore fuel hprimary t' ht').eq (known_of_find? hq) hname⟩

/-- The candidate that maps the model comes first. -/
theorem tryWithFallbacks_covers_in_order : ∃ (primary : Provider) (providers : List Provider)
    (r : WalkResult), (outage providers primary).tryWithFallbacks 6 [] primary
        (outage providers primary).start = some r
      ∧ r.ok = false ∧ r.st.attemptCount < 5
      ∧ Unhidden (outage providers primary) ((outage providers primary).turns 6 [] primary
        (outage providers primary).start)
      ∧ ∀ t ∈ (outage providers primary).turns 6 [] primary (outage providers primary).start,
        t.takesSlot (outage providers primary) = true → ∀ ref ∈ t.provider.fallback,
        ∀ q, (providers.find? fun p ↦ p.name = ref.name) = some q →
          (outage providers primary).suits q (ref.mapModel (t.model (outage providers primary)))
          = true →
          ∃ t' ∈ (outage providers primary).turns 6 [] primary (outage providers primary).start,
            t'.takesSlot (outage providers primary) = true ∧ t'.provider = q := by
  let primary := oneModel "a" "m" [{ name := "b" }, { name := "c" }]
  let providers := [primary, mappingFallback, lostFallback]
  let w := outage providers primary
  have hrun : ((w.tryWithFallbacks 6 [] primary w.start).any fun r ↦
      !r.ok && decide (r.st.attemptCount < 5)) = true := by decide +kernel
  have hunhidden : Unhidden w (w.turns 6 [] primary w.start) := by
    rw [Unhidden]
    decide +kernel
  obtain ⟨r, hr, hrun⟩ := (Option.any_eq_true _ _).mp hrun
  obtain ⟨hok, hslots⟩ := Bool.and_eq_true_iff.mp hrun
  have hok : r.ok = false := Bool.not_eq_true' _ |>.mp hok
  have hslots : r.st.attemptCount < 5 := of_decide_eq_true hslots
  exact ⟨primary, providers, r, hr, hok, hslots, hunhidden,
    w.tryWithFallbacks_covers (fun _ ↦ rfl) rfl hr hok (Int.ofNat_lt.mpr hslots) hunhidden⟩

/-- The primary asks `c` for the model `m`, which it does not offer, and lists `b` after it, which
asks it for the model `n`. The walk skips `c`, and when it comes back to it from `b`, with two
attempts used up of five, passes it over. -/
theorem tryWithFallbacks_loses_fallback : ∃ (primary : Provider) (providers : List Provider)
    (r : WalkResult), Acyclic providers ∧ Known providers primary
      ∧ (outage providers primary).tryWithFallbacks 6 [] primary
        (outage providers primary).start = some r
      ∧ r.ok = false ∧ r.st.attemptCount < 5
      ∧ ∃ t ∈ (outage providers primary).turns 6 [] primary (outage providers primary).start,
        t.takesSlot (outage providers primary) = true
        ∧ ∃ ref ∈ t.provider.fallback, ∃ q ∈ providers,
          q.name = ref.name
          ∧ (outage providers primary).suits q (ref.mapModel (t.model (outage providers primary)))
            = true
          ∧ ∀ t' ∈ (outage providers primary).turns 6 [] primary (outage providers primary).start,
            t'.takesSlot (outage providers primary) = true → t'.provider ≠ q := by
  let primary := oneModel "a" "m" [{ name := "c" }, { name := "b" }]
  let providers := [primary, mappingFallback, lostFallback]
  let w := outage providers primary
  have hrun : ((w.tryWithFallbacks 6 [] primary w.start).any fun r ↦
      !r.ok && decide (r.st.attemptCount < 5)) = true := by decide +kernel
  have hlost : ∃ t ∈ w.turns 6 [] primary w.start, t.takesSlot w = true
      ∧ ∃ ref ∈ t.provider.fallback, ref.name = "c"
        ∧ w.suits lostFallback (ref.mapModel (t.model w)) = true := by decide +kernel
  have hnever : ∀ t' ∈ w.turns 6 [] primary w.start, t'.takesSlot w = true →
      t'.provider.name ≠ "c" := by
    decide +kernel
  obtain ⟨r, hr, hrun⟩ := (Option.any_eq_true _ _).mp hrun
  obtain ⟨hok, hslots⟩ := Bool.and_eq_true_iff.mp hrun
  obtain ⟨t, ht, htakes, ref, href, hname, hsuits⟩ := hlost
  refine ⟨primary, providers, r, ?_, rfl, hr, Bool.not_eq_true' _ |>.mp hok,
    of_decide_eq_true hslots, t,
    ht, htakes, ref, href, lostFallback, by simp [providers], hname.symm, hsuits,
    fun t' ht' htakes' heq ↦ hnever t' ht' htakes' (congrArg (fun p ↦ p.name) heq)⟩
  refine ⟨fun name ↦ if name = "a" then 2 else if name = "b" then 1 else 0, ?_⟩
  decide +kernel

end Walk

end Kaalm.Gateway.Fallback
