import Kaalm.Gateway.Fallback
import Kaalm.Gateway.RequestMeaning

/-!
# What the fallback walk attempts

`visit_cases` says what a visit can do, and `Rule` is the induction over the walk: what the visits
keep holds at the end. The walk ends because each level of it uses up an attempt
(`exists_tryWithFallbacks`). Every attempt it makes is on a provider that it has not visited before,
under its own checks, for the model that the edges of the path lead to (`Eligible`).
-/

namespace Kaalm.Gateway.Fallback

open JsonText GoJson

/-- The model at the end of a path. -/
def pathModel (model : String) (path : List FallbackRef) : String :=
  path.foldl (fun m ref ↦ ref.mapModel m) model

theorem FallbackRef.eq_empty_of_mapModel {ref : FallbackRef} {m : String}
    (h : ref.mapModel m = "") :
    m = "" := by
  rw [mapModel] at h
  split at h
  · split_ifs at h with hmapped
    · exact absurd h hmapped
    · exact h
  · exact h

theorem eq_empty_of_pathModel {model : String} (path : List FallbackRef)
    (h : pathModel model path = "") : model = "" := by
  induction path generalizing model with
  | nil => exact h
  | cons ref path ih => exact ref.eq_empty_of_mapModel (ih h)

theorem pathModel_append (model : String) (path : List FallbackRef) (ref : FallbackRef) :
    pathModel model (path ++ [ref]) = ref.mapModel (pathModel model path) := by
  rw [pathModel, List.foldl_append]
  rfl

def Event.attempt? : Event → Option Attempt
  | .attempt a => some a
  | _ => none

/-- The attempts of a trace, in order. -/
def attempts (t : Trace) : List Attempt := t.filterMap Event.attempt?

theorem attempts_append (t t' : Trace) : attempts (t ++ t') = attempts t ++ attempts t' :=
  List.filterMap_append

/-- Neither an attempt nor an admission. -/
def Event.isPlain : Event → Bool
  | .attempt _ | .admitted _ _ _ => false
  | _ => true

theorem attempts_eq_nil {t : Trace} (ht : ∀ e ∈ t, e.isPlain) : attempts t = [] := by
  refine List.filterMap_eq_nil_iff.mpr fun e he ↦ ?_
  have hplain := ht e he
  cases e with
  | attempt a => cases hplain
  | admitted provider admission settle => cases hplain
  | skip provider reason => rfl
  | answer provider outcome => rfl
  | credentialsInvalid provider => rfl
  | settle id cost => rfl
  | add provider cost => rfl
  | walked => rfl

theorem mem_of_isPlain {t t' : Trace} (ht : ∀ e ∈ t', e.isPlain) {name : String}
    {admission : Admission} {settle : Option SettleId}
    (h : .admitted name admission settle ∈ t ++ t') : .admitted name admission settle ∈ t := by
  rcases List.mem_append.mp h with h | h
  · exact h
  · exact nomatch ht _ h

namespace Walk

variable {w : Walk} {path : List FallbackRef} {p : Provider} {st st' : WalkState}
  {settle : Option SettleId} {res : ForwardResult} {r : WalkResult}

/-! ## What a visit can do -/

/-- The state in which a provider is visited for the first time. -/
def reach (st : WalkState) (p : Provider) (translated : GoMap String Document) : WalkState :=
  { st with visited := insert p.name st.visited, translated := translated }

/-- The state in which a provider has used up an attempt. -/
def takeSlot (st : WalkState) : WalkState := { st with attemptCount := st.attemptCount + 1 }

theorem staticallyIneligible_cases (st : WalkState) (p : Provider) :
    ∃ translated reason, w.staticallyIneligible st p = ({ st with translated }, reason)
      ∧ (reason = none → w.configIneligible st p = none) := by
  rw [staticallyIneligible]
  cases hconfig : w.configIneligible st p with
  | some reason => exact ⟨st.translated, some reason, rfl, nofun⟩
  | none =>
    simp only
    split_ifs with hcross
    · cases w.world.translate p (w.candidateModel st p) with
      | error reason => exact ⟨st.translated, _, rfl, fun _ ↦ trivial⟩
      | ok d => exact ⟨_, none, rfl, fun _ ↦ trivial⟩
    · exact ⟨st.translated, none, rfl, fun _ ↦ trivial⟩

/-- The state after an attempt. -/
def attempted (st : WalkState) (a : Attempt) (outcome : Upstream) (observed : Finset FailClass) :
    WalkState :=
  { (st.log (.attempt a)).log (.answer a.provider.name outcome) with observed }

/-- The attempt that a visit makes. -/
def attemptOf (w : Walk) (path : List FallbackRef) (p : Provider) (st : WalkState) : Attempt :=
  ⟨p, (w.candidateRequest st p).2, (w.candidateRequest st p).1, path⟩

theorem attempt_eq (path : List FallbackRef) (p : Provider) (st : WalkState) :
    ∃ outcome observed, w.attempt path p st
      = (attempted st (w.attemptOf path p st) outcome observed,
        forwardOnce p (w.candidateRequest st p).2 outcome) := by
  rw [attempt]
  simp only
  split_ifs
  · exact ⟨_, _, rfl⟩
  · exact ⟨_, st.observed, rfl⟩

/-- What a refused admission changes. -/
theorem refuse_fst (st : WalkState) (d : BudgetDecision) : ∃ observed blocked retryAfter,
    (refuse st d).1
      = { st with observed, budgetBlocked := blocked, maxRetryAfter := retryAfter } := by
  rw [refuse]
  by_cases hunavailable : d.unavailable
  · rw [if_pos hunavailable]
    exact ⟨_, _, _, rfl⟩
  rw [if_neg hunavailable]
  by_cases hthrottled : d.throttled
  · rw [if_pos hthrottled]
    exact ⟨_, _, _, rfl⟩
  · rw [if_neg hthrottled]
    exact ⟨_, _, _, rfl⟩

/-- A provider that has used up an attempt in `st` is admitted in `st'`, with this callback. -/
inductive Admits (w : Walk) (p : Provider) (st : WalkState) : WalkState → Option SettleId → Prop
  | primary (h : p.name = w.primary.name) : Admits w p st st w.primarySettle
  | candidate (h : p.name ≠ w.primary.name) (a : Admission) (ha : a.decision.refused = false) :
    Admits w p st (admitCandidate st p a) (callback st a)

/-- A first visit that gets to the budget. -/
structure Eligibly (w : Walk) (p : Provider) (st : WalkState) : Prop where
  fresh : p.name ∉ st.visited
  config : w.configIneligible st p = none
  depth : (st.attemptCount : ℤ) < w.maxDepth

/-- What a visit can do. -/
inductive Visits (w : Walk) (path : List FallbackRef) (p : Provider) (st : WalkState) : Visit → Prop
  | seen (hvisited : p.name ∈ st.visited) : Visits w path p st (.done { st })
  | skipped (fresh : p.name ∉ st.visited) (translated : GoMap String Document)
      (reason : Ineligible) :
    Visits w path p st (.done { st := (reach st p translated).log (.skip p.name reason) })
  | spent (fresh : p.name ∉ st.visited) (translated : GoMap String Document) :
    Visits w path p st (.done { st := reach st p translated })
  | refused (heligible : Eligibly w p st) (translated : GoMap String Document)
    (hname : p.name ≠ w.primary.name) (a : Admission) (ha : a.decision.refused = true)
    (observed : Finset FailClass) (blocked : Bool) (retryAfter : ℤ) (failClass : FailClass) :
    Visits w path p st (.descend
      { admitCandidate (takeSlot (reach st p translated)) p a with
        observed, budgetBlocked := blocked, maxRetryAfter := retryAfter } { failClass })
  | final (heligible : Eligibly w p st) (translated : GoMap String Document) {st₁ st₂ : WalkState}
    {settle : Option SettleId} (hadmits : Admits w p (takeSlot (reach st p translated)) st₁ settle)
    (outcome : Upstream) (observed : Finset FailClass)
    (hst₂ : st₂ = attempted st₁ (w.attemptOf path p st₁) outcome observed) {res : ForwardResult}
    (hres : res = forwardOnce p (w.candidateRequest st₁ p).2 outcome)
    (hfinal : w.isFinal st₂ res = true) :
    Visits w path p st (.done { st := st₂, res := { res with settle }, ok := true })
  | failed (heligible : Eligibly w p st) (translated : GoMap String Document) {st₁ st₂ : WalkState}
    {settle : Option SettleId} (hadmits : Admits w p (takeSlot (reach st p translated)) st₁ settle)
    (outcome : Upstream) (observed : Finset FailClass)
    (hst₂ : st₂ = attempted st₁ (w.attemptOf path p st₁) outcome observed) {res : ForwardResult}
    (hres : res = forwardOnce p (w.candidateRequest st₁ p).2 outcome)
    (hfinal : w.isFinal st₂ res = false) :
    Visits w path p st (.descend (recordCredentialFailure (settleZero st₂ settle) p res) res)

theorem visits_admitted (heligible : Eligibly w p st) {translated : GoMap String Document}
    {st₁ : WalkState} (hadmits : Admits w p (takeSlot (reach st p translated)) st₁ settle) :
    Visits w path p st (w.visitAdmitted path p st₁ settle) := by
  obtain ⟨outcome, observed, hattempt⟩ := w.attempt_eq path p st₁
  rw [visitAdmitted, hattempt]
  simp only
  split_ifs with hfinal
  · exact .final heligible translated hadmits outcome observed rfl rfl hfinal
  · exact .failed heligible translated hadmits outcome observed rfl rfl (eq_false_of_ne_true hfinal)

theorem visits_eligible (heligible : Eligibly w p st) (translated : GoMap String Document) :
    Visits w path p st (w.visitEligible path p (takeSlot (reach st p translated))) := by
  rw [visitEligible]
  by_cases hprimary : p.name = w.primary.name
  · rw [if_pos hprimary]
    exact visits_admitted heligible (.primary hprimary)
  rw [if_neg hprimary]
  simp only
  cases hrefused : (w.world.admits (takeSlot (reach st p translated)).trace p).decision.refused with
  | true =>
    obtain ⟨observed, blocked, retryAfter, hrefuse⟩ := refuse_fst (admitCandidate
      (takeSlot (reach st p translated)) p _) (w.world.admits
        (takeSlot (reach st p translated)).trace p).decision
    rw [if_pos rfl, hrefuse]
    exact .refused heligible translated hprimary _ hrefused observed blocked retryAfter _
  | false =>
    rw [if_neg Bool.false_ne_true]
    exact visits_admitted heligible (.candidate hprimary _ hrefused)

theorem visits (path : List FallbackRef) (p : Provider) (st : WalkState) :
    Visits w path p st (w.visit path p st) := by
  rw [visit]
  split_ifs with hvisited
  · exact .seen hvisited
  obtain ⟨translated, reason, hstatic, hconfig⟩ :=
    w.staticallyIneligible_cases { st with visited := insert p.name st.visited } p
  rw [hstatic]
  cases reason with
  | some reason => exact .skipped hvisited translated reason
  | none =>
    simp only
    split_ifs with hdepth
    · exact .spent hvisited translated
    · exact visits_eligible ⟨hvisited, hconfig rfl, not_le.mp hdepth⟩ translated

theorem visits_of_eq {v : Visit} (h : w.visit path p st = v) : Visits w path p st v := by
  rw [← h]
  exact w.visits path p st

/-! ## The induction -/

/-- What has to be shown of the visits. `I` holds between them, `Pre` when one starts, and `Post`
when the walk below it ends. -/
structure Rule (w : Walk) (I : WalkState → Prop)
    (Pre : List FallbackRef → Provider → WalkState → Prop)
    (Post : List FallbackRef → WalkResult → Prop) : Prop where
  done : ∀ {path p st r}, Pre path p st → w.visit path p st = .done r → Post path r
  descend : ∀ {path p st st' res}, Pre path p st → w.visit path p st = .descend st' res → I st'
  child : ∀ {path p st st' res}, Pre path p st → w.visit path p st = .descend st' res →
    ∀ {ref q st₁}, ref ∈ p.fallback → I st₁ → w.providerByName st₁.trace ref.name = some q →
      Pre (path ++ [ref]) q (enter st₁ q (ref.mapModel (w.candidateModel st' p)))
  missing : ∀ {st name}, I st → I (st.log (.skip name .missing))
  exhausted : ∀ {st res} path, I st → Post path { st, res }
  back : ∀ {path ref r}, Post (path ++ [ref]) r → r.ok = false → I r.st
  up : ∀ {path ref r}, Post (path ++ [ref]) r → r.ok = true → Post path r

variable {I : WalkState → Prop} {Pre : List FallbackRef → Provider → WalkState → Prop}
  {Post : List FallbackRef → WalkResult → Prop}
  {next : List FallbackRef → Provider → WalkState → Option WalkResult} {model : String}

/-- The loop over fallbacks, if the walk below each of them keeps the rule. -/
theorem Rule.walkRefs (rule : w.Rule I Pre Post)
    (hnext : ∀ {path p st r}, Pre path p st → next path p st = some r → Post path r)
    (refs : List FallbackRef) (hI : I st)
    (hchild : ∀ {ref q st₁}, ref ∈ refs → I st₁ → w.providerByName st₁.trace ref.name = some q →
      Pre (path ++ [ref]) q (enter st₁ q (ref.mapModel model)))
    (h : w.walkRefs next path model refs st = some r) :
    (r.ok = true ∧ Post path r) ∨ (r.ok = false ∧ I r.st) := by
  induction refs generalizing st with
  | nil =>
    obtain rfl := Option.some.inj h
    exact Or.inr ⟨rfl, hI⟩
  | cons ref refs ih =>
    have hrest : ∀ {st₁}, I st₁ → w.walkRefs next path model refs st₁ = some r → _ :=
      fun hI h ↦ ih hI (fun href ↦ hchild (List.mem_cons_of_mem _ href)) h
    rw [Walk.walkRefs] at h
    cases hq : w.providerByName st.trace ref.name with
    | none =>
      rw [hq] at h
      exact hrest (rule.missing hI) h
    | some q =>
      rw [hq] at h
      simp only at h
      cases hr : next (path ++ [ref]) q (enter st q (ref.mapModel model)) with
      | none =>
        rw [hr] at h
        cases h
      | some r₁ =>
        have hpost := hnext (hchild List.mem_cons_self hI hq) hr
        rw [hr] at h
        simp only at h
        split_ifs at h with hok
        · obtain rfl := Option.some.inj h
          exact Or.inl ⟨hok, rule.up hpost hok⟩
        · exact hrest (rule.back hpost (eq_false_of_ne_true hok)) h

/-- What the visits keep holds when the walk ends. -/
theorem Rule.tryWithFallbacks (rule : w.Rule I Pre Post) {fuel : ℕ} (hpre : Pre path p st)
    (h : w.tryWithFallbacks fuel path p st = some r) : Post path r := by
  induction fuel generalizing path p st r with
  | zero => cases h
  | succ fuel ih =>
    rw [Walk.tryWithFallbacks] at h
    cases hvisit : w.visit path p st with
    | done r₁ =>
      rw [hvisit] at h
      obtain rfl := Option.some.inj h
      exact rule.done hpre hvisit
    | descend st' res =>
      rw [hvisit] at h
      obtain ⟨r₁, hr₁, hr⟩ := Option.map_eq_some_iff.mp h
      have hwalk := rule.walkRefs (fun hpre h ↦ ih hpre h) p.fallback (rule.descend hpre hvisit)
        (fun href hI hq ↦ rule.child hpre hvisit href hI hq) hr₁
      rcases hwalk with ⟨hok, hpost⟩ | ⟨hok, hI⟩
      · rw [if_pos hok] at hr
        rwa [← hr]
      · rw [if_neg (by rw [hok]; exact Bool.false_ne_true)] at hr
        rw [← hr, hok]
        exact rule.exhausted path hI

/-! ## The walk ends -/

/-- More fuel does not change a result. -/
theorem walkRefs_mono {next' : List FallbackRef → Provider → WalkState → Option WalkResult}
    (hnext : ∀ {path p st r}, next path p st = some r → next' path p st = some r)
    (refs : List FallbackRef) (h : w.walkRefs next path model refs st = some r) :
    w.walkRefs next' path model refs st = some r := by
  induction refs generalizing st with
  | nil => exact h
  | cons ref refs ih =>
    rw [Walk.walkRefs] at h ⊢
    cases hq : w.providerByName st.trace ref.name with
    | none =>
      rw [hq] at h
      exact ih h
    | some q =>
      rw [hq] at h
      simp only at h ⊢
      cases hr : next (path ++ [ref]) q (enter st q (ref.mapModel model)) with
      | none =>
        rw [hr] at h
        cases h
      | some r₁ =>
        rw [hr] at h
        rw [hnext hr]
        simp only at h ⊢
        split_ifs at h ⊢ with hok
        · exact h
        · exact ih h

theorem tryWithFallbacks_mono {n m : ℕ} (hnm : n ≤ m)
    (h : w.tryWithFallbacks n path p st = some r) : w.tryWithFallbacks m path p st = some r := by
  induction n generalizing m path p st r with
  | zero => cases h
  | succ n ih =>
    obtain ⟨m, rfl⟩ : ∃ k, m = k + 1 := ⟨m - 1, by omega⟩
    rw [tryWithFallbacks] at h ⊢
    cases hvisit : w.visit path p st with
    | done r₁ =>
      rw [hvisit] at h
      exact h
    | descend st' res =>
      rw [hvisit] at h
      obtain ⟨r₁, hr₁, hr⟩ := Option.map_eq_some_iff.mp h
      have hr₁ : w.walkChildren (w.tryWithFallbacks m) path p st' = some r₁ :=
        walkRefs_mono (fun h ↦ ih (Nat.le_of_succ_le_succ hnm) h) p.fallback hr₁
      simp only [hr₁, Option.map_some, hr]

/-! ## The states of a visit -/

/-- What an attempt that the walk gives up leaves in the trace. -/
theorem giveUp_eq (st : WalkState) (p : Provider) (res : ForwardResult) (settle : Option SettleId) :
    ∃ es, (es = [] ∨ es = [.credentialsInvalid p.name])
      ∧ recordCredentialFailure (settleZero st settle) p res
        = { st with trace := st.trace ++ invoke settle 0 ++ es } := by
  rw [settleZero, recordCredentialFailure]
  split_ifs
  · exact ⟨_, Or.inr rfl, rfl⟩
  · refine ⟨[], Or.inl rfl, ?_⟩
    rw [List.append_nil]

theorem Admits.attemptCount {st₁ : WalkState} (h : Admits w p st st₁ settle) :
    st₁.attemptCount = st.attemptCount := by
  cases h with
  | primary h => rfl
  | candidate h a ha => rfl

/-- Below a visit, one attempt less is left. -/
theorem attemptCount_of_descend (hvisit : w.visit path p st = .descend st' res) :
    st'.attemptCount = st.attemptCount + 1 ∧ (st.attemptCount : ℤ) < w.maxDepth := by
  cases visits_of_eq hvisit with
  | refused heligible => exact ⟨rfl, heligible.depth⟩
  | failed heligible translated hadmits outcome observed hst₂ =>
    obtain ⟨es, -, hgiveUp⟩ := giveUp_eq _ p _ _
    rw [hgiveUp, hst₂]
    exact ⟨hadmits.attemptCount, heligible.depth⟩

/-- The attempts that are used up stay so. -/
theorem attemptCount_rule (n : ℕ) : w.Rule (fun st ↦ n ≤ st.attemptCount)
    (fun _ _ st ↦ n ≤ st.attemptCount) (fun _ r ↦ n ≤ r.st.attemptCount) where
  done := by
    intro path p st r hn hvisit
    cases visits_of_eq hvisit with
    | seen => exact hn
    | skipped => exact hn
    | spent => exact hn
    | final heligible translated hadmits outcome observed hst₂ =>
      rw [hst₂]
      exact (Nat.le_succ_of_le hn).trans_eq hadmits.attemptCount.symm
  descend := by
    intro path p st st' res hn hvisit
    rw [(attemptCount_of_descend hvisit).1]
    exact Nat.le_succ_of_le hn
  child := fun _ _ _ _ _ _ hI _ ↦ hI
  missing := fun hI ↦ hI
  exhausted := fun _ hI ↦ hI
  back := fun hpost _ ↦ hpost
  up := fun hpost _ ↦ hpost

/-- Enough fuel for the attempts that are left. -/
theorem walkRefs_isSome {n : ℕ}
    (hnext : ∀ path p st, n ≤ st.attemptCount →
      ∃ r, next path p st = some r ∧ n ≤ r.st.attemptCount)
    (refs : List FallbackRef) (hn : n ≤ st.attemptCount) :
    ∃ r, w.walkRefs next path model refs st = some r := by
  induction refs generalizing st with
  | nil => exact ⟨_, rfl⟩
  | cons ref refs ih =>
    rw [Walk.walkRefs]
    cases hq : w.providerByName st.trace ref.name with
    | none => exact ih hn
    | some q =>
      obtain ⟨r₁, hr₁, hn₁⟩ := hnext (path ++ [ref]) q (enter st q (ref.mapModel model)) hn
      simp only [hr₁]
      split_ifs
      · exact ⟨_, rfl⟩
      · exact ih hn₁

theorem exists_tryWithFallbacks (fuel : ℕ) (h : w.maxDepth.toNat ≤ st.attemptCount + fuel) :
    ∃ r, w.tryWithFallbacks (fuel + 1) path p st = some r := by
  induction fuel generalizing path p st with
  | zero =>
    rw [tryWithFallbacks]
    cases hvisit : w.visit path p st with
    | done r => exact ⟨r, rfl⟩
    | descend st' res =>
      have hdepth := (attemptCount_of_descend hvisit).2
      omega
  | succ fuel ih =>
    rw [tryWithFallbacks]
    cases hvisit : w.visit path p st with
    | done r => exact ⟨r, rfl⟩
    | descend st' res =>
      have hcount := (attemptCount_of_descend hvisit).1
      have hnext : ∀ path p st₁, st'.attemptCount ≤ st₁.attemptCount →
          ∃ r, w.tryWithFallbacks (fuel + 1) path p st₁ = some r
            ∧ st'.attemptCount ≤ r.st.attemptCount := by
        intro path p st₁ hle
        obtain ⟨r, hr⟩ : ∃ r, w.tryWithFallbacks (fuel + 1) path p st₁ = some r := ih (by omega)
        exact ⟨r, hr, (attemptCount_rule st'.attemptCount).tryWithFallbacks hle hr⟩
      obtain ⟨r, hr⟩ : ∃ r, w.walkRefs (w.tryWithFallbacks (fuel + 1)) path
          (w.candidateModel st' p) p.fallback st' = some r :=
        walkRefs_isSome hnext p.fallback (Nat.le_refl _)
      exact ⟨_, congrArg (Option.map _) hr⟩

/-! ## The body of an attempt -/

/-- A rewrite prepares a body. -/
theorem prepared_rewritten {d : Document} {f : RequestFields} {forceUsage : Bool}
    (hscan : scanRequestFields d.text = some (.ok f))
    (hforce : forceUsage = true → f.streamTrue = true) (model : String) :
    ∃ b : Prepared model, b.doc.text = rewritten d f model forceUsage := by
  have hmeaning :
      OneMeaning (String.ofList (Utf8.decode (Utf8.encode model.toList))) f.streamTrue d _ :=
    oneMeaning_rewriteDocument hscan hforce
  rw [Utf8.decode_encode, String.ofList_toList] at hmeaning
  refine ⟨⟨_, exists_scan_rewriteDocument hscan hforce, hmeaning.model_value⟩, ?_⟩
  rw [rewritten, rewriteRequestBody_eq hscan hforce, Option.getD_some]

theorem prepared_sameFormatBody (w : Walk) (model : String) :
    ∃ b : Prepared model, b.doc.text = w.sameFormatBody model := by
  obtain ⟨f, hscan⟩ := w.body.scans
  have hne : w.body.doc.text ≠ [] := by
    intro hnil
    rw [hnil] at hscan
    cases hscan
  rw [sameFormatBody]
  by_cases hmodel : model = w.modelID
  · subst hmodel
    exact ⟨w.body, (if_neg fun h ↦ h.1 rfl).symm⟩
  · rw [if_pos ⟨hmodel, hne⟩, hscan]
    have hforce : false = true → f.streamTrue = true := nofun
    exact prepared_rewritten hscan hforce model

/-- The body that a candidate is forwarded is prepared for the model that it is asked for. -/
theorem prepared_candidateRequest (w : Walk) (st : WalkState) (p : Provider) :
    (w.candidateRequest st p).2 = w.candidateModel st p
      ∧ ∃ b : Prepared (w.candidateModel st p), b.doc.text = (w.candidateRequest st p).1 := by
  have hsame := w.prepared_sameFormatBody (w.candidateModel st p)
  rw [candidateRequest]
  split_ifs with hcross
  · cases st.translated.lookup p.name with
    | none => exact ⟨rfl, hsame⟩
    | some d =>
      simp only
      split
      · next f hscan =>
        refine ⟨rfl, prepared_rewritten hscan (fun hforce ↦ ?_) _⟩
        exact (Bool.and_eq_true_iff.mp hforce).2
      · exact ⟨rfl, hsame⟩
  · exact ⟨rfl, hsame⟩

/-! ## Attempts are eligible -/

/-- The providers that a path of edges leads to from the primary. -/
inductive Leads (w : Walk) : List FallbackRef → Provider → Prop
  | primary : Leads w [] w.primary
  | edge {path : List FallbackRef} {p q : Provider} {ref : FallbackRef} (h : Leads w path p)
    (href : ref ∈ p.fallback) (t : Trace) (hq : w.providerByName t ref.name = some q) :
    Leads w (path ++ [ref]) q

/-- What is true of an attempt in a trace. -/
structure Eligible (w : Walk) (t : Trace) (a : Attempt) : Prop where
  leads : Leads w a.path a.provider
  model : a.model = pathModel w.modelID a.path
  offered : a.provider.offers a.model = true
  /-- The body that is sent asks for this very model. -/
  forwards : ∃ d : Document, d.text = a.body ∧ NamesModel d a.model
  allowed : namespaceGlobAllowed w.ns a.provider.allowedNamespaces = true
  compatible : fallbackFormatCompatible w.primary.type a.provider.type = true
  crossable : fallbackCrossesFormat w.primary.type a.provider.type = true → w.inboundFormat.isSome
  admitted : ∃ admission settle, .admitted a.provider.name admission settle ∈ t
  passed : ∀ admission settle, .admitted a.provider.name admission settle ∈ t →
    admission.decision.refused = false

/-- What the walk keeps. -/
structure Bounded (w : Walk) (st : WalkState) : Prop where
  slots : st.attemptCount ≤ w.maxDepth.toNat
  count : (attempts st.trace).length ≤ st.attemptCount
  nodup : ((attempts st.trace).map fun a ↦ a.provider.name).Nodup
  visited : ∀ a ∈ attempts st.trace, a.provider.name ∈ st.visited
  eligible : ∀ a ∈ attempts st.trace, Eligible w st.trace a
  started : .admitted w.primary.name w.admission w.primarySettle ∈ st.trace
  /-- Who has been admitted has been visited, or is the primary. -/
  admits : ∀ name admission settle, .admitted name admission settle ∈ st.trace →
    name ∈ st.visited ∨ name = w.primary.name ∧ admission = w.admission

/-- A provider has used up an attempt and has been admitted. -/
structure Ready (w : Walk) (p : Provider) (st : WalkState) : Prop extends Bounded w st where
  here : p.name ∈ st.visited
  fresh : ∀ a ∈ attempts st.trace, a.provider.name ≠ p.name
  room : (attempts st.trace).length < st.attemptCount
  admitted : ∃ admission settle, .admitted p.name admission settle ∈ st.trace
  passed : ∀ admission settle, .admitted p.name admission settle ∈ st.trace →
    admission.decision.refused = false

/-- An attempt stays eligible as long as its provider is not admitted again. -/
theorem Eligible.append {t t' : Trace} {a : Attempt} (h : Eligible w t a)
    (ht : ∀ admission settle, .admitted a.provider.name admission settle ∉ t') :
    Eligible w (t ++ t') a := by
  refine { h with admitted := ?_, passed := ?_ }
  · obtain ⟨admission, settle, hmem⟩ := h.admitted
    exact ⟨admission, settle, List.mem_append_left _ hmem⟩
  · intro admission settle hmem
    rcases List.mem_append.mp hmem with hmem | hmem
    · exact h.passed admission settle hmem
    · exact absurd hmem (ht admission settle)

theorem Bounded.plain (h : Bounded w st) {t : Trace} (ht : ∀ e ∈ t, e.isPlain)
    (htrace : st'.trace = st.trace ++ t) (hcount : st'.attemptCount = st.attemptCount)
    (hvisited : st.visited ⊆ st'.visited) : Bounded w st' := by
  have hattempts : attempts st'.trace = attempts st.trace := by
    rw [htrace, attempts_append, attempts_eq_nil ht, List.append_nil]
  constructor
  · rw [hcount]
    exact h.slots
  · rw [hattempts, hcount]
    exact h.count
  · rw [hattempts]
    exact h.nodup
  · rw [hattempts]
    exact fun a ha ↦ hvisited (h.visited a ha)
  · rw [hattempts, htrace]
    exact fun a ha ↦ (h.eligible a ha).append fun admission settle hmem ↦ nomatch ht _ hmem
  · rw [htrace]
    exact List.mem_append_left _ h.started
  · rw [htrace]
    intro name admission settle hmem
    exact (h.admits name admission settle (mem_of_isPlain ht hmem)).imp_left (hvisited ·)

/-- A first visit: the provider is in no trace so far, except the primary with its admission. -/
theorem Bounded.reach (h : Bounded w st) (translated : GoMap String Document) :
    Bounded w (reach st p translated) := by
  have htrace : (Walk.reach st p translated).trace = st.trace ++ [] :=
    (List.append_nil st.trace).symm
  have hplain : ∀ e ∈ ([] : Trace), e.isPlain := fun e he ↦ absurd he List.not_mem_nil
  exact h.plain hplain htrace rfl (Finset.subset_insert p.name st.visited)

theorem Bounded.takeSlot (h : Bounded w st) (hdepth : (st.attemptCount : ℤ) < w.maxDepth) :
    Bounded w (takeSlot st) where
  slots := by
    show st.attemptCount + 1 ≤ _
    omega
  count := Nat.le_succ_of_le h.count
  nodup := h.nodup
  visited := h.visited
  eligible := h.eligible
  started := h.started
  admits := h.admits

/-- The primary of a walk is ready: it was admitted before. -/
theorem Bounded.ready_primary (h : Bounded w st) (heligible : Eligibly w p st)
    (hname : p.name = w.primary.name) (translated : GoMap String Document) :
    Ready w p (Walk.takeSlot (Walk.reach st p translated)) where
  toBounded := (h.reach translated).takeSlot heligible.depth
  here := Finset.mem_insert_self _ _
  fresh := fun a ha heq ↦ heligible.fresh (heq ▸ h.visited a ha)
  room := Nat.lt_succ_of_le h.count
  admitted := ⟨w.admission, w.primarySettle, hname ▸ h.started⟩
  passed := by
    intro admission settle hmem
    rcases h.admits _ _ _ hmem with hvisited | ⟨-, rfl⟩
    · exact absurd hvisited heligible.fresh
    · exact w.admitted

/-- An admission on a first visit, whatever the ledger says. -/
theorem Bounded.admitCandidate (h : Bounded w st) (heligible : Eligibly w p st)
    (translated : GoMap String Document) (a : Admission) :
    Bounded w (Walk.admitCandidate (Walk.takeSlot (Walk.reach st p translated)) p a) := by
  have hslot := (h.reach (p := p) translated).takeSlot heligible.depth
  have hattempts :
      ∀ settle, attempts (st.trace ++ [.admitted p.name a settle]) = attempts st.trace := by
    intro settle
    rw [attempts_append]
    exact List.append_nil _
  constructor
  · exact hslot.slots
  · exact (hattempts _).symm ▸ hslot.count
  · exact (hattempts _).symm ▸ hslot.nodup
  · exact (hattempts _).symm ▸ hslot.visited
  · intro b hb
    have hb : b ∈ attempts st.trace := hattempts _ ▸ hb
    refine (h.eligible b hb).append fun admission settle hmem ↦ ?_
    have hname := (Event.admitted.inj (List.mem_singleton.mp hmem)).1
    exact heligible.fresh (hname ▸ h.visited b hb)
  · exact List.mem_append_left _ h.started
  · intro name admission settle hmem
    rcases List.mem_append.mp hmem with hmem | hmem
    · exact (h.admits name admission settle hmem).imp_left (Finset.mem_insert_of_mem ·)
    · rw [(Event.admitted.inj (List.mem_singleton.mp hmem)).1]
      exact Or.inl (Finset.mem_insert_self _ _)

theorem Bounded.ready_candidate (h : Bounded w st) (heligible : Eligibly w p st)
    (hname : p.name ≠ w.primary.name) (translated : GoMap String Document) {a : Admission}
    (ha : a.decision.refused = false) :
    Ready w p (Walk.admitCandidate (Walk.takeSlot (Walk.reach st p translated)) p a) where
  toBounded := h.admitCandidate heligible translated a
  here := Finset.mem_insert_self _ _
  fresh := by
    intro b hb heq
    have hb : b ∈ attempts (st.trace ++ [_]) := hb
    rw [attempts_append, List.mem_append] at hb
    rcases hb with hb | hb
    · exact heligible.fresh (heq ▸ h.visited b hb)
    · cases hb
  room := by
    show (attempts (st.trace ++ [_])).length < st.attemptCount + 1
    rw [attempts_append, List.length_append]
    exact Nat.lt_succ_of_le h.count
  admitted := ⟨a, _, List.mem_append_right _ (List.mem_singleton_self _)⟩
  passed := by
    intro admission settle hmem
    rcases List.mem_append.mp hmem with hmem | hmem
    · rcases h.admits _ _ _ hmem with hvisited | ⟨hprimary, -⟩
      · exact absurd hvisited heligible.fresh
      · exact absurd hprimary hname
    · rw [(Event.admitted.inj (List.mem_singleton.mp hmem)).2.1]
      exact ha

theorem Bounded.ready (h : Bounded w st) (heligible : Eligibly w p st)
    {translated : GoMap String Document} {st₁ : WalkState}
    (hadmits : Admits w p (Walk.takeSlot (Walk.reach st p translated)) st₁ settle) :
    Ready w p st₁ := by
  cases hadmits with
  | primary hname => exact h.ready_primary heligible hname translated
  | candidate hname a ha => exact h.ready_candidate heligible hname translated ha

/-- What the checks that use up no attempt leave. -/
theorem configIneligible_eq_none (h : w.configIneligible st p = none) :
    (p.name ≠ w.primary.name → fallbackFormatCompatible w.primary.type p.type = true
        ∧ (fallbackCrossesFormat w.primary.type p.type = true → w.inboundFormat.isSome))
      ∧ namespaceGlobAllowed w.ns p.allowedNamespaces = true
        ∧ p.offers (w.candidateModel st p) = true := by
  rw [configIneligible] at h
  split_ifs at h with htype hcross hns hmodel
  refine ⟨fun hname ↦ ⟨?_, fun hcrosses ↦ ?_⟩, by simpa using hns, by simpa using hmodel⟩
  · simpa [hname] using htype
  · exact Option.isSome_iff_ne_none.mpr fun hnone ↦ hcross ⟨hname, hcrosses, hnone⟩

/-- An attempt on a provider that is ready. -/
theorem Ready.attempted (h : Ready w p st) {a : Attempt} (hp : a.provider = p)
    (heligible : Eligible w st.trace a) (outcome : Upstream) (observed : Finset FailClass) :
    Bounded w (attempted st a outcome observed) := by
  have htrace : (Walk.attempted st a outcome observed).trace
      = st.trace ++ [.attempt a, .answer a.provider.name outcome] := List.append_assoc _ _ _
  have hattempts : attempts (Walk.attempted st a outcome observed).trace
      = attempts st.trace ++ [a] := by
    rw [htrace, attempts_append]
    rfl
  have hadmitted : ∀ name admission settle,
      Event.admitted name admission settle ∉ [.attempt a, .answer a.provider.name outcome] := by
    intro name admission settle hmem
    simp at hmem
  constructor
  · exact h.slots
  · rw [hattempts, List.length_append]
    exact h.room
  · rw [hattempts, List.map_append, List.nodup_append]
    refine ⟨h.nodup, List.nodup_singleton _, fun name hname name' hname' ↦ ?_⟩
    obtain ⟨b, hb, rfl⟩ := List.mem_map.mp hname
    have hname' : name' = p.name := (List.mem_singleton.mp hname').trans (congrArg (·.name) hp)
    rw [hname']
    exact h.fresh b hb
  · rw [hattempts]
    intro b hb
    rcases List.mem_append.mp hb with hb | hb
    · exact h.visited b hb
    · rw [List.mem_singleton.mp hb, hp]
      exact h.here
  · rw [hattempts, htrace]
    intro b hb
    rcases List.mem_append.mp hb with hb | hb
    · exact (h.eligible b hb).append (hadmitted _)
    · rw [List.mem_singleton.mp hb]
      exact heligible.append (hadmitted _)
  · rw [htrace]
    exact List.mem_append_left _ h.started
  · rw [htrace]
    intro name admission settle hmem
    rcases List.mem_append.mp hmem with hmem | hmem
    · exact h.admits name admission settle hmem
    · exact absurd hmem (hadmitted _ _ _)

/-- What a visit starts with. -/
structure Reached (w : Walk) (path : List FallbackRef) (p : Provider) (st : WalkState) : Prop where
  bounded : Bounded w st
  leads : Leads w path p
  model : w.candidateModel st p = pathModel w.modelID path
  primary : p = w.primary ∨ w.primary.name ∈ st.visited

theorem Admits.modelFor {st₁ : WalkState} (h : Admits w p st st₁ settle) :
    st₁.modelFor = st.modelFor := by
  cases h with
  | primary h => rfl
  | candidate h a ha => rfl

/-- The attempt of a visit is eligible. -/
theorem Reached.attempted (h : Reached w path p st) (heligible : Eligibly w p st)
    {translated : GoMap String Document} {st₁ : WalkState}
    (hadmits : Admits w p (Walk.takeSlot (Walk.reach st p translated)) st₁ settle)
    (outcome : Upstream) (observed : Finset FailClass) :
    Bounded w (Walk.attempted st₁ (w.attemptOf path p st₁) outcome observed) := by
  have hready := h.bounded.ready heligible hadmits
  obtain ⟨hmodel, b, hbody⟩ := w.prepared_candidateRequest st₁ p
  have hnames : NamesModel b.doc (w.candidateRequest st₁ p).2 := hmodel.symm ▸ b.names
  have hmodel : (w.candidateRequest st₁ p).2 = w.candidateModel st p := by
    rw [hmodel, candidateModel, hadmits.modelFor]
    rfl
  obtain ⟨hformat, hallowed, hoffered⟩ := configIneligible_eq_none heligible.config
  refine hready.attempted rfl ?_ outcome observed
  have hformat : fallbackFormatCompatible w.primary.type p.type = true
      ∧ (fallbackCrossesFormat w.primary.type p.type = true → w.inboundFormat.isSome) := by
    rcases h.primary with rfl | hvisited
    · exact ⟨by simp [fallbackFormatCompatible],
        fun hcross ↦ by simp [fallbackCrossesFormat] at hcross⟩
    · exact hformat fun hname ↦ heligible.fresh (hname ▸ hvisited)
  have hoffered : p.offers (w.candidateRequest st₁ p).2 = true := hmodel.symm ▸ hoffered
  exact
    { leads := h.leads
      model := hmodel.trans h.model
      offered := hoffered
      forwards := ⟨b.doc, hbody, hnames⟩
      allowed := hallowed
      compatible := hformat.1
      crossable := hformat.2
      admitted := hready.admitted
      passed := hready.passed }

theorem Bounded.giveUp (h : Bounded w st) (p : Provider) (res : ForwardResult)
    (settle : Option SettleId) :
      Bounded w (recordCredentialFailure (settleZero st settle) p res) := by
  obtain ⟨es, hes, hgiveUp⟩ := giveUp_eq st p res settle
  rw [hgiveUp]
  refine h.plain (t := invoke settle 0 ++ es) (fun e he ↦ ?_) (List.append_assoc _ _ _) rfl
    (Finset.Subset.refl _)
  rcases List.mem_append.mp he with he | he
  · obtain ⟨id, -, rfl⟩ := List.mem_map.mp he
    rfl
  · rcases hes with rfl | rfl
    · cases he
    · rw [List.mem_singleton.mp he]
      rfl

theorem modelFor_of_descend (hvisit : w.visit path p st = .descend st' res) :
    st'.modelFor = st.modelFor := by
  cases visits_of_eq hvisit with
  | refused => rfl
  | failed heligible translated hadmits outcome observed hst₂ =>
    obtain ⟨es, -, hgiveUp⟩ := giveUp_eq _ p _ _
    rw [hgiveUp, hst₂]
    exact hadmits.modelFor

theorem Admits.visited {st₁ : WalkState} (h : Admits w p st st₁ settle) :
    st₁.visited = st.visited := by
  cases h with
  | primary h => rfl
  | candidate h a ha => rfl

/-- A visit marks its provider. -/
theorem visited_of_visit {v : Visit} (hvisit : w.visit path p st = v) :
    match v with
    | .done r => r.st.visited = insert p.name st.visited
    | .descend st' _ => st'.visited = insert p.name st.visited := by
  cases visits_of_eq hvisit with
  | seen hvisited => exact (Finset.insert_eq_of_mem hvisited).symm
  | skipped => rfl
  | spent => rfl
  | refused => rfl
  | final heligible translated hadmits outcome observed hst₂ =>
    simp only [hst₂]
    exact hadmits.visited
  | failed heligible translated hadmits outcome observed hst₂ =>
    obtain ⟨es, -, hgiveUp⟩ := giveUp_eq _ p _ _
    show (recordCredentialFailure _ p _).visited = _
    rw [hgiveUp, hst₂]
    exact hadmits.visited

/-- The model of the provider at the end of an edge. -/
theorem candidateModel_enter (st : WalkState) (q : Provider) (ref : FallbackRef)
    (path : List FallbackRef) :
    w.candidateModel (enter st q (ref.mapModel (pathModel w.modelID path))) q
      = pathModel w.modelID (path ++ [ref]) := by
  rw [pathModel_append, candidateModel, enter]
  simp only [AList.lookup_insert]
  split_ifs with hne
  · rfl
  · -- An empty model stands for the one that the walk began with, which is then empty too.
    have hempty : ref.mapModel (pathModel w.modelID path) = "" := Classical.not_not.mp hne
    rw [hempty]
    exact eq_empty_of_pathModel path (ref.eq_empty_of_mapModel hempty)

/-- A change that concerns neither the trace, the attempts nor the visits. -/
theorem Bounded.congr (h : Bounded w st) (htrace : st'.trace = st.trace)
    (hcount : st'.attemptCount = st.attemptCount) (hvisited : st'.visited = st.visited) :
    Bounded w st' := by
  refine h.plain (t := []) (fun e he ↦ absurd he List.not_mem_nil) ?_ hcount hvisited.symm.subset
  rw [htrace, List.append_nil]

/-- What holds between two visits. -/
def Between (w : Walk) (st : WalkState) : Prop := Bounded w st ∧ w.primary.name ∈ st.visited

theorem Reached.mem_visited (h : Reached w path p st) :
    w.primary.name ∈ insert p.name st.visited := by
  rcases h.primary with rfl | hvisited
  · exact Finset.mem_insert_self _ _
  · exact Finset.mem_insert_of_mem hvisited

theorem Bounded.skip (h : Bounded w st) (name : String) (reason : Ineligible) :
    Bounded w (st.log (.skip name reason)) := by
  have hplain : ∀ e ∈ [Event.skip name reason], e.isPlain := fun e he ↦ by
    rw [List.mem_singleton.mp he]
    rfl
  exact h.plain hplain rfl rfl (Finset.Subset.refl _)

/-- Every visit keeps the bounds. -/
theorem between_rule (w : Walk) :
    w.Rule (Between w) (Reached w) (fun _ r ↦ Between w r.st) where
  done := by
    intro path p st r hreached hvisit
    refine ⟨?_, (visited_of_visit hvisit).symm ▸ hreached.mem_visited⟩
    cases visits_of_eq hvisit with
    | seen => exact hreached.bounded
    | skipped fresh translated reason =>
      exact (hreached.bounded.reach translated).skip p.name reason
    | spent fresh translated => exact hreached.bounded.reach translated
    | final heligible translated hadmits outcome observed hst₂ =>
      simp only [hst₂]
      exact hreached.attempted heligible hadmits outcome observed
  descend := by
    intro path p st st' res hreached hvisit
    refine ⟨?_, (visited_of_visit hvisit).symm ▸ hreached.mem_visited⟩
    cases visits_of_eq hvisit with
    | refused heligible translated hname a =>
      exact (hreached.bounded.admitCandidate heligible translated a).congr rfl rfl rfl
    | failed heligible translated hadmits outcome observed hst₂ =>
      rw [hst₂]
      exact (hreached.attempted heligible hadmits outcome observed).giveUp _ _ _
  child := by
    intro path p st st' res hreached hvisit ref q st₁ href hI hq
    have hmodel : w.candidateModel st' p = pathModel w.modelID path := by
      rw [← hreached.model, candidateModel, candidateModel, modelFor_of_descend hvisit]
    rw [hmodel]
    exact ⟨hI.1.congr rfl rfl rfl, .edge hreached.leads href st₁.trace hq,
      candidateModel_enter st₁ q ref path, Or.inr hI.2⟩
  missing := fun hI ↦ ⟨hI.1.skip _ _, hI.2⟩
  exhausted := fun _ hI ↦ hI
  back := fun hpost _ ↦ hpost
  up := fun hpost _ ↦ hpost

theorem reached_start (w : Walk) : Reached w [] w.primary w.start where
  bounded :=
    { slots := Nat.zero_le _
      count := Nat.le_refl _
      nodup := List.nodup_nil
      visited := fun a ha ↦ absurd ha List.not_mem_nil
      eligible := fun a ha ↦ absurd ha List.not_mem_nil
      started := List.mem_singleton_self _
      admits := fun name admission settle hmem ↦ by
        obtain ⟨hname, hadmission, -⟩ := Event.admitted.inj (List.mem_singleton.mp hmem)
        exact Or.inr ⟨hname, hadmission⟩ }
  leads := .primary
  model := by
    rw [candidateModel, start]
    simp only [AList.lookup_insert]
    split_ifs
    · rfl
    · rfl
  primary := Or.inl rfl

/-- The walk ends, whatever the providers, the ledger and the caller do. It attempts no provider
twice, it uses up at most `maxDepth` attempts, and every attempt is eligible. -/
theorem tryWithFallbacks_bounded (w : Walk) :
    ∃ r, (∀ fuel, w.maxDepth.toNat < fuel → w.tryWithFallbacks fuel [] w.primary w.start = some r)
      ∧ ((attempts r.st.trace).map fun a ↦ a.provider.name).Nodup
      ∧ (attempts r.st.trace).length ≤ r.st.attemptCount ∧ r.st.attemptCount ≤ w.maxDepth.toNat
      ∧ ∀ a ∈ attempts r.st.trace, Eligible w r.st.trace a := by
  obtain ⟨r, hr⟩ : ∃ r, w.tryWithFallbacks (w.maxDepth.toNat + 1) [] w.primary w.start = some r :=
    exists_tryWithFallbacks w.maxDepth.toNat (Nat.le_add_left _ _)
  have hbounded := ((between_rule w).tryWithFallbacks w.reached_start hr).1
  exact ⟨r, fun fuel hfuel ↦ tryWithFallbacks_mono hfuel hr, hbounded.nodup, hbounded.count,
    hbounded.slots, hbounded.eligible⟩

end Walk

end Kaalm.Gateway.Fallback
