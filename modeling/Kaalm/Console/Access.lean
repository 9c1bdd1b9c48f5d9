import Kaalm.Foundation.Calendar
import Kaalm.Foundation.Run
import Kaalm.Foundation.Singleflight
import Kaalm.Foundation.Window

/-!
# Whose access review an answer is from

The console asks the cluster whether a caller may view or chat in a namespace. An answer is cached,
and calls that miss the cache at the same time share one review. The cache is keyed by username,
namespace, verb and resource, and flights by the text of these with NUL bytes in between. The review
is about the groups of the caller as well.

The checker is a `Singleflight.Service`, and time may pass between any two of its steps.

Two callers with one username and different groups share their answers
(`answer_of_other_groups`). And the five minutes of an answer start when it is put into the cache,
which may be later than the review. If all that is going on for a text of a flight, and all reviews
for it of the last five minutes, are of one caller, and no time passes while a call or a flight has
something to do, every answer is from a review of its caller (`answer_reviewed`).
-/

namespace Kaalm.Console

open Singleflight

/-! ## Questions -/

structure Identity where
  username : String
  groups : List String := []
  deriving DecidableEq

/-- `SubjectAccessReviewSpec`, with its resource attributes. -/
structure ReviewSpec where
  user : String
  groups : List String
  ns : String
  verb : String
  group : String
  resource : String
  deriving DecidableEq

/-- The review that `KubeAuthorizer.Allowed` makes. -/
def reviewSpec (id : Identity) (verb group resource ns : String) : ReviewSpec :=
  { user := id.username, groups := id.groups, ns, verb, group, resource }

inductive AccessRequest where
  | canView (ns : String)
  | canViewAll
  | canChat (ns : String)
  deriving DecidableEq

/-- What a call asks the authorizer, if it comes to that. -/
def AccessRequest.spec (id : Identity) : AccessRequest → ReviewSpec
  | canView ns => reviewSpec id "list" "kaalm.io" "agents" ns
  | canViewAll => reviewSpec id "list" "kaalm.io" "agents" ""
  | canChat ns => reviewSpec id "create" "kaalm.io" "agentchannels" ns

/-- `accessKey`. -/
structure AccessKey where
  user : String
  ns : String
  verb : String
  deriving DecidableEq

namespace ReviewSpec

def key (q : ReviewSpec) : AccessKey := ⟨q.user, q.ns, q.verb ++ ":" ++ q.resource⟩

/-- The key of the flight. -/
def flightKey (q : ReviewSpec) : String :=
  q.key.user ++ "\x00" ++ q.key.ns ++ "\x00" ++ q.key.verb

theorem flightKey_congr {q q' : ReviewSpec} (h : q.key = q'.key) : q.flightKey = q'.flightKey := by
  rw [flightKey, h, flightKey]

end ReviewSpec

/-! ## The checker -/

def sarCacheTTL : ℤ := 300 * Calendar.second

structure AccessEntry where
  allowed : Bool
  expires : Time
  deriving DecidableEq

/-- A review that was answered, and when. -/
structure Review where
  spec : ReviewSpec
  allowed : Bool
  completedAt : Time
  deriving DecidableEq

/-- What a call of `CanView`, `CanViewAll` or `CanChat` asks. -/
structure Question where
  id : Identity
  request : AccessRequest
  deriving DecidableEq

def Question.spec (q : Question) : ReviewSpec := q.request.spec q.id

/-- The clock and the cache of an `AccessChecker`, with the reviews that were answered. -/
structure AccessCache where
  clock : Time := 0
  cache : GoMap AccessKey AccessEntry := ∅
  reviews : List Review := []
  deriving DecidableEq

def AccessCache.cached (s : AccessCache) (k : AccessKey) : Option Bool :=
  match s.cache.lookup k with
  | some e => if s.clock < e.expires then some e.allowed else none
  | none => none

inductive AccessEvent where
  /-- `Sweep`. -/
  | sweep
  | tick (d : ℕ)
  deriving DecidableEq

/-- `AccessChecker`, with the calls so far. A call returns its result with the time; `none` is an
error. -/
abbrev AccessChecker :=
  Group AccessCache Question String Bool (Option Bool) (Option Bool × Time)

abbrev AccessStep := Step Question String (Option Bool) AccessEvent

/-- The work of a flight is the review, which the authorizer answers or fails to answer. -/
def AccessChecker.allowed : Service AccessCache Question String Bool (Option Bool)
    (Option Bool × Time) (Option Bool) AccessEvent where
  key q := q.spec.flightKey
  cached s q := (s.cached q.spec.key).map some
  outcome _ result :=
    match result with
    | some allowed => .inl allowed
    | none => .inr none
  worked s q result :=
    match result with
    | some allowed => { s with reviews := s.reviews ++ [⟨q.spec, allowed, s.clock⟩] }
    | none => s
  store s q allowed :=
    { s with cache := s.cache.insert q.spec.key ⟨allowed, s.clock + sarCacheTTL⟩ }
  result := some
  answer s result := (result, s.clock)
  checksContext := true
  other s e :=
    match e with
    | .sweep => { s with cache := s.cache.keep fun _ e ↦ s.clock < e.expires }
    | .tick d => { s with clock := s.clock + d }

/-! ## Where answers are from -/

/-- An answer at `t` to a question is from a review of that question, completed at most
`sarCacheTTL` before. -/
def Backed (reviews : List Review) (q : ReviewSpec) (allowed : Bool) (t : Time) : Prop :=
  ∃ r ∈ reviews, r.spec = q ∧ r.allowed = allowed ∧ r.completedAt ≤ t
    ∧ t ≤ r.completedAt + sarCacheTTL

theorem Backed.append {reviews : List Review} {q : ReviewSpec} {allowed : Bool} {t : Time}
    (h : Backed reviews q allowed t) (r : Review) : Backed (reviews ++ [r]) q allowed t := by
  obtain ⟨r', hmem, hr'⟩ := h
  exact ⟨r', List.mem_append_left _ hmem, hr'⟩

/-- Results and answers are backed by a review. -/
def promise : Promise AccessCache Question Bool (Option Bool) (Option Bool × Time) where
  result s q r := ∀ allowed ∈ r, Backed s.reviews q.spec allowed s.clock
  work s q allowed := ⟨q.spec, allowed, s.clock⟩ ∈ s.reviews
  answer s q a := ∀ allowed ∈ a.1, Backed s.reviews q.spec allowed a.2

theorem lawful_allowed : Lawful AccessChecker.allowed promise where
  answer _ _ _ h := h
  worked s q result := by
    cases result with
    | none => exact ⟨fun _ _ h ↦ h, fun _ _ h ↦ h, fun _ _ h ↦ h⟩
    | some allowed =>
      exact ⟨fun _ _ h a ha ↦ (h a ha).append _, fun _ _ h ↦ List.mem_append_left _ h,
        fun _ _ h a ha ↦ (h a ha).append _⟩
  outcome s q result allowed h := by
    cases result with
    | none => cases h
    | some allowed =>
      cases h
      exact List.mem_append_right _ List.mem_cons_self
  failed s q result r h := by
    cases result with
    | none =>
      cases h
      exact fun _ ha ↦ by cases ha
    | some allowed => cases h
  stored _ _ _ := ⟨fun _ _ h ↦ h, fun _ _ h ↦ h, fun _ _ h ↦ h⟩
  result s q allowed h a ha := by
    cases ha
    exact ⟨_, h, rfl, rfl, le_rfl, Int.le_add_of_nonneg_right (by decide)⟩

/-- What is going on: the questions that are asked, and those of reviews of the last five
minutes. -/
def live (s : AccessCache) (asked : List Question) : List ReviewSpec :=
  asked.map Question.spec
    ++ (s.reviews.filter fun r ↦ s.clock < r.completedAt + sarCacheTTL).map Review.spec

section

variable {s : AccessCache} {asked : List Question}

theorem mem_live {spec : ReviewSpec} : spec ∈ live s asked ↔ (∃ q ∈ asked, q.spec = spec)
    ∨ ∃ r ∈ s.reviews, s.clock < r.completedAt + sarCacheTTL ∧ r.spec = spec := by
  rw [live, List.mem_append, List.mem_map, List.mem_map]
  simp only [List.mem_filter, decide_eq_true_eq, and_assoc]

/-- What the cache has is from reviews, and questions that share a flight are the same. -/
structure Grounded (s : AccessCache) (asked : List Question) : Prop where
  past : ∀ r ∈ s.reviews, r.completedAt ≤ s.clock
  cache : ∀ k e, s.cache.lookup k = some e → ∃ r ∈ s.reviews, r.spec.key = k
    ∧ r.allowed = e.allowed ∧ e.expires = r.completedAt + sarCacheTTL
  alone : ∀ q ∈ live s asked, ∀ q' ∈ live s asked, q.flightKey = q'.flightKey → q = q'

/-- A hit in the cache is from a review of the question, for a question that is asked. -/
theorem Grounded.backed_of_cached (h : Grounded s asked) {q : Question} (hq : q ∈ asked)
    {allowed : Bool} (hcached : s.cached q.spec.key = some allowed) :
    Backed s.reviews q.spec allowed s.clock := by
  rw [AccessCache.cached] at hcached
  split at hcached
  · rename_i e he
    obtain ⟨r, hr, hkey, hallowed, hexpires⟩ := h.cache _ _ he
    split_ifs at hcached with hfresh
    have hlt : s.clock < r.completedAt + sarCacheTTL := hexpires ▸ hfresh
    have hspec : r.spec = q.spec := h.alone _ (mem_live.mpr (Or.inr ⟨r, hr, hlt, rfl⟩)) _
      (mem_live.mpr (Or.inl ⟨q, hq, rfl⟩)) (ReviewSpec.flightKey_congr hkey)
    cases hcached
    exact ⟨r, hr, hspec, hallowed, h.past r hr, hlt.le⟩
  · cases hcached

theorem Grounded.serves (h : Grounded s asked) {q q' : Question} (hq : q ∈ asked) (hq' : q' ∈ asked)
    (hkey : q.spec.flightKey = q'.spec.flightKey) : promise.Serves q q' := by
  have hspec : q.spec = q'.spec := h.alone _ (mem_live.mpr (Or.inl ⟨q, hq, rfl⟩)) _
    (mem_live.mpr (Or.inl ⟨q', hq', rfl⟩)) hkey
  intro s r hr
  show ∀ allowed ∈ r, Backed s.reviews q'.spec allowed s.clock
  rw [← hspec]
  exact hr

/-- Nothing that was not live is live. -/
theorem Grounded.alone_of_subset (h : Grounded s asked) {s' : AccessCache} {asked' : List Question}
    (hlive : ∀ q ∈ live s' asked', q ∈ live s asked) :
    ∀ q ∈ live s' asked', ∀ q' ∈ live s' asked', q.flightKey = q'.flightKey → q = q' :=
  fun q hq q' hq' ↦ h.alone q (hlive q hq) q' (hlive q' hq')

theorem Grounded.mono (h : Grounded s asked) {asked' : List Question}
    (hsub : ∀ q ∈ asked', q ∈ asked) : Grounded s asked' where
  past := h.past
  cache := h.cache
  alone := by
    refine h.alone_of_subset fun spec hspec ↦ ?_
    rcases mem_live.mp hspec with ⟨q, hq, rfl⟩ | hreview
    · exact mem_live.mpr (Or.inl ⟨q, hsub q hq, rfl⟩)
    · exact mem_live.mpr (Or.inr hreview)

theorem Grounded.call (h : Grounded s asked) {q : Question} {asked' : List Question}
    (halone : ∀ spec ∈ live s asked, spec.flightKey = q.spec.flightKey → spec = q.spec)
    (hsub : ∀ q' ∈ asked', q' ∈ asked ∨ q' = q) : Grounded s asked' where
  past := h.past
  cache := h.cache
  alone := by
    have hlive : ∀ spec ∈ live s asked', spec ∈ live s asked ∨ spec = q.spec := by
      intro spec hspec
      rcases mem_live.mp hspec with ⟨q', hq', rfl⟩ | hreview
      · rcases hsub q' hq' with hq' | rfl
        · exact Or.inl (mem_live.mpr (Or.inl ⟨q', hq', rfl⟩))
        · exact Or.inr rfl
      · exact Or.inl (mem_live.mpr (Or.inr hreview))
    intro spec hspec spec' hspec' hkey
    rcases hlive spec hspec with hspec | rfl <;> rcases hlive spec' hspec' with hspec' | rfl
    · exact h.alone spec hspec spec' hspec' hkey
    · exact halone spec hspec hkey
    · exact (halone spec' hspec' hkey.symm).symm
    · rfl

theorem Grounded.appendReview (h : Grounded s asked) {q : Question} (hq : q ∈ asked)
    (allowed : Bool) :
    Grounded { s with reviews := s.reviews ++ [⟨q.spec, allowed, s.clock⟩] } asked where
  past r hr := by
    rcases List.mem_append.mp hr with hr | hr
    · exact h.past r hr
    · rw [List.mem_singleton.mp hr]
  cache k e he := by
    obtain ⟨r, hr, hentry⟩ := h.cache k e he
    exact ⟨r, List.mem_append_left _ hr, hentry⟩
  alone := by
    refine h.alone_of_subset fun spec hspec ↦ ?_
    rcases mem_live.mp hspec with hasked | ⟨r, hr, hlt, rfl⟩
    · exact mem_live.mpr (Or.inl hasked)
    · rcases List.mem_append.mp hr with hr | hr
      · exact mem_live.mpr (Or.inr ⟨r, hr, hlt, rfl⟩)
      · rw [List.mem_singleton.mp hr]
        exact mem_live.mpr (Or.inl ⟨q, hq, rfl⟩)

theorem Grounded.store (h : Grounded s asked) {q : Question} {allowed : Bool}
    (hreview : ⟨q.spec, allowed, s.clock⟩ ∈ s.reviews) :
    Grounded (AccessChecker.allowed.store s q allowed) asked where
  past := h.past
  cache k e he := by
    rw [AccessChecker.allowed, AList.lookup_insert_ite] at he
    split_ifs at he with hk
    · cases he
      exact ⟨_, hreview, hk.symm, rfl, rfl⟩
    · exact h.cache k e he
  alone := h.alone

theorem Grounded.other (h : Grounded s asked) (e : AccessEvent) :
    Grounded (AccessChecker.allowed.other s e) asked := by
  cases e with
  | sweep =>
    refine ⟨h.past, fun k e he ↦ ?_, h.alone⟩
    rw [AccessChecker.allowed, AList.lookup_keep, Option.filter_eq_some_iff] at he
    exact h.cache k e he.1
  | tick d =>
    have hle : s.clock ≤ s.clock + d := Int.le_add_of_nonneg_right (Int.natCast_nonneg d)
    refine ⟨fun r hr ↦ (h.past r hr).trans hle, h.cache, h.alone_of_subset fun spec hspec ↦ ?_⟩
    rcases mem_live.mp hspec with hasked | ⟨r, hr, hlt, rfl⟩
    · exact mem_live.mpr (Or.inl hasked)
    · exact mem_live.mpr (Or.inr ⟨r, hr, hle.trans_lt hlt, rfl⟩)

end

/-! ## Runs -/

section

variable {g g' : AccessChecker} {a : AccessStep}

/-- A call may come in if whatever goes on for its key is about the same question, and time may pass
if only reviews are to come. -/
def Alone (g : AccessChecker) : AccessStep → Prop
  | .call q => ∀ spec ∈ live g.shared g.asked, spec.flightKey = q.spec.flightKey → spec = q.spec
  | .other (.tick _) => g.quiet
  | _ => True

instance : ∀ a, Decidable (Alone g a)
  | .call q => inferInstanceAs (Decidable (∀ spec ∈ live g.shared g.asked,
      spec.flightKey = q.spec.flightKey → spec = q.spec))
  | .other (.tick _) => inferInstanceAs (Decidable (g.quiet = true))
  | .other .sweep | .caller _ _ | .flight _ _ => isTrue trivial

theorem Grounded.step (h : Grounded g.shared g.asked)
    (hsound : Sound AccessChecker.allowed promise g) (halone : Alone g a)
    (hstep : AccessChecker.allowed.step g a = some g') : Grounded g'.shared g'.asked := by
  have hasked : ∀ q ∈ g'.asked, q ∈ g.asked ∨ q ∈ a.asks := fun _ ↦ Service.asked_of_step hstep
  have hsub (ha : a.asks = []) : ∀ q ∈ g'.asked, q ∈ g.asked := by
    intro q hq
    exact (hasked q hq).resolve_right (ha ▸ List.not_mem_nil)
  have heffect := Service.effect_of_step hstep
  generalize g'.shared = s at heffect ⊢
  cases heffect with
  | none =>
    cases a with
    | call q => exact h.call halone fun q' hq' ↦ (hasked q' hq').imp_right List.mem_singleton.mp
    | _ => exact h.mono (hsub rfl)
  | work result hflight =>
    cases result with
    | none => exact h.mono (hsub rfl)
    | some allowed =>
      exact (h.appendReview (Service.asked_of_flight hflight) allowed).mono (hsub rfl)
  | store hflight hphase =>
    have hreview := (hsound.flights _ _ hflight).2
    rw [hphase] at hreview
    exact (h.store hreview).mono (hsub rfl)
  | other e => exact (h.other e).mono (hsub rfl)

/-- The step of the checker keeps its promise. -/
theorem sound_step (h : Sound AccessChecker.allowed promise g)
    (hgrounded : Grounded g.shared g.asked) (halone : Alone g a)
    (hstep : AccessChecker.allowed.step g a = some g') :
    Sound AccessChecker.allowed promise g' := by
  refine h.step lawful_allowed hstep ?_ ?_ ?_
  · intro q hq r hcached allowed ha
    obtain ⟨allowed', hhit, rfl⟩ := Option.map_eq_some_iff.mp hcached
    cases ha
    exact hgrounded.backed_of_cached hq hhit
  · intro c _ call hcall hpending f hflight
    exact hgrounded.serves (Service.asked_of_flight hflight)
      (Service.asked_of_call hcall hpending) (h.flights _ f hflight).1
  · rintro e rfl
    cases e with
    | sweep => exact h.kept ⟨fun _ _ h ↦ h, fun _ _ h ↦ h, fun _ _ h ↦ h⟩
    | tick d => exact h.of_quiet halone fun _ _ h ↦ h

theorem grounded_init : Grounded {} [] where
  past _ hr := absurd hr List.not_mem_nil
  cache _ _ he := absurd he AList.lookup_empty_ne
  alone _ hq := absurd hq List.not_mem_nil

end

/-- In every run in which no call comes in while something else goes on for its key, and no time
passes while a call or a flight has something to do, every answer is from a review for the username
and the groups of the caller, and the namespace, verb and resource it asked for, completed at most
five minutes before the answer. -/
theorem answer_reviewed {steps : List AccessStep} {g : AccessChecker}
    (hrun : Run.Runs AccessChecker.allowed.step { shared := {} } steps g)
    (halone : Run.AllSteps AccessChecker.allowed.step Alone { shared := {} } steps)
    {call : Call Question (Option Bool) (Option Bool × Time)} (hcall : call ∈ g.calls)
    {allowed : Bool} {t : Time} (hanswer : call.phase = .returned (some allowed, t)) :
    ∃ r ∈ g.shared.reviews, r.spec = call.question.spec ∧ r.allowed = allowed ∧ r.completedAt ≤ t
      ∧ t ≤ r.completedAt + sarCacheTTL := by
  have hinit : Sound AccessChecker.allowed promise { shared := {} }
      ∧ Grounded ({} : AccessCache) [] := ⟨.init _, grounded_init⟩
  have hinv := hrun.invariant_of_allSteps
    (I := fun g ↦ Sound AccessChecker.allowed promise g ∧ Grounded g.shared g.asked)
    (fun _ _ _ h hG hstep ↦ ⟨sound_step h.1 h.2 hG hstep, h.2.step h.1 hG hstep⟩) halone hinit
  have hphase := hinv.1.calls call hcall
  rw [hanswer] at hphase
  exact hphase allowed rfl

/-- A call that starts a flight and is answered by its review. -/
private def reviewedCall (id : Identity) (c : ℕ) : List AccessStep :=
  let k := (AccessRequest.spec id (.canView "team-a")).flightKey
  [.call ⟨id, .canView "team-a"⟩, .caller c .lookup, .caller c .join, .flight k .recheck,
    .flight k (.work (some true)), .flight k .store, .flight k .finish, .caller c .take]

/-- A call for the same namespace a minute later, which finds the answer in the cache. -/
private def laterCall (id : Identity) : List AccessStep :=
  [.other (.tick 60), .call ⟨id, .canView "team-a"⟩, .caller 1 .lookup]

private def priya : Identity := ⟨"priya", ["platform"]⟩

/-- Where the two calls lead. -/
private def answeredTo (id : Identity) : AccessChecker where
  shared :=
    { clock := 60
      cache := AList.singleton ⟨"priya", "team-a", "list:agents"⟩ ⟨true, sarCacheTTL⟩
      reviews := [⟨reviewSpec priya "list" "kaalm.io" "agents" "team-a", true, 0⟩] }
  calls := [⟨⟨priya, .canView "team-a"⟩, .returned (some true, 0)⟩,
    ⟨⟨id, .canView "team-a"⟩, .returned (some true, 60)⟩]

theorem answer_reviewed_priya :
    Run.Runs AccessChecker.allowed.step { shared := {} } (reviewedCall priya 0 ++ laterCall priya)
      (answeredTo priya)
    ∧ Run.AllSteps AccessChecker.allowed.step Alone { shared := {} }
        (reviewedCall priya 0 ++ laterCall priya)
    ∧ ∃ r ∈ (answeredTo priya).shared.reviews,
        r.spec = reviewSpec priya "list" "kaalm.io" "agents" "team-a"
        ∧ r.allowed = true ∧ r.completedAt ≤ 60 ∧ (60 : Time) ≤ r.completedAt + sarCacheTTL := by
  have hrun : Run.Runs AccessChecker.allowed.step { shared := {} }
      (reviewedCall priya 0 ++ laterCall priya) (answeredTo priya) := by decide +kernel
  have halone : Run.AllSteps AccessChecker.allowed.step Alone { shared := {} }
      (reviewedCall priya 0 ++ laterCall priya) := by decide +kernel
  have hcall : ⟨⟨priya, .canView "team-a"⟩, .returned (some true, 60)⟩
      ∈ (answeredTo priya).calls := by decide +kernel
  exact ⟨hrun, halone, answer_reviewed hrun halone hcall rfl⟩

private def outsider : Identity := ⟨"priya", []⟩

/-- A caller with the same username and without the groups gets the answer of the other one. No
review was ever made for it. -/
theorem answer_of_other_groups : ¬∀ (steps : List AccessStep) (g : AccessChecker),
    Run.Runs AccessChecker.allowed.step { shared := {} } steps g → ∀ call ∈ g.calls, ∀ allowed t,
      call.phase = .returned (some allowed, t) → ∃ r ∈ g.shared.reviews,
        r.spec = call.question.spec ∧ r.allowed = allowed := by
  intro h
  have hrun : Run.Runs AccessChecker.allowed.step { shared := {} }
      (reviewedCall priya 0 ++ laterCall outsider) (answeredTo outsider) := by decide +kernel
  have hcall : ⟨⟨outsider, .canView "team-a"⟩, .returned (some true, 60)⟩
      ∈ (answeredTo outsider).calls := by decide +kernel
  obtain ⟨r, hr, hspec, -⟩ := h _ _ hrun _ hcall true 60 rfl
  rw [List.mem_singleton.mp hr] at hspec
  exact absurd (congrArg ReviewSpec.groups hspec) (by decide)

end Kaalm.Console
