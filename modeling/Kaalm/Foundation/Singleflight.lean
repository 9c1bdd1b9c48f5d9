import Kaalm.Foundation.GoMap

/-!
# Calls that share a flight

A service answers questions out of a cache, and has some work to do for an answer that is not there.
Calls that miss the cache at the same time share that work: `singleflight.Group.DoChan` starts a
flight for a key, or joins the one that is under way, and every call that waits at it receives its
result. The flight reads the cache once more before it works.

`Service` says what a service does in each of these places, and `Service.step` makes a system of it
whose steps interleave: each access to the cache and to the table of flights is a step of its own.
Flights are shared by key, so a call may receive the result for another question.

A `Promise` says what is to hold of results, and `Sound` that it holds of all that are on their way.
A step keeps it (`Sound.step`) if the cache is right for the questions that are being asked, and a
call joins only a flight whose results serve its own question.
-/

namespace Singleflight

variable {σ Q K W R A O E : Type}

/-! ## Services -/

/-- What a service does. Its own state `σ` holds the cache. -/
structure Service (σ Q K W R A O E : Type) where
  /-- The key of the flight for a question. -/
  key : Q → K
  cached : σ → Q → Option R
  /-- What the work for a question ends with: something to put into the cache, or a result. -/
  outcome : Q → O → W ⊕ R
  /-- The state after the work. -/
  worked : σ → Q → O → σ
  store : σ → Q → W → σ
  /-- The result once it is in the cache. -/
  result : W → R
  /-- What a call returns. -/
  answer : σ → R → A
  /-- A call that missed the cache first looks whether its context is done. -/
  checksContext : Bool
  /-- What happens beside the calls. -/
  other : σ → E → σ

inductive CallPhase (R A : Type) where
  /-- Before the cache is read. -/
  | entered
  | missed
  /-- In the `select`, with a channel of a flight. -/
  | waiting
  /-- The flight has sent its result. -/
  | delivered (result : R)
  | returned (answer : A)
  /-- Returned with the error of the context. -/
  | left
  deriving DecidableEq

structure Call (Q R A : Type) where
  question : Q
  phase : CallPhase R A := .entered
  deriving DecidableEq

inductive FlightPhase (W R : Type) where
  /-- Before the cache is read again. -/
  | started
  | working
  /-- Before the outcome is cached. -/
  | worked (outcome : W)
  | done (result : R)
  deriving DecidableEq

/-- A flight is for the question of the call that started it. -/
structure Flight (Q W R : Type) where
  question : Q
  phase : FlightPhase W R := .started
  deriving DecidableEq

/-- A service with the calls so far. -/
structure Group (σ Q K W R A : Type) where
  shared : σ
  flights : GoMap K (Flight Q W R) := ∅
  calls : List (Call Q R A) := []
  deriving DecidableEq

/-- What a call does. -/
inductive CallStep where
  /-- Read the cache. -/
  | lookup
  /-- `DoChan`: join the flight of the key, or start it. -/
  | join
  /-- The context is done. -/
  | leave
  /-- Take the result. -/
  | take
  deriving DecidableEq

/-- What a flight does. -/
inductive FlightStep (O : Type) where
  /-- Read the cache. -/
  | recheck
  /-- The work ends. -/
  | work (o : O)
  /-- Put the outcome into the cache. -/
  | store
  /-- Leave the table and send the result. -/
  | finish
  deriving DecidableEq

inductive Step (Q K O E : Type) where
  | call (q : Q)
  | caller (c : ℕ) (a : CallStep)
  | flight (k : K) (a : FlightStep O)
  | other (e : E)
  deriving DecidableEq

/-- The question that a step brings in. -/
def Step.asks : Step Q K O E → List Q
  | .call q => [q]
  | _ => []

namespace Call

def pending (call : Call Q R A) : Bool :=
  match call.phase with
  | .returned _ | .left => false
  | _ => true

/-- The call has nothing to do before something else happens. -/
def idle (call : Call Q R A) : Bool :=
  match call.phase with
  | .waiting | .returned _ | .left => true
  | _ => false

end Call

/-- The flight has only its work to wait for. -/
def Flight.busy (f : Flight Q W R) : Bool :=
  match f.phase with
  | .working => true
  | _ => false

namespace Group

variable (g : Group σ Q K W R A)

/-- Put call `c` into another phase. -/
def setPhase (c : ℕ) (call : Call Q R A) (phase : CallPhase R A) : Group σ Q K W R A :=
  { g with calls := g.calls.set c { call with phase } }

/-- Put a flight into the table, in place of one with its key. -/
def fly [DecidableEq K] (k : K) (f : Flight Q W R) : Group σ Q K W R A :=
  { g with flights := g.flights.insert k f }

/-- The questions of all calls. -/
def questions : List Q := g.calls.map Call.question

/-- The questions of flights, and of calls that have not returned. -/
def asked : List Q :=
  (g.calls.filter Call.pending).map Call.question ++ g.flights.entries.map fun e ↦ e.2.question

/-- Every call waits for a flight, and every flight for its work. -/
def quiet : Bool := g.calls.all Call.idle && g.flights.entries.all fun e ↦ e.2.busy

end Group

namespace Service

variable [DecidableEq K] (sv : Service σ Q K W R A O E) (g : Group σ Q K W R A)

/-- Calls that wait at a flight receive its result. -/
def deliver (k : K) (result : R) (call : Call Q R A) : Call Q R A :=
  match call.phase with
  | .waiting => if sv.key call.question = k then { call with phase := .delivered result } else call
  | _ => call

def callStep (c : ℕ) (call : Call Q R A) (a : CallStep) : Option (Group σ Q K W R A) :=
  match a, call.phase with
  | .lookup, .entered => some (g.setPhase c call (match sv.cached g.shared call.question with
      | some r => .returned (sv.answer g.shared r)
      | none => .missed))
  | .join, .missed => some (match g.flights.lookup (sv.key call.question) with
      | some _ => g.setPhase c call .waiting
      | none => (g.fly (sv.key call.question) { question := call.question }).setPhase
          c call .waiting)
  | .leave, .missed => if sv.checksContext then some (g.setPhase c call .left) else none
  | .leave, .waiting => some (g.setPhase c call .left)
  | .leave, .delivered _ => some (g.setPhase c call .left)
  | .take, .delivered r => some (g.setPhase c call (.returned (sv.answer g.shared r)))
  | _, _ => none

def flightStep (k : K) (f : Flight Q W R) (a : FlightStep O) : Option (Group σ Q K W R A) :=
  match a, f.phase with
  | .recheck, .started => some (g.fly k { f with
      phase := match sv.cached g.shared f.question with
        | some r => .done r
        | none => .working })
  | .work o, .working => some ({ g with shared := sv.worked g.shared f.question o }.fly k { f with
      phase := match sv.outcome f.question o with
        | .inl w => .worked w
        | .inr r => .done r })
  | .store, .worked w => some ({ g with shared := sv.store g.shared f.question w }.fly k { f with
      phase := .done (sv.result w) })
  | .finish, .done r => some { g with
      flights := g.flights.erase k
      calls := g.calls.map (sv.deliver k r) }
  | _, _ => none

def step : Step Q K O E → Option (Group σ Q K W R A)
  | .call q => some { g with calls := g.calls ++ [{ question := q }] }
  | .caller c a => g.calls[c]?.bind fun call ↦ sv.callStep g c call a
  | .flight k a => (g.flights.lookup k).bind fun f ↦ sv.flightStep g k f a
  | .other e => some { g with shared := sv.other g.shared e }

/-! ## What a step does -/

/-- The steps that are possible, with what they do. -/
inductive Moves : Step Q K O E → Group σ Q K W R A → Prop where
  | call (q : Q) : Moves (.call q) { g with calls := g.calls ++ [{ question := q }] }
  | hit {c : ℕ} {call : Call Q R A} {r : R} (hcall : g.calls[c]? = some call)
      (hpending : call.pending) (hcached : sv.cached g.shared call.question = some r) :
      Moves (.caller c .lookup) (g.setPhase c call (.returned (sv.answer g.shared r)))
  | miss {c : ℕ} {call : Call Q R A} (hcall : g.calls[c]? = some call)
      (hpending : call.pending) : Moves (.caller c .lookup) (g.setPhase c call .missed)
  | join {c : ℕ} {call : Call Q R A} {f : Flight Q W R} (hcall : g.calls[c]? = some call)
      (hpending : call.pending) (hflight : g.flights.lookup (sv.key call.question) = some f) :
      Moves (.caller c .join) (g.setPhase c call .waiting)
  | start {c : ℕ} {call : Call Q R A} (hcall : g.calls[c]? = some call)
      (hpending : call.pending) (hflight : g.flights.lookup (sv.key call.question) = none) :
      Moves (.caller c .join) ((g.fly (sv.key call.question) { question := call.question }).setPhase
        c call .waiting)
  | leave {c : ℕ} {call : Call Q R A} (hcall : g.calls[c]? = some call)
      (hpending : call.pending) : Moves (.caller c .leave) (g.setPhase c call .left)
  | take {c : ℕ} {call : Call Q R A} {r : R} (hcall : g.calls[c]? = some call)
      (hpending : call.pending) (hphase : call.phase = .delivered r) :
      Moves (.caller c .take) (g.setPhase c call (.returned (sv.answer g.shared r)))
  | recheckHit {k : K} {f : Flight Q W R} {r : R} (hflight : g.flights.lookup k = some f)
      (hcached : sv.cached g.shared f.question = some r) :
      Moves (.flight k .recheck) (g.fly k { f with phase := .done r })
  | recheckMiss {k : K} {f : Flight Q W R} (hflight : g.flights.lookup k = some f) :
      Moves (.flight k .recheck) (g.fly k { f with phase := .working })
  | work {k : K} {f : Flight Q W R} {w : W} {o : O} (hflight : g.flights.lookup k = some f)
      (houtcome : sv.outcome f.question o = .inl w) :
      Moves (.flight k (.work o))
        ({ g with shared := sv.worked g.shared f.question o }.fly k { f with phase := .worked w })
  | fail {k : K} {f : Flight Q W R} {r : R} {o : O} (hflight : g.flights.lookup k = some f)
      (houtcome : sv.outcome f.question o = .inr r) :
      Moves (.flight k (.work o))
        ({ g with shared := sv.worked g.shared f.question o }.fly k { f with phase := .done r })
  | store {k : K} {f : Flight Q W R} {w : W} (hflight : g.flights.lookup k = some f)
      (hphase : f.phase = .worked w) :
      Moves (.flight k .store) ({ g with shared := sv.store g.shared f.question w }.fly k
        { f with phase := .done (sv.result w) })
  | finish {k : K} {f : Flight Q W R} {r : R} (hflight : g.flights.lookup k = some f)
      (hphase : f.phase = .done r) :
      Moves (.flight k .finish) { g with
        flights := g.flights.erase k
        calls := g.calls.map (sv.deliver k r) }
  | other (e : E) : Moves (.other e) { g with shared := sv.other g.shared e }

variable {sv g} {g' : Group σ Q K W R A} {a : Step Q K O E}

theorem pending_of_callStep {c : ℕ} {call : Call Q R A} {a : CallStep}
    (h : sv.callStep g c call a = some g') : call.pending := by
  rw [callStep.eq_def] at h
  rw [Call.pending]
  split at h <;> first | rw [‹call.phase = _›] | cases h

theorem moves_of_callStep {c : ℕ} {call : Call Q R A} {a : CallStep}
    (hcall : g.calls[c]? = some call) (h : sv.callStep g c call a = some g') :
    sv.Moves g (.caller c a) g' := by
  have hpending := pending_of_callStep h
  rw [callStep.eq_def] at h
  split at h
  · cases h
    cases hcached : sv.cached g.shared call.question with
    | some r => exact .hit hcall hpending hcached
    | none => exact .miss hcall hpending
  · cases h
    cases hflight : g.flights.lookup (sv.key call.question) with
    | some f => exact .join hcall hpending hflight
    | none => exact .start hcall hpending hflight
  · split_ifs at h
    cases h
    exact .leave hcall hpending
  · cases h
    exact .leave hcall hpending
  · cases h
    exact .leave hcall hpending
  · cases h
    exact .take hcall hpending ‹_›
  · cases h

theorem moves_of_flightStep {k : K} {f : Flight Q W R} {a : FlightStep O}
    (hflight : g.flights.lookup k = some f) (h : sv.flightStep g k f a = some g') :
    sv.Moves g (.flight k a) g' := by
  rw [flightStep.eq_def] at h
  split at h
  · cases h
    cases hcached : sv.cached g.shared f.question with
    | some r => exact .recheckHit hflight hcached
    | none => exact .recheckMiss hflight
  · rename_i o _
    cases h
    cases houtcome : sv.outcome f.question o with
    | inl w => exact .work hflight houtcome
    | inr r => exact .fail hflight houtcome
  · cases h
    exact .store hflight ‹_›
  · cases h
    exact .finish hflight ‹_›
  · cases h

theorem moves_of_step (h : sv.step g a = some g') : sv.Moves g a g' := by
  cases a with
  | call q => cases h; exact .call q
  | caller c a =>
    obtain ⟨call, hcall, h⟩ := Option.bind_eq_some_iff.mp h
    exact moves_of_callStep hcall h
  | flight k a =>
    obtain ⟨f, hflight, h⟩ := Option.bind_eq_some_iff.mp h
    exact moves_of_flightStep hflight h
  | other e => cases h; exact .other e

/-! ## Questions -/

theorem mem_asked {q : Q} : q ∈ g.asked ↔ (∃ call ∈ g.calls, call.pending ∧ call.question = q)
    ∨ ∃ k f, g.flights.lookup k = some f ∧ f.question = q := by
  have hflights : (∃ e ∈ g.flights.entries, e.2.question = q)
      ↔ ∃ k f, g.flights.lookup k = some f ∧ f.question = q := by
    constructor
    · rintro ⟨⟨k, f⟩, he, hq⟩
      exact ⟨k, f, AList.mem_lookup_iff.mpr he, hq⟩
    · rintro ⟨k, f, hf, hq⟩
      exact ⟨⟨k, f⟩, AList.mem_lookup_iff.mp hf, hq⟩
  rw [Group.asked, List.mem_append, List.mem_map, List.mem_map, hflights]
  simp only [List.mem_filter, and_assoc]

theorem asked_of_call {c : ℕ} {call : Call Q R A} (hcall : g.calls[c]? = some call)
    (hpending : call.pending) : call.question ∈ g.asked :=
  mem_asked.mpr (Or.inl ⟨call, List.mem_of_getElem? hcall, hpending, rfl⟩)

theorem asked_of_flight {k : K} {f : Flight Q W R} (hflight : g.flights.lookup k = some f) :
    f.question ∈ g.asked :=
  mem_asked.mpr (Or.inr ⟨k, f, hflight, rfl⟩)

theorem asked_setPhase {c : ℕ} {call : Call Q R A} {phase : CallPhase R A} {q : Q}
    (hcall : g.calls[c]? = some call) (hpending : call.pending)
    (hq : q ∈ (g.setPhase c call phase).asked) : q ∈ g.asked := by
  rcases mem_asked.mp hq with ⟨call', hcall', hpending', rfl⟩ | hflight
  · rcases List.mem_or_eq_of_mem_set hcall' with hmem | heq
    · exact mem_asked.mpr (Or.inl ⟨call', hmem, hpending', rfl⟩)
    · have hasked := asked_of_call hcall hpending
      rwa [heq]
  · exact mem_asked.mpr (Or.inr hflight)

theorem asked_fly {k : K} {f : Flight Q W R} {q : Q} (hasked : f.question ∈ g.asked)
    (hq : q ∈ (g.fly k f).asked) : q ∈ g.asked := by
  rcases mem_asked.mp hq with hcall | ⟨k', f', hf', rfl⟩
  · exact mem_asked.mpr (Or.inl hcall)
  · rw [Group.fly, AList.lookup_insert_ite] at hf'
    split_ifs at hf'
    · cases hf'
      exact hasked
    · exact asked_of_flight hf'

theorem question_deliver (k : K) (r : R) (call : Call Q R A) :
    (sv.deliver k r call).question = call.question := by
  rw [deliver]
  split
  · split_ifs <;> rfl
  · rfl

theorem pending_of_deliver {k : K} {r : R} {call : Call Q R A}
    (h : (sv.deliver k r call).pending) : call.pending := by
  rw [deliver] at h
  split at h
  · rename_i hphase
    rw [Call.pending, hphase]
  · exact h

/-- Nothing is asked but what was asked before and what the step brings in. -/
theorem asked_of_step (h : sv.step g a = some g') {q : Q} (hq : q ∈ g'.asked) :
    q ∈ g.asked ∨ q ∈ a.asks := by
  cases moves_of_step h with
  | call q' =>
    rcases mem_asked.mp hq with ⟨call, hcall, hpending, rfl⟩ | hflight
    · rcases List.mem_append.mp hcall with hcall | hcall
      · exact Or.inl (mem_asked.mpr (Or.inl ⟨call, hcall, hpending, rfl⟩))
      · rw [List.mem_singleton.mp hcall]
        exact Or.inr List.mem_cons_self
    · exact Or.inl (mem_asked.mpr (Or.inr hflight))
  | hit hcall hpending _ | miss hcall hpending | join hcall hpending _ | leave hcall hpending
  | take hcall hpending _ => exact Or.inl (asked_setPhase hcall hpending hq)
  | start hcall hpending _ =>
    exact Or.inl (asked_fly (asked_of_call hcall hpending)
      (asked_setPhase (g := g.fly _ _) hcall hpending hq))
  | recheckHit hflight _ | recheckMiss hflight =>
    exact Or.inl (asked_fly (asked_of_flight hflight) hq)
  | work hflight _ | fail hflight _ | store hflight _ =>
    exact Or.inl (asked_fly (g := { g with shared := _ }) (asked_of_flight hflight) hq)
  | finish hflight _ =>
    refine Or.inl (mem_asked.mpr ?_)
    rcases mem_asked.mp hq with ⟨call', hcall', hpending, rfl⟩ | ⟨k', f', hf', rfl⟩
    · obtain ⟨call, hcall, rfl⟩ := List.mem_map.mp hcall'
      exact Or.inl ⟨call, hcall, pending_of_deliver hpending, (question_deliver _ _ _).symm⟩
    · rw [AList.lookup_erase_ite] at hf'
      split_ifs at hf'
      exact Or.inr ⟨k', f', hf', rfl⟩
  | other e => exact Or.inl hq

omit [DecidableEq K] in
theorem questions_setPhase {c : ℕ} {call : Call Q R A} (hcall : g.calls[c]? = some call)
    (phase : CallPhase R A) : (g.setPhase c call phase).questions = g.questions := by
  obtain ⟨hlt, rfl⟩ := List.getElem?_eq_some_iff.mp hcall
  have hself : g.calls.set c g.calls[c] = g.calls := List.set_getElem_self hlt
  calc (g.setPhase c g.calls[c] phase).questions
      = g.questions.set c g.calls[c].question := List.map_set
    _ = (g.calls.set c g.calls[c]).map Call.question := List.map_set.symm
    _ = g.questions := by rw [hself, Group.questions]

theorem questions_of_step (h : sv.step g a = some g') : g'.questions = g.questions ++ a.asks := by
  cases moves_of_step h with
  | call q => exact List.map_append
  | hit hcall _ _ | miss hcall _ | join hcall _ _ | start hcall _ _ | leave hcall _
  | take hcall _ _ => exact (questions_setPhase hcall _).trans (List.append_nil _).symm
  | finish _ _ =>
    rw [Group.questions, List.map_map]
    exact (List.map_congr_left fun call _ ↦ question_deliver _ _ call).trans
      (List.append_nil _).symm
  | _ => exact (List.append_nil _).symm

/-! ## The state of the service -/

/-- What a step does to the state of the service. -/
inductive Effect (sv : Service σ Q K W R A O E) (g : Group σ Q K W R A) :
    Step Q K O E → σ → Prop where
  | none (a : Step Q K O E) : Effect sv g a g.shared
  | work {k : K} {f : Flight Q W R} (o : O) (hflight : g.flights.lookup k = some f) :
      Effect sv g (.flight k (.work o)) (sv.worked g.shared f.question o)
  | store {k : K} {f : Flight Q W R} {w : W} (hflight : g.flights.lookup k = some f)
      (hphase : f.phase = .worked w) :
      Effect sv g (.flight k .store) (sv.store g.shared f.question w)
  | other (e : E) : Effect sv g (.other e) (sv.other g.shared e)

theorem effect_of_step (h : sv.step g a = some g') : sv.Effect g a g'.shared := by
  cases moves_of_step h with
  | work hflight _ | fail hflight _ => exact .work _ hflight
  | store hflight hphase => exact .store hflight hphase
  | other e => exact .other e
  | _ => exact .none _

end Service

/-! ## Promises -/

/-- What is to hold of a result for a question, of an outcome that is not in the cache yet, and of
what a call has returned. -/
structure Promise (σ Q W R A : Type) where
  result : σ → Q → R → Prop
  work : σ → Q → W → Prop
  answer : σ → Q → A → Prop

namespace Promise

variable (pr : Promise σ Q W R A)

def OfCall (s : σ) (q : Q) : CallPhase R A → Prop
  | .delivered r => pr.result s q r
  | .returned a => pr.answer s q a
  | _ => True

def OfFlight (s : σ) (q : Q) : FlightPhase W R → Prop
  | .worked w => pr.work s q w
  | .done r => pr.result s q r
  | _ => True

/-- Results for one question do for another. -/
def Serves (q q' : Q) : Prop := ∀ s r, pr.result s q r → pr.result s q' r

/-- What holds in one state holds in another. -/
structure Kept (s s' : σ) : Prop where
  result : ∀ q r, pr.result s q r → pr.result s' q r
  work : ∀ q w, pr.work s q w → pr.work s' q w
  answer : ∀ q a, pr.answer s q a → pr.answer s' q a

variable {pr} {s s' : σ} {q : Q}

theorem Kept.ofCall (h : pr.Kept s s') {phase : CallPhase R A} (hphase : pr.OfCall s q phase) :
    pr.OfCall s' q phase := by
  cases phase with
  | delivered r => exact h.result q r hphase
  | returned a => exact h.answer q a hphase
  | _ => trivial

theorem Kept.ofFlight (h : pr.Kept s s') {phase : FlightPhase W R}
    (hphase : pr.OfFlight s q phase) : pr.OfFlight s' q phase := by
  cases phase with
  | worked w => exact h.work q w hphase
  | done r => exact h.result q r hphase
  | _ => trivial

end Promise

/-- The service keeps the promise wherever it works for a question. -/
structure Lawful (sv : Service σ Q K W R A O E) (pr : Promise σ Q W R A) : Prop where
  answer : ∀ s q r, pr.result s q r → pr.answer s q (sv.answer s r)
  worked : ∀ s q o, pr.Kept s (sv.worked s q o)
  outcome : ∀ s q o w, sv.outcome q o = .inl w → pr.work (sv.worked s q o) q w
  failed : ∀ s q o r, sv.outcome q o = .inr r → pr.result (sv.worked s q o) q r
  stored : ∀ s q w, pr.Kept s (sv.store s q w)
  result : ∀ s q w, pr.work s q w → pr.result (sv.store s q w) q (sv.result w)

variable [DecidableEq K]

/-- The promise holds of all that is on its way, and whoever waits at a flight can use its
result. -/
structure Sound (sv : Service σ Q K W R A O E) (pr : Promise σ Q W R A)
    (g : Group σ Q K W R A) : Prop where
  flights : ∀ k f, g.flights.lookup k = some f → sv.key f.question = k
    ∧ pr.OfFlight g.shared f.question f.phase
  calls : ∀ call ∈ g.calls, pr.OfCall g.shared call.question call.phase
  waiting : ∀ call ∈ g.calls, call.phase = .waiting →
    ∃ f, g.flights.lookup (sv.key call.question) = some f ∧ pr.Serves f.question call.question

namespace Sound

variable {sv : Service σ Q K W R A O E} {pr : Promise σ Q W R A} {g g' : Group σ Q K W R A}

theorem init (s : σ) : Sound sv pr { shared := s } where
  flights _ _ hf := absurd hf AList.lookup_empty_ne
  calls _ hcall := absurd hcall List.not_mem_nil
  waiting _ hcall := absurd hcall List.not_mem_nil

theorem call (h : Sound sv pr g) (q : Q) :
    Sound sv pr { g with calls := g.calls ++ [{ question := q }] } where
  flights := h.flights
  calls call hcall := by
    rcases List.mem_append.mp hcall with hcall | hcall
    · exact h.calls call hcall
    · rw [List.mem_singleton.mp hcall]
      trivial
  waiting call hcall hwait := by
    rcases List.mem_append.mp hcall with hcall | hcall
    · exact h.waiting call hcall hwait
    · rw [List.mem_singleton.mp hcall] at hwait
      cases hwait

theorem setPhase (h : Sound sv pr g) {c : ℕ} {call : Call Q R A} {phase : CallPhase R A}
    (hphase : pr.OfCall g.shared call.question phase)
    (hwaiting : phase = .waiting → ∃ f, g.flights.lookup (sv.key call.question) = some f
      ∧ pr.Serves f.question call.question) :
    Sound sv pr (g.setPhase c call phase) where
  flights := h.flights
  calls call' hcall' := by
    rcases List.mem_or_eq_of_mem_set hcall' with hmem | rfl
    · exact h.calls call' hmem
    · exact hphase
  waiting call' hcall' hwait := by
    rcases List.mem_or_eq_of_mem_set hcall' with hmem | rfl
    · exact h.waiting call' hmem hwait
    · exact hwaiting hwait

/-- A flight starts, or goes on with its question. -/
theorem fly (h : Sound sv pr g) {k : K} {f : Flight Q W R} (hkey : sv.key f.question = k)
    (hphase : pr.OfFlight g.shared f.question f.phase)
    (hsame : ∀ f', g.flights.lookup k = some f' → f'.question = f.question) :
    Sound sv pr (g.fly k f) where
  flights k' f' hf' := by
    rw [Group.fly, AList.lookup_insert_ite] at hf'
    split_ifs at hf' with hk
    · cases hf'
      exact ⟨hkey.trans hk.symm, hphase⟩
    · exact h.flights k' f' hf'
  calls := h.calls
  waiting call hcall hwait := by
    obtain ⟨f', hf', hserves⟩ := h.waiting call hcall hwait
    rw [Group.fly, AList.lookup_insert_ite]
    split_ifs with hk
    · exact ⟨f, rfl, hsame f' (hk ▸ hf') ▸ hserves⟩
    · exact ⟨f', hf', hserves⟩

/-- A flight goes on. -/
theorem setFlight (h : Sound sv pr g) {k : K} {f : Flight Q W R} {phase : FlightPhase W R}
    (hflight : g.flights.lookup k = some f) (hphase : pr.OfFlight g.shared f.question phase) :
    Sound sv pr (g.fly k { f with phase }) := by
  refine h.fly (h.flights k f hflight).1 hphase fun f' hf' ↦ ?_
  rw [hflight] at hf'
  cases hf'
  rfl

theorem finish (h : Sound sv pr g) {k : K} {f : Flight Q W R} {r : R}
    (hflight : g.flights.lookup k = some f) (hphase : f.phase = .done r) :
    Sound sv pr { g with flights := g.flights.erase k, calls := g.calls.map (sv.deliver k r) } where
  flights k' f' hf' := by
    rw [AList.lookup_erase_ite] at hf'
    split_ifs at hf'
    exact h.flights k' f' hf'
  calls call' hcall' := by
    obtain ⟨call, hcall, rfl⟩ := List.mem_map.mp hcall'
    rw [Service.question_deliver, Service.deliver]
    split
    · rename_i hwait
      split_ifs with hkey
      · -- The call waits at this flight, whose result serves it.
        obtain ⟨f', hf', hserves⟩ := h.waiting call hcall hwait
        rw [hkey, hflight] at hf'
        cases hf'
        have hdone := (h.flights k f hflight).2
        rw [hphase] at hdone
        exact hserves _ _ hdone
      · exact h.calls call hcall
    · exact h.calls call hcall
  waiting call' hcall' hwait := by
    obtain ⟨call, hcall, rfl⟩ := List.mem_map.mp hcall'
    rw [Service.question_deliver, AList.lookup_erase_ite]
    rw [Service.deliver] at hwait
    split at hwait
    · split_ifs at hwait with hkey
      rw [if_neg hkey]
      exact h.waiting call hcall hwait
    · exact absurd hwait ‹_›

/-- The state of the service changes. -/
theorem kept (h : Sound sv pr g) {s : σ} (hkept : pr.Kept g.shared s) :
    Sound sv pr { g with shared := s } where
  flights k f hf := ⟨(h.flights k f hf).1, hkept.ofFlight (h.flights k f hf).2⟩
  calls call hcall := hkept.ofCall (h.calls call hcall)
  waiting := h.waiting

/-- No result is on its way. -/
theorem of_quiet (h : Sound sv pr g) (hquiet : g.quiet) {s : σ}
    (hanswer : ∀ q a, pr.answer g.shared q a → pr.answer s q a) :
    Sound sv pr { g with shared := s } := by
  rw [Group.quiet, Bool.and_eq_true, List.all_eq_true, List.all_eq_true] at hquiet
  refine ⟨fun k f hf ↦ ⟨(h.flights k f hf).1, ?_⟩, fun call hcall ↦ ?_, h.waiting⟩
  · have hbusy := hquiet.2 ⟨k, f⟩ (AList.mem_lookup_iff.mp hf)
    rw [Flight.busy] at hbusy
    cases hphase : f.phase with
    | working => trivial
    | _ => rw [hphase] at hbusy; cases hbusy
  · have hidle := hquiet.1 call hcall
    have hsound := h.calls call hcall
    rw [Call.idle] at hidle
    cases hphase : call.phase with
    | returned a =>
      rw [hphase] at hsound
      exact hanswer _ a hsound
    | delivered r => rw [hphase] at hidle; cases hidle
    | _ => trivial

/-- A step keeps the promise if the cache is right for the questions that are asked, if calls join
only flights that serve them, and if what happens beside the calls keeps it. -/
theorem step (h : Sound sv pr g) (hlawful : Lawful sv pr) {a : Step Q K O E}
    (hstep : sv.step g a = some g')
    (hcached : ∀ q ∈ g.asked, ∀ r, sv.cached g.shared q = some r → pr.result g.shared q r)
    (hjoin : ∀ c, a = .caller c .join → ∀ call ∈ g.calls[c]?, call.pending →
      ∀ f ∈ g.flights.lookup (sv.key call.question), pr.Serves f.question call.question)
    (hother : ∀ e, a = .other e → Sound sv pr { g with shared := sv.other g.shared e }) :
    Sound sv pr g' := by
  cases Service.moves_of_step hstep with
  | call q => exact h.call q
  | hit hcall hpending hhit =>
    refine h.setPhase (hlawful.answer _ _ _ ?_) (by rintro ⟨⟩)
    exact hcached _ (Service.asked_of_call hcall hpending) _ hhit
  | miss hcall hpending => exact h.setPhase trivial (by rintro ⟨⟩)
  | join hcall hpending hflight =>
    exact h.setPhase trivial fun _ ↦ ⟨_, hflight, hjoin _ rfl _ hcall hpending _ hflight⟩
  | start hcall hpending hflight =>
    have hstart := h.fly (f := { question := _ }) rfl trivial fun f' hf' ↦ by
      rw [hflight] at hf'
      cases hf'
    exact hstart.setPhase trivial fun _ ↦ ⟨_, AList.lookup_insert _, fun _ _ hr ↦ hr⟩
  | leave hcall hpending => exact h.setPhase trivial (by rintro ⟨⟩)
  | take hcall hpending hphase =>
    have hresult := h.calls _ (List.mem_of_getElem? hcall)
    rw [hphase] at hresult
    exact h.setPhase (hlawful.answer _ _ _ hresult) (by rintro ⟨⟩)
  | recheckHit hflight hhit =>
    exact h.setFlight hflight (hcached _ (Service.asked_of_flight hflight) _ hhit)
  | recheckMiss hflight => exact h.setFlight hflight trivial
  | work hflight houtcome =>
    exact (h.kept (hlawful.worked _ _ _)).setFlight hflight (hlawful.outcome _ _ _ _ houtcome)
  | fail hflight houtcome =>
    exact (h.kept (hlawful.worked _ _ _)).setFlight hflight (hlawful.failed _ _ _ _ houtcome)
  | store hflight hphase =>
    have hwork := (h.flights _ _ hflight).2
    rw [hphase] at hwork
    exact (h.kept (hlawful.stored _ _ _)).setFlight hflight (hlawful.result _ _ _ hwork)
  | finish hflight hphase => exact h.finish hflight hphase
  | other e => exact hother e rfl

end Sound
end Singleflight
