import Kaalm.Foundation.GoMap
import Kaalm.Foundation.Run

/-!
# The storage-version migrator

A pass of the migrator goes through the kinds. For a kind whose CRD has another entry in
`storedVersions` it lists the objects page by page, sends an empty patch for each, and then trims
`storedVersions`. Each of its API calls is a step; between two calls objects are created, updated
and deleted, a call can fail before or after it took effect, and the process can restart at any
point.

The invariant is about the objects that are not yet stored at the storage version: as a pass goes
on, they are among the items of the page that were not patched and the part of the snapshot that was
not listed (`Phase.Covers`). Other writers only store at the storage version, so the rest never gets
worse, and when the pass comes to the trim there is nothing left.
-/

namespace Kaalm.StorageMigration

/-! ## The API server -/

structure StoredObject where
  storedAt : String
  resourceVersion : ℕ := 1
  deriving DecidableEq

structure CRDVersion where
  name : String
  storage : Bool
  deriving DecidableEq

/-- A CRD, with the objects of its kind by namespace and name. -/
structure CRD where
  versions : List CRDVersion
  storedVersions : List String
  objects : GoMap String StoredObject := ∅
  deriving DecidableEq

/-- An object of a list, as far as the migrator reads it. -/
structure Item where
  name : String
  resourceVersion : ℕ
  deriving DecidableEq

namespace CRD

/-- The version that a write stores an object at. -/
def storageVersion (c : CRD) : String :=
  match c.versions.find? CRDVersion.storage with
  | some v => v.name
  | none => ""

/-- A write that changes the object. -/
def write (c : CRD) (name : String) (resourceVersion : ℕ) : CRD :=
  { c with objects := c.objects.insert name ⟨c.storageVersion, resourceVersion⟩ }

/-- An empty patch is a write only if it changes the stored bytes. -/
def patch (c : CRD) (name : String) : CRD :=
  match c.objects.lookup name with
  | some o => if o.storedAt = c.storageVersion then c else c.write name (o.resourceVersion + 1)
  | none => c

def items (c : CRD) : List Item := c.objects.entries.map fun e ↦ ⟨e.1, e.2.resourceVersion⟩

end CRD

/-- The calls of the migrator. A continue token stands for the part of the snapshot that was not yet
listed; the empty token asks for a new snapshot. -/
inductive Request where
  | get
  | list (limit : ℕ) (token : List Item)
  | patch (name : String)
  | trim (storedVersions : List String)

inductive Response where
  | error
  | crd (c : CRD)
  | page (items token : List Item)
  | object (resourceVersion : ℕ)
  | ok

namespace Request

/-- What a call does to the CRD and its objects. -/
def apply (c : CRD) : Request → CRD
  | get | list .. => c
  | patch name => c.patch name
  | trim storedVersions => { c with storedVersions }

def answer (c : CRD) : Request → Response
  | get => .crd c
  | list limit token =>
      let items := if token = [] then c.items else token
      .page (items.take limit) (items.drop limit)
  | patch name =>
      match (c.patch name).objects.lookup name with
      | some o => .object o.resourceVersion
      | none => .error
  | trim _ => .ok

end Request

/-! ## A pass -/

def storageVersion : String := "v1beta1"

structure Entry where
  crdName : String
  kind : String
  deriving DecidableEq

def kinds : List Entry :=
  [⟨"agentclasses.kaalm.io", "AgentClass"⟩, ⟨"modelproviders.kaalm.io", "ModelProvider"⟩,
    ⟨"toolproviders.kaalm.io", "ToolProvider"⟩, ⟨"agents.kaalm.io", "Agent"⟩,
    ⟨"agenttasks.kaalm.io", "AgentTask"⟩, ⟨"agentchannels.kaalm.io", "AgentChannel"⟩]

/-- `migrated`. -/
def migrated (stored : List String) (version : String) : Bool := stored = [version]

/-- `storesAt`. -/
def storesAt (c : CRD) (version : String) : Bool :=
  match c.versions.find? CRDVersion.storage with
  | some v => v.name = version
  | none => false

structure Migrator where
  pageSize : ℤ := 0

def Migrator.limit (m : Migrator) : ℕ := if m.pageSize ≤ 0 then 500 else m.pageSize.toNat

/-- Where `migrateKind` is, before its next call. The numbers are the objects seen and moved. -/
inductive Phase where
  | get
  | list (token : List Item) (seen moved : ℕ)
  | patch (item : Item) (items token : List Item) (seen moved : ℕ)
  | trim (seen moved : ℕ)
  deriving DecidableEq

inductive Outcome where
  | go (phase : Phase)
  | skipped
  | failed
  | migrated
  deriving DecidableEq

namespace Phase

def request (m : Migrator) : Phase → Request
  | get => .get
  | list token _ _ => .list m.limit token
  | patch item _ _ _ _ => .patch item.name
  | trim _ _ => .trim [storageVersion]

/-- The loop of `rewriteAll`, when `items` are left of the page. -/
def afterItems (items token : List Item) (seen moved : ℕ) : Phase :=
  match items with
  | item :: items => patch item items token seen moved
  | [] => if token = [] then trim seen moved else list token seen moved

def next : Phase → Response → Outcome
  | get, .crd c =>
      if StorageMigration.migrated c.storedVersions storageVersion then .skipped
      else if storesAt c storageVersion then .go (list [] 0 0)
      else .failed
  | list _ seen moved, .page items token => .go (afterItems items token seen moved)
  | patch item items token seen moved, .object resourceVersion =>
      .go (afterItems items token (seen + 1)
        (if resourceVersion ≠ item.resourceVersion then moved + 1 else moved))
  | trim _ _, .ok => .migrated
  | _, _ => .failed

end Phase

/-- A pass: the kinds that are left, the first one under way, and the CRDs of the errors. -/
structure Pass where
  todo : List Entry
  phase : Phase := .get
  errs : List String := []
  migratedKinds : ℕ := 0
  deriving DecidableEq

/-- `Migrate`, when `migrateKind` has got so far with kind `k`. -/
def Pass.next (p : Pass) (k : Entry) : Outcome → Pass
  | .go phase => { p with phase }
  | .skipped => { p with todo := p.todo.tail, phase := .get }
  | .failed => { p with todo := p.todo.tail, phase := .get, errs := p.errs ++ [k.crdName] }
  | .migrated =>
      { p with todo := p.todo.tail, phase := .get, migratedKinds := p.migratedKinds + 1 }

/-! ## The system -/

/-- The CRDs by name, and the last pass of this process. -/
structure System where
  crds : GoMap String CRD
  pass : Option Pass := none
  deriving DecidableEq

inductive Event where
  /-- `Start` runs `Migrate`. -/
  | begin
  | call
  /-- The call fails, after it took effect or before. -/
  | fail (applied : Bool)
  /-- The process ends in a call, after it took effect or before. -/
  | restart (applied : Bool)
  | create (crd name : String)
  | update (crd name : String)
  | delete (crd name : String)
  deriving DecidableEq

namespace System

/-- Change one CRD, if it exists. -/
def modify (s : System) (crd : String) (f : CRD → CRD) : System :=
  match s.crds.lookup crd with
  | some c => { s with crds := s.crds.insert crd (f c) }
  | none => s

/-- The call that the pass makes takes effect. -/
def effect (m : Migrator) (s : System) (p : Pass) (k : Entry) : System :=
  s.modify k.crdName (p.phase.request m).apply

/-- The call takes effect or not. -/
def attempt (m : Migrator) (s : System) (p : Pass) (k : Entry) (applied : Bool) : System :=
  if applied then s.effect m p k else s

/-- The answer to the call that the pass makes. -/
def response (m : Migrator) (s : System) (p : Pass) (k : Entry) : Response :=
  match s.crds.lookup k.crdName with
  | some c => (p.phase.request m).answer c
  | none => .error

/-- The pass and the kind under way. -/
def current (s : System) : Option (Pass × Entry) :=
  s.pass.bind fun p ↦ p.todo.head?.map fun k ↦ (p, k)

def step (m : Migrator) (s : System) : Event → Option System
  | .begin => if s.current = none then some { s with pass := some { todo := kinds } } else none
  | .call => s.current.map fun (p, k) ↦
      { s.effect m p k with pass := some (p.next k (p.phase.next (s.response m p k))) }
  | .fail applied => s.current.map fun (p, k) ↦
      { s.attempt m p k applied with pass := some (p.next k (p.phase.next .error)) }
  | .restart applied => match s.current with
      | some (p, k) => some { s.attempt m p k applied with pass := none }
      | none => some { s with pass := none }
  | .create crd name => (s.crds.lookup crd).bind fun c ↦
      if name ∈ c.objects then none else some (s.modify crd fun c ↦ c.write name 1)
  | .update crd name => (s.crds.lookup crd).bind fun c ↦
      (c.objects.lookup name).map fun o ↦
        s.modify crd fun c ↦ c.write name (o.resourceVersion + 1)
  | .delete crd name =>
      some (s.modify crd fun c ↦ { c with objects := c.objects.erase name })

end System

/-! ## What is not yet migrated -/

/-- Every object that is stored at another version is among `names`. -/
def Left (c : CRD) (names : List String) : Prop :=
  ∀ name o, c.objects.lookup name = some o → o.storedAt = storageVersion ∨ name ∈ names

/-- What is left, at a point of the rewrite. -/
def Phase.Covers (c : CRD) : Phase → Prop
  | get => True
  | list token _ _ => token = [] ∨ Left c (token.map Item.name)
  | patch item items token _ _ => Left c ((item :: items ++ token).map Item.name)
  | trim _ _ => Left c []

/-- A CRD with the storage version, whose `storedVersions` do not hide an object. -/
structure Honest (c : CRD) : Prop where
  stores : c.storageVersion = storageVersion
  migrated : c.storedVersions = [storageVersion] → Left c []

section

variable {c : CRD} {names : List String} {name : String}

theorem storageVersion_of_storesAt (h : storesAt c storageVersion) :
    c.storageVersion = storageVersion := by
  rw [storesAt] at h
  rw [CRD.storageVersion]
  split at h
  · exact of_decide_eq_true h
  · cases h

/-- Whoever writes stores at the storage version. -/
theorem Left.write (h : Left c names) (hstores : c.storageVersion = storageVersion)
    (resourceVersion : ℕ) : Left (c.write name resourceVersion) names := by
  intro name' o ho
  rw [CRD.write, AList.lookup_insert_ite] at ho
  split at ho
  · cases ho
    exact Or.inl hstores
  · exact h name' o ho

theorem Left.erase (h : Left c names) :
    Left { c with objects := c.objects.erase name } names := by
  intro name' o ho
  rw [AList.lookup_erase_ite] at ho
  split at ho
  · cases ho
  · exact h name' o ho

theorem Left.patch (h : Left c names) (hstores : c.storageVersion = storageVersion) :
    Left (c.patch name) names := by
  rw [CRD.patch]
  split
  · split
    · exact h
    · exact h.write hstores _
  · exact h

/-- A patch that goes through leaves one object less. -/
theorem Left.patch_cons (h : Left c (name :: names)) (hstores : c.storageVersion = storageVersion) :
    Left (c.patch name) names := by
  have hpatch : Left (c.patch name) (name :: names) := h.patch hstores
  intro name' o ho
  rcases hpatch name' o ho with ho' | hmem
  · exact Or.inl ho'
  · rcases List.mem_cons.mp hmem with rfl | hmem
    · left
      rw [CRD.patch] at ho
      split at ho
      · split at ho
        · rename_i o' ho' hat
          rw [ho'] at ho
          cases ho
          exact hat.trans hstores
        · rw [CRD.write, AList.lookup_insert] at ho
          cases ho
          exact hstores
      · rename_i hnone
        rw [hnone] at ho
        cases ho
    · exact Or.inr hmem

theorem left_items (c : CRD) : Left c (c.items.map Item.name) := by
  intro name o ho
  right
  rw [CRD.items, List.map_map]
  exact List.mem_map.mpr ⟨⟨name, o⟩, AList.mem_lookup_iff.mp ho, rfl⟩

/-- A change that leaves no more objects than before. -/
structure Improves (c c' : CRD) : Prop where
  storageVersion : c'.storageVersion = c.storageVersion
  storedVersions : c'.storedVersions = c.storedVersions
  left : ∀ names, Left c names → Left c' names

theorem improves_write (hstores : c.storageVersion = storageVersion) (resourceVersion : ℕ) :
    Improves c (c.write name resourceVersion) :=
  ⟨rfl, rfl, fun _ h ↦ h.write hstores resourceVersion⟩

theorem improves_patch (hstores : c.storageVersion = storageVersion) :
    Improves c (c.patch name) := by
  refine ⟨?_, ?_, fun _ h ↦ h.patch hstores⟩ <;> rw [CRD.patch] <;> split
  · split <;> rfl
  · rfl
  · split <;> rfl
  · rfl

theorem Improves.honest {c' : CRD} (h : Improves c c') (hc : Honest c) : Honest c' :=
  ⟨h.storageVersion.trans hc.stores, fun hstored ↦
    h.left [] (hc.migrated (h.storedVersions.symm.trans hstored))⟩

theorem Improves.covers {c' : CRD} (h : Improves c c') {phase : Phase} (hc : phase.Covers c) :
    phase.Covers c' := by
  cases phase with
  | get => trivial
  | list token seen moved => exact hc.imp id (h.left _)
  | patch item items token seen moved => exact h.left _ hc
  | trim seen moved => exact h.left _ hc

/-- The call of a pass keeps the CRD honest; for the trim, that nothing is left is what matters. -/
theorem Honest.apply (hc : Honest c) (m : Migrator) {phase : Phase} (hphase : phase.Covers c) :
    Honest ((phase.request m).apply c) := by
  cases phase with
  | get => exact hc
  | list token seen moved => exact hc
  | patch item items token seen moved => exact (improves_patch hc.stores).honest hc
  | trim seen moved => exact ⟨hc.stores, fun _ ↦ hphase⟩

theorem covers_afterItems {items token : List Item}
    (h : Left c ((items ++ token).map Item.name)) (seen moved : ℕ) :
    (Phase.afterItems items token seen moved).Covers c := by
  cases items with
  | cons item items => exact h
  | nil =>
    rw [Phase.afterItems]
    split
    · rename_i htoken
      rw [htoken] at h
      exact h
    · exact Or.inr h

theorem left_snapshot {token : List Item} (h : token = [] ∨ Left c (token.map Item.name)) :
    Left c ((if token = [] then c.items else token).map Item.name) := by
  by_cases htoken : token = []
  · rw [if_pos htoken]
    exact left_items c
  · rw [if_neg htoken]
    exact h.resolve_left htoken

/-- A call that lets the pass go on with the kind. -/
theorem covers_next (hc : Honest c) (m : Migrator) {phase phase' : Phase} (hphase : phase.Covers c)
    (hgo : phase.next ((phase.request m).answer c) = .go phase') :
    phase'.Covers ((phase.request m).apply c) := by
  cases phase with
  | get =>
    rw [Phase.request, Request.answer, Phase.next] at hgo
    split at hgo
    · cases hgo
    · split at hgo
      · cases hgo
        exact Or.inl rfl
      · cases hgo
  | list token seen moved =>
    cases hgo
    refine covers_afterItems ?_ seen moved
    rw [List.take_append_drop]
    exact left_snapshot hphase
  | patch item items token seen moved =>
    rw [Phase.request, Request.answer] at hgo
    split at hgo
    · cases hgo
      exact covers_afterItems (Left.patch_cons hphase hc.stores) _ _
    · cases hgo
  | trim seen moved => cases hgo

end

/-! ## Events -/

namespace System

/-- How far the pass is with the kind of a CRD. -/
def phaseAt (s : System) (n : String) : Phase :=
  match s.current with
  | some (p, k) => if k.crdName = n then p.phase else .get
  | none => .get

/-- The CRD hides nothing, and the pass knows what is left. -/
def Tracked (s : System) (n : String) : Prop :=
  ∀ c, s.crds.lookup n = some c → Honest c ∧ (s.phaseAt n).Covers c

variable {s s' : System} {m : Migrator} {n : String}

theorem lookup_modify (crd : String) (f : CRD → CRD) : (s.modify crd f).crds.lookup n
    = if n = crd then (s.crds.lookup n).map f else s.crds.lookup n := by
  rw [modify]
  by_cases h : n = crd
  · rw [h, if_pos rfl]
    cases hc : s.crds.lookup crd with
    | none => exact hc
    | some c => exact AList.lookup_insert s.crds
  · rw [if_neg h]
    cases s.crds.lookup crd with
    | none => rfl
    | some c => exact AList.lookup_insert_ne h

theorem modify_pass (crd : String) (f : CRD → CRD) : (s.modify crd f).pass = s.pass := by
  rw [modify]
  split <;> rfl

theorem modify_phaseAt (crd : String) (f : CRD → CRD) :
    (s.modify crd f).phaseAt n = s.phaseAt n := by
  rw [phaseAt, current, modify_pass, phaseAt, current]

/-- Other writers. -/
theorem Tracked.modify (h : s.Tracked n) {crd : String} {f : CRD → CRD}
    (hf : ∀ c, c.storageVersion = storageVersion → Improves c (f c)) :
    (s.modify crd f).Tracked n := by
  intro c' hc'
  rw [modify_phaseAt]
  rw [lookup_modify] at hc'
  split at hc'
  · obtain ⟨c, hc, rfl⟩ := Option.map_eq_some_iff.mp hc'
    obtain ⟨hhonest, hcovers⟩ := h c hc
    have himproves := hf c hhonest.stores
    exact ⟨himproves.honest hhonest, himproves.covers hcovers⟩
  · exact h c' hc'

theorem exists_current {p : Pass} {k : Entry} (h : s.current = some (p, k)) :
    s.pass = some p ∧ ∃ rest, p.todo = k :: rest := by
  obtain ⟨p', hp, h⟩ := Option.bind_eq_some_iff.mp h
  obtain ⟨k', hk, h⟩ := Option.map_eq_some_iff.mp h
  cases h
  exact ⟨hp, List.head?_eq_some_iff.mp hk⟩

theorem phaseAt_of_current {p : Pass} {k : Entry} (h : s.current = some (p, k)) :
    s.phaseAt n = if k.crdName = n then p.phase else .get := by
  rw [phaseAt, h]

theorem phaseAt_start (crds : GoMap String CRD) {p : Pass} (hp : p.phase = .get) :
    ({ crds, pass := some p } : System).phaseAt n = .get := by
  rw [phaseAt]
  split
  · rename_i p' k hcurrent
    obtain ⟨hp', -⟩ := exists_current hcurrent
    cases hp'
    rw [hp, ite_self]
  · rfl

/-- After its call the pass is still at the kind, or at the start of another one. -/
theorem phaseAt_next {p : Pass} {k : Entry} (h : s.current = some (p, k)) (crds : GoMap String CRD)
    (o : Outcome) : ({ crds, pass := some (p.next k o) } : System).phaseAt n = .get
      ∨ ∃ phase, o = .go phase ∧ k.crdName = n
        ∧ ({ crds, pass := some (p.next k o) } : System).phaseAt n = phase := by
  obtain ⟨-, rest, hrest⟩ := exists_current h
  cases o with
  | go phase =>
    have hcurrent : ({ crds, pass := some (p.next k (.go phase)) } : System).current
        = some (p.next k (.go phase), k) := by
      rw [current, Option.bind_some, Pass.next, hrest]
      rfl
    rw [phaseAt_of_current hcurrent]
    by_cases hk : k.crdName = n
    · rw [if_pos hk]
      exact Or.inr ⟨phase, rfl, hk, rfl⟩
    · rw [if_neg hk]
      exact Or.inl rfl
  | skipped => exact Or.inl (phaseAt_start crds rfl)
  | failed => exact Or.inl (phaseAt_start crds rfl)
  | migrated => exact Or.inl (phaseAt_start crds rfl)

/-- What an event does. Other writers change one CRD and leave no more objects than before. -/
inductive Moves (m : Migrator) (s : System) : Event → System → Prop where
  | begin (hidle : s.current = none) : Moves m s .begin { s with pass := some { todo := kinds } }
  | call {p : Pass} {k : Entry} (hcurrent : s.current = some (p, k)) : Moves m s .call
      { s.effect m p k with pass := some (p.next k (p.phase.next (s.response m p k))) }
  | fail {p : Pass} {k : Entry} (hcurrent : s.current = some (p, k)) (applied : Bool) :
      Moves m s (.fail applied)
        { s.attempt m p k applied with pass := some (p.next k (p.phase.next .error)) }
  | restart {p : Pass} {k : Entry} (hcurrent : s.current = some (p, k)) (applied : Bool) :
      Moves m s (.restart applied) { s.attempt m p k applied with pass := none }
  | halt (applied : Bool) (hidle : s.current = none) :
      Moves m s (.restart applied) { s with pass := none }
  | write {e : Event} {crd : String} {f : CRD → CRD}
      (hstored : ∀ c, (f c).storedVersions = c.storedVersions)
      (hf : ∀ c, c.storageVersion = storageVersion → Improves c (f c)) :
      Moves m s e (s.modify crd f)

theorem moves_of_step {e : Event} (hstep : s.step m e = some s') : Moves m s e s' := by
  cases e with
  | begin =>
    rw [System.step] at hstep
    split at hstep
    · cases hstep
      exact .begin ‹_›
    · cases hstep
  | call =>
    obtain ⟨⟨p, k⟩, hcurrent, rfl⟩ := Option.map_eq_some_iff.mp hstep
    exact .call hcurrent
  | fail applied =>
    obtain ⟨⟨p, k⟩, hcurrent, rfl⟩ := Option.map_eq_some_iff.mp hstep
    exact .fail hcurrent applied
  | restart applied =>
    rw [System.step] at hstep
    split at hstep
    · cases hstep
      exact .restart ‹_› applied
    · cases hstep
      exact .halt applied ‹_›
  | create crd name =>
    obtain ⟨c, -, hstep⟩ := Option.bind_eq_some_iff.mp hstep
    split at hstep
    · cases hstep
    · cases hstep
      exact .write (fun _ ↦ rfl) fun _ hstores ↦ improves_write hstores 1
  | update crd name =>
    obtain ⟨c, -, hstep⟩ := Option.bind_eq_some_iff.mp hstep
    obtain ⟨o, -, rfl⟩ := Option.map_eq_some_iff.mp hstep
    exact .write (fun _ ↦ rfl) fun _ hstores ↦ improves_write hstores _
  | delete crd name =>
    cases hstep
    exact .write (fun _ ↦ rfl) fun _ _ ↦ ⟨rfl, rfl, fun _ hleft ↦ hleft.erase⟩

theorem next_error (phase : Phase) : phase.next .error = .failed := by
  cases phase <;> rfl

theorem Tracked.effect (h : s.Tracked n) {p : Pass} {k : Entry} (hcurrent : s.current = some (p, k))
    {c' : CRD} (hc' : (s.effect m p k).crds.lookup n = some c') : Honest c' := by
  rw [System.effect, lookup_modify] at hc'
  split at hc'
  · rename_i hn
    obtain ⟨c, hc, rfl⟩ := Option.map_eq_some_iff.mp hc'
    obtain ⟨hhonest, hcovers⟩ := h c hc
    rw [phaseAt_of_current hcurrent, if_pos hn.symm] at hcovers
    exact hhonest.apply m hcovers
  · exact (h c' hc').1

theorem Tracked.attempt (h : s.Tracked n) {p : Pass} {k : Entry}
    (hcurrent : s.current = some (p, k)) {applied : Bool} {c' : CRD}
    (hc' : (s.attempt m p k applied).crds.lookup n = some c') : Honest c' := by
  cases applied with
  | true => exact h.effect hcurrent hc'
  | false => exact (h c' hc').1

theorem Tracked.call (h : s.Tracked n) {p : Pass} {k : Entry} (hcurrent : s.current = some (p, k)) :
    ({ s.effect m p k with pass := some (p.next k (p.phase.next (s.response m p k))) } :
      System).Tracked n := by
  intro c' hc'
  refine ⟨h.effect hcurrent hc', ?_⟩
  rcases phaseAt_next (n := n) hcurrent (s.effect m p k).crds (p.phase.next (s.response m p k))
    with hget | ⟨phase, hgo, hk, hphase⟩
  · rw [hget]
    trivial
  · rw [hphase]
    rw [System.effect, lookup_modify, if_pos hk.symm] at hc'
    obtain ⟨c, hc, rfl⟩ := Option.map_eq_some_iff.mp hc'
    obtain ⟨hhonest, hcovers⟩ := h c hc
    rw [phaseAt_of_current hcurrent, if_pos hk] at hcovers
    rw [response, hk, hc] at hgo
    exact covers_next hhonest m hcovers hgo

theorem Tracked.step (h : s.Tracked n) {e : Event} (hstep : s.step m e = some s') :
    s'.Tracked n := by
  cases moves_of_step hstep with
  | begin hidle =>
    intro c hc
    refine ⟨(h c hc).1, ?_⟩
    rw [phaseAt_start _ rfl]
    trivial
  | call hcurrent => exact h.call hcurrent
  | fail hcurrent applied =>
    intro c' hc'
    refine ⟨h.attempt hcurrent hc', ?_⟩
    rw [next_error, phaseAt_start _ rfl]
    trivial
  | restart hcurrent applied => exact fun c' hc' ↦ ⟨h.attempt hcurrent hc', trivial⟩
  | halt applied hidle => exact fun c hc ↦ ⟨(h c hc).1, trivial⟩
  | write hstored hf => exact h.modify hf

/-! ## A kind that failed -/

/-- The pass is done with the kind of `n`, which has these `storedVersions`. -/
structure Settled (s : System) (n : String) (stored : Option (List String)) : Prop where
  stored : (s.crds.lookup n).map CRD.storedVersions = stored
  todo : ∀ p, s.pass = some p → n ∉ p.todo.map Entry.crdName

theorem map_lookup_modify {crd : String} {f : CRD → CRD}
    (hf : crd = n → ∀ c, (f c).storedVersions = c.storedVersions) :
    ((s.modify crd f).crds.lookup n).map CRD.storedVersions
      = (s.crds.lookup n).map CRD.storedVersions := by
  rw [lookup_modify]
  split
  · rename_i hn
    cases s.crds.lookup n with
    | none => rfl
    | some c => exact congrArg some (hf hn.symm c)
  · rfl

theorem Settled.modify {stored : Option (List String)} (h : s.Settled n stored) {crd : String}
    {f : CRD → CRD} (hf : crd = n → ∀ c, (f c).storedVersions = c.storedVersions) :
    (s.modify crd f).Settled n stored :=
  ⟨(map_lookup_modify hf).trans h.stored, by rw [modify_pass]; exact h.todo⟩

theorem Settled.effect {stored : Option (List String)} (h : s.Settled n stored) {p : Pass}
    {k : Entry} (hcurrent : s.current = some (p, k)) : (s.effect m p k).Settled n stored := by
  obtain ⟨hp, rest, hrest⟩ := exists_current hcurrent
  refine h.modify fun hk ↦ absurd ?_ (h.todo p hp)
  rw [hrest, ← hk]
  exact List.mem_cons_self

theorem Settled.attempt {stored : Option (List String)} (h : s.Settled n stored) {p : Pass}
    {k : Entry} (hcurrent : s.current = some (p, k)) (applied : Bool) :
    (s.attempt m p k applied).Settled n stored := by
  cases applied with
  | true => exact h.effect hcurrent
  | false => exact h

theorem todo_next {p : Pass} {k : Entry} (o : Outcome) :
    (p.next k o).todo = p.todo ∨ (p.next k o).todo = p.todo.tail := by
  cases o with
  | go phase => exact Or.inl rfl
  | skipped => exact Or.inr rfl
  | failed => exact Or.inr rfl
  | migrated => exact Or.inr rfl

theorem Settled.next {stored : Option (List String)} (h : s.Settled n stored) {p : Pass}
    (hp : n ∉ p.todo.map Entry.crdName) (k : Entry) (o : Outcome) :
    ({ s with pass := some (p.next k o) } : System).Settled n stored := by
  refine ⟨h.stored, fun q hq ↦ ?_⟩
  cases hq
  rcases todo_next (p := p) (k := k) o with htodo | htodo
  · rwa [htodo]
  · rw [htodo]
    exact fun hn ↦ hp (List.map_subset _ (List.tail_subset _) hn)

/-- Nothing but the pass itself trims. -/
theorem Settled.step {stored : Option (List String)} (h : s.Settled n stored) {e : Event}
    (hbegin : e ≠ .begin) (hstep : s.step m e = some s') : s'.Settled n stored := by
  cases moves_of_step hstep with
  | begin hidle => exact absurd rfl hbegin
  | call hcurrent => exact (h.effect hcurrent).next (h.todo _ (exists_current hcurrent).1) _ _
  | fail hcurrent applied =>
    exact (h.attempt hcurrent applied).next (h.todo _ (exists_current hcurrent).1) _ _
  | restart hcurrent applied => exact ⟨(h.attempt hcurrent applied).stored, nofun⟩
  | halt applied hidle => exact ⟨h.stored, nofun⟩
  | write hstored hf => exact h.modify fun _ ↦ hstored

theorem Settled.run {stored : Option (List String)} (h : s.Settled n stored) {events : List Event}
    (hbegin : .begin ∉ events) (hrun : Run.Runs (System.step m) s events s') :
    s'.Settled n stored := by
  have hsteps : Run.AllSteps (System.step m) (fun _ e ↦ e ≠ .begin) s events :=
    Run.allSteps_of_forall fun e he ↦ ne_of_mem_of_not_mem he hbegin
  have hpreserved : ∀ (t : System) (e : Event) (t' : System), t.Settled n stored → e ≠ .begin →
      t.step m e = some t' → t'.Settled n stored := fun _ _ _ ht he hstep ↦ ht.step he hstep
  exact hrun.invariant_of_allSteps hpreserved hsteps h

/-- A pass comes to each kind once. -/
def Orderly (s : System) : Prop := ∀ p, s.pass = some p → (p.todo.map Entry.crdName).Nodup

theorem Orderly.next {p : Pass} (hp : (p.todo.map Entry.crdName).Nodup) (k : Entry) (o : Outcome)
    (crds : GoMap String CRD) : ({ crds, pass := some (p.next k o) } : System).Orderly := by
  intro q hq
  cases hq
  rcases todo_next (p := p) (k := k) o with htodo | htodo
  · rwa [htodo]
  · rw [htodo, List.map_tail]
    exact hp.tail

theorem Orderly.step (h : s.Orderly) {e : Event} (hstep : s.step m e = some s') : s'.Orderly := by
  cases moves_of_step hstep with
  | begin hidle =>
    intro p hp
    cases hp
    decide
  | call hcurrent => exact Orderly.next (h _ (exists_current hcurrent).1) _ _ _
  | fail hcurrent applied => exact Orderly.next (h _ (exists_current hcurrent).1) _ _ _
  | restart hcurrent applied => exact nofun
  | halt applied hidle => exact nofun
  | write hstored hf =>
    intro p hp
    rw [modify_pass] at hp
    exact h p hp

theorem storedVersions_patch (c : CRD) (name : String) :
    (c.patch name).storedVersions = c.storedVersions := by
  rw [CRD.patch]
  split
  · split <;> rfl
  · rfl

/-- The error of a kind is noted when the pass leaves it. -/
theorem not_mem_todo_of_errs {p : Pass} {k : Entry} {rest : List Entry} (hrest : p.todo = k :: rest)
    (hnodup : (p.todo.map Entry.crdName).Nodup) {o : Outcome}
    (hfailed : (p.next k o).errs = p.errs ++ [k.crdName]) :
    k.crdName ∉ (p.next k o).todo.map Entry.crdName := by
  have hsame : p.errs ≠ p.errs ++ [k.crdName] := by
    intro h
    exact List.cons_ne_nil _ _ (List.self_eq_append_right.mp h)
  cases o with
  | go phase => exact absurd hfailed hsame
  | skipped => exact absurd hfailed hsame
  | migrated => exact absurd hfailed hsame
  | failed =>
    rw [hrest, List.map_cons, List.nodup_cons] at hnodup
    rw [Pass.next, hrest]
    exact hnodup.1

/-- A kind whose rewrite has failed is settled for the rest of the pass. -/
theorem settled_of_failed (h : s.Orderly) {p p' : Pass} {k : Entry} {item : Item}
    {items token : List Item} {seen moved : ℕ} (hcurrent : s.current = some (p, k))
    (hphase : p.phase = .patch item items token seen moved) {e : Event}
    (hstep : s.step m e = some s') (hp' : s'.pass = some p')
    (hfailed : p'.errs = p.errs ++ [k.crdName]) :
    s'.Settled k.crdName ((s.crds.lookup k.crdName).map CRD.storedVersions) := by
  obtain ⟨hp, rest, hrest⟩ := exists_current hcurrent
  have heffect : ((s.effect m p k).crds.lookup k.crdName).map CRD.storedVersions
      = (s.crds.lookup k.crdName).map CRD.storedVersions := by
    rw [System.effect, hphase]
    exact map_lookup_modify fun _ c ↦ storedVersions_patch c item.name
  cases moves_of_step hstep with
  | begin hidle => exact absurd (hidle.symm.trans hcurrent) (by nofun)
  | call hcurrent' =>
    cases hcurrent.symm.trans hcurrent'
    cases hp'
    refine ⟨heffect, fun q hq ↦ ?_⟩
    cases hq
    exact not_mem_todo_of_errs hrest (h p hp) hfailed
  | fail hcurrent' applied =>
    cases hcurrent.symm.trans hcurrent'
    cases hp'
    refine ⟨?_, fun q hq ↦ ?_⟩
    · cases applied with
      | true => exact heffect
      | false => rfl
    · cases hq
      exact not_mem_todo_of_errs hrest (h p hp) hfailed
  | restart hcurrent' applied => cases hp'
  | halt applied hidle => cases hp'
  | write hstored hf =>
    -- The errors are as before.
    rw [modify_pass, hp] at hp'
    cases hp'
    exact absurd (List.self_eq_append_right.mp hfailed) (List.cons_ne_nil _ _)

end System

/-- In every run that starts between passes, with failures, restarts and other writers anywhere: a
CRD with the storage version whose `storedVersions` come to be that version alone has all its
objects stored at it. And when the rewrite of a kind fails at an object, its `storedVersions` stay
as they are at least until another pass begins. -/
theorem trimmed_has_no_old_object {m : Migrator} {s₀ s : System} {events : List Event}
    (hrun : Run.Runs (System.step m) s₀ events s) (hidle : s₀.pass = none) :
    (∀ n c₀ c, s₀.crds.lookup n = some c₀ → storesAt c₀ storageVersion →
      (c₀.storedVersions = [storageVersion] → ∀ name o, c₀.objects.lookup name = some o →
        o.storedAt = storageVersion) →
      s.crds.lookup n = some c → c.storedVersions = [storageVersion] →
      ∀ name o, c.objects.lookup name = some o → o.storedAt = storageVersion)
    ∧ ∀ p k item items token seen moved, s.current = some (p, k) →
      p.phase = .patch item items token seen moved →
      ∀ e s₁ p₁, s.step m e = some s₁ → s₁.pass = some p₁ → p₁.errs = p.errs ++ [k.crdName] →
      ∀ later s₂, Run.Runs (System.step m) s₁ later s₂ → .begin ∉ later →
        (s₂.crds.lookup k.crdName).map CRD.storedVersions
          = (s.crds.lookup k.crdName).map CRD.storedVersions := by
  constructor
  · intro n c₀ c hc₀ hstores hhonest hc hstored name o ho
    have hinit : s₀.Tracked n := by
      intro c' hc'
      cases hc₀.symm.trans hc'
      refine ⟨⟨storageVersion_of_storesAt hstores, fun h name o ho ↦ Or.inl (hhonest h name o ho)⟩,
        ?_⟩
      rw [System.phaseAt, System.current, hidle]
      trivial
    have hpreserved : ∀ (t : System) (e : Event) (t' : System), t.Tracked n →
        t.step m e = some t' → t'.Tracked n := fun _ _ _ ht hstep ↦ ht.step hstep
    have htracked : s.Tracked n := hrun.invariant hpreserved hinit
    exact ((htracked c hc).1.migrated hstored name o ho).resolve_right List.not_mem_nil
  · intro p k item items token seen moved hcurrent hphase e s₁ p₁ hstep hp₁ hfailed later s₂ hlater
      hbegin
    have horderly : s.Orderly := by
      refine hrun.invariant (I := System.Orderly) (fun _ _ _ ht hstep ↦ ht.step hstep) ?_
      rw [System.Orderly, hidle]
      exact nofun
    exact ((System.settled_of_failed horderly hcurrent hphase hstep hp₁ hfailed).run hbegin
      hlater).stored

private def oldClasses : System where
  crds := AList.singleton "agentclasses.kaalm.io"
    { versions := [⟨"v1alpha1", false⟩, ⟨"v1beta1", true⟩]
      storedVersions := ["v1alpha1", "v1beta1"]
      objects := (AList.singleton "small" ⟨"v1alpha1", 1⟩).insert "large" ⟨"v1alpha1", 2⟩ }

private def migratedClass : CRD where
  versions := [⟨"v1alpha1", false⟩, ⟨"v1beta1", true⟩]
  storedVersions := ["v1beta1"]
  objects := ((AList.singleton "large" ⟨"v1beta1", 3⟩).insert "new" ⟨"v1beta1", 1⟩).insert "small"
    ⟨"v1beta1", 2⟩

/-- Two pages, with an object that is created between them. -/
private def migrateClasses : List Event :=
  [.begin, .call, .call, .call, .create "agentclasses.kaalm.io" "new", .call, .call, .call]

theorem trimmed_has_no_old_object_classes :
    Run.Runs (System.step ⟨1⟩) oldClasses migrateClasses
      { crds := AList.singleton "agentclasses.kaalm.io" migratedClass
        pass := some { todo := kinds.tail, migratedKinds := 1 } }
    ∧ oldClasses.pass = none
    ∧ ∀ name o, migratedClass.objects.lookup name = some o → o.storedAt = storageVersion := by
  have hrun : Run.Runs (System.step ⟨1⟩) oldClasses migrateClasses
      { crds := AList.singleton "agentclasses.kaalm.io" migratedClass
        pass := some { todo := kinds.tail, migratedKinds := 1 } } := by decide +kernel
  exact ⟨hrun, rfl, (trimmed_has_no_old_object hrun rfl).1 "agentclasses.kaalm.io" _ migratedClass
    (by rfl) (by decide +kernel) (fun h ↦ absurd h (by decide +kernel)) (by rfl) rfl⟩

end Kaalm.StorageMigration
