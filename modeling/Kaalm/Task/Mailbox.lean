import Kaalm.Foundation.GoJson
import Kaalm.Foundation.RenamedMap

/-!
# The completion mailbox

A task Pod reports its completion to the gateway, which checks the caller and the payload and
patches a ConfigMap, the mailbox. The reconciler decodes the mailbox.

The payload is flattened into the data of the ConfigMap: a key for the status, one for the message
if there is one, and one for each artifact. The write is a merge patch, so a key that a payload does
not have keeps the value of an earlier payload. The mailbox says what the last completion says if
that one has every key that was written before (`parseCompletion_mailbox`), and otherwise mixes
them.
-/

namespace Kaalm.Task

open GoJson Ascii

/-! ## Payloads -/

structure Completion where
  status : String := ""
  message : String := ""
  artifacts : GoMap String String := ∅
  deriving DecidableEq

namespace Completion

/-- A `map[string]string`. An entry of another type is an error and stays empty. -/
def artifactsDecoder : Decoder (GoMap String String)
  | _, .null => (∅, false)
  | old, .object members => members.foldl (fun r m ↦
      match m.2 with
      | .string s => (r.1.insert m.1 s, r.2)
      | .null => (r.1.insert m.1 "", r.2)
      | _ => (r.1.insert m.1 "", true)) (old, false)
  | old, _ => (old, true)

def decoder : Decoder Completion := .struct
  [("status", .field status (fun c s ↦ { c with status := s }) .string),
   ("message", .field message (fun c s ↦ { c with message := s }) .string),
   ("artifacts", .field artifacts (fun c m ↦ { c with artifacts := m }) artifactsDecoder)]

/-- The same payload, whatever the order of its artifacts. -/
structure Same (c d : Completion) : Prop where
  status : c.status = d.status
  message : c.message = d.message
  artifacts : ∀ name, c.artifacts.lookup name = d.artifacts.lookup name

/-- Whatever `c` has, `d` has too, with this or another value. -/
structure Within (c d : Completion) : Prop where
  message : c.message ≠ "" → d.message ≠ ""
  artifacts : ∀ name ∈ c.artifacts, name ∈ d.artifacts

end Completion

/-! ## The gateway -/

inductive TaskPhase
  | pending
  | provisioning
  | running
  | completing
  | succeeded
  | failed
  | timedOut
  | terminating
  deriving DecidableEq, Repr

def TaskPhase.isTerminal : TaskPhase → Bool
  | .succeeded | .failed | .timedOut => true
  | _ => false

/-- What the gateway reads of a task in its cache. -/
structure TaskView where
  /-- The task completes when its container exits. -/
  exitCode : Bool
  phase : TaskPhase
  currentPodUID : String
  /-- The names in `spec.artifacts`. -/
  declared : List String

/-- A `POST` to `/v1/task/complete` from a task's workload identity. -/
structure CompletionCall where
  task : Option TaskView
  /-- The UID of the Pod at the source IP, in the cache or else in a live list. -/
  podUID : Option String
  body : List UInt8
  /-- Whether the API server takes the patch. -/
  patched : Bool

inductive Refusal
  | notAgentTaskPod
  | taskNotAgentReported
  | taskAlreadyCompleted
  | stalePod
  | bodyTooLarge
  | notJSON
  | badStatus
  | undeclaredArtifact (name : String)
  | missingArtifact (name : String)
  | artifactTooLarge (name : String)
  | payloadTooLarge
  | patchFailed
  deriving DecidableEq

def maxArtifactBytes : ℕ := 4096

def maxArtifactTotalBytes : ℕ := 32768

def maxCompletionBodyBytes : ℕ := 1048576

/-- A failure may leave out declared artifacts, a success may not. -/
def validateCompletionArtifacts (c : Completion) (declared : List String) : Option Refusal :=
  match c.artifacts.keys.find? fun name ↦ name ∉ declared with
  | some name => some (.undeclaredArtifact name)
  | none =>
    if c.status = "success" then
      (declared.find? fun name ↦ name ∉ c.artifacts).map .missingArtifact
    else none

def checkSizes (c : Completion) : Option Refusal :=
  match c.artifacts.entries.find? fun e ↦ maxArtifactBytes < (bytes e.2).length with
  | some e => some (.artifactTooLarge e.1)
  | none =>
    if maxArtifactTotalBytes
        < (bytes c.message).length + (c.artifacts.entries.map fun e ↦ (bytes e.2).length).sum then
      some .payloadTooLarge
    else none

/-- The checks on the caller, in their order. -/
def checkCaller (disableSourceIPCheck : Bool) (call : CompletionCall) :
    Except Refusal TaskView :=
  match call.task with
  | none => .error .notAgentTaskPod
  | some task =>
    if task.exitCode then .error .taskNotAgentReported
    else if task.phase.isTerminal then .error .taskAlreadyCompleted
    else if !disableSourceIPCheck
        && (task.currentPodUID = "" || call.podUID != some task.currentPodUID) then .error .stalePod
    else .ok task

/-- The payload of a call whose body passes the checks. -/
def readPayload (task : TaskView) (body : List UInt8) : Except Refusal Completion :=
  if maxCompletionBodyBytes < body.length then .error .bodyTooLarge
  else
    match unmarshal {} Completion.decoder body with
    | some (c, false) =>
      if c.status ≠ "success" ∧ c.status ≠ "failure" then .error .badStatus
      else
        match (validateCompletionArtifacts c task.declared).or (checkSizes c) with
        | some refusal => .error refusal
        | none => .ok c
    | _ => .error .notJSON

/-- `handleTaskComplete`: the payload of a call that is answered with 200. -/
def handleTaskComplete (disableSourceIPCheck : Bool) (call : CompletionCall) :
    Except Refusal Completion := do
  let task ← checkCaller disableSourceIPCheck call
  let c ← readPayload task call.body
  if call.patched then .ok c else .error .patchFailed

/-! ## The mailbox -/

/-- The key of an artifact. -/
def artifactKey (name : String) : String := "artifact." ++ name

/-- `strings.CutPrefix` of a key. -/
def artifactName? (key : String) : Option String :=
  if "artifact.".toList <+: key.toList then some (String.ofList (key.toList.drop 9)) else none

/-- The keys that a payload writes. -/
def completionData (c : Completion) : GoMap String String :=
  let data : GoMap String String := (∅ : GoMap String String).insert "status" c.status
  let data := if c.message ≠ "" then data.insert "message" c.message else data
  (c.artifacts.entries.map fun e ↦ (⟨artifactKey e.1, e.2⟩ : Sigma fun _ : String ↦ String)).foldl
    (fun data e ↦ data.insert e.1 e.2) data

/-- `PatchMailbox`: a merge patch of the data. -/
def patchMailbox (mailbox data : GoMap String String) : GoMap String String :=
  data.entries.foldl (fun mailbox e ↦ mailbox.insert e.1 e.2) mailbox

/-- `parseCompletion`, of the reconciler. -/
def parseCompletion (data : GoMap String String) : Completion where
  status := (data.lookup "status").getD ""
  message := (data.lookup "message").getD ""
  artifacts := AList.ofEntries (AList.cutKeys artifactName? data.entries)

/-- The mailbox after one more call. -/
def receive (disableSourceIPCheck : Bool) (mailbox : GoMap String String) (call : CompletionCall) :
    GoMap String String :=
  match handleTaskComplete disableSourceIPCheck call with
  | .ok c => patchMailbox mailbox (completionData c)
  | .error _ => mailbox

/-- The payloads of the calls that are answered with 200, in the order of their patches. -/
def accepted (disableSourceIPCheck : Bool) (calls : List CompletionCall) : List Completion :=
  calls.filterMap fun call ↦ (handleTaskComplete disableSourceIPCheck call).toOption

/-! ## Keys -/

theorem artifactKey_injective : Function.Injective artifactKey := by
  intro a b h
  exact String.append_right_inj _ |>.mp h

theorem artifactName?_eq_some_iff (key name : String) :
    artifactName? key = some name ↔ key = artifactKey name := by
  rw [artifactName?]
  constructor
  · intro h
    split_ifs at h with hprefix
    obtain ⟨rest, hrest⟩ := hprefix
    rw [← Option.some.inj h, artifactKey, ← String.toList_inj, String.toList_append, ← hrest]
    simp
  · rintro rfl
    rw [artifactKey, String.toList_append, if_pos (List.prefix_append _ _)]
    simp

theorem artifactKey_ne {key : String} (h : artifactName? key = none) (name : String) :
    key ≠ artifactKey name := fun heq ↦ by
  rw [(artifactName?_eq_some_iff key name).mpr heq] at h
  cases h

/-! ## What the mailbox says -/

theorem lookup_completionData_key {key : String} (h : artifactName? key = none) (c : Completion) :
    (completionData c).lookup key
      = if key = "message" ∧ c.message ≠ "" then some c.message
        else if key = "status" then some c.status else none := by
  rw [completionData, AList.lookup_foldl_insert _ _
    (AList.nodupKeys_map_key artifactKey_injective c.artifacts.nodupKeys),
    AList.dlookup_map_key_of_forall_ne (artifactKey_ne h), Option.none_or, AList.lookup_ite_insert,
    AList.lookup_insert_ite, AList.lookup_empty]

theorem lookup_completionData_artifact (c : Completion) (name : String) :
    (completionData c).lookup (artifactKey name) = c.artifacts.lookup name := by
  have hname : artifactName? (artifactKey name) = some name :=
    (artifactName?_eq_some_iff _ _).mpr rfl
  have hne (key : String) (hkey : artifactName? key = none) : artifactKey name ≠ key :=
    (artifactKey_ne hkey name).symm
  rw [completionData, AList.lookup_foldl_insert _ _
    (AList.nodupKeys_map_key artifactKey_injective c.artifacts.nodupKeys),
    AList.dlookup_map_key artifactKey_injective, AList.lookup_ite_insert,
    if_neg fun h ↦ hne "message" (by decide) h.1, AList.lookup_insert_ite,
    if_neg (hne "status" (by decide)), AList.lookup_empty, Option.or_none]
  rfl

/-- The artifacts that are decoded are the entries with the prefix. -/
theorem lookup_parseCompletion (data : GoMap String String) (name : String) :
    (parseCompletion data).artifacts.lookup name = data.lookup (artifactKey name) := by
  change (AList.ofEntries (AList.cutKeys artifactName? data.entries)).lookup name = _
  rw [AList.lookup_ofEntries (AList.nodupKeys_cutKeys artifactName?_eq_some_iff data.nodupKeys),
    AList.dlookup_cutKeys artifactName?_eq_some_iff]
  rfl

theorem lookup_patchMailbox (mailbox data : GoMap String String) (key : String) :
    (patchMailbox mailbox data).lookup key = (data.lookup key).or (mailbox.lookup key) :=
  AList.lookup_storeAll data mailbox key

/-- Every key in the mailbox is one that `c` writes. -/
def Covers (c : Completion) (mailbox : GoMap String String) : Prop :=
  ∀ key v, mailbox.lookup key = some v → ∃ w, (completionData c).lookup key = some w

theorem covers_completionData {c d : Completion} (h : c.Within d) :
    Covers d (completionData c) := by
  intro key v hv
  cases hname : artifactName? key with
  | some name =>
    obtain rfl := (artifactName?_eq_some_iff key name).mp hname
    rw [lookup_completionData_artifact] at hv ⊢
    exact AList.exists_lookup_of_mem (h.artifacts name (AList.mem_of_lookup hv))
  | none =>
    rw [lookup_completionData_key hname] at hv ⊢
    split_ifs at hv with hmessage hstatus
    · exact ⟨d.message, if_pos ⟨hmessage.1, h.message hmessage.2⟩⟩
    · refine ⟨d.status, ?_⟩
      rw [if_neg (by rw [hstatus]; exact fun hd ↦ absurd hd.1 (by decide)), if_pos hstatus]

theorem Covers.patch {c : Completion} {mailbox data : GoMap String String} (h : Covers c mailbox)
    (hdata : Covers c data) : Covers c (patchMailbox mailbox data) := by
  intro key v hv
  rw [lookup_patchMailbox] at hv
  rcases Option.or_eq_some_iff.mp hv with hd | ⟨-, hm⟩
  · exact hdata key v hd
  · exact h key v hm

/-- After a patch that covers everything, the mailbox says what was patched. -/
theorem same_of_covers {c : Completion} {mailbox : GoMap String String} (h : Covers c mailbox) :
    (parseCompletion (patchMailbox mailbox (completionData c))).Same c := by
  have hlookup (key : String) : (patchMailbox mailbox (completionData c)).lookup key
      = (completionData c).lookup key := by
    rw [lookup_patchMailbox]
    cases hkey : (completionData c).lookup key with
    | some v => rfl
    | none =>
      rw [Option.none_or]
      cases hm : mailbox.lookup key with
      | none => rfl
      | some v =>
        obtain ⟨w, hw⟩ := h key v hm
        rw [hkey] at hw
        cases hw
  have hstatus : (completionData c).lookup "status" = some c.status := by
    rw [lookup_completionData_key (by decide), if_neg fun h ↦ absurd h.1 (by decide), if_pos rfl]
  have hmessage : ((completionData c).lookup "message").getD "" = c.message := by
    rw [lookup_completionData_key (by decide)]
    by_cases hempty : c.message = ""
    · rw [if_neg fun h ↦ h.2 hempty, if_neg (by decide), hempty]
      rfl
    · rw [if_pos ⟨rfl, hempty⟩]
      rfl
  refine ⟨?_, ?_, fun name ↦ ?_⟩
  · change ((patchMailbox mailbox (completionData c)).lookup "status").getD "" = c.status
    rw [hlookup, hstatus]
    rfl
  · change ((patchMailbox mailbox (completionData c)).lookup "message").getD "" = c.message
    rw [hlookup, hmessage]
  · rw [lookup_parseCompletion, hlookup, lookup_completionData_artifact]

/-- Only the calls that are answered with 200 write the mailbox. -/
theorem foldl_receive (disableSourceIPCheck : Bool) (calls : List CompletionCall)
    (mailbox : GoMap String String) :
    calls.foldl (receive disableSourceIPCheck) mailbox
      = (accepted disableSourceIPCheck calls).foldl
        (fun mailbox c ↦ patchMailbox mailbox (completionData c)) mailbox := by
  induction calls generalizing mailbox with
  | nil => rfl
  | cons call calls ih =>
    rw [List.foldl_cons, ih, receive, accepted, accepted, List.filterMap_cons]
    cases handleTaskComplete disableSourceIPCheck call with
    | ok c => rfl
    | error refusal => rfl

/-- Every key that `c` writes is in the mailbox, and no message there is empty. -/
def Leaves (c : Completion) (mailbox : GoMap String String) : Prop :=
  ∀ key v, (completionData c).lookup key = some v →
    ∃ w, mailbox.lookup key = some w ∧ (key = "message" → w ≠ "")

theorem leaves_self (c : Completion) : Leaves c (completionData c) := by
  intro key v hv
  refine ⟨v, hv, ?_⟩
  rintro rfl
  rw [lookup_completionData_key (by decide), if_neg (show "message" ≠ "status" by decide)] at hv
  split_ifs at hv with hmessage
  cases hv
  exact hmessage.2

theorem Leaves.patch {c : Completion} {mailbox : GoMap String String} (d : Completion)
    (h : Leaves c mailbox ∨ c = d) : Leaves c (patchMailbox mailbox (completionData d)) := by
  intro key v hv
  rw [lookup_patchMailbox]
  cases hkey : (completionData d).lookup key with
  | some w =>
    obtain ⟨w', hw', hne⟩ := leaves_self d key w hkey
    exact ⟨w, rfl, Option.some_inj.mp (hkey.symm.trans hw') ▸ hne⟩
  | none =>
    rcases h with h | rfl
    · exact h key v hv
    · rw [hv] at hkey
      cases hkey

theorem leaves_foldl {c : Completion} {l : List Completion} {mailbox : GoMap String String}
    (h : Leaves c mailbox ∨ c ∈ l) :
    Leaves c (l.foldl (fun mailbox c ↦ patchMailbox mailbox (completionData c)) mailbox) := by
  induction l generalizing mailbox with
  | nil => exact h.resolve_right List.not_mem_nil
  | cons d l ih =>
    rw [List.foldl_cons]
    refine ih ?_
    rcases h with h | h
    · exact Or.inl (.patch d (Or.inl h))
    · exact (List.mem_cons.mp h).imp_left fun hd ↦ .patch d (Or.inr hd)

/-- The mailbox says what the last completion says, if that one has whatever an earlier one had. -/
theorem parseCompletion_mailbox {disableSourceIPCheck : Bool} {calls : List CompletionCall}
    {earlier : List Completion} {last : Completion}
    (hcalls : accepted disableSourceIPCheck calls = earlier ++ [last])
    (hwithin : ∀ c ∈ earlier, c.Within last) :
    (parseCompletion (calls.foldl (receive disableSourceIPCheck) ∅)).Same last := by
  rw [foldl_receive, hcalls, List.foldl_append, List.foldl_cons, List.foldl_nil]
  apply same_of_covers
  have hcovers (mailbox : GoMap String String) (h : Covers last mailbox) : Covers last
      (earlier.foldl (fun mailbox c ↦ patchMailbox mailbox (completionData c)) mailbox) := by
    clear hcalls
    induction earlier generalizing mailbox with
    | nil => exact h
    | cons c earlier ih =>
      rw [List.foldl_cons]
      exact ih (fun d hd ↦ hwithin d (List.mem_cons_of_mem _ hd)) _
        (h.patch (covers_completionData (hwithin c List.mem_cons_self)))
  exact hcovers ∅ fun key v hv ↦ absurd hv AList.lookup_empty_ne

/-- The condition is needed: whatever an earlier completion wrote is still in the mailbox. -/
theorem within_of_mailbox {disableSourceIPCheck : Bool} {calls : List CompletionCall}
    {c last : Completion} (hc : c ∈ accepted disableSourceIPCheck calls)
    (hsame : (parseCompletion (calls.foldl (receive disableSourceIPCheck) ∅)).Same last) :
    c.Within last := by
  rw [foldl_receive] at hsame
  have hleaves := @leaves_foldl c _ ∅ (Or.inr hc)
  generalize (accepted disableSourceIPCheck calls).foldl _ (∅ : GoMap String String) = mailbox
    at hsame hleaves
  constructor
  · intro hmessage
    obtain ⟨w, hw, hne⟩ := hleaves "message" c.message (by
      rw [lookup_completionData_key (by decide), if_pos ⟨rfl, hmessage⟩])
    rw [← hsame.message]
    show (mailbox.lookup "message").getD "" ≠ ""
    rw [hw]
    exact hne rfl
  · intro name hname
    obtain ⟨v, hv⟩ := AList.exists_lookup_of_mem hname
    obtain ⟨w, hw, -⟩ := hleaves (artifactKey name) v (by rw [lookup_completionData_artifact, hv])
    refine AList.mem_of_lookup (v := w) ?_
    rw [← hsame.artifacts, lookup_parseCompletion, hw]

/-- A call from the current Pod of a running task with one artifact. -/
def podCall (body : String) : CompletionCall where
  task := some { exitCode := false, phase := .running, currentPodUID := "p", declared := ["log"] }
  podUID := some "p"
  body := bytes body
  patched := true

def failureCall : CompletionCall :=
  podCall "\x7b\"status\":\"failure\",\"message\":\"disk full\"\x7d"

/-- A success with the artifact, and with this member for the message. -/
def successCall (message : String) : CompletionCall :=
  podCall ("\x7b\"status\":\"success\"," ++ message ++ "\"artifacts\":\x7b\"log\":\"l\"\x7d\x7d")

theorem parseCompletion_mailbox_message :
    (parseCompletion ([failureCall, successCall "\"message\":\"done\","].foldl
    (receive false) ∅)).Same
      { status := "success", message := "done", artifacts := AList.singleton "log" "l" } := by
  have haccepted : accepted false [failureCall, successCall "\"message\":\"done\","]
      = [{ status := "failure", message := "disk full" }]
        ++ [{ status := "success", message := "done", artifacts :=
            AList.singleton "log" "l" }] := by
    decide +kernel
  refine parseCompletion_mailbox haccepted fun c hc ↦ ?_
  rw [List.mem_singleton.mp hc]
  exact ⟨fun _ ↦ by decide, fun name hname ↦ absurd hname (AList.notMem_empty name)⟩

/-- The success has no message, and the mailbox has that of the failure before it. -/
theorem mailbox_mixes_completions :
    accepted false [failureCall, successCall ""]
        = [{ status := "failure", message := "disk full" },
          { status := "success", artifacts := AList.singleton "log" "l" }]
      ∧ (parseCompletion ([failureCall, successCall ""].foldl (receive false) ∅)).status = "success"
      ∧ (parseCompletion ([failureCall, successCall ""].foldl (receive false) ∅)).message
        = "disk full" := by
  decide +kernel

end Kaalm.Task
