import Kaalm.Gateway.RequestRewrite

/-!
# What providers read

The body that the gateway forwards means one thing: a provider that compares names exactly or
ignoring case, and that keeps the first or the last of several members, reads the model that the
gateway wrote and the stream that it has scanned.
-/

namespace Kaalm.Gateway

open Ascii JsonText GoJson

variable {m : Member} {ms : List Member} {r : Routing} {model : Content} {forceUsage : Bool}

/-! ## The routing members of a rewritten body -/

theorem routingOf_eq_some : routingOf m = some r ↔ named true r.name m := Routing.find?_matches

theorem routingOf_of_name (h : m.name = r.content) : routingOf m = some r := by
  rw [routingOf_eq_some, named, if_pos rfl, h]
  cases r <;> decide +kernel

theorem name_rewriteMember (h : routingOf m = some r) :
    (rewriteMember model forceUsage m).name = r.content := by
  rw [rewriteMember, h]
  cases r with
  | model => rfl
  | stream => rfl
  | streamOptions =>
    simp only
    split_ifs <;> rfl

theorem routingOf_rewriteMember (m : Member) :
    routingOf (rewriteMember model forceUsage m) = routingOf m := by
  cases h : routingOf m with
  | none =>
    rw [rewriteMember, h]
    exact h
  | some r => exact routingOf_of_name (name_rewriteMember h)

theorem routingOf_optionsMember : routingOf optionsMember = some .streamOptions :=
  routingOf_of_name (m := optionsMember) (r := .streamOptions) rfl

theorem map_routingOf_rewriteMembers (ms : List Member) :
    (rewriteMembers model forceUsage ms).map routingOf = ms.map routingOf
      ++ if forceUsage ∧ some .streamOptions ∉ ms.map routingOf then [some .streamOptions]
        else [] := by
  have hcomp : routingOf ∘ rewriteMember model forceUsage = routingOf := by
    funext m
    rw [Function.comp_apply, routingOf_rewriteMember]
  rw [rewriteMembers, List.map_append, List.map_map, hcomp]
  split_ifs
  · rw [List.map_singleton, routingOf_optionsMember]
  · rfl

theorem Once.rewriteMembers (h : Once (ms.map routingOf)) :
    Once ((rewriteMembers model forceUsage ms).map routingOf) := by
  rw [map_routingOf_rewriteMembers]
  split_ifs with hnone
  · refine List.pairwise_append.mpr ⟨h, List.pairwise_singleton _ _, fun a ha c hc r har hcr ↦ ?_⟩
    rw [List.mem_singleton.mp hc] at hcr
    rw [har, ← hcr] at ha
    exact hnone.2 ha
  · rwa [List.append_nil]

theorem Once.length_filter_le (h : Once (ms.map routingOf)) (r : Routing) :
    (ms.filter (named true r.name)).length ≤ 1 := by
  have hpair := (List.pairwise_map.mp h).filter (named true r.name)
  cases hlist : ms.filter (named true r.name) with
  | nil => exact Nat.zero_le 1
  | cons a rest =>
    cases rest with
    | nil => exact Nat.le_refl 1
    | cons c rest =>
      rw [hlist] at hpair
      have hnamed : ∀ m ∈ a :: c :: rest, routingOf m = some r := fun m hm ↦ by
        rw [← hlist] at hm
        exact routingOf_eq_some.mpr (List.mem_filter.mp hm).2
      exact absurd (hnamed c (by simp)) ((List.pairwise_cons.mp hpair).1 c (by simp) r
        (hnamed a (by simp)))

theorem name_of_mem_rewriteMembers (hm : m ∈ rewriteMembers model forceUsage ms)
    (h : routingOf m = some r) : m.name = r.content := by
  rw [rewriteMembers] at hm
  rcases List.mem_append.mp hm with hm | hm
  · obtain ⟨m', -, rfl⟩ := List.mem_map.mp hm
    rw [routingOf_rewriteMember] at h
    exact name_rewriteMember h
  · split_ifs at hm
    · rw [List.mem_singleton.mp hm] at h ⊢
      rw [← Option.some.inj (routingOf_optionsMember.symm.trans h)]
      rfl
    · cases hm

theorem unquote_content (r : Routing) : unquote r.content.1 = r.name := by
  cases r <;> decide +kernel

theorem find?_named (ms : List Member) (r : Routing) :
    ms.find? (named true r.name) = memberOf ms r := by
  rw [memberOf]
  congr 1
  funext m
  rw [Bool.eq_iff_iff, decide_eq_true_iff, routingOf_eq_some]

/-- All readers find the routing members of a rewritten body. -/
theorem read_rewriteMembers (p : NamePolicy) (honce : Once (ms.map routingOf)) :
    p.read r.name (rewriteMembers model forceUsage ms)
      = (memberOf (rewriteMembers model forceUsage ms) r).map fun m ↦ ofValue m.value := by
  rw [← find?_named]
  refine read_eq p (honce.rewriteMembers.length_filter_le r) fun m hm hname ↦ ?_
  rw [name_of_mem_rewriteMembers hm (routingOf_eq_some.mpr hname), unquote_content]

theorem memberOf_rewriteMembers (hr : r ≠ .streamOptions) :
    memberOf (rewriteMembers model forceUsage ms) r
      = (memberOf ms r).map (rewriteMember model forceUsage) := by
  rw [memberOf, rewriteMembers, List.find?_append, List.find?_map]
  have happended : List.find? (fun m ↦ decide (routingOf m = some r))
      (if forceUsage ∧ some .streamOptions ∉ ms.map routingOf then [optionsMember] else [])
        = none := by
    refine List.find?_eq_none.mpr fun m hm hrouting ↦ ?_
    split_ifs at hm
    · rw [List.mem_singleton.mp hm, routingOf_optionsMember] at hrouting
      exact hr (Option.some.inj (of_decide_eq_true hrouting)).symm
    · cases hm
  rw [happended, Option.or_none]
  simp only [Function.comp_def, routingOf_rewriteMember]
  rfl

theorem value_rewriteMember_model (h : routingOf m = some .model) :
    (rewriteMember model forceUsage m).value = .string model := by
  rw [rewriteMember, h]

theorem value_rewriteMember_stream (h : routingOf m = some .stream) :
    (rewriteMember model forceUsage m).value = m.value := by
  rw [rewriteMember, h]

theorem members_rewriteDocument {d : Document} (h : forceUsage = true → d.value.members ≠ []) :
    (rewriteDocument model forceUsage d).value.members
      = rewriteMembers model forceUsage d.value.members := by
  rw [rewriteDocument]
  split
  · next ms hms =>
    rw [hms]
    exact Value.members_ofMembers _
  · next hne =>
    have hnil : d.value.members = [] := by
      cases hv : d.value with
      | object ms => exact absurd hv (hne ms)
      | scalar t => rfl
      | string n => rfl
      | emptyArray s => rfl
      | array es => rfl
      | emptyObject s => rfl
    have hfalse : forceUsage = false := eq_false_of_ne_true fun htrue ↦ h htrue hnil
    rw [hnil, hfalse]
    rfl

/-! ## What the scan says of the stream -/

/-- The bytes that a scan accepts as the value of `stream`. -/
def isStreamText (cs : List UInt8) : Prop :=
  cs = bytes "true" ∨ cs = bytes "false" ∨ cs = bytes "null"

theorem scanRequestFields_members {d : Document} {f : RequestFields}
    (h : scanRequestFields d.text = some (.ok f)) :
    Once (d.value.members.map routingOf)
      ∧ f.streamTrue = (memberOf d.value.members .stream).any (fun m ↦ m.value.text = bytes "true")
      ∧ ∀ m ∈ memberOf d.value.members .stream, isStreamText m.value.text := by
  rcases scanRequestFields_ok h with ⟨hnull, rfl⟩ | ⟨hobject, honce, hbad, rfl⟩
  · rw [members_eq_nil (by rw [hnull]; decide)]
    exact ⟨List.Pairwise.nil, rfl, fun m hm ↦ by cases hm⟩
  · have hspans := forall₂_spansFrom_object (drop_text d) hobject
    rw [map_routing hspans] at honce
    refine ⟨honce, ?_⟩
    have hrel := located_iff hspans .stream
    simp only [foundFields, Scan.of] at hbad ⊢
    cases hloc : located (spansFrom (d.before.1.length + 1) d.value.members) .stream with
    | none =>
      rw [hloc] at hrel
      cases hm : memberOf d.value.members .stream with
      | none => exact ⟨rfl, fun m hm ↦ by cases hm⟩
      | some m =>
        rw [hm] at hrel
        cases hrel
    | some sp =>
      obtain ⟨m, hm, hsp⟩ := exists_memberOf hspans hloc
      rw [hloc, Option.any_some, hsp.bytes_value] at hbad
      rw [hm, Option.any_some, Option.any_some, hsp.bytes_value]
      refine ⟨rfl, fun m' hm' ↦ ?_⟩
      rw [← Option.some.inj hm', isStreamText]
      have hbad := of_decide_eq_false hbad
      tauto

/-- A value that is written as a literal name. -/
theorem ofValue_of_text {v : Value} (h : isStreamText v.text) :
    (v.text = bytes "true" → ofValue v = .bool true)
      ∧ (v.text ≠ bytes "true" → ofValue v = .null ∨ ofValue v = .bool false) := by
  have hhead : ∀ c, v.text.head? = some c → c = 0x74 ∨ c = 0x66 ∨ c = 0x6e := by
    intro c hc
    rcases h with h | h | h
    · rw [h] at hc
      exact Or.inl (Option.some.inj hc).symm
    · rw [h] at hc
      exact Or.inr (Or.inl (Option.some.inj hc).symm)
    · rw [h] at hc
      exact Or.inr (Or.inr (Option.some.inj hc).symm)
  cases v with
  | scalar t =>
    rw [Value.text] at h ⊢
    rw [ofValue]
    rcases h with h | h | h
    · rw [h]
      exact ⟨fun _ ↦ rfl, fun hne ↦ absurd rfl hne⟩
    · rw [h]
      exact ⟨fun heq ↦ absurd heq (by decide), fun _ ↦ Or.inr rfl⟩
    · rw [h]
      exact ⟨fun heq ↦ absurd heq (by decide), fun _ ↦ Or.inl rfl⟩
  | string n => exact absurd (hhead quote rfl) (by decide)
  | emptyArray s => exact absurd (hhead lbracket rfl) (by decide)
  | array es => exact absurd (hhead lbracket rfl) (by decide)
  | emptyObject s => exact absurd (hhead lbrace rfl) (by decide)
  | object ms => exact absurd (hhead lbrace rfl) (by decide)

/-! ## The forwarded body -/

/-- What is true of a forwarded body `d'` that a body `d` has been rewritten to: no routing name
occurs twice, whatever its spelling, those that occur are spelled exactly, and every reader gets
`model` for the model, if the body had one, and `streamTrue` for the stream. -/
structure OneMeaning (model : String) (streamTrue : Bool) (d d' : Document) : Prop where
  once : ∀ r : Routing, (d'.value.members.filter (named true r.name)).length ≤ 1
  exact_name : ∀ r : Routing, ∀ m ∈ d'.value.members, named true r.name m → m.name.1 = bytes r.name
  model_value : ∀ m ∈ d'.value.members, named true "model" m → ofValue m.value = .string model
  read_model : ∀ p : NamePolicy, p.read "model" d'.value.members
    = if d.value.members.any (named true "model") then some (.string model) else none
  read_stream : ∀ p : NamePolicy,
    if streamTrue then p.read "stream" d'.value.members = some (.bool true)
    else p.read "stream" d'.value.members = none ∨ p.read "stream" d'.value.members = some .null
      ∨ p.read "stream" d'.value.members = some (.bool false)

variable {d : Document} {f : RequestFields}

theorem isSome_memberOf (ms : List Member) : (memberOf ms r).isSome = ms.any
    (named true r.name) := by
  rw [← find?_named, List.isSome_find?]

theorem members_ne_nil (hscan : scanRequestFields d.text = some (.ok f))
    (hstream : f.streamTrue = true) :
    d.value.members ≠ [] := by
  intro hnil
  rw [(scanRequestFields_members hscan).2.1, hnil] at hstream
  cases hstream

theorem oneMeaning_rewriteDocument {model : List UInt8}
    (hscan : scanRequestFields d.text = some (.ok f))
    (hforce : forceUsage = true → f.streamTrue = true) :
    OneMeaning (String.ofList (Utf8.decode model)) f.streamTrue d
      (rewriteDocument ⟨marshalContent model, isContent_marshalContent model⟩ forceUsage d) := by
  obtain ⟨honce, hstream, htext⟩ := scanRequestFields_members hscan
  have hmembers : (rewriteDocument ⟨marshalContent model, isContent_marshalContent model⟩ forceUsage
      d).value.members = rewriteMembers _ forceUsage d.value.members :=
    members_rewriteDocument fun h ↦ members_ne_nil hscan (hforce h)
  have hvalue : ofValue (.string ⟨marshalContent model, isContent_marshalContent model⟩)
      = .string (String.ofList (Utf8.decode model)) :=
    congrArg Tree.string (unquote_marshalContent model)
  constructor
  · rw [hmembers]
    exact fun r ↦ honce.rewriteMembers.length_filter_le r
  · rw [hmembers]
    intro r m hm hname
    rw [name_of_mem_rewriteMembers hm (routingOf_eq_some.mpr hname)]
    rfl
  · rw [hmembers]
    intro m hm hname
    have hrouting : routingOf m = some .model := routingOf_eq_some.mpr hname
    rw [rewriteMembers] at hm
    rcases List.mem_append.mp hm with hm | hm
    · obtain ⟨m', -, rfl⟩ := List.mem_map.mp hm
      rw [routingOf_rewriteMember] at hrouting
      rw [value_rewriteMember_model hrouting, hvalue]
    · split_ifs at hm
      · rw [List.mem_singleton.mp hm, routingOf_optionsMember] at hrouting
        cases hrouting
      · cases hm
  · intro p
    rw [hmembers, show "model" = Routing.model.name from rfl, read_rewriteMembers p honce,
      memberOf_rewriteMembers (by decide), ← isSome_memberOf]
    cases hm : memberOf d.value.members .model with
    | none => rfl
    | some m =>
      have hrouting : routingOf m = some .model := by simpa using List.find?_some hm
      rw [Option.map_some, Option.map_some, value_rewriteMember_model hrouting, hvalue]
      rfl
  · intro p
    rw [hmembers, show "stream" = Routing.stream.name from rfl, read_rewriteMembers p honce,
      memberOf_rewriteMembers (by decide), hstream]
    cases hm : memberOf d.value.members .stream with
    | none => exact Or.inl rfl
    | some m =>
      have hrouting : routingOf m = some .stream := by simpa using List.find?_some hm
      obtain ⟨htrue, hother⟩ := ofValue_of_text (htext m hm)
      rw [Option.map_some, Option.map_some, value_rewriteMember_stream hrouting, Option.any_some]
      by_cases h : m.value.text = bytes "true"
      · rw [if_pos (decide_eq_true h), htrue h]
      · rw [if_neg (by rw [decide_eq_true_iff]; exact h)]
        rcases hother h with h | h
        · rw [h]
          exact Or.inr (Or.inl rfl)
        · rw [h]
          exact Or.inr (Or.inr rfl)

/-- A rewritten body passes the scan again. -/
theorem exists_scan_rewriteDocument {model : Content}
    (hscan : scanRequestFields d.text = some (.ok f))
    (hforce : forceUsage = true → f.streamTrue = true) :
    ∃ f', scanRequestFields (rewriteDocument model forceUsage d).text = some (.ok f') := by
  obtain ⟨honce, -, htext⟩ := scanRequestFields_members hscan
  have hmembers : (rewriteDocument model forceUsage d).value.members
      = rewriteMembers model forceUsage d.value.members :=
    members_rewriteDocument fun h ↦ members_ne_nil hscan (hforce h)
  by_cases hobject : ∃ ms, d.value = .object ms
  · obtain ⟨ms, hms⟩ := hobject
    have hbrace : (rewriteDocument model forceUsage d).value.text.head? = some lbrace := by
      rw [rewriteDocument, hms]
      simp only
      cases rewriteMembers model forceUsage ms.toList with
      | nil => rfl
      | cons m rest => exact congrArg List.head? (Value.text_ofMembers m rest)
    have hspans := forall₂_spansFrom_object (drop_text (rewriteDocument model forceUsage d)) hbrace
    refine ⟨_, scanRequestFields_of_once hbrace ?_ ?_⟩
    · rw [map_routing hspans, hmembers]
      exact honce.rewriteMembers
    · simp only [Scan.of]
      cases hloc :
        located (spansFrom _ (rewriteDocument model forceUsage d).value.members) .stream with
      | none => rfl
      | some sp =>
        obtain ⟨m, hm, hsp⟩ := exists_memberOf hspans hloc
        rw [hmembers, memberOf_rewriteMembers (by decide)] at hm
        obtain ⟨m', hm', rfl⟩ := Option.map_eq_some_iff.mp hm
        have hrouting : routingOf m' = some .stream := by simpa using List.find?_some hm'
        have hstream := htext m' hm'
        rw [Option.any_some, hsp.bytes_value, value_rewriteMember_stream hrouting]
        rw [isStreamText] at hstream
        exact decide_eq_false (by tauto)
  · rw [rewriteDocument_of_ne (not_exists.mp hobject)]
    exact ⟨f, hscan⟩

/-- A body that is valid JSON and passes the scan is rewritten to a document that means one thing to
every provider: `rewriteDocument` has every byte of the body outside of the names of routing
members, the value of the model member and, with `forceUsage`, the `stream_options` member. -/
theorem rewriteRequestBody_oneMeaning {body model : List UInt8} {f : RequestFields}
    {forceUsage : Bool}
    (hvalid : valid body) (hscan : scanRequestFields body = some (.ok f))
    (hforce : forceUsage = true → f.streamTrue = true) :
    ∃ d d' : Document, d.text = body ∧ rewriteRequestBody body f model forceUsage = some d'.text
      ∧ valid d'.text
      ∧ d' = rewriteDocument ⟨marshalContent model, isContent_marshalContent model⟩ forceUsage d
      ∧ OneMeaning (String.ofList (Utf8.decode model)) f.streamTrue d d' := by
  obtain ⟨d, rfl⟩ := valid_iff.mp hvalid
  exact ⟨d, _, rfl, rewriteRequestBody_eq hscan hforce, valid_iff.mpr ⟨_, rfl⟩, rfl,
    oneMeaning_rewriteDocument hscan hforce⟩

private theorem exists_of_scan {body : List UInt8} {P : RequestFields → Bool}
    (h : (match scanRequestFields body with
      | some (.ok f) => P f
      | _ => false) = true) : ∃ f, scanRequestFields body = some (.ok f) ∧ P f = true := by
  split at h
  · next f hf => exact ⟨f, hf, h⟩
  · cases h

/-- A streaming request with an escaped name, a look-alike in a nested object, and no
`stream_options`. -/
def streamingBody : List UInt8 :=
  bytes "\x7b\"m\\u006fdel\": \"p/m\", \"x\":[\x7b\"model\":1\x7d],\"Stream\":true\x7d"

theorem rewriteRequestBody_oneMeaning_streaming :
    ∃ f, valid streamingBody ∧ scanRequestFields streamingBody = some (.ok f) ∧ f.streamTrue = true
      ∧ ∃ d d' : Document, d.text = streamingBody
        ∧ rewriteRequestBody streamingBody f (bytes "m") true = some d'.text
        ∧ valid d'.text
        ∧ d' = rewriteDocument ⟨marshalContent (bytes "m"),
          isContent_marshalContent (bytes "m")⟩ true d
        ∧ OneMeaning (String.ofList (Utf8.decode (bytes "m"))) f.streamTrue d d' := by
  have hvalid : valid streamingBody := by decide +kernel
  obtain ⟨f, hscan, hstream⟩ : ∃ f, scanRequestFields streamingBody = some (.ok f)
      ∧ f.streamTrue = true := exists_of_scan (by decide +kernel)
  exact ⟨f, hvalid, hscan, hstream, rewriteRequestBody_oneMeaning hvalid hscan fun _ ↦ hstream⟩

/-- A streaming request that asks for a stream without usage. -/
def optOutBody : List UInt8 :=
  bytes "\x7b\"stream\":true,\"stream_options\":\x7b\"include_usage\":false\x7d\x7d"

def modelBody : List UInt8 := bytes "\x7b\"model\":\"a\"\x7d"

/-- Two ways in which more than the rest of a body changes: with `forceUsage`, the letter f of the
agent's `false` is gone, and a model that is not valid UTF-8 is read as U+FFFD, which is three
bytes. -/
theorem rewriteRequestBody_changes_more :
    (∃ f out, valid optOutBody ∧ scanRequestFields optOutBody = some (.ok f) ∧ f.streamTrue = true
        ∧ rewriteRequestBody optOutBody f (bytes "m") true = some out
        ∧ 0x66 ∈ optOutBody ∧ 0x66 ∉ out)
      ∧ ∃ f out d', valid modelBody ∧ scanRequestFields modelBody = some (.ok f)
        ∧ rewriteRequestBody modelBody f [0xff] false = some out ∧ parse out = some d'
        ∧ d'.value.members.map (fun m ↦ (ofValue m.value).string?.map bytes)
          = [some [0xef, 0xbf, 0xbd]] := by
  constructor
  · obtain ⟨f, hscan, hf⟩ : ∃ f, scanRequestFields optOutBody = some (.ok f)
        ∧ (f.streamTrue && (rewriteRequestBody optOutBody f (bytes "m") true).any fun out ↦
          0x66 ∈ optOutBody ∧ 0x66 ∉ out) = true := exists_of_scan (by decide +kernel)
    obtain ⟨hstream, hout⟩ := Bool.and_eq_true_iff.mp hf
    obtain ⟨out, hrewrite, hbytes⟩ := (Option.any_eq_true _ _).mp hout
    exact ⟨f, out, by decide +kernel, hscan, hstream, hrewrite, of_decide_eq_true hbytes⟩
  · obtain ⟨f, hscan, hout⟩ : ∃ f, scanRequestFields modelBody = some (.ok f)
        ∧ ((rewriteRequestBody modelBody f [0xff] false).any fun out ↦ (parse out).any fun d' ↦
          d'.value.members.map (fun m ↦ (ofValue m.value).string?.map bytes)
            = [some [0xef, 0xbf, 0xbd]]) = true := exists_of_scan (by decide +kernel)
    obtain ⟨out, hrewrite, hout⟩ := (Option.any_eq_true _ _).mp hout
    obtain ⟨d', hparse, hmodel⟩ := (Option.any_eq_true _ _).mp hout
    exact ⟨f, out, d', by decide +kernel, hscan, hrewrite, hparse, of_decide_eq_true hmodel⟩

end Kaalm.Gateway
