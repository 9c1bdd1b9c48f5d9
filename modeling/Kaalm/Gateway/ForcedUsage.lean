import Kaalm.Gateway.RequestMeaning

/-!
# Streams that cannot opt out of metering

A stream of an OpenAI provider reports its usage only if the request asks for it, and a stream
without usage settles at no cost. The gateway therefore writes the `stream_options` of every
streaming request itself: `"include_usage":true` is the last member of the object and the only one
that any provider can read as `include_usage`. The agent's other options keep their bytes and their
order.

The rewrite is a projection: a body that it has written is left as it is, to the byte.
-/

namespace Kaalm.Gateway

open Ascii JsonText GoJson

variable {m : Member} {ms : List Member} {model : Content}

/-! ## The options object -/

/-- A member of the agent's options that is not an `include_usage`. -/
def isKept (m : Member) : Bool := !named true "include_usage" m

theorem isKept_usageMember : isKept usageMember = false := by decide +kernel

theorem members_withUsage (v : Value) :
    (withUsage v).members = (v.members.filter isKept).map strip ++ [usageMember] :=
  Value.members_ofMembers _

theorem filter_isKept_withUsage (v : Value) :
    (withUsage v).members.filter isKept = (v.members.filter isKept).map strip := by
  rw [members_withUsage, List.filter_append, List.filter_singleton, isKept_usageMember,
    List.filter_map,
    show isKept ∘ strip = isKept from rfl, List.filter_filter]
  simp only [Bool.and_self, cond_false, List.append_nil]

theorem filter_usage_withUsage (v : Value) :
    (withUsage v).members.filter (named true "include_usage") = [usageMember] := by
  have hnone : ∀ m ∈ (v.members.filter isKept).map strip, ¬ named true "include_usage" m := by
    intro m hm
    obtain ⟨m', hm', rfl⟩ := List.mem_map.mp hm
    have hkept : isKept m' = true := (List.mem_filter.mp hm').2
    rw [isKept, Bool.not_eq_true'] at hkept
    exact Bool.not_eq_true _ |>.mpr hkept
  rw [members_withUsage, List.filter_append, List.filter_eq_nil_iff.mpr hnone, List.nil_append,
    List.filter_singleton, show named true "include_usage" usageMember = true by decide +kernel]
  rfl

theorem withUsage_withUsage (v : Value) : withUsage (withUsage v) = withUsage v := by
  have hstrip : strip ∘ strip = strip := rfl
  change Value.ofMembers (((withUsage v).members.filter isKept).map strip ++ [usageMember]) = _
  rw [filter_isKept_withUsage, List.map_map, hstrip]
  rfl

/-! ## The rewrite is a projection -/

theorem rewriteMember_rewriteMember (m : Member) :
    rewriteMember model true (rewriteMember model true m) = rewriteMember model true m := by
  have hrouting : routingOf (rewriteMember model true m) = routingOf m := routingOf_rewriteMember m
  cases h : routingOf m with
  | none =>
    have hsame : rewriteMember model true m = m := by
      rw [rewriteMember, h]
    rw [hsame, hsame]
  | some r =>
    rw [h] at hrouting
    rw [rewriteMember, hrouting]
    cases r with
    | model =>
      rw [rewriteMember, h]
    | stream =>
      rw [rewriteMember, h]
    | streamOptions =>
      rw [rewriteMember, h]
      simp only [if_true, withUsage_withUsage]

theorem rewriteMember_optionsMember : rewriteMember model true optionsMember = optionsMember := by
  have hvalue : withUsage (.ofMembers [usageMember]) = .ofMembers [usageMember] :=
    withUsage_withUsage (.emptyObject ⟨[], rfl⟩)
  rw [rewriteMember, routingOf_optionsMember]
  simp only [if_true, optionsMember, Member.bare, hvalue]

private theorem rewriteMembers_true (ms : List Member) :
    rewriteMembers model true ms = ms.map (rewriteMember model true) ++ appended ms := by
  rw [rewriteMembers, appended]
  simp only [true_and]

private theorem map_rewriteMember_appended (ms : List Member) :
    (appended ms).map (rewriteMember model true) = appended ms := by
  rw [appended]
  split_ifs
  · rfl
  · rw [List.map_singleton, rewriteMember_optionsMember]

private theorem appended_rewriteMembers (ms : List Member) :
    appended (rewriteMembers model true ms) = [] := by
  refine if_neg (not_not_intro ?_)
  rw [map_routingOf_rewriteMembers]
  by_cases h : some .streamOptions ∈ ms.map routingOf
  · exact List.mem_append_left _ h
  · rw [if_pos ⟨rfl, h⟩]
    exact List.mem_append_right _ List.mem_cons_self

theorem rewriteMembers_rewriteMembers (ms : List Member) :
    rewriteMembers model true (rewriteMembers model true ms) = rewriteMembers model true ms := by
  have hmap : (ms.map (rewriteMember model true)).map (rewriteMember model true)
      = ms.map (rewriteMember model true) := by
    have hcomp : rewriteMember model true ∘ rewriteMember model true
        = rewriteMember model true := by
      funext m
      rw [Function.comp_apply, rewriteMember_rewriteMember]
    rw [List.map_map, hcomp]
  rw [rewriteMembers_true, appended_rewriteMembers, List.append_nil, rewriteMembers_true,
    List.map_append, hmap, map_rewriteMember_appended]

variable {d : Document} {f : RequestFields}

theorem rewriteDocument_rewriteDocument (d : Document) :
    rewriteDocument model true (rewriteDocument model true d) = rewriteDocument model true d := by
  by_cases hobject : ∃ ms, d.value = .object ms
  · obtain ⟨ms, hms⟩ := hobject
    obtain ⟨m, l, hml⟩ := ms.exists_ofList
    have hd : rewriteDocument model true d
        = { d with value := .ofMembers (rewriteMembers model true ms.toList) } := by
      rw [rewriteDocument, hms]
    rw [hd]
    cases hrw : rewriteMembers model true ms.toList with
    | nil =>
      rw [hml, Members.toList_ofList, rewriteMembers] at hrw
      cases hrw
    | cons n rest =>
      have hagain : rewriteMembers model true (n :: rest) = n :: rest := by
        rw [← hrw]
        exact rewriteMembers_rewriteMembers ms.toList
      rw [Value.ofMembers, rewriteDocument]
      simp only [Members.toList_ofList, hagain, Value.ofMembers]
  · rw [rewriteDocument_of_ne (not_exists.mp hobject),
      rewriteDocument_of_ne (not_exists.mp hobject)]

/-! ## The forwarded body -/

/-- The members of the agent's `stream_options`, if that is an object. -/
def agentOptions (d : Document) : List Member :=
  ((d.value.members.find? (named true "stream_options")).map fun m ↦ m.value.members).getD []

/-- What is true of the body `d'` that is forwarded for the streaming request `d`: its member
`options` is the only one that a provider can read as `stream_options`, and is an object of members
`kept`, which are the agent's, and `usage`, which is the only one that a provider can read as
`include_usage`. -/
structure Metered (d d' : Document) (options usage : Member) (kept : List Member) : Prop where
  only_options : d'.value.members.filter (named true "stream_options") = [options]
  options_name : options.name.1 = bytes "stream_options"
  options_value : options.value = .ofMembers (kept ++ [usage])
  only_usage : options.value.members.filter (named true "include_usage") = [usage]
  usage_name : usage.name.1 = bytes "include_usage"
  usage_value : usage.value.text = bytes "true"
  kept_bytes : kept.map Member.core
    = ((agentOptions d).filter fun m ↦ !named true "include_usage" m).map Member.core

/-- The `stream_options` member of the forwarded body. -/
theorem memberOf_rewriteMembers_options (model : Content) (ms : List Member) :
    ∃ m, memberOf (rewriteMembers model true ms) .streamOptions = some m
      ∧ ∃ v : Value, m.value = withUsage v
        ∧ v.members = ((memberOf ms .streamOptions).map fun m ↦ m.value.members).getD [] := by
  have hfind : memberOf (ms.map (rewriteMember model true)) .streamOptions
      = (memberOf ms .streamOptions).map (rewriteMember model true) := by
    rw [memberOf, List.find?_map]
    simp only [Function.comp_def, routingOf_rewriteMember]
    rfl
  rw [memberOf] at hfind
  rw [memberOf, rewriteMembers, List.find?_append, hfind]
  cases hm : memberOf ms .streamOptions with
  | some m =>
    have hrouting : routingOf m = some .streamOptions := by simpa using List.find?_some hm
    refine ⟨_, rfl, m.value, ?_, rfl⟩
    rw [rewriteMember, hrouting]
    rfl
  | none =>
    have hnone : some .streamOptions ∉ ms.map routingOf := by
      intro hmem
      obtain ⟨m, hmem, hrouting⟩ := List.mem_map.mp hmem
      exact List.find?_eq_none.mp hm m hmem (decide_eq_true hrouting)
    rw [if_pos ⟨rfl, hnone⟩, Option.map_none, Option.none_or, List.find?_singleton,
      routingOf_optionsMember]
    exact ⟨optionsMember, rfl, .emptyObject ⟨[], rfl⟩, rfl, rfl⟩

theorem metered_rewriteDocument (model : Content) (hscan : scanRequestFields d.text = some (.ok f))
    (hstream : f.streamTrue = true) :
    ∃ options usage kept, Metered d (rewriteDocument model true d) options usage kept := by
  obtain ⟨honce, -, -⟩ := scanRequestFields_members hscan
  have hmembers : (rewriteDocument model true d).value.members
      = rewriteMembers model true d.value.members :=
    members_rewriteDocument fun _ ↦ members_ne_nil hscan hstream
  obtain ⟨options, hoptions, v, hv, hagent⟩ := memberOf_rewriteMembers_options model d.value.members
  have hrouting : routingOf options = some .streamOptions := by simpa using List.find?_some hoptions
  refine ⟨options, usageMember, (v.members.filter isKept).map strip, ?_, ?_, hv,
    ?_, by decide, by decide,
    ?_⟩
  · -- The member is the first that is found, and no other follows it.
    have honce' : Once ((rewriteMembers model true d.value.members).map routingOf) :=
      honce.rewriteMembers
    have hle := honce'.length_filter_le .streamOptions
    rw [← find?_named, ← List.head?_filter] at hoptions
    rw [hmembers, show "stream_options" = Routing.streamOptions.name from rfl]
    cases hlist : (rewriteMembers model true d.value.members).filter
        (named true Routing.streamOptions.name) with
    | nil =>
      rw [hlist] at hoptions
      cases hoptions
    | cons a rest =>
      rw [hlist] at hoptions hle
      have hrest : rest = [] := List.eq_nil_of_length_eq_zero (by simpa using hle)
      rw [← Option.some.inj hoptions, hrest]
  · rw [name_of_mem_rewriteMembers (List.mem_of_find?_eq_some hoptions) hrouting]
    rfl
  · rw [hv]
    exact filter_usage_withUsage v
  · rw [List.map_map, show Member.core ∘ strip = Member.core from rfl, hagent, ← find?_named]
    rfl

/-- The forwarded body streams too. -/
theorem streamTrue_rewriteDocument {f' : RequestFields}
    (hscan : scanRequestFields d.text = some (.ok f))
    (hstream : f.streamTrue = true)
    (hscan' : scanRequestFields (rewriteDocument model true d).text = some (.ok f')) :
    f'.streamTrue = true := by
  obtain ⟨-, htrue, -⟩ := scanRequestFields_members hscan
  obtain ⟨-, htrue', -⟩ := scanRequestFields_members hscan'
  rw [members_rewriteDocument fun _ ↦ members_ne_nil hscan hstream,
    memberOf_rewriteMembers (by decide)] at htrue'
  rw [htrue] at hstream
  obtain ⟨m, hm, htext⟩ := (Option.any_eq_true _ _).mp hstream
  have hrouting : routingOf m = some .stream := by simpa using List.find?_some hm
  rw [htrue', hm, Option.map_some, Option.any_some, value_rewriteMember_stream hrouting]
  exact htext

/-- Whatever `stream_options` a streaming request carries, the forwarded body asks for usage and
nothing in it says otherwise, the agent's other options are kept, and a second rewrite changes no
byte. -/
theorem rewriteRequestBody_metered {body model : List UInt8} {f : RequestFields} {d : Document}
    (hparse : parse body = some d) (hscan : scanRequestFields body = some (.ok f))
    (hstream : f.streamTrue = true) :
    ∃ (out : List UInt8) (d' : Document) (options usage : Member) (kept : List Member),
      rewriteRequestBody body f model true = some out ∧ parse out = some d'
        ∧ Metered d d' options usage kept
        ∧ ∃ f', scanRequestFields out = some (.ok f') ∧ f'.streamTrue = true
          ∧ rewriteRequestBody out f' model true = some out := by
  obtain rfl := text_of_parse hparse
  let content : Content := ⟨marshalContent model, isContent_marshalContent model⟩
  obtain ⟨options, usage, kept, hmetered⟩ := metered_rewriteDocument content hscan hstream
  obtain ⟨f', hscan'⟩ : ∃ f', scanRequestFields (rewriteDocument content true d).text
      = some (.ok f') :=
    exists_scan_rewriteDocument hscan fun _ ↦ hstream
  have hstream' := streamTrue_rewriteDocument hscan hstream hscan'
  refine ⟨_, _, options, usage, kept, rewriteRequestBody_eq hscan fun _ ↦ hstream, parse_text _,
    hmetered,
    f', hscan', hstream', ?_⟩
  rw [rewriteRequestBody_eq hscan' fun _ ↦ hstream', rewriteDocument_rewriteDocument]

/-- A request that opts out of usage three times, twice in a spelling of its own, and has an option
of its own between them. -/
def evasiveBody : List UInt8 :=
  bytes
    ("\x7b\"Stream\":true, \"STREAM_options\" : \x7b \"include_u\\u0073age\":false, \"a\" : [1] ,"
    ++ "\"INCLUDE_USAGE\":0,\"include_usage\":false\x7d\x7d")

theorem rewriteRequestBody_metered_evasive :
    ∃ d f, parse evasiveBody = some d ∧ scanRequestFields evasiveBody = some (.ok f)
      ∧ f.streamTrue = true ∧ ∃ (out : List UInt8) (d' : Document) (options usage : Member)
        (kept : List Member), rewriteRequestBody evasiveBody f (bytes "m") true = some out
          ∧ parse out = some d' ∧ Metered d d' options usage kept
          ∧ ∃ f', scanRequestFields out = some (.ok f') ∧ f'.streamTrue = true
            ∧ rewriteRequestBody out f' (bytes "m") true = some out := by
  obtain ⟨d, hparse⟩ : ∃ d, parse evasiveBody = some d :=
    Option.isSome_iff_exists.mp (by decide +kernel)
  obtain ⟨f, hscan, hstream⟩ : ∃ f, scanRequestFields evasiveBody = some (.ok f)
      ∧ f.streamTrue = true := by
    have h : ∃ r ∈ scanRequestFields evasiveBody, ∃ f, r = .ok f ∧ f.streamTrue = true := by
      have hany : (scanRequestFields evasiveBody).any
          (fun r ↦ r.toOption.any (·.streamTrue)) = true := by decide +kernel
      cases hscan : scanRequestFields evasiveBody with
      | none => rw [hscan] at hany; cases hany
      | some r =>
        rw [hscan] at hany
        cases r with
        | error e => cases hany
        | ok f => exact ⟨_, rfl, f, rfl, hany⟩
    obtain ⟨_, hscan, f, rfl, hstream⟩ := h
    exact ⟨f, hscan, hstream⟩
  exact ⟨d, f, hparse, hscan, hstream, rewriteRequestBody_metered hparse hscan hstream⟩

end Kaalm.Gateway
