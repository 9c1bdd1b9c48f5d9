import Kaalm.Gateway.RequestScan
import Mathlib.Data.Multiset.AddSub
import Mathlib.Tactic.Abel

/-!
# The rewritten request body

What `rewriteRequestBody` is for: `rewriteDocument` is the body with the value of its model member,
the names of its routing members and, on demand, its `stream_options` exchanged, and with all else
as it was. The edits at offsets do just that (`rewriteRequestBody_eq`), and of the result every
reader gets the same model and the same stream.
-/

namespace Kaalm.Gateway

open Ascii JsonText Splice GoJson

/-! ## What the scan finds -/

/-- A name is at most one of the routing names. -/
theorem Routing.eq_of_matches {name : String} {r r' : Routing} (h : jsonNameMatches name r.name)
    (h' : jsonNameMatches name r'.name) : r = r' := by
  have hfold : r.name.toList.map foldChar = r'.name.toList.map foldChar :=
    (of_decide_eq_true h).symm.trans (of_decide_eq_true h')
  cases r <;> cases r' <;> first | rfl | exact absurd hfold (by decide)

theorem Routing.mem_all (r : Routing) : r ∈ Routing.all := by
  cases r <;> decide

theorem Routing.find?_matches {name : String} {r : Routing} :
    (Routing.all.find? fun r ↦ jsonNameMatches name r.name) = some r ↔
      jsonNameMatches name r.name := by
  constructor
  · intro h
    simpa using List.find?_some h
  · intro h
    cases hfind : Routing.all.find? fun r ↦ jsonNameMatches name r.name with
    | none => exact absurd h (List.find?_eq_none.mp hfind r r.mem_all)
    | some r' =>
      have h' : jsonNameMatches name r'.name := by simpa using List.find?_some hfind
      rw [Routing.eq_of_matches h h']

/-- No routing name occurs twice. -/
def Once (rs : List (Option Routing)) : Prop := rs.Pairwise fun a b ↦ ∀ r, a = some r → b ≠ some r

/-- The member of a routing name. -/
def located (l : List MemberSpan) (r : Routing) : Option MemberSpan :=
  l.find? fun m ↦ m.routing = some r

/-- What the scan has after the members `l`. -/
def Scan.of (b : List UInt8) (l : List MemberSpan) : Scan where
  fields :=
    { keys := fun r ↦ (located l r).map MemberSpan.key
      model := (located l .model).map MemberSpan.value
      streamTrue := (located l .stream).any fun m ↦ m.value.bytes b = bytes "true"
      options := (located l .streamOptions).map MemberSpan.value
      members := l.length }
  badStream := (located l .stream).any fun m ↦ ¬ m.value.bytes b = bytes "true"
    ∧ ¬ m.value.bytes b = bytes "false" ∧ ¬ m.value.bytes b = bytes "null"

/-- What the scan has found after the members `l` and a closing brace at `close`. -/
def foundFields (b : List UInt8) (l : List MemberSpan) (close : ℕ) : RequestFields :=
  { (Scan.of b l).fields with closeBrace := some close }

variable {b : List UInt8} {l : List MemberSpan} {s s' : Scan} {m : MemberSpan} {r : Routing}

theorem located_append (l : List MemberSpan) (m : MemberSpan) (r : Routing) :
    located (l ++ [m]) r = (located l r).or (if m.routing = some r then some m else none) := by
  rw [located, List.find?_append, located]
  congr 1
  by_cases h : m.routing = some r
  · simp [h]
  · simp [h]

theorem located_append_of_ne (h : m.routing ≠ some r) : located (l ++ [m]) r = located l r := by
  rw [located_append, if_neg h, Option.or_none]

theorem located_append_of_eq (h : m.routing = some r) (hnone : located l r = none) :
    located (l ++ [m]) r = some m := by
  rw [located_append, if_pos h, hnone, Option.none_or]

theorem Once.append (h : Once (l.map MemberSpan.routing))
    (hnone : ∀ r, m.routing = some r → located l r = none) :
    Once ((l ++ [m]).map MemberSpan.routing) := by
  rw [List.map_append, Once, List.pairwise_append]
  refine ⟨h, List.pairwise_singleton _ _, fun a ha c hc r har hcr ↦ ?_⟩
  obtain ⟨m', hm', rfl⟩ := List.mem_map.mp ha
  rw [List.map_singleton, List.mem_singleton] at hc
  rw [hc] at hcr
  exact List.find?_eq_none.mp (hnone r hcr) m' hm' (decide_eq_true har)

/-- One member: either the scan is as if it had been there all along, or its name is a duplicate. -/
theorem Scan.of_record (honce : Once (l.map MemberSpan.routing))
    (hrecord : (Scan.of b l).record b m = .ok s') :
    Once ((l ++ [m]).map MemberSpan.routing) ∧ s' = Scan.of b (l ++ [m]) := by
  have hlen : (l ++ [m]).length = l.length + 1 := List.length_append
  rw [Scan.record] at hrecord
  cases hr : m.routing with
  | none =>
    rw [hr] at hrecord
    obtain rfl := Except.ok.inj hrecord
    have hloc : ∀ r, located (l ++ [m]) r = located l r := fun r ↦
      located_append_of_ne (by rw [hr]; exact nofun)
    refine ⟨honce.append (by rw [hr]; exact nofun), ?_⟩
    simp only [Scan.of, hloc, hlen]
  | some r =>
    rw [hr] at hrecord
    simp only at hrecord
    split_ifs at hrecord with hkey
    obtain rfl := Except.ok.inj hrecord
    have hnone : located l r = none := by
      rw [Scan.of, Option.isSome_map] at hkey
      exact Option.not_isSome_iff_eq_none.mp hkey
    have hthis : located (l ++ [m]) r = some m := located_append_of_eq hr hnone
    have hother : ∀ r', r' ≠ r → located (l ++ [m]) r' = located l r' := fun r' hne ↦
      located_append_of_ne (by rw [hr]; exact fun heq ↦ hne (Option.some.inj heq).symm)
    have hkeys : Function.update (fun r ↦ (located l r).map MemberSpan.key) r (some m.key)
        = fun r ↦ (located (l ++ [m]) r).map MemberSpan.key := by
      funext r'
      by_cases hne : r' = r
      · rw [hne, Function.update_self, hthis]
        rfl
      · rw [Function.update_of_ne hne, hother r' hne]
    refine ⟨honce.append fun r' hr' ↦ ?_, ?_⟩
    · rw [hr] at hr'
      rw [← Option.some.inj hr']
      exact hnone
    · cases r with
      | model => simp only [Scan.note, Scan.of, hkeys, hlen, hthis, hother .stream (by decide),
          hother .streamOptions (by decide), Option.map_some]
      | stream => simp only [Scan.note, Scan.of, hkeys, hlen, hthis, hother .model (by decide),
          hother .streamOptions (by decide), Option.any_some]
      | streamOptions => simp only [Scan.note, Scan.of, hkeys, hlen, hthis,
          hother .model (by decide), hother .stream (by decide), Option.map_some]

theorem Scan.of_foldlM (l' : List MemberSpan) (honce : Once (l.map MemberSpan.routing))
    (h : l'.foldlM (Scan.record b) (Scan.of b l) = .ok s') :
    Once ((l ++ l').map MemberSpan.routing) ∧ s' = Scan.of b (l ++ l') := by
  induction l' generalizing l with
  | nil =>
    rw [List.append_nil]
    exact ⟨honce, (Except.ok.inj h).symm⟩
  | cons m l' ih =>
    rw [List.foldlM_cons] at h
    cases hrecord : (Scan.of b l).record b m with
    | error e =>
      rw [hrecord] at h
      cases h
    | ok s₁ =>
      rw [hrecord] at h
      obtain ⟨honce', rfl⟩ := Scan.of_record honce hrecord
      have hrest := ih honce' h
      rwa [List.append_assoc, List.singleton_append] at hrest

/-- What a scan without an error has found. -/
theorem scanRequestFields_ok {d : Document} {f : RequestFields}
    (h : scanRequestFields d.text = some (.ok f)) :
    (d.value.text.head? = some 0x6e ∧ f = {})
      ∨ d.value.text.head? = some lbrace
        ∧ Once ((spansFrom (d.before.1.length + 1) d.value.members).map MemberSpan.routing)
        ∧ (Scan.of d.text (spansFrom (d.before.1.length + 1) d.value.members)).badStream = false
        ∧ f = foundFields d.text (spansFrom (d.before.1.length + 1) d.value.members)
          (d.before.1.length + d.value.text.length - 1) := by
  obtain ⟨c, cs, hcs, -⟩ := exists_text_eq_cons d.value
  have hhead : d.value.text.head? = some c := by
    rw [hcs]
    rfl
  have hc : d.text[d.before.1.length]? = some c := (getElem_text d).trans hhead
  rw [scanRequestFields, skipJSONSpace_text] at h
  simp only [hc] at h
  split_ifs at h with hnull hobject
  · rw [hhead, hnull]
    exact Or.inl ⟨rfl, (Except.ok.inj (Option.some.inj h)).symm⟩
  · exact nomatch Option.some.inj h
  · have hobject : c = lbrace := Classical.not_not.mp hobject
    rw [hobject] at hhead
    have hwalk :
        WalksFrom (Scan.record d.text) d.text d.value.members (Scan.of d.text []) _ _ _ _ :=
      walksFrom_object (drop_text d) hhead
    obtain ⟨r, hr, h⟩ := Option.map_eq_some_iff.mp h
    have hr' := hwalk.symm.trans hr
    refine Or.inr ⟨hhead, ?_⟩
    cases hfold : (spansFrom (d.before.1.length + 1) d.value.members).foldlM (Scan.record d.text)
        (Scan.of d.text []) with
    | error e =>
      rw [hfold] at hr'
      rw [← Option.some.inj hr'] at h
      cases h
    | ok s =>
      rw [hfold] at hr'
      rw [← Option.some.inj hr'] at h
      obtain ⟨honce, rfl⟩ := Scan.of_foldlM (l := []) _ List.Pairwise.nil hfold
      rw [List.nil_append] at honce h
      simp only [Except.map, Scan.close] at h
      split_ifs at h with hbad
      exact ⟨honce, eq_false_of_ne_true hbad, (Except.ok.inj h).symm⟩

/-- The scan has no error at a member whose name is not a duplicate. -/
theorem Scan.exists_record (honce : Once ((l ++ [m]).map MemberSpan.routing)) :
    ∃ s', (Scan.of b l).record b m = .ok s' := by
  rw [Scan.record]
  cases hr : m.routing with
  | none => exact ⟨_, rfl⟩
  | some r =>
    have hnone : located l r = none := by
      refine List.find?_eq_none.mpr fun m' hm' heq ↦ ?_
      rw [List.map_append, Once, List.pairwise_append] at honce
      exact honce.2.2 _ (List.mem_map_of_mem hm') _ (List.mem_singleton_self _) r
        (of_decide_eq_true heq) hr
    have hkey : ((Scan.of b l).fields.keys r).isSome = false := by
      rw [Scan.of, Option.isSome_map, hnone]
      rfl
    refine ⟨_, if_neg ?_⟩
    rw [hkey]
    exact Bool.false_ne_true

theorem Scan.foldlM_of_once (l' : List MemberSpan)
    (honce : Once ((l ++ l').map MemberSpan.routing)) :
    l'.foldlM (Scan.record b) (Scan.of b l) = .ok (Scan.of b (l ++ l')) := by
  induction l' generalizing l with
  | nil =>
    rw [List.append_nil]
    rfl
  | cons m l' ih =>
    have honce' : Once (((l ++ [m]) ++ l').map MemberSpan.routing) := by
      rwa [List.append_assoc, List.singleton_append]
    have hpre : Once ((l ++ [m]).map MemberSpan.routing) := by
      rw [List.map_append, Once, List.pairwise_append] at honce'
      exact honce'.1
    have hleft : Once (l.map MemberSpan.routing) := by
      rw [List.map_append, Once, List.pairwise_append] at hpre
      exact hpre.1
    obtain ⟨s', hrecord⟩ := Scan.exists_record (b := b) hpre
    obtain ⟨-, rfl⟩ := Scan.of_record hleft hrecord
    rw [List.foldlM_cons, hrecord]
    have hrest := ih honce'
    rwa [List.append_assoc, List.singleton_append] at hrest

/-- A scan without an error, from what the members are. -/
theorem scanRequestFields_of_once {d : Document} (hobject : d.value.text.head? = some lbrace)
    (honce : Once ((spansFrom (d.before.1.length + 1) d.value.members).map MemberSpan.routing))
    (hbad : (Scan.of d.text (spansFrom (d.before.1.length + 1) d.value.members)).badStream
      = false) :
    scanRequestFields d.text = some (.ok (foundFields d.text
      (spansFrom (d.before.1.length + 1) d.value.members)
      (d.before.1.length + d.value.text.length - 1))) := by
  have hc : d.text[d.before.1.length]? = some lbrace := (getElem_text d).trans hobject
  have hwalk : WalksFrom (Scan.record d.text) d.text d.value.members (Scan.of d.text []) _ _ _ _ :=
    walksFrom_object (drop_text d) hobject
  rw [WalksFrom, Scan.foldlM_of_once _ honce, List.nil_append] at hwalk
  have hinit : Scan.of d.text [] = {} := rfl
  rw [hinit] at hwalk
  rw [scanRequestFields, skipJSONSpace_text]
  simp only [hc, hwalk]
  rw [if_neg (by decide), if_neg (by decide)]
  simp only [Option.map_some, Except.map, Scan.close, hbad, Bool.false_eq_true, if_false]
  rfl

/-! ## The rewrite of a document -/

def Routing.content (r : Routing) : Content := ⟨bytes r.name, by cases r <;> decide⟩

/-- The routing name that a member has, whatever its spelling. -/
def routingOf (m : Member) : Option Routing := Routing.all.find? fun r ↦ named true r.name m

/-- The member `"include_usage":true`. -/
def usageMember : Member :=
  .bare ⟨bytes "include_usage", by decide⟩ (.scalar ⟨bytes "true", by decide⟩)

/-- A member without the white space around it. -/
def strip (m : Member) : Member :=
  { m with before := ⟨[], all_isSpace_nil⟩, after := ⟨[], all_isSpace_nil⟩ }

/-- The members of a `stream_options` object without `include_usage`, and then
`"include_usage":true`. -/
def withUsage (v : Value) : Value :=
  .ofMembers ((v.members.filter fun m ↦ !named true "include_usage" m).map strip ++ [usageMember])

/-- The `stream_options` of a body that has none. -/
def optionsMember : Member := .bare Routing.streamOptions.content (.ofMembers [usageMember])

/-- A member of the rewritten body. Only the name and the value of routing members change, and with
`forceUsage` the white space around the colon of `stream_options`. -/
def rewriteMember (model : Content) (forceUsage : Bool) (m : Member) : Member :=
  match routingOf m with
  | none => m
  | some .model => { m with name := Routing.model.content, value := .string model }
  | some .stream => { m with name := Routing.stream.content }
  | some .streamOptions =>
    if forceUsage then
      { before := m.before, name := Routing.streamOptions.content
        afterName := ⟨[], all_isSpace_nil⟩, beforeValue := ⟨[], all_isSpace_nil⟩
        value := withUsage m.value, after := m.after }
    else { m with name := Routing.streamOptions.content }

def rewriteMembers (model : Content) (forceUsage : Bool) (ms : List Member) : List Member :=
  ms.map (rewriteMember model forceUsage)
    ++ if forceUsage ∧ some .streamOptions ∉ ms.map routingOf then [optionsMember] else []

/-- The members that the rewrite appends. -/
def appended (ms : List Member) : List Member :=
  if some Routing.streamOptions ∉ ms.map routingOf then [optionsMember] else []

def rewriteDocument (model : Content) (forceUsage : Bool) (d : Document) : Document :=
  match d.value with
  | .object ms => { d with value := .ofMembers (rewriteMembers model forceUsage ms.toList) }
  | _ => d

/-! ## `stream_options` -/

section Options

variable {b rest : List UInt8} {i p : ℕ}

/-- What has been written so far, with the comma that the next member needs. -/
def pending (out : List UInt8 × Bool) : List UInt8 := out.1 ++ if out.2 then [comma] else []

/-- What is kept of a member of `stream_options`. -/
def keptText (m : Member) : List UInt8 :=
  if named true "include_usage" m then [] else m.core ++ [comma]

theorem keepOption_spanAt {m : Member} (out : List UInt8 × Bool) (h : b.drop p = m.text ++ rest) :
    ∃ out', keepOption b out (spanAt m (p + m.before.1.length)) = .ok out'
      ∧ pending out' = pending out ++ keptText m := by
  rw [Member.text, List.append_assoc, List.append_assoc] at h
  have hcore : Span.bytes ⟨p + m.before.1.length, p + m.before.1.length + m.core.length⟩ b
      = m.core :=
    Span.bytes_of_append (drop_of_append h)
  rw [keepOption, keptText]
  by_cases hname : named true "include_usage" m
  · refine ⟨out, if_pos hname, ?_⟩
    rw [if_pos hname, List.append_nil]
  · refine ⟨_, if_neg hname, ?_⟩
    simp only [if_neg hname, spanAt, hcore, pending, if_true, List.append_assoc]

theorem foldlM_keepOption (ms : List Member) (out : List UInt8 × Bool)
    (h : b.drop p = furtherText ms ++ rest) :
    ∃ out', (spansFrom (p + 1) ms).foldlM (keepOption b) out = .ok out'
      ∧ pending out' = pending out ++ ms.flatMap keptText := by
  induction ms generalizing p out with
  | nil => exact ⟨out, rfl, (List.append_nil _).symm⟩
  | cons m ms ih =>
    rw [furtherText, List.flatMap_cons, List.append_assoc, List.cons_append] at h
    have hmember := drop_of_cons h
    obtain ⟨out₁, hout₁, hpending₁⟩ := keepOption_spanAt out hmember
    obtain ⟨out₂, hout₂, hpending₂⟩ := ih out₁ (drop_of_append hmember)
    refine ⟨out₂, ?_, ?_⟩
    · rw [spansFrom, List.foldlM_cons, hout₁]
      exact hout₂
    · rw [hpending₂, hpending₁, List.flatMap_cons, List.append_assoc]

theorem text_withUsage (v : Value) :
    (withUsage v).text = lbrace :: (v.members.flatMap keptText ++ (includeUsage ++ [rbrace])) := by
  have husage : usageMember.text = includeUsage := by decide
  rw [withUsage, Value.text_ofMembers_concat, husage]
  congr 2
  induction v.members with
  | nil => rfl
  | cons m ms ih =>
    rw [List.flatMap_cons, ← ih, List.filter_cons, keptText]
    by_cases hname : named true "include_usage" m
    · rw [hname]
      rfl
    · rw [eq_false_of_ne_true hname]
      simp only [Bool.not_false, if_true, List.map_cons, List.flatMap_cons]
      simp only [Member.text, strip, List.nil_append, List.append_nil, Bool.false_eq_true, if_false]
      rfl

theorem foldlM_keepOption_object {v : Value} (out : List UInt8 × Bool)
    (h : b.drop i = v.text ++ rest)
    (hv : v.text.head? = some lbrace) :
    ∃ out', (spansFrom (i + 1) v.members).foldlM (keepOption b) out = .ok out'
      ∧ pending out' = pending out ++ v.members.flatMap keptText := by
  rcases object_of_head hv with ⟨s, rfl⟩ | ⟨m, ms, rfl⟩
  · exact ⟨out, rfl, (List.append_nil _).symm⟩
  · have hmember := drop_of_object h
    obtain ⟨out₁, hout₁, hpending₁⟩ := keepOption_spanAt out hmember
    obtain ⟨out₂, hout₂, hpending₂⟩ := foldlM_keepOption ms out₁ (drop_of_append hmember)
    rw [Value.members, Members.toList_ofList]
    refine ⟨out₂, ?_, ?_⟩
    · rw [spansFrom, List.foldlM_cons, hout₁]
      exact hout₂
    · rw [hpending₂, hpending₁, List.flatMap_cons, List.append_assoc]

theorem streamOptionsWithUsage_eq {v : Value} (h : b.drop i = v.text ++ rest) :
    streamOptionsWithUsage b i
      = some (Routing.streamOptions.key ++ colon :: (withUsage v).text) := by
  have hopen : streamOptionsOpen = Routing.streamOptions.key ++ [colon, lbrace] := by decide
  obtain ⟨c, cs, hcs, -⟩ := exists_text_eq_cons v
  have hhead : v.text.head? = some c := by
    rw [hcs]
    rfl
  rw [streamOptionsWithUsage, getElem_of_cons (h.trans (congrArg (· ++ rest) hcs)), text_withUsage]
  simp only
  split_ifs with hobject
  · rw [members_eq_nil (by rw [hhead]; exact fun heq ↦ hobject (Option.some.inj heq)),
      streamOptionsMember, hopen, List.append_assoc]
    rfl
  · rw [Classical.not_not.mp hobject] at hhead
    obtain ⟨out, hout, hpending⟩ := foldlM_keepOption_object (streamOptionsOpen, false) h hhead
    have hwalk : WalksFrom (keepOption b) b v.members (streamOptionsOpen, false) _ _ _ _ :=
      walksFrom_object h hhead
    rw [WalksFrom, hout] at hwalk
    rw [hwalk]
    simp only [Except.map, Option.map_some]
    rw [← List.append_assoc, ← pending, hpending, pending, hopen]
    simp only [Bool.false_eq_true, if_false, List.append_nil, List.append_assoc, List.cons_append,
      List.nil_append]

end Options

/-! ## The edits -/

section Edits

variable (b : List UInt8) (model : Content) (forceUsage : Bool)

/-- The edits that a member takes. -/
def spanEdits (m : MemberSpan) : List (Edit UInt8) :=
  match m.routing with
  | none => []
  | some .model => keyEdit b .model (some m.key) ++ [⟨m.value.start, m.value.stop, quoted model.1⟩]
  | some .stream => keyEdit b .stream (some m.key)
  | some .streamOptions =>
    if forceUsage then
      [⟨m.key.start, m.value.stop, (streamOptionsWithUsage b m.value.start).getD []⟩]
    else keyEdit b .streamOptions (some m.key)

/-- The name of a routing member. -/
def namePiece (r : Routing) (m : Member) : Piece UInt8 :=
  if quoted m.name.1 ≠ r.key then .replace (quoted m.name.1) r.key else .keep r.key

/-- The pieces of a member. -/
def memberPieces (m : Member) : List (Piece UInt8) :=
  match routingOf m with
  | none => [.keep m.text]
  | some .model => [.keep m.before.1, namePiece .model m, .keep m.link,
      .replace m.value.text (quoted model.1), .keep m.after.1]
  | some .stream =>
    [.keep m.before.1, namePiece .stream m, .keep (m.link ++ (m.value.text ++ m.after.1))]
  | some .streamOptions =>
    if forceUsage then
      [.keep m.before.1,
        .replace m.core (Routing.streamOptions.key ++ colon :: (withUsage m.value).text),
          .keep m.after.1]
    else [.keep m.before.1, namePiece .streamOptions m,
      .keep (m.link ++ (m.value.text ++ m.after.1))]

variable {b model forceUsage} {m : Member} {rest : List UInt8} {p : ℕ}

theorem namePiece_old (r : Routing) (m : Member) : (namePiece r m).old = quoted m.name.1 := by
  rw [namePiece]
  split_ifs with h
  · rfl
  · exact (Classical.not_not.mp h).symm

theorem namePiece_new (r : Routing) (m : Member) : (namePiece r m).new = r.key := by
  rw [namePiece]
  split_ifs <;> rfl

theorem routing_spanAt (m : Member) (i : ℕ) : (spanAt m i).routing = routingOf m := rfl

theorem memberPieces_old : (memberPieces model forceUsage m).flatMap Piece.old = m.text := by
  rw [memberPieces, Member.text, Member.core]
  cases routingOf m with
  | none => exact List.append_nil _
  | some r =>
    cases r with
    | model => simp [namePiece_old]
    | stream => simp [namePiece_old]
    | streamOptions =>
      cases forceUsage with
      | true => simp
      | false => simp [namePiece_old]

theorem memberPieces_new :
    (memberPieces model forceUsage m).flatMap Piece.new
      = (rewriteMember model forceUsage m).text := by
  rw [memberPieces, rewriteMember]
  cases routingOf m with
  | none => simp only [List.flatMap_singleton, Piece.new_keep]
  | some r =>
    cases r with
    | model => simp [namePiece_new, Member.text, Member.core, Member.link, Value.text, Routing.key,
        Routing.content]
    | stream => simp [namePiece_new, Member.text, Member.core, Member.link, Routing.key,
        Routing.content]
    | streamOptions =>
      cases forceUsage with
      | true => simp [Member.text, Member.core, Member.link, Routing.key, Routing.content]
      | false => simp [namePiece_new, Member.text, Member.core, Member.link, Routing.key,
          Routing.content]

theorem quoted_ne_nil (cs : List UInt8) : quoted cs ≠ [] := nofun

theorem text_ne_nil (v : Value) : v.text ≠ [] := by
  obtain ⟨c, cs, hcs, -⟩ := exists_text_eq_cons v
  rw [hcs]
  exact nofun

/-- Every edit of a member replaces something. -/
theorem old_ne_nil {old new : List UInt8}
    (h : Piece.replace old new ∈ memberPieces model forceUsage m) :
    old ≠ [] := by
  have hname : ∀ r, Piece.replace old new = namePiece r m → old ≠ [] := by
    intro r heq
    rw [show old = (Piece.replace old new).old from rfl, heq, namePiece_old]
    exact quoted_ne_nil _
  rw [memberPieces] at h
  split at h
  · simp at h
  · simp only [List.mem_cons, List.not_mem_nil, or_false, reduceCtorEq, false_or,
      Piece.replace.injEq] at h
    rcases h with h | ⟨rfl, -⟩
    · exact hname _ h
    · exact text_ne_nil _
  · simp only [List.mem_cons, List.not_mem_nil, or_false, reduceCtorEq, false_or] at h
    exact hname _ h
  · split_ifs at h
    · simp only [List.mem_cons, List.not_mem_nil, or_false, reduceCtorEq, false_or,
        Piece.replace.injEq] at h
      rw [h.1]
      exact List.append_ne_nil_of_left_ne_nil (quoted_ne_nil _) _
    · simp only [List.mem_cons, List.not_mem_nil, or_false, reduceCtorEq, false_or] at h
      exact hname _ h

/-- The name of a member is edited where it is. -/
theorem editsFrom_namePiece {r : Routing} (h : b.drop p = quoted m.name.1 ++ rest)
    (ps : List (Piece UInt8)) :
    editsFrom p (namePiece r m :: ps)
      = keyEdit b r (some ⟨p, p + (quoted m.name.1).length⟩)
        ++ editsFrom (p + (quoted m.name.1).length) ps := by
  rw [keyEdit, namePiece, Span.bytes_of_append h]
  split_ifs with hkey
  · rfl
  · rw [Classical.not_not.mp hkey]
    rfl

theorem editsFrom_memberPieces (h : b.drop p = m.text ++ rest) :
    editsFrom p (memberPieces model forceUsage m)
      = spanEdits b model forceUsage (spanAt m (p + m.before.1.length)) := by
  rw [Member.text, List.append_assoc, List.append_assoc] at h
  have hcore := drop_of_append h
  rw [Member.core, List.append_assoc, List.append_assoc] at hcore
  have hvalue := drop_of_append (drop_of_append hcore)
  rw [memberPieces, spanEdits, routing_spanAt]
  cases routingOf m with
  | none => rfl
  | some r =>
    cases r with
    | model =>
      simp only [editsFrom, editsFrom_namePiece hcore, spanAt]
      rw [Member.core, List.length_append, List.length_append, ← Nat.add_assoc, ← Nat.add_assoc]
    | stream =>
      simp only [editsFrom, editsFrom_namePiece hcore, spanAt, List.append_nil]
    | streamOptions =>
      cases forceUsage with
      | true =>
        simp only [if_true, editsFrom, spanAt, streamOptionsWithUsage_eq hvalue, Option.getD_some]
      | false =>
        simp only [Bool.false_eq_true, if_false, editsFrom, editsFrom_namePiece hcore, spanAt,
          List.append_nil]

/-- The pieces of further members, each after a comma. -/
def furtherPieces (model : Content) (forceUsage : Bool) (ms : List Member) : List (Piece UInt8) :=
  ms.flatMap fun m ↦ .keep [comma] :: memberPieces model forceUsage m

theorem furtherPieces_old (ms : List Member) :
    (furtherPieces model forceUsage ms).flatMap Piece.old = furtherText ms := by
  rw [furtherPieces, List.flatMap_assoc, furtherText]
  simp only [List.flatMap_cons, memberPieces_old, Piece.old_keep, List.singleton_append]

theorem furtherPieces_new (ms : List Member) :
    (furtherPieces model forceUsage ms).flatMap Piece.new
      = furtherText (ms.map (rewriteMember model forceUsage)) := by
  rw [furtherPieces, List.flatMap_assoc, furtherText, List.flatMap_map]
  simp only [List.flatMap_cons, memberPieces_new, Piece.new_keep, List.singleton_append]

theorem editsFrom_furtherPieces (ms : List Member) (h : b.drop p = furtherText ms ++ rest) :
    editsFrom p (furtherPieces model forceUsage ms)
      = (spansFrom (p + 1) ms).flatMap (spanEdits b model forceUsage) := by
  induction ms generalizing p with
  | nil => rfl
  | cons m ms ih =>
    rw [furtherText, List.flatMap_cons, List.append_assoc, List.cons_append] at h
    have hmember := drop_of_cons h
    rw [furtherPieces, List.flatMap_cons, List.cons_append, editsFrom, List.length_singleton,
      editsFrom_append, memberPieces_old, editsFrom_memberPieces hmember, ← furtherPieces,
      ih (drop_of_append hmember)]
    rfl

end Edits

/-! ## The rewrite makes the edits of all members -/

section Perm

variable {b : List UInt8} {l : List MemberSpan} {model : Content} {forceUsage : Bool}

theorem located_cons_of_ne {m : MemberSpan} {r : Routing} (h : m.routing ≠ some r) :
    located (m :: l) r = located l r :=
  List.find?_cons_of_neg (by rw [decide_eq_true_iff]; exact h)

theorem located_cons_of_eq {m : MemberSpan} {r : Routing} (h : m.routing = some r) :
    located (m :: l) r = some m :=
  List.find?_cons_of_pos (decide_eq_true h)

theorem Once.located_eq_none {m : MemberSpan} {r : Routing}
    (h : Once ((m :: l).map MemberSpan.routing)) (hr : m.routing = some r) :
      located l r = none := by
  refine List.find?_eq_none.mpr fun m' hm' hr' ↦ ?_
  exact (List.pairwise_cons.mp h).1 _ (List.mem_map_of_mem hm') r hr (of_decide_eq_true hr')

/-- The edits in the order of the members are those in the order of the routing names. -/
theorem flatMap_perm_located {E : MemberSpan → List (Edit UInt8)}
    (hE : ∀ m : MemberSpan, m.routing = none → E m = []) (h : Once (l.map MemberSpan.routing)) :
    (l.flatMap E).Perm (Routing.all.flatMap fun r ↦ (located l r).toList.flatMap E) := by
  induction l with
  | nil => exact List.Perm.refl []
  | cons m l ih =>
    have hrest := ih (List.pairwise_cons.mp h).2
    rw [List.flatMap_cons]
    cases hr : m.routing with
    | none =>
      rw [hE m hr, List.nil_append]
      have hloc : ∀ r, located (m :: l) r = located l r := fun r ↦
        located_cons_of_ne (by rw [hr]; exact nofun)
      simpa only [hloc] using hrest
    | some r =>
      have hnone := h.located_eq_none hr
      have hne : ∀ r', r' ≠ r → located (m :: l) r' = located l r' := fun r' hr' ↦
        located_cons_of_ne (by rw [hr]; exact fun heq ↦ hr' (Option.some.inj heq).symm)
      have hthis := located_cons_of_eq (l := l) hr
      have hmove := (List.perm_append_left_iff (E m)).mpr hrest
      refine hmove.trans ?_
      simp only [Routing.all, List.flatMap_cons, List.flatMap_nil, List.append_nil]
      cases r with
      | model =>
        rw [hthis, hne .stream (by decide), hne .streamOptions (by decide), hnone]
        simp
      | stream =>
        rw [hthis, hne .model (by decide), hne .streamOptions (by decide), hnone]
        simpa using List.perm_append_comm_assoc _ _ _
      | streamOptions =>
        rw [hthis, hne .model (by decide), hne .stream (by decide), hnone]
        have hcomm : (E m
          ++ ((located l .model).toList.flatMap E ++ (located l .stream).toList.flatMap E)).Perm
            (((located l .model).toList.flatMap E ++ (located l .stream).toList.flatMap E)
              ++ E m) :=
          List.perm_append_comm
        simpa using hcomm

theorem spanEdits_eq_nil {m : MemberSpan} (h : m.routing = none) :
    spanEdits b model forceUsage m = [] := by
  rw [spanEdits, h]

theorem routing_of_located {m : MemberSpan} {r : Routing} (h : located l r = some m) :
    m.routing = some r := by
  simpa using List.find?_some h

theorem spanEdits_located_model :
    (located l .model).toList.flatMap (spanEdits b model forceUsage)
      = keyEdit b .model ((located l .model).map MemberSpan.key)
        ++ (located l .model).toList.map fun m ↦ ⟨m.value.start, m.value.stop, quoted model.1⟩ := by
  cases hloc : located l .model with
  | none => rfl
  | some m =>
    rw [Option.toList_some, List.flatMap_singleton, spanEdits, routing_of_located hloc]
    rfl

theorem spanEdits_located_stream :
    (located l .stream).toList.flatMap (spanEdits b model forceUsage)
      = keyEdit b .stream ((located l .stream).map MemberSpan.key) := by
  cases hloc : located l .stream with
  | none => rfl
  | some m =>
    rw [Option.toList_some, List.flatMap_singleton, spanEdits, routing_of_located hloc]
    rfl

theorem spanEdits_located_options :
    (located l .streamOptions).toList.flatMap (spanEdits b model forceUsage)
      = if forceUsage then (located l .streamOptions).toList.map fun m ↦
          ⟨m.key.start, m.value.stop, (streamOptionsWithUsage b m.value.start).getD []⟩
        else keyEdit b .streamOptions ((located l .streamOptions).map MemberSpan.key) := by
  cases hloc : located l .streamOptions with
  | none => cases forceUsage <;> rfl
  | some m =>
    rw [Option.toList_some, List.flatMap_singleton, spanEdits, routing_of_located hloc]
    rfl

/-- What the rewrite appends to a body without `stream_options`. -/
def appendedEdits (forceUsage : Bool) (l : List MemberSpan) (close : ℕ) : List (Edit UInt8) :=
  if forceUsage ∧ located l .streamOptions = none then
    [⟨close, close, comma :: streamOptionsMember⟩]
  else []

private theorem perm_regroup {α : Type*} (a s k v o x y : List α) (h : k ++ o = x ++ y) :
    ((a ++ (s ++ k)) ++ (v ++ o)).Perm (((a ++ v) ++ (s ++ x)) ++ y) := by
  rw [← Multiset.coe_eq_coe]
  have hsum : (k : Multiset α) + (o : Multiset α) = (x : Multiset α) + (y : Multiset α) := by
    rw [Multiset.coe_add, Multiset.coe_add, h]
  simp only [← Multiset.coe_add]
  calc (a : Multiset α) + (s + k) + (v + o) = a + v + s + (k + o) := by abel
    _ = a + v + s + (x + y) := by rw [hsum]
    _ = a + v + (s + x) + y := by abel

theorem keyEdits_found (close : ℕ) :
    keyEdits b (foundFields b l close) forceUsage
      = keyEdit b .model ((located l .model).map MemberSpan.key)
        ++ (keyEdit b .stream ((located l .stream).map MemberSpan.key)
          ++ if forceUsage then []
            else keyEdit b .streamOptions ((located l .streamOptions).map MemberSpan.key)) := by
  simp only [keyEdits, Routing.all, List.flatMap_cons, List.flatMap_nil, List.append_nil,
    foundFields, Scan.of, reduceCtorEq, false_and, if_false, true_and, Option.isSome_map]
  cases forceUsage with
  | false => simp only [Bool.false_eq_true, false_and, if_false]
  | true =>
    cases located l .streamOptions with
    | none => rfl
    | some m => rfl

theorem modelEdit_found (model : List UInt8) (close : ℕ) :
    modelEdit (foundFields b l close) model = (located l .model).toList.map fun m ↦
      ⟨m.value.start, m.value.stop, quoted (marshalContent model)⟩ := by
  simp only [modelEdit, foundFields, Scan.of]
  cases located l .model with
  | none => rfl
  | some m => rfl

/-- The options edit stands in for the key edit that is left out, or it appends. -/
theorem optionsEdit_found (model : Content) (forceUsage : Bool) (close : ℕ) (hl : l ≠ [])
    (husage : ∀ m, located l .streamOptions = some m →
      (streamOptionsWithUsage b m.value.start).isSome) :
    ∃ edits, optionsEdit b (foundFields b l close) forceUsage = some edits
      ∧ (if forceUsage then []
        else keyEdit b .streamOptions ((located l .streamOptions).map MemberSpan.key))
          ++ edits
        = (located l .streamOptions).toList.flatMap (spanEdits b model forceUsage)
          ++ appendedEdits forceUsage l close := by
  rw [spanEdits_located_options, appendedEdits, optionsEdit]
  cases forceUsage with
  | false => exact ⟨[], rfl, by simp⟩
  | true =>
    have hoptions : (foundFields b l close).options
        = (located l .streamOptions).map MemberSpan.value := rfl
    have hkeys : (foundFields b l close).keys .streamOptions
        = (located l .streamOptions).map MemberSpan.key := rfl
    have hclose : (foundFields b l close).closeBrace = some close := rfl
    have hmembers : (foundFields b l close).members ≠ 0 :=
      fun h ↦ hl (List.eq_nil_of_length_eq_zero h)
    simp only [if_true, true_and, hoptions, hkeys, hclose, if_neg hmembers]
    cases hloc : located l .streamOptions with
    | none => exact ⟨_, rfl, rfl⟩
    | some m =>
      obtain ⟨text, htext⟩ := Option.isSome_iff_exists.mp (husage m hloc)
      refine ⟨_, by simp only [Option.map_some, htext]; rfl, ?_⟩
      simp [htext]

/-- The edits that the rewrite makes, found by name, are the edits of the members. -/
theorem edits_perm (model : List UInt8) (forceUsage : Bool) (close : ℕ)
    (honce : Once (l.map MemberSpan.routing)) (hl : l ≠ [])
    (husage : ∀ m, located l .streamOptions = some m →
      (streamOptionsWithUsage b m.value.start).isSome) :
    ∃ edits, optionsEdit b (foundFields b l close) forceUsage = some edits
      ∧ (keyEdits b (foundFields b l close) forceUsage
          ++ (modelEdit (foundFields b l close) model ++ edits)).Perm
        (l.flatMap (spanEdits b ⟨marshalContent model, isContent_marshalContent model⟩ forceUsage)
          ++ appendedEdits forceUsage l close) := by
  obtain ⟨edits, hedits, hregroup⟩ := optionsEdit_found
    ⟨marshalContent model, isContent_marshalContent model⟩ forceUsage close hl husage
  refine ⟨edits, hedits, ?_⟩
  have hlocated := flatMap_perm_located (E := spanEdits b
    ⟨marshalContent model, isContent_marshalContent model⟩ forceUsage)
      (fun m ↦ spanEdits_eq_nil) honce
  refine List.Perm.trans ?_ ((List.perm_append_right_iff _).mpr hlocated.symm)
  rw [keyEdits_found, modelEdit_found]
  simp only [Routing.all, List.flatMap_cons, List.flatMap_nil, List.append_nil]
  rw [spanEdits_located_model, spanEdits_located_stream]
  exact perm_regroup _ _ _ _ _ _ _ hregroup

end Perm

/-! ## The spans of a document -/

section Spans

variable {b rest : List UInt8} {i p : ℕ} {l : List MemberSpan} {ms : List Member} {sp : MemberSpan}
  {m : Member}

theorem SpanOf.routing (h : SpanOf b sp m) : sp.routing = routingOf m := by
  obtain ⟨q, rest, rfl, -⟩ := h
  rfl

theorem map_routing (h : List.Forall₂ (SpanOf b) l ms) :
    l.map MemberSpan.routing = ms.map routingOf := by
  induction h with
  | nil => rfl
  | cons hsp _ ih => rw [List.map_cons, List.map_cons, hsp.routing, ih]

/-- The member of a routing name. -/
def memberOf (ms : List Member) (r : Routing) : Option Member :=
  ms.find? fun m ↦ routingOf m = some r

/-- The scan locates the member of a routing name. -/
theorem located_iff (h : List.Forall₂ (SpanOf b) l ms) (r : Routing) :
    Option.Rel (SpanOf b) (located l r) (memberOf ms r) := by
  induction h with
  | nil => exact Option.Rel.none
  | cons hsp _ ih =>
    rw [located, memberOf, List.find?_cons, List.find?_cons, hsp.routing]
    split
    · exact Option.Rel.some hsp
    · exact ih

theorem exists_memberOf {r : Routing} (h : List.Forall₂ (SpanOf b) l ms)
    (hloc : located l r = some sp) :
    ∃ m, memberOf ms r = some m ∧ SpanOf b sp m := by
  have hrel := located_iff h r
  rw [hloc] at hrel
  cases hm : memberOf ms r with
  | none =>
    rw [hm] at hrel
    cases hrel
  | some m =>
    rw [hm] at hrel
    cases hrel with
    | some hsp => exact ⟨m, rfl, hsp⟩

theorem isSome_streamOptionsWithUsage (h : List.Forall₂ (SpanOf b) l ms)
    (hloc : located l .streamOptions = some sp) :
    (streamOptionsWithUsage b sp.value.start).isSome := by
  obtain ⟨m, -, hsp⟩ := exists_memberOf h hloc
  obtain ⟨rest, hrest⟩ := hsp.drop_value
  rw [streamOptionsWithUsage_eq hrest]
  rfl

end Spans

/-! ## The rewrite of the body -/

section Rewrite

variable {d : Document} {f : RequestFields} {model : Content} {forceUsage : Bool} {m : Member}
  {ms : List Member}

/-- The pieces of an object up to its closing brace. -/
def objectPieces (model : Content) (forceUsage : Bool) (before : List UInt8) (m : Member)
    (ms : List Member) : List (Piece UInt8) :=
  .keep (before ++ [lbrace])
    :: (memberPieces model forceUsage m ++ furtherPieces model forceUsage ms)

def appendedPieces (forceUsage : Bool) (ms : List Member) : List (Piece UInt8) :=
  if forceUsage ∧ some .streamOptions ∉ ms.map routingOf then
    [.replace [] (comma :: streamOptionsMember)]
  else []

theorem objectPieces_old (before : List UInt8) :
    (objectPieces model forceUsage before m ms).flatMap Piece.old
      = before ++ lbrace :: (m.text ++ furtherText ms) := by
  rw [objectPieces, List.flatMap_cons, List.flatMap_append, memberPieces_old, furtherPieces_old,
    Piece.old_keep, List.append_assoc, List.singleton_append]

theorem objectPieces_new (before : List UInt8) :
    (objectPieces model forceUsage before m ms).flatMap Piece.new
      = before ++ lbrace :: ((rewriteMember model forceUsage m).text
        ++ furtherText (ms.map (rewriteMember model forceUsage))) := by
  rw [objectPieces, List.flatMap_cons, List.flatMap_append, memberPieces_new, furtherPieces_new,
    Piece.new_keep, List.append_assoc, List.singleton_append]

theorem appendedPieces_old (ms : List Member) :
    (appendedPieces forceUsage ms).flatMap Piece.old = [] := by
  rw [appendedPieces]
  split_ifs <;> rfl

theorem appendedPieces_new (ms : List Member) :
    (appendedPieces forceUsage ms).flatMap Piece.new
      = furtherText (if forceUsage ∧ some .streamOptions ∉ ms.map routingOf then [optionsMember]
        else []) := by
  rw [appendedPieces]
  split_ifs
  · decide
  · rfl

theorem objectPieces_proper {before old new : List UInt8}
    (h : Piece.replace old new ∈ objectPieces model forceUsage before m ms) : old ≠ [] := by
  rw [objectPieces] at h
  rcases List.mem_append.mp ((List.mem_cons.mp h).resolve_left nofun) with h | h
  · exact old_ne_nil h
  · obtain ⟨m', -, h⟩ := List.mem_flatMap.mp h
    exact old_ne_nil ((List.mem_cons.mp h).resolve_left nofun)

/-- The pieces of a document with an object in it. -/
def documentPieces (model : Content) (forceUsage : Bool) (d : Document) (m : Member)
    (ms : List Member) : List (Piece UInt8) :=
  objectPieces model forceUsage d.before.1 m ms
    ++ (appendedPieces forceUsage (m :: ms) ++ [.keep (rbrace :: d.after.1)])

theorem documentPieces_old (hd : d.value = .object (.ofList m ms)) :
    (documentPieces model forceUsage d m ms).flatMap Piece.old = d.text := by
  rw [documentPieces, List.flatMap_append, List.flatMap_append, objectPieces_old,
    appendedPieces_old, Document.text, hd, Value.text, Members.text_ofList]
  simp

theorem documentPieces_new (hd : d.value = .object (.ofList m ms)) :
    (documentPieces model forceUsage d m ms).flatMap Piece.new
      = (rewriteDocument model forceUsage d).text := by
  rw [documentPieces, List.flatMap_append, List.flatMap_append, objectPieces_new,
    appendedPieces_new, rewriteDocument, hd, Document.text]
  simp only [Members.toList_ofList, rewriteMembers, List.map_cons, List.cons_append,
    Value.text_ofMembers]
  simp [furtherText]

/-- The edits come one after the other. -/
theorem documentPieces_pairwise (d : Document) :
    (editsFrom 0 (documentPieces model forceUsage d m ms)).Pairwise fun a c ↦
      a.start < c.start := by
  rw [documentPieces, editsFrom_append, Nat.zero_add, List.pairwise_append]
  refine ⟨pairwise_editsFrom 0 fun old new ↦ objectPieces_proper, ?_, fun a ha c hc ↦ ?_⟩
  · rw [appendedPieces]
    split_ifs
    · exact List.pairwise_singleton _ _
    · exact List.Pairwise.nil
  · have hstart := (start_mem_editsFrom (fun old new ↦ objectPieces_proper) ha).2
    rw [Nat.zero_add] at hstart
    rw [appendedPieces] at hc
    split_ifs at hc
    · rw [List.mem_singleton.mp hc]
      exact hstart
    · cases hc

theorem located_eq_none_iff {b : List UInt8} {l : List MemberSpan}
    (h : List.Forall₂ (SpanOf b) l ms) (r : Routing) :
    located l r = none ↔ some r ∉ ms.map routingOf := by
  rw [← map_routing h, located, List.find?_eq_none]
  simp only [decide_eq_true_iff, List.mem_map, not_exists, not_and]

theorem editsFrom_documentPieces (hd : d.value = .object (.ofList m ms)) :
    editsFrom 0 (documentPieces model forceUsage d m ms)
      = (spansFrom (d.before.1.length + 1) (m :: ms)).flatMap (spanEdits d.text model forceUsage)
        ++ appendedEdits forceUsage (spansFrom (d.before.1.length + 1) (m :: ms))
          (d.before.1.length + d.value.text.length - 1) := by
  have hdrop := drop_text d
  rw [hd] at hdrop
  have hmember := drop_of_object hdrop
  have hspans :
      List.Forall₂ (SpanOf d.text) (spansFrom (d.before.1.length + 1) (m :: ms)) (m :: ms) :=
    List.Forall₂.cons ⟨_, _, rfl, hmember⟩ (forall₂_spansFrom ms (drop_of_append hmember))
  have hlen : d.before.1.length + d.value.text.length - 1
      = ((objectPieces model forceUsage d.before.1 m ms).flatMap Piece.old).length := by
    rw [objectPieces_old, hd, Value.text, Members.text_ofList]
    simp only [List.length_append, List.length_cons, List.length_nil]
    omega
  rw [documentPieces, editsFrom_append, Nat.zero_add, ← hlen]
  congr 1
  · rw [objectPieces, editsFrom, Nat.zero_add, List.length_append, List.length_singleton,
      editsFrom_append, memberPieces_old, editsFrom_memberPieces hmember,
      editsFrom_furtherPieces ms (drop_of_append hmember)]
    rfl
  · rw [appendedPieces, appendedEdits]
    simp only [located_eq_none_iff hspans]
    split_ifs <;> rfl

/-- A rewrite without anything to do. -/
theorem rewriteRequestBody_of_none {b model : List UInt8} (hkeys : ∀ r, f.keys r = none)
    (hmodel : f.model = none) : rewriteRequestBody b f model false = some b := by
  have hedits : keyEdits b f false = [] := by
    simp only [keyEdits, Routing.all, List.flatMap_cons, List.flatMap_nil, hkeys, keyEdit,
      Bool.false_eq_true, false_and, and_false, if_false, List.append_nil]
  rw [rewriteRequestBody, hedits, modelEdit, hmodel]
  exact apply_nil b

theorem rewriteDocument_of_ne (h : ∀ ms, d.value ≠ .object ms) :
    rewriteDocument model forceUsage d = d := by
  rw [rewriteDocument]
  split
  · next ms hms => exact absurd hms (h ms)
  · rfl

/-- The rewrite of a body that has been scanned: it is the rewrite of its document. -/
theorem rewriteRequestBody_eq {model : List UInt8} (hscan : scanRequestFields d.text = some (.ok f))
    (hforce : forceUsage = true → f.streamTrue = true) :
    rewriteRequestBody d.text f model forceUsage = some
      (rewriteDocument ⟨marshalContent model,
        isContent_marshalContent model⟩ forceUsage d).text := by
  rcases scanRequestFields_ok hscan with ⟨hnull, rfl⟩ | ⟨hobject, honce, -, rfl⟩
  · have hfalse : forceUsage = false := eq_false_of_ne_true fun h ↦ nomatch hforce h
    rw [hfalse, rewriteRequestBody_of_none (fun _ ↦ rfl) rfl, rewriteDocument_of_ne]
    intro ms hms
    rw [hms] at hnull
    exact absurd (Option.some.inj hnull) (by decide)
  · rcases object_of_head hobject with ⟨s, hd⟩ | ⟨m, ms, hd⟩
    · have hmembers : d.value.members = [] := by
        rw [hd]
        rfl
      rw [hmembers] at hforce ⊢
      have hfalse : forceUsage = false := eq_false_of_ne_true fun h ↦ nomatch hforce h
      rw [hfalse, rewriteRequestBody_of_none (fun _ ↦ rfl) rfl, rewriteDocument_of_ne]
      intro ms hms
      rw [hms] at hd
      cases hd
    · have hmembers : d.value.members = m :: ms := by
        rw [hd]
        exact Members.toList_ofList m ms
      have hspans := forall₂_spansFrom_object (drop_text d) hobject
      rw [hmembers] at honce hspans ⊢
      obtain ⟨edits, hedits, hperm⟩ := edits_perm model forceUsage
        (d.before.1.length + d.value.text.length - 1) honce nofun
        fun sp hsp ↦ isSome_streamOptionsWithUsage hspans hsp
      rw [← editsFrom_documentPieces hd] at hperm
      have happly := apply_of_perm hperm (documentPieces_pairwise d)
      rw [documentPieces_old hd, documentPieces_new hd] at happly
      rw [rewriteRequestBody, hedits]
      exact happly

end Rewrite

end Kaalm.Gateway
