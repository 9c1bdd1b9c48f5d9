import Kaalm.Gateway.UsageScan

/-!
# The usage scanner, byte by byte

`Reader` is a machine that takes the answer one byte at a time, with nothing but what the next bytes
can depend on: the token it is in, the frames, the value whose text is kept. The scanner reads whole
pieces: it skips over string content in one go, and it keeps the text of a value as a range of the
piece until the piece or the value ends. `write_spec` says that it does what the machine does on the
bytes of the piece, and that it does not panic. So it does not matter how an answer is cut
(`write_split`).
-/

namespace Kaalm.Gateway

open Ascii

/-! ## The machine that takes one byte at a time -/

/-- A value whose text is kept. -/
structure Capture where
  kind : CaptureKind
  path : ℕ
  depth : ℕ
  /-- The text so far, unless it passed the limit. -/
  text : Option (List UInt8)
  deriving DecidableEq

/-- The token that the next byte is part of. -/
inductive Token
  | none
  /-- A string, after a backslash or not, and the name so far if the string is a member name: `none`
  if it is under no path or passed the limit. -/
  | string (escape : Bool) (name : Option (Option (List UInt8)))
  | scalar
  deriving DecidableEq

structure Reader where
  frames : Vector ScanFrame maxScanDepth := Vector.replicate maxScanDepth {}
  depth : ℕ := 0
  rootDone : Bool := false
  dead : Bool := false
  token : Token := .none
  pending : BitVec 32 := 0
  capture : Option Capture := none
  values : List (ℕ × List UInt8) := []
  deriving DecidableEq

/-- The paths of a mask whose segment at the depth is `name`. -/
def narrow (paths : List JsonPath) (depth : ℕ) (mask : BitVec 32) (name : List UInt8) : BitVec 32 :=
  paths.zipIdx.foldl (fun out p ↦
    if hasPath mask p.2 ∧ p.1[depth - 1]? = some name then out ||| pathBit p.2 else out) 0

namespace Reader

variable (paths : List JsonPath)

def top (r : Reader) : Option ScanFrame :=
  if h : 0 < r.depth ∧ r.depth ≤ maxScanDepth then
    some (r.frames.get ⟨r.depth - 1, by omega⟩)
  else none

def setTop (r : Reader) (f : ScanFrame) : Reader :=
  if h : 0 < r.depth ∧ r.depth ≤ maxScanDepth then
    { r with frames := r.frames.set (r.depth - 1) f (by omega) }
  else r

def die (r : Reader) : Reader := { r with dead := true, capture := none }

/-- The byte is part of the value whose text is kept. -/
def push (r : Reader) (c : UInt8) : Reader :=
  { r with capture := r.capture.map fun k ↦
    { k with text := Bounded.append usageCaptureLimit k.text [c] } }

def valueMask (r : Reader) : BitVec 32 :=
  match r.top with
  | some f => if f.array then narrow paths r.depth f.mask [star] else r.pending
  | none => 0

def takePending (r : Reader) : Reader :=
  match r.top with
  | some f => if f.array then r else { r with pending := 0 }
  | none => r

def startCapture (r : Reader) (kind : CaptureKind) (path : ℕ) : Reader :=
  { r with capture := some { kind := kind, path := path, depth := r.depth, text := some [] } }

/-- A value starts: the top-level one, or one below a container. -/
def startValue (r : Reader) (kind : CaptureKind) : Reader × BitVec 32 :=
  if r.depth = 0 then
    if r.rootDone then (r.die, 0) else (r, allPaths paths)
  else
    let mask := r.valueMask paths
    if r.capture.isSome ∨ mask = 0 then (r.takePending, mask)
    else match endingPath paths r.depth mask with
      | some path => (r.takePending.startCapture kind path, 0)
      | none => (r.takePending, mask)

def startString (r : Reader) : Reader :=
  let r := { r with token := .string false none }
  match r.top.filter fun f ↦ !f.array && f.expectKey with
  | some f => { r.setTop { f with expectKey := false } with
      token := .string false (some (if f.mask = 0 then none else some [])) }
  | none => (r.startValue paths .string).1

/-- A value of the given kind ends. -/
def endValue (r : Reader) (kind : CaptureKind) : Reader :=
  match r.capture.filter fun k ↦ k.kind = kind ∧ r.depth = k.depth with
  | some k => { r with
      capture := none
      values := match k.text with
        | some text => r.values ++ [(k.path, text)]
        | none => r.values }
  | none => if r.depth = 0 then { r with rootDone := true } else r

def endName (r : Reader) (key : Option (List UInt8)) : Reader :=
  match key, r.top with
  | some key, some f => { r with pending := narrow paths r.depth f.mask key }
  | _, _ => { r with pending := 0 }

def endString (r : Reader) (name : Option (Option (List UInt8))) : Reader :=
  match name with
  | none => { r with token := .none }.endValue .string
  | some key => { r with token := .none }.endName paths key

def stringByte (r : Reader) (escape : Bool) (name : Option (Option (List UInt8))) (c : UInt8) :
    Reader :=
  if escape = false ∧ c = quote then (r.push c).endString paths name
  else { r.push c with
    token := .string (escape = false ∧ c = backslash)
      (name.map fun key ↦ Bounded.append usageKeyLimit key [c]) }

def openContainer (r : Reader) (array : Bool) : Reader :=
  let v := r.startValue paths .container
  if h : v.1.depth < maxScanDepth then
    { v.1 with
      frames := v.1.frames.set v.1.depth
        { array := array, expectKey := !array, mask := v.2 } (by omega)
      depth := v.1.depth + 1 }
  else { v.1 with depth := v.1.depth + 1 }

def closeContainer (r : Reader) : Reader :=
  if r.depth = 0 then r.die else { r with depth := r.depth - 1 }.endValue .container

/-- A byte outside of strings and scalars. -/
def structural (r : Reader) (c : UInt8) : Reader :=
  if isSpace c ∨ c = colon then r.push c
  else if c = quote then (r.startString paths).push c
  else if c = comma then
    match r.top.filter fun f ↦ !f.array with
    | some f => (r.setTop { f with expectKey := true }).push c
    | none => r.push c
  else if c = lbrace ∨ c = lbracket then (r.openContainer paths (c = lbracket)).push c
  else if c = rbrace ∨ c = rbracket then (r.push c).closeContainer
  else { (r.startValue paths .scalar).1 with token := .scalar }.push c

def step (r : Reader) (c : UInt8) : Reader :=
  if r.dead then r
  else match r.token with
    | .string escape name => r.stringByte paths escape name c
    | .scalar =>
      if scalarEnds c then ({ r with token := .none }.endValue .scalar).structural paths c
      else r.push c
    | .none => r.structural paths c

def run (r : Reader) (cs : List UInt8) : Reader := cs.foldl (step paths) r

end Reader

/-! ## The scanner refines the machine -/

/-- The name that the current string is of, if it is a member name. -/
def UsageScanner.name (s : UsageScanner) : Option (Option (List UInt8)) :=
  if s.stringIsKey then some (if s.keyOver then none else some s.key) else none

def UsageScanner.token (s : UsageScanner) : Token :=
  if s.inString then .string s.escape s.name else if s.inScalar then .scalar else .none

/-- The captured text up to the start of the piece, unless it passed the limit. -/
def UsageScanner.held (s : UsageScanner) : Option (List UInt8) :=
  if s.capOver then none else some s.capBuf

/-- The state of the machine when the scanner has read `i` bytes of the piece `p`. The text of a
value is in the buffer up to the start of the piece, or starts within it. -/
def UsageScanner.reader (s : UsageScanner) (p : List UInt8) (i : ℕ) : Reader where
  frames := s.frames
  depth := s.depth
  rootDone := s.rootDone
  dead := s.dead
  token := s.token
  pending := s.pending
  capture := if s.capturing ∧ s.dead = false then
      some { kind := s.capKind, path := s.capPath, depth := s.capDepth,
             text := Bounded.append usageCaptureLimit s.held ((p.take i).drop s.capStart) }
    else none
  values := s.values

/-- What holds of the scanner whenever it has read `i` bytes of a piece. -/
structure UsageScanner.Ok (paths : List JsonPath) (i : ℕ) (s : UsageScanner) : Prop where
  paths_eq : s.paths = paths
  all_eq : s.all = allPaths paths
  /-- The frame whose mask the end of a member name needs. -/
  key_depth : s.inString → s.stringIsKey → 0 < s.depth ∧ s.depth ≤ maxScanDepth
  key_le : s.key.length ≤ usageKeyLimit
  one_token : s.inString → s.inScalar = false
  start_le : s.capStart ≤ i

namespace UsageScanner

variable {paths : List JsonPath} {s : UsageScanner} {p : List UInt8} {i : ℕ} {kind : CaptureKind}

theorem matchName_eq (hpos : 0 < s.depth) (mask : BitVec 32) (name : List UInt8) :
    s.matchName mask name = some (narrow s.paths s.depth mask name) := by
  rw [matchName, narrow, ← Option.pure_def, ← List.foldlM_pure]
  congr 1
  funext out q
  by_cases hlen : s.depth ≤ q.1.length
  · have hget : q.1[s.depth - 1]? = some (q.1.get ⟨s.depth - 1, by omega⟩) :=
      List.getElem?_eq_getElem (by omega)
    rw [hget]
    by_cases hmask : hasPath mask q.2 <;> simp [hmask, hlen, Nat.ne_of_gt hpos]
  · have hget : q.1[s.depth - 1]? = none := List.getElem?_eq_none (by omega)
    rw [hget, if_neg (fun h ↦ hlen h.2), if_neg (fun h ↦ nomatch h.2)]

theorem depth_of_top {f : ScanFrame} (h : s.top = some f) :
    0 < s.depth ∧ s.depth ≤ maxScanDepth := by
  rw [top] at h
  split_ifs at h with hdepth
  exact hdepth

theorem top_of_depth (h : 0 < s.depth ∧ s.depth ≤ maxScanDepth) : ∃ f, s.top = some f :=
  ⟨_, dif_pos h⟩

theorem top_reader : (s.reader p i).top = s.top := rfl

theorem valueMask_eq : s.valueMask = some ((s.reader p i).valueMask s.paths) := by
  rw [valueMask, Reader.valueMask, top_reader]
  cases htop : s.top with
  | none => rfl
  | some f =>
    simp only
    split_ifs
    · exact matchName_eq (depth_of_top htop).1 f.mask [star]
    · rfl

theorem reader_takePending : s.takePending.reader p i = (s.reader p i).takePending := by
  rw [takePending, Reader.takePending, top_reader]
  cases s.top with
  | none => rfl
  | some f =>
    simp only
    split_ifs <;> rfl

theorem takePending_eq : ∃ mask, s.takePending = { s with pending := mask } := by
  rw [takePending]
  cases s.top with
  | none => exact ⟨s.pending, rfl⟩
  | some f =>
    simp only
    split_ifs
    · exact ⟨s.pending, rfl⟩
    · exact ⟨0, rfl⟩

theorem capture_reader (hdead : s.dead = false) : (s.reader p i).capture.isSome = s.capturing := by
  cases hcap : s.capturing <;> simp [reader, hdead, hcap]

theorem reader_startCapture {path : ℕ} (hdead : s.dead = false) :
    (s.startCapture i kind path).reader p i = (s.reader p i).startCapture kind path := by
  have htext : Bounded.append usageCaptureLimit (some []) ((p.take i).drop i) = some [] := by
    rw [List.drop_eq_nil_of_le (List.length_take_le _ _)]
    exact Bounded.append_nil_of_le (Nat.zero_le _)
  simp only [reader, startCapture, Reader.startCapture, hdead, and_self, if_true, token, name, held,
    Bool.false_eq_true, if_false, htext]

/-- A value that starts at `i`. -/
theorem startValue_spec (hok : s.Ok paths i) (hdead : s.dead = false) (p : List UInt8)
    (kind : CaptureKind) :
    ∃ s', s.startValue i kind = some (s', ((s.reader p i).startValue paths kind).2)
      ∧ s'.reader p i = ((s.reader p i).startValue paths kind).1 ∧ s'.Ok paths i
      ∧ s'.inString = s.inString := by
  rw [startValue, Reader.startValue, capture_reader hdead]
  by_cases hdepth : s.depth = 0
  · rw [if_pos hdepth, if_pos (show (s.reader p i).depth = 0 from hdepth)]
    by_cases hroot : s.rootDone
    · rw [if_pos hroot, if_pos (show (s.reader p i).rootDone from hroot)]
      refine ⟨{ s with dead := true }, rfl, ?_, ⟨hok.1, hok.2, hok.3, hok.4, hok.5, hok.6⟩, rfl⟩
      simp [reader, Reader.die, token, name]
    · rw [if_neg hroot, if_neg (show ¬ (s.reader p i).rootDone from hroot), hok.all_eq]
      exact ⟨s, rfl, rfl, hok, rfl⟩
  · rw [if_neg hdepth, if_neg (show ¬ (s.reader p i).depth = 0 from hdepth),
      valueMask_eq (p := p) (i := i), hok.paths_eq, ← reader_takePending]
    simp only [Option.map_some]
    generalize (s.reader p i).valueMask paths = mask
    obtain ⟨left, hleft⟩ := takePending_eq (s := s)
    rw [hleft]
    by_cases hcap : s.capturing ∨ mask = 0
    · rw [if_pos hcap, if_pos hcap]
      exact ⟨_, rfl, rfl, ⟨hok.1, hok.2, hok.3, hok.4, hok.5, hok.6⟩, rfl⟩
    · rw [if_neg hcap, if_neg hcap, show (s.reader p i).depth = s.depth from rfl]
      cases endingPath paths s.depth mask with
      | none => exact ⟨_, rfl, rfl, ⟨hok.1, hok.2, hok.3, hok.4, hok.5, hok.6⟩, rfl⟩
      | some path =>
        exact ⟨_, rfl, reader_startCapture hdead,
          ⟨hok.1, hok.2, hok.3, hok.4, hok.5, Nat.le_refl _⟩, rfl⟩

theorem reader_push {c : UInt8} (hok : s.Ok paths i) (hc : p[i]? = some c) :
    (s.reader p i).push c = s.reader p (i + 1) := by
  have hi : i < p.length := (List.getElem?_eq_some_iff.mp hc).1
  have hlen : s.capStart ≤ (p.take i).length := by
    rw [List.length_take, Nat.min_eq_left (Nat.le_of_lt hi)]
    exact hok.start_le
  have htake : (p.take (i + 1)).drop s.capStart = (p.take i).drop s.capStart ++ [c] := by
    rw [List.take_add_one, hc, Option.toList_some, List.drop_append_of_le_length hlen]
  simp only [reader, Reader.push, htake, ← Bounded.append_append]
  split_ifs <;> rfl

theorem Ok.mono {j : ℕ} (h : s.Ok paths i) (hij : i ≤ j) : s.Ok paths j :=
  ⟨h.paths_eq, h.all_eq, h.key_depth, h.key_le, h.one_token, Nat.le_trans h.start_le hij⟩

theorem reader_setTop (f : ScanFrame) :
    (s.setTop f).reader p i = (s.reader p i).setTop f := by
  rw [setTop, Reader.setTop]
  by_cases h : 0 < s.depth ∧ s.depth ≤ maxScanDepth
  · rw [dif_pos h, dif_pos (show 0 < (s.reader p i).depth ∧ (s.reader p i).depth ≤ _ from h)]
    rfl
  · rw [dif_neg h, dif_neg (show ¬ (0 < (s.reader p i).depth ∧ (s.reader p i).depth ≤ _) from h)]

theorem Ok.setTop (h : s.Ok paths i) (f : ScanFrame) : (s.setTop f).Ok paths i := by
  rw [UsageScanner.setTop]
  split_ifs
  · exact ⟨h.paths_eq, h.all_eq, h.key_depth, h.key_le, h.one_token, h.start_le⟩
  · exact h

theorem startString_spec (hok : s.Ok paths i) (hdead : s.dead = false)
    (hscalar : s.inScalar = false)
    (p : List UInt8) :
    ∃ s', s.startString i = some s' ∧ s'.reader p i = (s.reader p i).startString paths
      ∧ s'.Ok paths i := by
  let t : UsageScanner := { s with inString := true, escape := false, stringIsKey := false }
  have htok : t.Ok paths i :=
    ⟨hok.paths_eq, hok.all_eq, (fun _ h ↦ nomatch h), hok.key_le, fun _ ↦ hscalar, hok.start_le⟩
  have hreader : t.reader p i = { s.reader p i with token := .string false none } := rfl
  rw [startString, Reader.startString, ← hreader]
  change ∃ s', (match t.top.filter _ with | some f => _ | none => _) = some s' ∧ _
  rw [top_reader]
  cases htop : t.top.filter fun f ↦ !f.array && f.expectKey with
  | none =>
    obtain ⟨s', hs', hread, hok', -⟩ := startValue_spec htok hdead p .string
    exact ⟨s', by rw [hs']; rfl, hread, hok'⟩
  | some f =>
    have hdepth := depth_of_top (Option.filter_eq_some_iff.mp htop).1
    simp only
    rw [setTop, Reader.setTop, dif_pos hdepth,
      dif_pos (show 0 < (t.reader p i).depth ∧ (t.reader p i).depth ≤ _ from hdepth)]
    refine ⟨_, rfl, ?_, hok.paths_eq, hok.all_eq, fun _ _ ↦ hdepth, Nat.zero_le _,
      fun _ ↦ hscalar, hok.start_le⟩
    by_cases hmask : f.mask = 0 <;> simp [reader, t, token, name, hmask] <;> rfl

theorem held_appendCapture (b : List UInt8) :
    (s.appendCapture b).held = Bounded.append usageCaptureLimit s.held b := by
  rw [appendCapture, held, held]
  by_cases hover : s.capOver
  · rw [if_pos hover, if_pos hover]
    rfl
  · rw [if_neg hover, if_neg hover, Bounded.append, Option.bind_some]
    split_ifs <;> simp_all

/-- Besides the text, appending to it changes nothing. -/
theorem appendCapture_eq (b : List UInt8) :
    ∃ isOver buf, s.appendCapture b = { s with capOver := isOver, capBuf := buf } := by
  rw [appendCapture]
  split_ifs
  · exact ⟨s.capOver, s.capBuf, rfl⟩
  · exact ⟨true, [], rfl⟩
  · exact ⟨s.capOver, s.capBuf ++ b, rfl⟩

theorem capture_filter (hdead : s.dead = false) :
    (s.reader p i).capture.filter (fun k ↦ k.kind = kind ∧ (s.reader p i).depth = k.depth)
      = if s.capturing ∧ s.capKind = kind ∧ s.depth = s.capDepth then (s.reader p i).capture
        else none := by
  cases hcap : s.capturing with
  | false => simp [reader, hcap]
  | true => simp [reader, hcap, hdead, Option.filter_some]

/-- The end of a value whose text is `p[:i]`. -/
theorem endValue_spec (hok : s.Ok paths i) (hdead : s.dead = false) (hi : i ≤ p.length)
    (kind : CaptureKind) :
    ∃ s', s.endValue kind p i = some s' ∧ s'.reader p i = (s.reader p i).endValue kind
      ∧ s'.Ok paths i ∧ s'.dead = false ∧ s'.inString = s.inString ∧ s'.inScalar = s.inScalar := by
  rw [endValue, Reader.endValue, capture_filter hdead]
  by_cases hcap : s.capturing ∧ s.capKind = kind ∧ s.depth = s.capDepth
  · have hslice : slice p s.capStart i = some ((p.take i).drop s.capStart) :=
      if_pos ⟨hok.start_le, hi⟩
    have htext := held_appendCapture (s := s) ((p.take i).drop s.capStart)
    obtain ⟨isOver, buf, happ⟩ := appendCapture_eq (s := s) ((p.take i).drop s.capStart)
    rw [if_pos hcap, if_pos hcap, endCapture, hslice, Option.map_some, happ]
    rw [happ] at htext
    refine ⟨_, rfl, ?_, ⟨hok.1, hok.2, hok.3, hok.4, hok.5, hok.6⟩, hdead, rfl, rfl⟩
    rw [show (s.reader p i).capture = some _ from if_pos ⟨hcap.1, hdead⟩, ← htext]
    cases isOver <;> rfl
  · rw [if_neg hcap, if_neg hcap]
    by_cases hdepth : s.depth = 0
    · rw [if_pos hdepth]
      refine ⟨_, rfl, ?_, ⟨hok.1, hok.2, hok.3, hok.4, hok.5, hok.6⟩, hdead, rfl, rfl⟩
      exact (if_pos (show (s.reader p i).depth = 0 from hdepth)).symm
    · rw [if_neg hdepth]
      exact ⟨s, rfl, (if_neg (show ¬ (s.reader p i).depth = 0 from hdepth)).symm, hok, hdead,
        rfl, rfl⟩

theorem name_keyAppend (b : List UInt8) :
    (s.keyAppend b).name = s.name.map fun key ↦ Bounded.append usageKeyLimit key b := by
  rw [keyAppend]
  split_ifs with hkey hover
  · cases hname : s.stringIsKey <;> simp_all [name]
  · simp_all [name, Bounded.append]
  · simp_all [name, Bounded.append, Nat.not_lt.mpr]

/-- Besides the name, appending to it changes nothing. -/
theorem keyAppend_eq (b : List UInt8) :
    ∃ isOver key, s.keyAppend b = { s with keyOver := isOver, key := key } := by
  rw [keyAppend]
  split_ifs
  · exact ⟨s.keyOver, s.key, rfl⟩
  · exact ⟨true, s.key, rfl⟩
  · exact ⟨s.keyOver, s.key ++ b, rfl⟩

theorem Ok.keyAppend (h : s.Ok paths i) (b : List UInt8) : (s.keyAppend b).Ok paths i := by
  rw [UsageScanner.keyAppend]
  split_ifs with hkey hover
  · exact h
  · exact ⟨h.paths_eq, h.all_eq, h.key_depth, h.key_le, h.one_token, h.start_le⟩
  · refine ⟨h.paths_eq, h.all_eq, h.key_depth, ?_, h.one_token, h.start_le⟩
    rw [List.length_append]
    exact Nat.not_lt.mp hover

end UsageScanner

namespace Reader

variable {paths : List JsonPath} {r : Reader} {c : UInt8} {cs ds : List UInt8}

theorem run_append : r.run paths (cs ++ ds) = (r.run paths cs).run paths ds := List.foldl_append

theorem run_singleton : r.run paths [c] = r.step paths c := rfl

theorem run_dead (hdead : r.dead = true) : r.run paths cs = r := by
  induction cs with
  | nil => rfl
  | cons c cs ih =>
    rw [run, List.foldl_cons, step, if_pos hdead]
    exact ih

/-- The bytes of a string that are neither a quote nor a backslash. -/
theorem run_plain {name : Option (Option (List UInt8))} (hdead : r.dead = false)
    (htoken : r.token = .string false name)
    (hname : ∀ key ∈ name, Bounded.append usageKeyLimit key [] = key)
    (hcap : ∀ k ∈ r.capture, Bounded.append usageCaptureLimit k.text [] = k.text)
    (hcs : ∀ c ∈ cs, ¬ (c = quote ∨ c = backslash)) :
    r.run paths cs = { r with
      token := .string false (name.map fun key ↦ Bounded.append usageKeyLimit key cs)
      capture := r.capture.map fun k ↦
        { k with text := Bounded.append usageCaptureLimit k.text cs } } := by
  induction cs generalizing r name with
  | nil =>
    have hname' : name.map (fun key ↦ Bounded.append usageKeyLimit key []) = name := by
      cases name with
      | none => rfl
      | some key => exact congrArg some (hname key rfl)
    have hcap' : r.capture.map (fun k ↦ { k with
        text := Bounded.append usageCaptureLimit k.text [] }) = r.capture := by
      cases hk : r.capture with
      | none => rfl
      | some k => exact congrArg (fun text ↦ some { k with text := text }) (hcap k hk)
    rw [hname', hcap', ← htoken]
    rfl
  | cons c cs ih =>
    obtain ⟨hquote, hback⟩ := not_or.mp (hcs c List.mem_cons_self)
    have hstep : r.step paths c = { r.push c with
        token := .string false (name.map fun key ↦ Bounded.append usageKeyLimit key [c]) } := by
      rw [step, if_neg (by rw [hdead]; exact Bool.false_ne_true), htoken]
      simp only [stringByte, hquote, hback, and_false, if_false, decide_false]
    rw [run, List.foldl_cons, hstep]
    refine (ih (r := { r.push c with token := .string false _ }) hdead rfl ?_ ?_ fun d hd ↦
      hcs d (List.mem_cons_of_mem c hd)).trans ?_
    · intro key hkey
      obtain ⟨key', -, rfl⟩ := Option.map_eq_some_iff.mp hkey
      exact Bounded.append_nil_append
    · intro k hk
      obtain ⟨k', -, rfl⟩ := Option.map_eq_some_iff.mp hk
      exact Bounded.append_nil_append
    · simp only [push, Option.map_map, Function.comp_def, Bounded.append_append,
        List.singleton_append]

end Reader

namespace UsageScanner

variable {paths : List JsonPath} {s : UsageScanner} {p : List UInt8} {i : ℕ}

theorem token_of_inString (h : s.inString = true) : s.token = .string s.escape s.name := if_pos h

/-- The scanner goes from index `i` to index `j` of the piece as the machine does. -/
def Advances (paths : List JsonPath) (p : List UInt8) (i : ℕ) (s : UsageScanner) (j : ℕ)
    (s' : UsageScanner) : Prop :=
  i < j ∧ j ≤ p.length ∧ s'.Ok paths j
    ∧ s'.reader p j = (s.reader p i).run paths ((p.take j).drop i)

theorem drop_take_succ {c : UInt8} (hc : p[i]? = some c) : (p.take (i + 1)).drop i = [c] := by
  have hi : i < p.length := (List.getElem?_eq_some_iff.mp hc).1
  rw [List.take_add_one, hc, List.drop_append_of_le_length (by rw [List.length_take]; omega),
    List.drop_eq_nil_of_le (by rw [List.length_take]; omega)]
  rfl

theorem endName_spec (hok : s.Ok paths i) (hdepth : 0 < s.depth ∧ s.depth ≤ maxScanDepth)
    (p : List UInt8) :
    ∃ s', s.endName = some s' ∧ s'.Ok paths i
      ∧ s'.reader p i = (s.reader p i).endName paths (if s.keyOver then none else some s.key) := by
  rw [endName]
  by_cases hover : s.keyOver
  · rw [if_pos hover, if_pos hover]
    exact ⟨_, rfl, ⟨hok.1, hok.2, hok.3, hok.4, hok.5, hok.6⟩, rfl⟩
  · -- The frame is there, since a name is read only in a container that the paths reach.
    obtain ⟨f, hf⟩ := top_of_depth hdepth
    have hmatch := matchName_eq hdepth.1 f.mask s.key
    rw [hok.paths_eq] at hmatch
    rw [if_neg hover, if_neg hover, hf, Option.bind_some, hmatch, Option.map_some]
    refine ⟨_, rfl, ⟨hok.1, hok.2, hok.3, hok.4, hok.5, hok.6⟩, ?_⟩
    simp only [Reader.endName, top_reader, hf]
    rfl

/-- The end of a string is the machine's. -/
theorem endString_spec {k : ℕ} (hok : s.Ok paths k) (hdead : s.dead = false)
    (hstring : s.inString = true) (hesc : s.escape = false) (hk : p[k]? = some quote) :
    ∃ s', s.endString p k = some s' ∧ s'.Ok paths (k + 1)
      ∧ s'.reader p (k + 1) = (s.reader p k).step paths quote := by
  have hstep : (s.reader p k).step paths quote
      = (s.reader p (k + 1)).endString paths s.name := by
    have htoken : (s.reader p k).token = .string false s.name := by
      rw [← hesc]
      exact token_of_inString hstring
    rw [Reader.step,
      if_neg (by rw [show (s.reader p k).dead = _ from hdead]; exact Bool.false_ne_true), htoken]
    simp only [Reader.stringByte, and_self, if_true, reader_push hok hk]
  let t : UsageScanner := { s with inString := false }
  have htok : t.Ok paths (k + 1) :=
    ⟨hok.1, hok.2, (fun h ↦ nomatch h), hok.4, (fun h ↦ nomatch h), Nat.le_succ_of_le hok.6⟩
  have hreader : t.reader p (k + 1) = { s.reader p (k + 1) with token := .none } := by
    have : t.token = .none := by simp [t, token, hok.one_token hstring]
    rw [← this]
    rfl
  rw [hstep, endString, name]
  by_cases hkey : s.stringIsKey
  · rw [if_pos hkey, if_pos hkey, Reader.endString, ← hreader]
    exact endName_spec htok (hok.key_depth hstring hkey) p
  · obtain ⟨s', hs', hread, hok', -⟩ :=
      endValue_spec htok hdead (List.getElem?_eq_some_iff.mp hk).1 .string
    rw [if_neg hkey, if_neg hkey, Reader.endString, ← hreader]
    exact ⟨s', hs', hok', hread⟩

theorem drop_take_trans {j k : ℕ} (hij : i ≤ j) (hjk : j ≤ k) :
    (p.take k).drop i = (p.take j).drop i ++ (p.take k).drop j := by
  have hj : p.take j = (p.take k).take j := by rw [List.take_take, Nat.min_eq_left hjk]
  rw [hj]
  generalize p.take k = q
  calc q.drop i = (q.drop i).take (j - i) ++ (q.drop i).drop (j - i) :=
        (List.take_append_drop _ _).symm
    _ = (q.take j).drop i ++ q.drop j := by
        rw [List.drop_take, List.drop_drop, Nat.add_sub_cancel' hij]

theorem inString_keyAppend (b : List UInt8) : (s.keyAppend b).inString = s.inString := by
  obtain ⟨isOver, key, happ⟩ := keyAppend_eq (s := s) b
  rw [happ]

/-- Appending to the name shows in the token only. -/
theorem reader_keyAppend (hstring : s.inString = true) (b : List UInt8) :
    (s.keyAppend b).reader p i = { s.reader p i with
      token := .string s.escape (s.name.map fun key ↦ Bounded.append usageKeyLimit key b) } := by
  rw [← name_keyAppend]
  obtain ⟨isOver, key, happ⟩ := keyAppend_eq (s := s) b
  rw [happ]
  simp only [reader, token, hstring, if_true]
  rfl

theorem reader_escape (hstring : s.inString = true) (e : Bool) :
    { s with escape := e }.reader p i = { s.reader p i with token := .string e s.name } := by
  simp only [reader, token, hstring, if_true]
  rfl

theorem Ok.escape (h : s.Ok paths i) (e : Bool) : Ok paths i { s with escape := e } :=
  ⟨h.paths_eq, h.all_eq, h.key_depth, h.key_le, h.one_token, h.start_le⟩

/-- The bytes of a string that are neither a quote nor a backslash. -/
theorem run_plain_reader {k : ℕ} (hok : s.Ok paths i) (hdead : s.dead = false)
    (hstring : s.inString = true) (hesc : s.escape = false) (hik : i ≤ k)
    (hplain : ∀ c ∈ (p.take k).drop i, ¬ (c = quote ∨ c = backslash)) :
    (s.reader p i).run paths ((p.take k).drop i) = { s.reader p k with
      token := .string false
        (s.name.map fun key ↦ Bounded.append usageKeyLimit key ((p.take k).drop i)) } := by
  have htoken : (s.reader p i).token = .string false s.name := by
    rw [← hesc]
    exact token_of_inString hstring
  have hname : ∀ key ∈ s.name, Bounded.append usageKeyLimit key [] = key := by
    intro key hkey
    rw [name] at hkey
    split_ifs at hkey
    · obtain rfl := Option.some.inj hkey
      rfl
    · obtain rfl := Option.some.inj hkey
      exact Bounded.append_nil_of_le hok.key_le
    · cases hkey
  have hcap : ∀ k ∈ (s.reader p i).capture,
      Bounded.append usageCaptureLimit k.text [] = k.text := by
    intro k hk
    simp only [reader] at hk
    split_ifs at hk
    · obtain rfl := Option.some.inj hk
      exact Bounded.append_nil_append
    · cases hk
  have htext : ∀ u : Option (List UInt8),
      Bounded.append usageCaptureLimit u ((p.take k).drop s.capStart)
        = Bounded.append usageCaptureLimit (Bounded.append usageCaptureLimit u
            ((p.take i).drop s.capStart)) ((p.take k).drop i) := by
    intro u
    rw [drop_take_trans hok.start_le hik, Bounded.append_append]
  rw [Reader.run_plain hdead htoken hname hcap hplain]
  simp only [reader, htext]
  split_ifs <;> rfl

theorem step_escape {c : UInt8} (hok : s.Ok paths i) (hdead : s.dead = false)
    (hstring : s.inString = true) (hesc : s.escape = true) (hc : p[i]? = some c) :
    (s.reader p i).step paths c = { s.reader p (i + 1) with
      token := .string false (s.name.map fun key ↦ Bounded.append usageKeyLimit key [c]) } := by
  have htoken : (s.reader p i).token = .string true s.name := by
    rw [← hesc]
    exact token_of_inString hstring
  rw [Reader.step,
    if_neg (by rw [show (s.reader p i).dead = _ from hdead]; exact Bool.false_ne_true), htoken]
  simp only [Reader.stringByte, reader_push hok hc, Bool.true_eq_false, false_and, if_false,
    decide_false]

/-- A backslash after plain bytes. -/
theorem step_backslash {k : ℕ} {name : Option (Option (List UInt8))} (hok : s.Ok paths k)
    (hdead : s.dead = false) (hk : p[k]? = some backslash) :
    { s.reader p k with token := .string false name }.step paths backslash
      = { s.reader p (k + 1) with
          token := .string true (name.map fun key ↦ Bounded.append usageKeyLimit key
            [backslash]) } := by
  rw [Reader.step,
    if_neg (by rw [show (s.reader p k).dead = _ from hdead]; exact Bool.false_ne_true)]
  simp only [Reader.stringByte, show backslash ≠ quote by decide, and_false, if_false, decide_true,
    and_self, ← reader_push hok hk]
  rfl

theorem slice_eq {a b : ℕ} (hab : a ≤ b) (hb : b ≤ p.length) :
    slice p a b = some ((p.take b).drop a) :=
  if_pos ⟨hab, hb⟩

/-- Where the plain bytes of a string end: at the end of the piece, at a backslash or at a quote. -/
theorem findIdx_cases (p : List UInt8) (i : ℕ) :
    ((p.drop i).findIdx? (fun c ↦ c = quote ∨ c = backslash) = none
        ∧ ∀ c ∈ (p.take p.length).drop i, ¬ (c = quote ∨ c = backslash))
      ∨ ∃ j, (p.drop i).findIdx? (fun c ↦ c = quote ∨ c = backslash) = some j
        ∧ (p[i + j]? = some backslash ∨ p[i + j]? = some quote)
        ∧ ∀ c ∈ (p.take (i + j)).drop i, ¬ (c = quote ∨ c = backslash) := by
  cases hfind : (p.drop i).findIdx? (fun c ↦ decide (c = quote ∨ c = backslash)) with
  | none =>
    refine Or.inl ⟨rfl, fun c hc h ↦ ?_⟩
    rw [List.take_length] at hc
    have := List.findIdx?_eq_none_iff.mp hfind c hc
    exact absurd h (of_decide_eq_false this)
  | some j =>
    obtain ⟨hj, hat, hbefore⟩ := List.findIdx?_eq_some_iff_getElem.mp hfind
    refine Or.inr ⟨j, rfl, ?_, fun c hc h ↦ ?_⟩
    · rw [← List.getElem?_drop, List.getElem?_eq_getElem hj, Option.some_inj, Option.some_inj]
      exact (of_decide_eq_true hat).symm
    · rw [List.drop_take, Nat.add_sub_cancel_left] at hc
      obtain ⟨n, hn, rfl⟩ := List.mem_iff_getElem.mp hc
      have hnj : n < j := Nat.lt_of_lt_of_le hn (List.length_take_le j _)
      rw [List.getElem_take] at h
      exact hbefore n hnj (decide_eq_true h)

theorem stringBytes_spec (hok : s.Ok paths i) (hdead : s.dead = false) (hi : i < p.length)
    (hstring : s.inString = true) :
    ∃ r, s.stringBytes p i = some r ∧ Advances paths p i s r.2 r.1 := by
  rw [stringBytes]
  by_cases hesc : s.escape
  · have hc : p[i]? = some (p.get ⟨i, hi⟩) := List.getElem?_eq_getElem hi
    rw [if_pos hesc, slice_eq (Nat.le_succ i) hi, drop_take_succ hc]
    refine ⟨_, rfl, Nat.lt_succ_self i, hi, ((hok.escape false).keyAppend _).mono (Nat.le_succ i),
      ?_⟩
    rw [drop_take_succ hc, Reader.run_singleton, step_escape hok hdead hstring hesc hc]
    exact reader_keyAppend (s := { s with escape := false }) hstring _
  · rw [if_neg hesc]
    have hesc := eq_false_of_ne_true hesc
    rcases findIdx_cases p i with ⟨hfind, hplain⟩ | ⟨j, hfind, hat, hplain⟩
    · rw [hfind]
      simp only
      rw [slice_eq (Nat.le_of_lt hi) (Nat.le_refl _)]
      refine ⟨_, rfl, hi, Nat.le_refl _, (hok.keyAppend _).mono (Nat.le_of_lt hi), ?_⟩
      rw [run_plain_reader hok hdead hstring hesc (Nat.le_of_lt hi) hplain,
        reader_keyAppend hstring, hesc]
    · have hk : i + j < p.length := by
        rcases hat with hat | hat <;> exact (List.getElem?_eq_some_iff.mp hat).1
      have hik : i ≤ i + j := Nat.le_add_right i j
      rw [hfind]
      simp only
      rcases hat with hat | hat
      · rw [if_pos hat, slice_eq (Nat.le_succ_of_le hik) hk]
        refine ⟨_, rfl, Nat.lt_succ_of_le hik, hk,
          ((hok.keyAppend _).escape true).mono (Nat.le_succ_of_le hik), ?_⟩
        rw [drop_take_trans hik (Nat.le_succ (i + j)), drop_take_succ hat, Reader.run_append,
          run_plain_reader hok hdead hstring hesc hik hplain, Reader.run_singleton,
          step_backslash (hok.mono hik) hdead hat,
          reader_escape ((inString_keyAppend _).trans hstring), name_keyAppend,
            reader_keyAppend hstring]
        simp only [Option.map_map, Function.comp_def, Bounded.append_append]
      · rw [if_neg (by rw [hat]; decide), slice_eq hik (Nat.le_of_lt hk), Option.bind_some]
        have hokb := (hok.keyAppend ((p.take (i + j)).drop i)).mono hik
        obtain ⟨isOver, key, happ⟩ := keyAppend_eq (s := s) ((p.take (i + j)).drop i)
        obtain ⟨s', hs', hok', hread⟩ := endString_spec (p := p) hokb (by rw [happ]; exact hdead)
          (by rw [happ]; exact hstring) (by rw [happ]; exact hesc) hat
        rw [hs']
        refine ⟨_, rfl, Nat.lt_succ_of_le hik, hk, hok', ?_⟩
        rw [drop_take_trans hik (Nat.le_succ (i + j)), drop_take_succ hat, Reader.run_append,
          run_plain_reader hok hdead hstring hesc hik hplain, Reader.run_singleton]
        rw [reader_keyAppend hstring, hesc] at hread
        exact hread

theorem openContainer_spec (hok : s.Ok paths i) (hdead : s.dead = false)
    (hstring : s.inString = false) (array : Bool) (p : List UInt8) :
    ∃ s', s.openContainer i array = some s' ∧ s'.Ok paths i
      ∧ s'.reader p i = (s.reader p i).openContainer paths array := by
  obtain ⟨s', hs', hread, hok', hstring'⟩ := startValue_spec hok hdead p .container
  have hnot : ¬ s'.inString = true := by
    rw [hstring', hstring]
    exact Bool.false_ne_true
  rw [openContainer, hs', Option.map_some, Reader.openContainer, ← hread]
  simp only [show (s'.reader p i).depth = s'.depth from rfl]
  split_ifs
  · exact ⟨_, rfl, ⟨hok'.1, hok'.2, fun h ↦ absurd h hnot, hok'.4, hok'.5, hok'.6⟩, rfl⟩
  · exact ⟨_, rfl, ⟨hok'.1, hok'.2, fun h ↦ absurd h hnot, hok'.4, hok'.5, hok'.6⟩, rfl⟩

theorem closeContainer_spec {c : UInt8} (hok : s.Ok paths i) (hdead : s.dead = false)
    (hstring : s.inString = false) (hc : p[i]? = some c) :
    ∃ s', s.closeContainer p i = some s' ∧ s'.Ok paths (i + 1)
      ∧ s'.reader p (i + 1) = ((s.reader p i).push c).closeContainer := by
  rw [reader_push hok hc, closeContainer, Reader.closeContainer]
  by_cases hdepth : s.depth = 0
  · rw [if_pos hdepth, if_pos (show (s.reader p (i + 1)).depth = 0 from hdepth)]
    refine ⟨_, rfl, ⟨hok.1, hok.2, hok.3, hok.4, hok.5, Nat.le_succ_of_le hok.6⟩, ?_⟩
    simp [reader, Reader.die, token, name]
  · rw [if_neg hdepth, if_neg (show ¬ (s.reader p (i + 1)).depth = 0 from hdepth)]
    have hok' : Ok paths (i + 1) { s with depth := s.depth - 1 } :=
      ⟨hok.1, hok.2, fun h ↦ absurd (hstring.symm.trans h) Bool.false_ne_true, hok.4, hok.5,
        Nat.le_succ_of_le hok.6⟩
    obtain ⟨s', hs', hread, hok', -⟩ := endValue_spec hok' hdead
      (List.getElem?_eq_some_iff.mp hc).1 .container
    exact ⟨s', hs', hok', hread⟩

/-- A byte outside of strings and scalars. -/
theorem structural_spec {c : UInt8} (hok : s.Ok paths i) (hdead : s.dead = false)
    (hstring : s.inString = false) (hscalar : s.inScalar = false) (hc : p[i]? = some c) :
    ∃ s', s.structural p i c = some s' ∧ s'.Ok paths (i + 1)
      ∧ s'.reader p (i + 1) = (s.reader p i).structural paths c := by
  rw [structural, Reader.structural]
  by_cases hspace : isSpace c ∨ c = colon
  · rw [if_pos hspace, if_pos hspace, reader_push hok hc]
    exact ⟨s, rfl, hok.mono (Nat.le_succ i), rfl⟩
  rw [if_neg hspace, if_neg hspace]
  by_cases hquote : c = quote
  · obtain ⟨s', hs', hread, hok'⟩ := startString_spec hok hdead hscalar p
    rw [if_pos hquote, if_pos hquote, ← hread, reader_push hok' hc]
    exact ⟨s', hs', hok'.mono (Nat.le_succ i), rfl⟩
  rw [if_neg hquote, if_neg hquote]
  by_cases hcomma : c = comma
  · rw [if_pos hcomma, if_pos hcomma, top_reader]
    cases s.top.filter fun f ↦ !f.array with
    | none =>
      simp only
      rw [reader_push hok hc]
      exact ⟨s, rfl, hok.mono (Nat.le_succ i), rfl⟩
    | some f =>
      have hok' := hok.setTop { f with expectKey := true }
      simp only
      rw [← reader_setTop, reader_push hok' hc]
      exact ⟨_, rfl, hok'.mono (Nat.le_succ i), rfl⟩
  rw [if_neg hcomma, if_neg hcomma]
  by_cases hopen : c = lbrace ∨ c = lbracket
  · obtain ⟨s', hs', hok', hread⟩ := openContainer_spec hok hdead hstring (c = lbracket) p
    rw [if_pos hopen, if_pos hopen, ← hread, reader_push hok' hc]
    exact ⟨s', hs', hok'.mono (Nat.le_succ i), rfl⟩
  rw [if_neg hopen, if_neg hopen]
  by_cases hclose : c = rbrace ∨ c = rbracket
  · rw [if_pos hclose, if_pos hclose]
    exact closeContainer_spec hok hdead hstring hc
  rw [if_neg hclose, if_neg hclose]
  obtain ⟨s', hs', hread, hok', hstring'⟩ := startValue_spec hok hdead p .scalar
  let t : UsageScanner := { s' with inScalar := true }
  have hok'' : t.Ok paths i := ⟨hok'.1, hok'.2, hok'.3, hok'.4,
    fun h ↦ absurd (hstring.symm.trans (hstring'.symm.trans h)) Bool.false_ne_true, hok'.6⟩
  have htoken : t.reader p i = { s'.reader p i with token := .scalar } := by
    have : t.token = .scalar := by simp [t, token, hstring', hstring]
    rw [← this]
    rfl
  rw [hs', Option.map_some, ← hread, ← htoken, reader_push hok'' hc]
  exact ⟨t, rfl, hok''.mono (Nat.le_succ i), rfl⟩

theorem turn_spec (hok : s.Ok paths i) (hdead : s.dead = false) (hi : i < p.length) :
    ∃ r, s.turn p i = some r ∧ Advances paths p i s r.2 r.1 := by
  rw [turn]
  by_cases hstring : s.inString
  · rw [if_pos hstring]
    exact stringBytes_spec hok hdead hi hstring
  have hc : p[i]? = some (p.get ⟨i, hi⟩) := List.getElem?_eq_getElem hi
  generalize p.get ⟨i, hi⟩ = c at hc
  have halive : ¬ (s.reader p i).dead = true := by
    rw [show (s.reader p i).dead = _ from hdead]
    exact Bool.false_ne_true
  rw [if_neg hstring, hc, Option.bind_some]
  have hstring := eq_false_of_ne_true hstring
  by_cases hscalar : s.inScalar
  · have htoken : (s.reader p i).token = .scalar := by
      simp [reader, token, hstring, hscalar]
    rw [if_pos hscalar]
    by_cases hends : scalarEnds c
    · let t : UsageScanner := { s with inScalar := false }
      have htok : t.Ok paths i := ⟨hok.1, hok.2, hok.3, hok.4, fun _ ↦ rfl, hok.6⟩
      have htoken' : t.reader p i = { s.reader p i with token := .none } := by
        have : t.token = .none := by simp [t, token, hstring]
        rw [← this]
        rfl
      obtain ⟨u, hu, hread, hoku, hdeadu, hstringu, hscalaru⟩ :=
        endValue_spec htok hdead (Nat.le_of_lt hi) .scalar
      obtain ⟨s', hs', hok', hread'⟩ :=
        structural_spec hoku hdeadu (hstringu.trans hstring) hscalaru hc
      rw [if_pos hends, endScalar, hu, Option.bind_some, hs']
      refine ⟨_, rfl, Nat.lt_succ_self i, hi, hok', ?_⟩
      rw [drop_take_succ hc, Reader.run_singleton, Reader.step, if_neg halive, htoken]
      simp only [hends, if_true, ← htoken', ← hread]
      exact hread'
    · rw [if_neg hends]
      refine ⟨_, rfl, Nat.lt_succ_self i, hi, hok.mono (Nat.le_succ i), ?_⟩
      rw [drop_take_succ hc, Reader.run_singleton, Reader.step, if_neg halive, htoken]
      simp only [hends, if_false, Bool.false_eq_true]
      exact (reader_push hok hc).symm
  · have hscalar := eq_false_of_ne_true hscalar
    have htoken : (s.reader p i).token = .none := by
      simp [reader, token, hstring, hscalar]
    obtain ⟨s', hs', hok', hread⟩ := structural_spec hok hdead hstring hscalar hc
    rw [if_neg (by rw [hscalar]; exact Bool.false_ne_true), hs']
    refine ⟨_, rfl, Nat.lt_succ_self i, hi, hok', ?_⟩
    rw [drop_take_succ hc, Reader.run_singleton, Reader.step, if_neg halive, htoken]
    exact hread

/-- A dead scanner shows no text, wherever it stopped. -/
theorem reader_of_dead (hdead : s.dead = true) (p q : List UInt8) (i j : ℕ) :
    s.reader p i = s.reader q j := by
  simp [reader, hdead]

/-- The loop reads the rest of the piece as the machine does, or stops dead. -/
theorem loop_spec {fuel : ℕ} (hok : s.Ok paths i) (hi : i ≤ p.length)
    (hfuel : p.length - i ≤ fuel) :
    ∃ s', loop p fuel s i = some s' ∧ s'.Ok paths p.length
      ∧ s'.reader p p.length = (s.reader p i).run paths ((p.take p.length).drop i) := by
  induction fuel generalizing s i with
  | zero =>
    have hend : i = p.length := by omega
    rw [loop, if_neg (by omega), hend, List.take_length, List.drop_length]
    exact ⟨s, rfl, hend ▸ hok, rfl⟩
  | succ fuel ih =>
    rw [loop]
    by_cases hgo : i < p.length ∧ s.dead = false
    · obtain ⟨r, hr, hlt, hle, hokr, hread⟩ := turn_spec hok hgo.2 hgo.1
      obtain ⟨s', hs', hok', hread'⟩ := ih hokr hle (by omega)
      rw [if_pos hgo, hr, Option.bind_some, hs']
      refine ⟨s', rfl, hok', ?_⟩
      rw [hread', hread, ← Reader.run_append, ← drop_take_trans (Nat.le_of_lt hlt) hle]
    · rw [if_neg hgo]
      refine ⟨s, rfl, hok.mono hi, ?_⟩
      by_cases hdead : s.dead
      · rw [Reader.run_dead (show (s.reader p i).dead = true from hdead)]
        exact reader_of_dead hdead _ _ _ _
      · have hend : i = p.length := by
          have hdead := eq_false_of_ne_true hdead
          by_contra hne
          exact hgo ⟨by omega, hdead⟩
        rw [hend, List.take_length, List.drop_length]
        rfl

/-- The machine's state between two pieces. -/
def between (s : UsageScanner) : Reader := s.reader [] 0

/-- At the end of a piece the rest of the captured text goes to the buffer. -/
theorem between_appendCapture (p : List UInt8) :
    (s.appendCapture ((p.take p.length).drop s.capStart)).between = s.reader p p.length := by
  have htext := held_appendCapture (s := s) ((p.take p.length).drop s.capStart)
  obtain ⟨isOver, buf, happ⟩ := appendCapture_eq (s := s) ((p.take p.length).drop s.capStart)
  rw [happ] at htext ⊢
  have hempty : Bounded.append usageCaptureLimit
      { s with capOver := isOver, capBuf := buf }.held (([].take 0).drop s.capStart)
        = Bounded.append usageCaptureLimit s.held ((p.take p.length).drop s.capStart) := by
    rw [List.take_nil, List.drop_nil, htext, Bounded.append_nil_append]
  rw [between]
  simp only [reader, hempty]
  rfl

/-- A piece of the answer: the scanner does not panic, and reads it as the machine does. -/
theorem write_spec (hok : s.Ok paths i) (p : List UInt8) :
    ∃ s' j, s.write p = some s' ∧ s'.Ok paths j ∧ s'.between = s.between.run paths p := by
  rw [write]
  by_cases hdead : s.dead
  · rw [if_pos hdead, Reader.run_dead (show s.between.dead = true from hdead)]
    exact ⟨s, i, rfl, hok, rfl⟩
  · rw [if_neg hdead]
    have hok₀ : Ok paths 0 { s with capStart := 0 } :=
      ⟨hok.1, hok.2, hok.3, hok.4, hok.5, Nat.le_refl 0⟩
    have hstart : { s with capStart := 0 }.reader p 0 = s.between := by
      simp only [between, reader, List.take_zero, List.drop_nil]
      rfl
    obtain ⟨u, hu, hoku, hread⟩ := loop_spec hok₀ (Nat.zero_le p.length) (Nat.sub_le p.length 0)
    rw [hstart, List.take_length, List.drop_zero] at hread
    rw [hu, Option.bind_some, ← hread]
    by_cases hcap : u.capturing
    · rw [if_pos hcap, slice_eq hoku.start_le (Nat.le_refl _), Option.map_some]
      refine ⟨_, p.length, rfl, ?_, between_appendCapture p⟩
      obtain ⟨isOver, buf, happ⟩ := appendCapture_eq (s := u) ((p.take p.length).drop u.capStart)
      rw [happ]
      exact ⟨hoku.1, hoku.2, hoku.3, hoku.4, hoku.5, hoku.6⟩
    · rw [if_neg hcap]
      refine ⟨u, p.length, rfl, hoku, ?_⟩
      simp [between, reader, hcap]

/-- Any number of pieces. -/
theorem foldlM_write (hok : s.Ok paths i) (ps : List (List UInt8)) :
    ∃ s' j, ps.foldlM write s = some s' ∧ s'.Ok paths j
      ∧ s'.between = s.between.run paths ps.flatten := by
  induction ps generalizing s i with
  | nil => exact ⟨s, i, rfl, hok, rfl⟩
  | cons p ps ih =>
    obtain ⟨t, j, ht, hokt, hread⟩ := write_spec hok p
    obtain ⟨s', k, hs', hok', hread'⟩ := ih hokt
    refine ⟨s', k, ?_, hok', ?_⟩
    · rw [List.foldlM_cons, ht]
      exact hs'
    · rw [hread', hread, List.flatten_cons, Reader.run_append]

theorem newUsageScanner_ok (h : newUsageScanner paths = some s) : s.Ok paths 0 := by
  rw [newUsageScanner] at h
  split_ifs at h
  obtain rfl := Option.some.inj h
  exact ⟨rfl, rfl, (fun h ↦ nomatch h), Nat.zero_le _, (fun h ↦ nomatch h), Nat.le_refl 0⟩

/-- However an answer is cut into pieces, the scanner does not panic, it has reported the same
values, and it goes on to report the same values whatever follows and however that is cut. -/
theorem write_split (hs : newUsageScanner paths = some s) {ps qs : List (List UInt8)}
    (h : ps.flatten = qs.flatten) :
    ∃ s₁ s₂, ps.foldlM write s = some s₁ ∧ qs.foldlM write s = some s₂ ∧ s₁.values = s₂.values
      ∧ ∀ ps' qs' : List (List UInt8), ps'.flatten = qs'.flatten →
        ∃ t₁ t₂, ps'.foldlM write s₁ = some t₁ ∧ qs'.foldlM write s₂ = some t₂
          ∧ t₁.values = t₂.values := by
  have hok := newUsageScanner_ok hs
  obtain ⟨s₁, j₁, hs₁, hok₁, hread₁⟩ := foldlM_write hok ps
  obtain ⟨s₂, j₂, hs₂, hok₂, hread₂⟩ := foldlM_write hok qs
  have hread : s₁.between = s₂.between := by rw [hread₁, hread₂, h]
  refine ⟨s₁, s₂, hs₁, hs₂, congrArg Reader.values hread, fun ps' qs' h' ↦ ?_⟩
  obtain ⟨t₁, k₁, ht₁, -, hnext₁⟩ := foldlM_write hok₁ ps'
  obtain ⟨t₂, k₂, ht₂, -, hnext₂⟩ := foldlM_write hok₂ qs'
  have hnext : t₁.between = t₂.between := by rw [hnext₁, hnext₂, hread, h']
  exact ⟨t₁, t₂, ht₁, ht₂, congrArg Reader.values hnext⟩

/-- A number in the usage member, cut in the middle of its name and of its digits. -/
theorem write_split_usage :
    ∃ s, newUsageScanner [[bytes "usage"]] = some s
      ∧ ∃ s₁ s₂, [bytes "\x7b\"usage\":17\x7d"].foldlM write s = some s₁
        ∧ [bytes "\x7b\"us", [], bytes "age\":1", bytes "7\x7d"].foldlM write s = some s₂
        ∧ s₁.values = s₂.values ∧ s₁.values = [(0, bytes "17")] := by
  obtain ⟨s, hs, hval⟩ := Option.map_eq_some_iff.mp
    (show (newUsageScanner [[bytes "usage"]]).map (fun s ↦
      ([bytes "\x7b\"usage\":17\x7d"].foldlM write s).map values) = some (some [(0, bytes "17")])
      by decide +kernel)
  obtain ⟨s₁, s₂, hs₁, hs₂, hvalues, -⟩ := write_split hs
    (show [bytes "\x7b\"usage\":17\x7d"].flatten
      = [bytes "\x7b\"us", [], bytes "age\":1", bytes "7\x7d"].flatten by decide +kernel)
  rw [hs₁] at hval
  exact ⟨s, hs, s₁, s₂, hs₁, hs₂, hvalues, Option.some.inj hval⟩

end UsageScanner

end Kaalm.Gateway
