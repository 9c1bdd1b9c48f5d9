import Kaalm.Foundation.Ascii
import Kaalm.Foundation.Bounded
import Mathlib.Algebra.Group.Nat.Defs
import Mathlib.Data.List.Basic

/-!
# The usage scanner

The gateway copies a provider's answer to the agent in pieces and reads the usage from it on the
way. `UsageScanner` follows the structure of the JSON text and reports the raw text of each value at
one of a few fixed paths. It is called with the next piece of the answer (`write`) and carries its
state from piece to piece.

A panic is `none`: an index or a slice out of range, or a nil frame. `onValue` is the list `values`
of the calls made so far. The bytes of a member name are the list `key`, the first `keyLen` bytes of
the array in the source.
-/

namespace Kaalm.Gateway

open Ascii

/-- The member names from the top-level object down; `star` matches every element of an array. -/
abbrev JsonPath := List (List UInt8)

def usageCaptureLimit : ℕ := 64 * 2 ^ 10

def usageKeyLimit : ℕ := 64

def maxScanDepth : ℕ := 4

/-- One open container at a depth the paths reach. -/
structure ScanFrame where
  array : Bool := false
  /-- In an object, the next string is a member name. -/
  expectKey : Bool := false
  /-- The paths whose names match the members leading here. -/
  mask : BitVec 32 := 0
  deriving DecidableEq

inductive CaptureKind
  | container
  | string
  | scalar
  deriving DecidableEq

structure UsageScanner where
  paths : List JsonPath
  all : BitVec 32
  frames : Vector ScanFrame maxScanDepth := Vector.replicate maxScanDepth {}
  /-- Open containers, including those deeper than `frames`. -/
  depth : ℕ := 0
  dead : Bool := false
  /-- The top-level value ended; another one is malformed. -/
  rootDone : Bool := false
  inString : Bool := false
  escape : Bool := false
  stringIsKey : Bool := false
  inScalar : Bool := false
  key : List UInt8 := []
  keyOver : Bool := false
  /-- The mask for the value after the member name just read. -/
  pending : BitVec 32 := 0
  capturing : Bool := false
  capKind : CaptureKind := .container
  capPath : ℕ := 0
  capDepth : ℕ := 0
  /-- Where the capture starts in the current piece. -/
  capStart : ℕ := 0
  capOver : Bool := false
  capBuf : List UInt8 := []
  values : List (ℕ × List UInt8) := []
  deriving DecidableEq

/-- The bit of a path in a mask. -/
def pathBit (i : ℕ) : BitVec 32 := 1#32 <<< i

def hasPath (mask : BitVec 32) (i : ℕ) : Bool := mask &&& pathBit i ≠ 0

def allPaths (paths : List JsonPath) : BitVec 32 :=
  paths.zipIdx.foldl (fun all p ↦ all ||| pathBit p.2) 0

/-- The first path of the mask that ends at the depth. -/
def endingPath (paths : List JsonPath) (depth : ℕ) (mask : BitVec 32) : Option ℕ :=
  (paths.zipIdx.find? fun p ↦ hasPath mask p.2 ∧ p.1.length = depth).map Prod.snd

/-- `none` is a panic, here about the list of paths. -/
def newUsageScanner (paths : List JsonPath) : Option UsageScanner :=
  if 32 < paths.length then none
  else if paths.any fun p ↦ p.length = 0 ∨ maxScanDepth < p.length then none
  else some { paths := paths, all := allPaths paths }

/-- The bytes `p[a:b]`. -/
def slice (p : List UInt8) (a b : ℕ) : Option (List UInt8) :=
  if a ≤ b ∧ b ≤ p.length then some ((p.take b).drop a) else none

/-- Whether `c` ends a number, `true`, `false` or `null`. -/
def scalarEnds (c : UInt8) : Bool :=
  isSpace c ∨ c = comma ∨ c = colon ∨ c = rbrace ∨ c = rbracket ∨ c = quote ∨ c = lbrace
    ∨ c = lbracket

namespace UsageScanner

/-- The frame of the innermost open container, if the paths reach it. -/
def top (s : UsageScanner) : Option ScanFrame :=
  if h : 0 < s.depth ∧ s.depth ≤ maxScanDepth then
    some (s.frames.get ⟨s.depth - 1, by omega⟩)
  else none

/-- A write through the pointer `top` returned. -/
def setTop (s : UsageScanner) (f : ScanFrame) : UsageScanner :=
  if h : 0 < s.depth ∧ s.depth ≤ maxScanDepth then
    { s with frames := s.frames.set (s.depth - 1) f (by omega) }
  else s

/-- Narrows the mask to the paths whose segment at the current depth is `name`. The index `depth -
1` is out of range at depth 0. -/
def matchName (s : UsageScanner) (mask : BitVec 32) (name : List UInt8) : Option (BitVec 32) :=
  s.paths.zipIdx.foldlM (fun out p ↦
    if hasPath mask p.2 ∧ s.depth ≤ p.1.length then
      if s.depth = 0 then none
      else (p.1[s.depth - 1]?).map fun segment ↦
        if segment = name then out ||| pathBit p.2 else out
    else some out) 0

/-- Narrows the mask to the paths that take every element of the array at the current depth. -/
def matchElement (s : UsageScanner) (mask : BitVec 32) : Option (BitVec 32) :=
  s.matchName mask [star]

/-- The mask of a value that starts here. -/
def valueMask (s : UsageScanner) : Option (BitVec 32) :=
  match s.top with
  | some f => if f.array then s.matchElement f.mask else some s.pending
  | none => some 0

/-- A member value uses up the mask that its name left. -/
def takePending (s : UsageScanner) : UsageScanner :=
  match s.top with
  | some f => if f.array then s else { s with pending := 0 }
  | none => s

def startCapture (s : UsageScanner) (i : ℕ) (kind : CaptureKind) (path : ℕ) : UsageScanner :=
  { s with
    capturing := true, capKind := kind, capPath := path, capDepth := s.depth
    capStart := i, capOver := false, capBuf := [] }

/-- The first byte of a value of the given kind, at index `i` of the piece. Also returns the mask
with which a container value opens. -/
def startValue (s : UsageScanner) (i : ℕ) (kind : CaptureKind) :
    Option (UsageScanner × BitVec 32) :=
  if s.depth = 0 then
    if s.rootDone then some ({ s with dead := true }, 0) else some (s, s.all)
  else s.valueMask.map fun mask ↦
    if s.capturing ∨ mask = 0 then (s.takePending, mask)
    else match endingPath s.paths s.depth mask with
      | some path => (s.takePending.startCapture i kind path, 0)
      | none => (s.takePending, mask)

def startString (s : UsageScanner) (i : ℕ) : Option UsageScanner :=
  let s := { s with inString := true, escape := false, stringIsKey := false }
  match s.top.filter fun f ↦ !f.array && f.expectKey with
  | some f =>
    -- A name under no path is skipped like any string.
    some { s.setTop { f with expectKey := false } with
      stringIsKey := true, key := [], keyOver := f.mask = 0 }
  | none => (s.startValue i .string).map Prod.fst

def keyAppend (s : UsageScanner) (b : List UInt8) : UsageScanner :=
  if !s.stringIsKey || s.keyOver then s
  else if usageKeyLimit < s.key.length + b.length then { s with keyOver := true }
  else { s with key := s.key ++ b }

def appendCapture (s : UsageScanner) (b : List UInt8) : UsageScanner :=
  if s.capOver then s
  else if usageCaptureLimit < s.capBuf.length + b.length then
    { s with capOver := true, capBuf := [] }
  else { s with capBuf := s.capBuf ++ b }

/-- Reports the captured value, unless it passed the limit. -/
def report (s : UsageScanner) : UsageScanner :=
  { s with
    capturing := false
    values := if s.capOver then s.values else s.values ++ [(s.capPath, s.capBuf)]
    capBuf := [] }

/-- Ends the captured value at `p[:stop]`. -/
def endCapture (s : UsageScanner) (p : List UInt8) (stop : ℕ) : Option UsageScanner :=
  (slice p s.capStart stop).map fun b ↦ (s.appendCapture b).report

/-- What the end of a value of the given kind means: the end of the captured value, or of the
top-level one. -/
def endValue (s : UsageScanner) (kind : CaptureKind) (p : List UInt8) (stop : ℕ) :
    Option UsageScanner :=
  if s.capturing ∧ s.capKind = kind ∧ s.depth = s.capDepth then s.endCapture p stop
  else if s.depth = 0 then some { s with rootDone := true }
  else some s

/-- The end of a member name: it leaves the mask of the paths it is on. -/
def endName (s : UsageScanner) : Option UsageScanner :=
  if s.keyOver then some { s with pending := 0 }
  else s.top.bind fun f ↦ (s.matchName f.mask s.key).map fun mask ↦ { s with pending := mask }

/-- The end of a string, whose closing quote is at `k`. -/
def endString (s : UsageScanner) (p : List UInt8) (k : ℕ) : Option UsageScanner :=
  if s.stringIsKey then { s with inString := false }.endName
  else { s with inString := false }.endValue .string p (k + 1)

/-- Consumes string content from `p[i:]`, and returns the next index. -/
def stringBytes (s : UsageScanner) (p : List UInt8) (i : ℕ) : Option (UsageScanner × ℕ) :=
  if s.escape then
    (slice p i (i + 1)).map fun b ↦ ({ s with escape := false }.keyAppend b, i + 1)
  else match (p.drop i).findIdx? fun c ↦ c = quote ∨ c = backslash with
    | none => (slice p i p.length).map fun b ↦ (s.keyAppend b, p.length)
    | some j =>
      let k := i + j
      if p[k]? = some backslash then
        (slice p i (k + 1)).map fun b ↦ ({ s.keyAppend b with escape := true }, k + 1)
      else
        (slice p i k).bind fun b ↦ ((s.keyAppend b).endString p k).map fun s ↦ (s, k + 1)

def endScalar (s : UsageScanner) (p : List UInt8) (i : ℕ) : Option UsageScanner :=
  { s with inScalar := false }.endValue .scalar p i

def openContainer (s : UsageScanner) (i : ℕ) (array : Bool) : Option UsageScanner :=
  (s.startValue i .container).map fun r ↦
    if h : r.1.depth < maxScanDepth then
      { r.1 with
        frames := r.1.frames.set r.1.depth
          { array := array, expectKey := !array, mask := r.2 } (by omega)
        depth := r.1.depth + 1 }
    else { r.1 with depth := r.1.depth + 1 }

def closeContainer (s : UsageScanner) (p : List UInt8) (i : ℕ) : Option UsageScanner :=
  if s.depth = 0 then some { s with dead := true }
  else { s with depth := s.depth - 1 }.endValue .container p (i + 1)

/-- The byte `c` at index `i`, outside of strings and scalars. -/
def structural (s : UsageScanner) (p : List UInt8) (i : ℕ) (c : UInt8) : Option UsageScanner :=
  if isSpace c ∨ c = colon then some s
  else if c = quote then s.startString i
  else if c = comma then
    match s.top.filter fun f ↦ !f.array with
    | some f => some (s.setTop { f with expectKey := true })
    | none => some s
  else if c = lbrace ∨ c = lbracket then s.openContainer i (c = lbracket)
  else if c = rbrace ∨ c = rbracket then s.closeContainer p i
  else (s.startValue i .scalar).map fun r ↦ { r.1 with inScalar := true }

/-- One turn of the loop at index `i`, with the next index. -/
def turn (s : UsageScanner) (p : List UInt8) (i : ℕ) : Option (UsageScanner × ℕ) :=
  if s.inString then s.stringBytes p i
  else (p[i]?).bind fun c ↦
    if s.inScalar then
      if scalarEnds c then
        (s.endScalar p i).bind fun s ↦ (s.structural p i c).map fun s ↦ (s, i + 1)
      else some (s, i + 1)
    else (s.structural p i c).map fun s ↦ (s, i + 1)

/-- The loop from index `i` on. Each turn goes on by at least one byte, so the length of the piece
is fuel enough; running out of fuel is `none`. -/
def loop (p : List UInt8) : ℕ → UsageScanner → ℕ → Option UsageScanner
  | fuel, s, i =>
    if i < p.length ∧ s.dead = false then
      match fuel with
      | 0 => none
      | fuel + 1 => (s.turn p i).bind fun r ↦ loop p fuel r.1 r.2
    else some s

/-- `Write`. It always consumes all of `p`. -/
def write (s : UsageScanner) (p : List UInt8) : Option UsageScanner :=
  if s.dead then some s
  else (loop p p.length { s with capStart := 0 } 0).bind fun s ↦
    if s.capturing then (slice p s.capStart p.length).map s.appendCapture else some s

end UsageScanner

end Kaalm.Gateway
