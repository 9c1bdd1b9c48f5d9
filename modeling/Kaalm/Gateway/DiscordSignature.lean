import Kaalm.Foundation.Ed25519
import Kaalm.Foundation.GoTime
import Kaalm.Foundation.Strconv

/-!
# Signatures of Discord interactions

Discord signs the timestamp header and the body of an interaction. The gateway accepts a signature
whose timestamp is close to its own clock.

The difference of the two times is a duration, whose sign is dropped before it is compared with the
window. A timestamp that is more than 2^63 nanoseconds ahead of the clock gives the smallest
duration there is, and that one has no negation: it stays negative and is less than any window
(`far_timestamp_accepted`).
-/

namespace Kaalm.Gateway

open Ed25519 GoTime

def discordTimestampSkew : ℤ := 300 * 1000000000

def verifyDiscordSignature (pub : PublicKey) (sigHex timestamp body : List UInt8) (now : Instant) :
    Bool :=
  match Strconv.hexDecode sigHex with
  | none => false
  | some sig =>
    if sig.length ≠ signatureSize then false
    else
      match Strconv.parseInt timestamp with
      | none => false
      | some ts =>
        if absDuration (now.sub (unix ts)) > discordTimestampSkew then false
        else verify pub (timestamp ++ body) sig

/-- The timestamp of an accepted signature. -/
theorem exists_timestamp {pub : PublicKey} {sigHex timestamp body : List UInt8} {now : Instant}
    (h : verifyDiscordSignature pub sigHex timestamp body now = true) :
    ∃ ts, Strconv.parseInt timestamp = some ts ∧
      absDuration (now.sub (unix ts)) ≤ discordTimestampSkew := by
  rw [verifyDiscordSignature] at h
  split at h
  · exact nomatch h
  · split_ifs at h
    split at h
    · exact nomatch h
    · rename_i ts hts
      split_ifs at h with hskew
      exact ⟨ts, hts, not_lt.mp hskew⟩

/-- The clock is less than 2^63 nanoseconds before the instant of the timestamp, and if `time.Unix`
of the timestamp overflows, then not to an instant in the window. -/
structure InReach (now : Instant) (ts : ℤ) : Prop where
  near : minDuration < now.nanos - (unix ts).nanos
  exact : (unix ts).nanos = ts * 1000000000 ∨
    discordTimestampSkew < |now.nanos - (unix ts).nanos|

theorem inInt64_of_parseInt {text : List UInt8} {n : ℤ} (h : Strconv.parseInt text = some n) :
    InInt64 n := by
  have hrange : ∀ {m : Option ℤ}, Strconv.parseInt.inRange m = some n → InInt64 n := by
    intro m hm
    rw [Strconv.parseInt.inRange, Option.filter_eq_some_iff] at hm
    have hn := of_decide_eq_true hm.2
    rw [InInt64]
    omega
  rw [Strconv.parseInt.eq_def] at h
  split at h <;> exact hrange h

/-- With a key and a signature that fit every message, only the timestamp decides. -/
theorem verifyDiscordSignature_neutral {timestamp : List UInt8} {ts : ℤ} {now : Instant}
    (hts : Strconv.parseInt timestamp = some ts)
    (hskew : absDuration (now.sub (unix ts)) ≤ discordTimestampSkew) (body : List UInt8) :
    ∃ sigHex, verifyDiscordSignature neutralKey sigHex timestamp body now = true := by
  refine ⟨Ascii.bytes "01" ++ List.replicate 126 0x30, ?_⟩
  have hsig : Strconv.hexDecode (Ascii.bytes "01" ++ List.replicate 126 0x30)
      = some neutralSignature := by decide +kernel
  rw [verifyDiscordSignature, hsig]
  simp only [hts, if_neg (not_lt.mpr hskew), verify_neutral]
  decide

/-- `time.Unix` of an int64 is exact, or the whole range of an int64 too early. -/
theorem nanos_unix {ts : ℤ} (hts : InInt64 ts) :
    (unix ts).nanos = ts * 1000000000 ∨
      (unix ts).nanos = (ts - 18446744073709551616) * 1000000000 := by
  rw [InInt64] at hts
  simp only [unix, Instant.nanos, unixToInternal, wrap]
  omega

/-- A timestamp that is in the window if it is accepted is in reach. -/
theorem inReach_of_window {now : Instant} {ts : ℤ} (hts : InInt64 ts)
    (h : absDuration (now.sub (unix ts)) ≤ discordTimestampSkew →
      |now.nanos - ts * 1000000000| ≤ discordTimestampSkew) : InReach now ts := by
  have hunix := nanos_unix hts
  have habs := neg_le_abs (now.nanos - ts * 1000000000)
  simp only [Instant.sub, absDuration, wrap, discordTimestampSkew, minDuration, maxDuration] at h
  constructor
  · rw [minDuration]
    omega
  · rw [discordTimestampSkew, lt_abs]
    omega

/-- The signatures with a timestamp are accepted in the window around it only, whatever the key and
the body are, exactly if the timestamp is in reach of the clock. -/
theorem verifyDiscordSignature_window (timestamp : List UInt8) (now : Instant) :
    (∀ pub sigHex body, verifyDiscordSignature pub sigHex timestamp body now = true →
      ∃ ts, Strconv.parseInt timestamp = some ts ∧
        |now.nanos - ts * 1000000000| ≤ discordTimestampSkew)
      ↔ ∀ ts, Strconv.parseInt timestamp = some ts → InReach now ts := by
  constructor
  · intro h ts hts
    refine inReach_of_window (inInt64_of_parseInt hts) fun hskew ↦ ?_
    obtain ⟨sigHex, haccepted⟩ := verifyDiscordSignature_neutral hts hskew []
    obtain ⟨ts', hts', hwindow⟩ := h _ _ _ haccepted
    rwa [Option.some.inj (hts'.symm.trans hts)] at hwindow
  · intro hreach pub sigHex body h
    obtain ⟨ts, hts, hskew⟩ := exists_timestamp h
    have hwindow : |now.nanos - (unix ts).nanos| ≤ discordTimestampSkew :=
      abs_nanos_le_of_sub (by decide) (hreach ts hts).near hskew
    rcases (hreach ts hts).exact with hexact | hfar
    · rw [hexact] at hwindow
      exact ⟨ts, hts, hwindow⟩
    · exact absurd hwindow (not_le.mpr hfar)

/-- The public key of an application. -/
private def appKey : PublicKey where
  bytes := [0xd7, 0x5a, 0x98, 0x01, 0x82, 0xb1, 0x0a, 0xb7, 0xd5, 0x4b, 0xfe, 0xd3,
    0xc9, 0x64, 0x07, 0x3a, 0x0e, 0xe1, 0x72, 0xf3, 0xda, 0xa6, 0x23, 0x25,
    0xaf, 0x02, 0x1a, 0x68, 0xf7, 0x07, 0x51, 0x1a]
  length_eq := by decide

/-- The start of the year 2026. -/
private def newYear : Instant := unix 1767225600

private def ping : List UInt8 := Ascii.bytes "\x7b\"type\":1\x7d"

private def currentSig : List UInt8 :=
  Ascii.bytes "043c27be433acfda994a8cc48d02b0c4d6603f5ffa803fa74b05b044706ef071" ++
  Ascii.bytes "e2f2e64ebe9de42a8461ed5f7d95a51ea105f4dd2950975b987d9d6b1cbdcc06"

private def farSig : List UInt8 :=
  Ascii.bytes "604997b692cf6dc7c332f2e5fa05b6b6e4a6c30efd787523327daf6fea51f0da" ++
  Ascii.bytes "0fd878ce519b74c971c10db21bc8e62468b6e4f3c9daa0f2b1858a54e82ccd0e"

theorem verifyDiscordSignature_window_ping :
    verifyDiscordSignature appKey currentSig (Ascii.bytes "1767225590") ping newYear = true ∧
    ∃ ts, Strconv.parseInt (Ascii.bytes "1767225590") = some ts ∧
      |newYear.nanos - ts * 1000000000| ≤ discordTimestampSkew := by
  have haccepted : verifyDiscordSignature appKey currentSig (Ascii.bytes "1767225590") ping newYear
      = true := by decide +kernel
  refine ⟨haccepted, (verifyDiscordSignature_window _ _).mpr (fun ts hts ↦ ?_) _ _ _ haccepted⟩
  have hparse : Strconv.parseInt (Ascii.bytes "1767225590") = some 1767225590 := by decide +kernel
  obtain rfl : ts = 1767225590 := Option.some.inj (hts.symm.trans hparse)
  exact ⟨by decide +kernel, Or.inl (by decide +kernel)⟩

/-- A timestamp three thousand years ahead of the clock is accepted. -/
theorem far_timestamp_accepted :
    verifyDiscordSignature appKey farSig (Ascii.bytes "99999999999") ping newYear = true ∧
    Strconv.parseInt (Ascii.bytes "99999999999") = some 99999999999 ∧
    ¬|newYear.nanos - 99999999999 * 1000000000| ≤ discordTimestampSkew := by
  decide +kernel

end Kaalm.Gateway
