import Kaalm.Foundation.HttpHeader
import Kaalm.Foundation.Utf8

/-!
# The headers of a forwarded request

The gateway sends the headers of a request on to the provider, but for the ones that carry
credentials and the ones that belong to the connection. The latter are the hop-by-hop headers and
all headers that the `Connection` header names.

`Connection` may have several lines. Only the first one is read, so a header that a later line names
crosses the gateway (`later_line_crosses`).
-/

namespace Kaalm.Gateway

open HttpHeader

def hopByHopHeaders : List (List UInt8) :=
  ["Connection", "TE", "Upgrade", "Proxy-Authorization", "Keep-Alive", "Trailer",
    "Transfer-Encoding"].map Ascii.bytes

def authMaterialHeaders : List (List UInt8) :=
  ["Authorization", "X-Api-Key", "Api-Key", "X-Goog-Api-Key"].map Ascii.bytes

def connectionHeader : List UInt8 := Ascii.bytes "Connection"

def acceptEncoding : List UInt8 := Ascii.bytes "Accept-Encoding"

def identityEncoding : List UInt8 := Ascii.bytes "identity"

def hostHeader : List UInt8 := Ascii.bytes "Host"

def contentLength : List UInt8 := Ascii.bytes "Content-Length"

/-- The names in a list with commas. -/
def listedNames (line : List UInt8) : List (List UInt8) :=
  ((line.splitOn Ascii.comma).map Utf8.trimSpace).filter (· ≠ [])

def copyForwardedHeaders (dst src : Header) : Header :=
  let dst := src.entries.foldl (fun dst e ↦ dst.insert e.1 e.2) dst
  let dst := authMaterialHeaders.foldl Header.del dst
  let dst := (listedNames (Header.get src connectionHeader)).foldl Header.del dst
  let dst := hopByHopHeaders.foldl Header.del dst
  let dst := Header.set dst acceptEncoding identityEncoding
  Header.del (Header.del dst hostHeader) contentLength

/-! ## The lookups of the result -/

/-- The names that are deleted. -/
def removedNames (src : Header) : List (List UInt8) :=
  authMaterialHeaders ++ listedNames (Header.get src connectionHeader) ++ hopByHopHeaders
    ++ [hostHeader, contentLength]

theorem lookup_copyForwardedHeaders (src : Header) (k : List UInt8) :
    (copyForwardedHeaders ∅ src).lookup k
      = if k = acceptEncoding then some [identityEncoding]
        else if k ∈ (removedNames src).map HttpHeader.canonicalKey then none else src.lookup k := by
  have hcanonical : HttpHeader.canonicalKey acceptEncoding = acceptEncoding := by decide +kernel
  have hhost : acceptEncoding ≠ HttpHeader.canonicalKey hostHeader := by decide +kernel
  have hlength : acceptEncoding ≠ HttpHeader.canonicalKey contentLength := by decide +kernel
  have hcopy : (src.entries.foldl (fun dst e ↦ dst.insert e.1 e.2) (∅ : Header)).lookup k
      = src.lookup k := by
    rw [AList.lookup_foldl_insert _ _ src.nodupKeys, AList.lookup_empty, Option.or_none]
    rfl
  rw [copyForwardedHeaders]
  simp only [lookup_del, lookup_set, lookup_foldl_del, hcopy, hcanonical, removedNames,
    List.map_append, List.mem_append, List.map_cons, List.map_nil, List.mem_cons, List.not_mem_nil,
    or_false]
  by_cases hk : k = acceptEncoding
  · simp only [hk, hhost, hlength, if_true, if_false]
  · simp only [hk, if_false]
    split_ifs <;> tauto

/-! ## What crosses the gateway -/

/-- The header of a request that the server has read. -/
structure RequestHeader where
  lines : Header
  isName : ∀ k ∈ lines, IsName k

namespace RequestHeader

variable (src : RequestHeader)

def connectionLines : List (List UInt8) := Header.values src.lines connectionHeader

/-- An element of the line is the name, up to white space and case. -/
def Nominates (line k : List UInt8) : Prop :=
  ∃ element ∈ line.splitOn Ascii.comma, SameName (Utf8.trimSpace element) k

instance (line k : List UInt8) : Decidable (Nominates line k) :=
  inferInstanceAs (Decidable (∃ element ∈ line.splitOn Ascii.comma, _))

/-- A credential, a hop-by-hop header or a header that a line of `Connection` names. -/
def Stripped (k : List UInt8) : Prop :=
  (∃ h ∈ authMaterialHeaders ++ hopByHopHeaders, SameName h k)
    ∨ ∃ line ∈ src.connectionLines, Nominates line k

instance (k : List UInt8) : Decidable (src.Stripped k) :=
  inferInstanceAs (Decidable ((∃ h ∈ authMaterialHeaders ++ hopByHopHeaders, _)
    ∨ ∃ line ∈ src.connectionLines, _))

/-- A header of the request that a later line of `Connection` names is named by the first line, or
removed in any case; and no line names the header that the gateway sets itself. -/
structure FirstLineSuffices : Prop where
  later : ∀ line ∈ src.connectionLines.tail, ∀ k ∈ src.lines, Nominates line k →
    Nominates (src.connectionLines.headD []) k
      ∨ ∃ h ∈ authMaterialHeaders ++ hopByHopHeaders ++ [hostHeader, contentLength], SameName h k
  pinned : ∀ line ∈ src.connectionLines, ¬Nominates line acceptEncoding

variable {src} {k : List UInt8}

theorem exists_listedNames_iff (hk : IsName k) (line : List UInt8) :
    k ∈ (listedNames line).map HttpHeader.canonicalKey ↔ Nominates line k := by
  constructor
  · intro h
    obtain ⟨name, hname, rfl⟩ := List.mem_map.mp h
    obtain ⟨element, helement, rfl⟩ := List.mem_map.mp (List.mem_filter.mp hname).1
    exact ⟨element, helement, (canonicalKey_eq_iff hk).mp rfl⟩
  · rintro ⟨element, helement, hsame⟩
    have hne : Utf8.trimSpace element ≠ [] := by
      intro hnil
      rw [hnil] at hsame
      exact hk.ne_nil (List.map_eq_nil_iff.mp hsame.symm)
    refine List.mem_map.mpr ⟨Utf8.trimSpace element, ?_, (canonicalKey_eq_iff hk).mpr hsame⟩
    exact List.mem_filter.mpr ⟨List.mem_map_of_mem helement, decide_eq_true hne⟩

theorem mem_map_canonicalKey_iff (hk : IsName k) (names : List (List UInt8)) :
    k ∈ names.map HttpHeader.canonicalKey ↔ ∃ h ∈ names, SameName h k := by
  rw [List.mem_map]
  constructor
  · rintro ⟨h, hmem, heq⟩
    exact ⟨h, hmem, (canonicalKey_eq_iff hk).mp heq⟩
  · rintro ⟨h, hmem, hsame⟩
    exact ⟨h, hmem, (canonicalKey_eq_iff hk).mpr hsame⟩

theorem mem_removedNames_iff (hk : IsName k) :
    k ∈ (removedNames src.lines).map HttpHeader.canonicalKey
      ↔ (∃ h ∈ authMaterialHeaders ++ hopByHopHeaders ++ [hostHeader, contentLength],
          SameName h k)
        ∨ Nominates (src.connectionLines.headD []) k := by
  have hfirst := exists_listedNames_iff hk (src.connectionLines.headD [])
  rw [← mem_map_canonicalKey_iff hk, ← hfirst, removedNames]
  simp only [List.map_append, List.mem_append]
  change _ ∨ _ ↔ _
  tauto

theorem exists_line_of_first (hk : IsName k) (h : Nominates (src.connectionLines.headD []) k) :
    ∃ line ∈ src.connectionLines, Nominates line k := by
  cases hlines : src.connectionLines with
  | nil =>
    rw [hlines] at h
    obtain ⟨element, helement, hsame⟩ := h
    obtain rfl : element = [] := List.mem_singleton.mp helement
    exact absurd (List.map_eq_nil_iff.mp hsame.symm) hk.ne_nil
  | cons line lines =>
    rw [hlines] at h
    exact ⟨line, List.mem_cons_self, h⟩

theorem not_stripped_acceptEncoding (hfirst : src.FirstLineSuffices) :
    ¬src.Stripped acceptEncoding := by
  rintro (hfixed | ⟨line, hline, hnominates⟩)
  · exact absurd hfixed (by decide +kernel)
  · exact hfirst.pinned line hline hnominates

/-- What is to be stripped is deleted. -/
theorem mem_removedNames_of_stripped (hfirst : src.FirstLineSuffices) (hk : k ∈ src.lines)
    (h : src.Stripped k) : k ∈ (removedNames src.lines).map HttpHeader.canonicalKey := by
  rw [mem_removedNames_iff (src.isName k hk)]
  rcases h with ⟨h, hmem, hsame⟩ | ⟨line, hline, hnominates⟩
  · exact Or.inl ⟨h, List.mem_append_left _ hmem, hsame⟩
  · cases hlines : src.connectionLines with
    | nil => exact absurd hline (hlines ▸ List.not_mem_nil)
    | cons first later =>
      rw [hlines] at hline
      rcases List.mem_cons.mp hline with rfl | hlater
      · exact Or.inr hnominates
      · have hcovered := hfirst.later line (hlines ▸ hlater) k hk hnominates
        rw [hlines] at hcovered
        exact hcovered.symm

/-- What is deleted is to be stripped, or is one of the headers that the transport sets. -/
theorem stripped_of_mem_removedNames (hk : k ∈ src.lines)
    (h : k ∈ (removedNames src.lines).map HttpHeader.canonicalKey) :
    src.Stripped k ∨ k ∈ [hostHeader, contentLength] := by
  rcases (mem_removedNames_iff (src.isName k hk)).mp h with ⟨h, hmem, hsame⟩ | hnominates
  · rcases List.mem_append.mp hmem with hmem | hmem
    · exact Or.inl (Or.inl ⟨h, hmem, hsame⟩)
    · right
      have hcanonical : ∀ h ∈ [hostHeader, contentLength],
        HttpHeader.canonicalKey h = h := by decide +kernel
      rw [← (canonicalKey_eq_iff (src.isName k hk)).mpr hsame, hcanonical h hmem]
      exact hmem
  · exact Or.inl (Or.inr (exists_line_of_first (src.isName k hk) hnominates))

/-- A header that is stripped is no longer there only if its name is deleted. -/
theorem mem_removedNames_of_strips
    (hstrips : ∀ k, src.Stripped k → k ∉ copyForwardedHeaders ∅ src.lines)
    (hk : src.Stripped k) : k ≠ acceptEncoding
      ∧ (k ∈ src.lines → k ∈ (removedNames src.lines).map HttpHeader.canonicalKey) := by
  have hgone := hstrips k hk
  rw [← AList.lookup_isSome, lookup_copyForwardedHeaders] at hgone
  constructor
  · intro haccept
    exact hgone (by rw [if_pos haccept]; rfl)
  · intro hmem
    by_contra hkept
    split_ifs at hgone
    · exact hgone rfl
    · exact hgone (AList.lookup_isSome.mpr hmem)

end RequestHeader

open RequestHeader

/-- No credential and no header of the connection crosses the gateway, and all others do, exactly if
the first line of `Connection` suffices. -/
theorem copyForwardedHeaders_strips (src : RequestHeader) :
    ((∀ k, src.Stripped k → k ∉ copyForwardedHeaders ∅ src.lines) ∧
      ∀ k ∈ src.lines, ¬src.Stripped k → k ∉ [acceptEncoding, hostHeader, contentLength] →
        (copyForwardedHeaders ∅ src.lines).lookup k = src.lines.lookup k)
      ↔ src.FirstLineSuffices := by
  constructor
  · rintro ⟨hstrips, -⟩
    constructor
    · intro line hline k hk hnominates
      have hstripped : src.Stripped k := Or.inr ⟨line, List.mem_of_mem_tail hline, hnominates⟩
      have hremoved := (mem_removedNames_of_strips hstrips hstripped).2 hk
      exact ((mem_removedNames_iff (src.isName k hk)).mp hremoved).symm
    · intro line hline hnominates
      exact (mem_removedNames_of_strips hstrips (Or.inr ⟨line, hline, hnominates⟩)).1 rfl
  intro hfirst
  constructor
  · intro k hstripped hmem
    rw [← AList.lookup_isSome, lookup_copyForwardedHeaders] at hmem
    split_ifs at hmem with haccept hremoved
    · rw [haccept] at hstripped
      exact not_stripped_acceptEncoding hfirst hstripped
    · cases hmem
    · exact hremoved (mem_removedNames_of_stripped hfirst (AList.lookup_isSome.mp hmem) hstripped)
  · intro k hk hstripped hother
    have haccept : k ≠ acceptEncoding := fun h ↦ hother (List.mem_cons.mpr (Or.inl h))
    have hremoved : k ∉ (removedNames src.lines).map HttpHeader.canonicalKey := by
      intro hremoved
      rcases stripped_of_mem_removedNames hk hremoved with h | h
      · exact hstripped h
      · exact hother (List.mem_cons_of_mem _ h)
    rw [lookup_copyForwardedHeaders, if_neg haccept, if_neg hremoved]

private def keptHeader : List UInt8 := Ascii.bytes "X-Request-Id"

private def debugHeader : List UInt8 := Ascii.bytes "X-Debug-Token"

private def textValue : List UInt8 := Ascii.bytes "1"

/-- A request whose `Connection` header has the given lines. -/
private def debugLines (connection : List (List UInt8)) : Header :=
  AList.ofEntries [⟨connectionHeader, connection⟩, ⟨debugHeader, [textValue]⟩,
    ⟨keptHeader, [textValue, textValue]⟩]

private def debugRequest (connection : List (List UInt8)) : RequestHeader where
  lines := debugLines connection
  isName := by
    have hkeys : (debugLines connection).keys = [keptHeader, debugHeader, connectionHeader] := rfl
    intro k hk
    rw [AList.mem_keys, hkeys] at hk
    revert k
    decide +kernel

theorem copyForwardedHeaders_strips_debug :
    debugHeader ∉ copyForwardedHeaders ∅ (debugLines [Ascii.bytes "close , x-DEBUG-token"]) ∧
    (copyForwardedHeaders ∅ (debugLines [Ascii.bytes "close , x-DEBUG-token"])).lookup keptHeader
      = some [textValue, textValue] := by
  have hstrips := (copyForwardedHeaders_strips (debugRequest
    [Ascii.bytes "close , x-DEBUG-token"])).mpr
      ⟨fun line hline ↦ absurd hline List.not_mem_nil, by decide +kernel⟩
  refine ⟨hstrips.1 debugHeader (by decide +kernel), (hstrips.2 keptHeader ?_ ?_ ?_).trans rfl⟩
  · decide +kernel
  · decide +kernel
  · decide +kernel

/-- The second line names a header that is sent on. -/
theorem later_line_crosses :
    (debugRequest [Ascii.bytes "close", Ascii.bytes "X-Debug-Token"]).Stripped debugHeader ∧
    debugHeader ∈ copyForwardedHeaders ∅
      (debugRequest [Ascii.bytes "close", Ascii.bytes "X-Debug-Token"]).lines := by
  decide +kernel

end Kaalm.Gateway
