import Kaalm.Foundation.Message
import Kaalm.Foundation.Quote
import Kaalm.Foundation.Utf8
import Kaalm.Provider.Eligibility

/-!
# The message of the eligibility scan

The findings of a scan are joined into the message of a condition: the first ten, and a count of the
rest. After a restart the controller reads the stored message back to see which findings are new.

The message is taken apart at the separators outside of quotes. A finding is fixed text with quoted
values, and what is quoted ends at its closing quote whatever the value is, so a finding passes the
reader as a whole (`Passes`).
-/

namespace Kaalm.ModelProviders

open Gateway.Fallback Message

/-! ## Quoted entries -/

def maxQuotedEntryBytes : ℕ := 256

def maxConditionMessageBytes : ℕ := 32768

/-- The bytes of a text. -/
def byteLength (text : List Char) : ℕ := (text.map Char.utf8Size).sum

/-- The longest beginning that has at most `n` bytes. -/
def takeBytes : ℕ → List Char → List Char
  | _, [] => []
  | n, c :: text => if c.utf8Size ≤ n then c :: takeBytes (n - c.utf8Size) text else []

def decimal (n : ℕ) : List Char := Nat.toDigits 10 n

/-- A long entry is cut, with a note of what is left of it. -/
def quotedEntry (isPrint : Char → Bool) (s : String) : String :=
  if byteLength s.toList ≤ maxQuotedEntryBytes then
    String.ofList (Quote.quote isPrint s.toList)
  else
    let cut := takeBytes maxQuotedEntryBytes s.toList
    String.ofList (Quote.quote isPrint cut ++ " (first ".toList ++ decimal (byteLength cut)
      ++ " of ".toList ++ decimal (byteLength s.toList) ++ " bytes)".toList)

def cutConditionMessage (s : String) : String :=
  String.ofList (Utf8.decode (truncate (Utf8.encode s.toList) maxConditionMessageBytes))

/-! ## The message -/

def findingsSeparator : String := "; "

def fallbackFindingsOneMore : String := "fallback eligibility scan has 1 more finding, not listed"

/-- The text before the number, in `fallbackFindingsManyMore` and its pattern. -/
def moreStart : List Char := "fallback eligibility scan has ".toList

/-- The text after it. -/
def moreEnd : List Char := " more findings, not listed".toList

def fallbackFindingsManyMore (n : ℕ) : String := String.ofList (moreStart ++ (decimal n ++ moreEnd))

/-- The message before it is cut. -/
def joinedFindings (findings : List FallbackFinding) : String :=
  let l := findings.foldl (fun (l : EntryList) f ↦ l.add f.key f.message) {}
  findingsSeparator.intercalate (l.messages fallbackFindingsOneMore fallbackFindingsManyMore)

def fallbackFindingsMessage (findings : List FallbackFinding) : String :=
  cutConditionMessage (joinedFindings findings)

/-! ## Reading it back -/

/-- The loop of `splitFindings`, with the part that it is in. A backslash in quotes skips what
follows it. -/
def splitFrom : Bool → List Char → List Char → List (List Char)
  | _, part, [] => [part]
  | true, part, '\\' :: c :: msg => splitFrom true (part ++ ['\\', c]) msg
  | inQuote, part, '"' :: msg => splitFrom (!inQuote) (part ++ ['"']) msg
  | false, part, ';' :: ' ' :: msg => part :: splitFrom false [] msg
  | inQuote, part, c :: msg => splitFrom inQuote (part ++ [c]) msg

def splitFindings (msg : String) : List String := (splitFrom false [] msg.toList).map String.ofList

/-- `fallbackFindingsMoreRE` with the number it matches, which is the length of a list and so fits.
-/
def moreFindings (part : String) : Option ℕ :=
  let rest := part.toList.drop moreStart.length
  let digits := rest.takeWhile Char.isDigit
  if moreStart.isPrefixOf part.toList ∧ digits ≠ []
      ∧ (rest.dropWhile Char.isDigit = " more finding, not listed".toList
        ∨ rest.dropWhile Char.isDigit = moreEnd) then
    some (Nat.ofDigitChars 10 digits 0)
  else none

/-- The entries and the count after a part. -/
def readPart (found : List String × ℕ) (part : String) : List String × ℕ :=
  match moreFindings part with
  | some n => (found.1, n)
  | none => (found.1 ++ [part], found.2)

def listedFindings (msg : String) : List String × ℕ :=
  if msg = "" then ([], 0)
  else
    let found := (splitFindings msg).foldl readPart ([], 0)
    (found.1, found.1.length + found.2)

/-! ## Texts that pass the reader -/

/-- A text that begins and ends outside of quotes and has no separator there. -/
def Passes (text : List Char) : Prop :=
  ∀ part msg, splitFrom false part (text ++ msg) = splitFrom false (part ++ text) msg

/-- A text that stays inside of quotes. -/
def StaysInside (text : List Char) : Prop :=
  ∀ part msg, splitFrom true part (text ++ msg) = splitFrom true (part ++ text) msg

theorem Passes.append {xs ys : List Char} (hx : Passes xs) (hy : Passes ys) :
    Passes (xs ++ ys) := by
  intro part msg
  rw [List.append_assoc, hx, hy, List.append_assoc]

theorem Passes.toList_append {s t : String} (hs : Passes s.toList) (ht : Passes t.toList) :
    Passes (s ++ t).toList := by
  rw [String.toList_append]
  exact hs.append ht

theorem StaysInside.append {xs ys : List Char} (hx : StaysInside xs) (hy : StaysInside ys) :
    StaysInside (xs ++ ys) := by
  intro part msg
  rw [List.append_assoc, hx, hy, List.append_assoc]

theorem splitFrom_other {inQuote : Bool} {part msg : List Char} {c : Char} (hquote : c ≠ '"')
    (hinside : inQuote = true → c ≠ '\\') (houtside : inQuote = false → c ≠ ';') :
    splitFrom inQuote part (c :: msg) = splitFrom inQuote (part ++ [c]) msg := by
  rw [splitFrom]
  · exact hquote
  · exact fun _ _ hin hc _ ↦ hinside hin hc
  · exact fun _ hout hc _ ↦ houtside hout hc

theorem passes_plain {text : List Char} (h : ∀ c ∈ text, c ≠ '"' ∧ c ≠ ';') : Passes text := by
  induction text with
  | nil =>
    intro part msg
    rw [List.append_nil, List.nil_append]
  | cons c text ih =>
    obtain ⟨hquote, hsemicolon⟩ := h c List.mem_cons_self
    intro part msg
    have hstep : splitFrom false part (c :: (text ++ msg))
        = splitFrom false (part ++ [c]) (text ++ msg) :=
      splitFrom_other hquote nofun fun _ ↦ hsemicolon
    rw [List.cons_append, hstep, ih fun d hd ↦ h d (List.mem_cons_of_mem c hd), List.append_assoc]
    rfl

theorem passes_literal {text : List Char} (h : text.Forall fun c ↦ c ≠ '"' ∧ c ≠ ';') :
    Passes text :=
  passes_plain (List.forall_iff_forall_mem.mp h)

theorem staysInside_plain {text : List Char} (h : ∀ c ∈ text, c ≠ '"' ∧ c ≠ '\\') :
    StaysInside text := by
  induction text with
  | nil =>
    intro part msg
    rw [List.append_nil, List.nil_append]
  | cons c text ih =>
    obtain ⟨hquote, hbackslash⟩ := h c List.mem_cons_self
    intro part msg
    have hstep : splitFrom true part (c :: (text ++ msg))
        = splitFrom true (part ++ [c]) (text ++ msg) :=
      splitFrom_other hquote (fun _ ↦ hbackslash) nofun
    rw [List.cons_append, hstep, ih fun d hd ↦ h d (List.mem_cons_of_mem c hd), List.append_assoc]
    rfl

theorem staysInside_of_escaped {text : List Char} (h : Quote.Escaped text) : StaysInside text := by
  cases h with
  | plain c hquote hbackslash =>
    refine staysInside_plain fun d hd ↦ ?_
    rw [List.mem_singleton.mp hd]
    exact ⟨hquote, hbackslash⟩
  | special c cs h =>
    intro part msg
    rw [List.cons_append, List.cons_append, splitFrom, staysInside_plain h, List.append_assoc]
    rfl

theorem staysInside_flatMap (isPrint : Char → Bool) (text : List Char) :
    StaysInside (text.flatMap (Quote.escaped isPrint)) := by
  induction text with
  | nil => exact staysInside_plain fun d hd ↦ absurd hd List.not_mem_nil
  | cons c text ih =>
    rw [List.flatMap_cons]
    exact (staysInside_of_escaped (Quote.escaped_escaped isPrint c)).append ih

/-- A quoted text ends at its closing quote. -/
theorem passes_quote (isPrint : Char → Bool) (text : List Char) :
    Passes (Quote.quote isPrint text) := by
  intro part msg
  have hinside := staysInside_flatMap isPrint text
  rw [Quote.quote, List.cons_append, List.cons_append, List.append_assoc, splitFrom, Bool.not_false,
    hinside, List.singleton_append, splitFrom, Bool.not_true, List.append_assoc, List.append_assoc]
  rfl

theorem passes_decimal (n : ℕ) : Passes (decimal n) := by
  refine passes_plain fun c hc ↦ ?_
  have hdigit : c.isDigit = true := Nat.isDigit_of_mem_toDigits (by norm_num) le_rfl hc
  constructor
  · rintro rfl
    exact absurd hdigit (by decide)
  · rintro rfl
    exact absurd hdigit (by decide)

theorem passes_quotedEntry (isPrint : Char → Bool) (s : String) :
    Passes (quotedEntry isPrint s).toList := by
  rw [quotedEntry]
  split_ifs
  · rw [String.toList_ofList]
    exact passes_quote isPrint _
  · rw [String.toList_ofList]
    exact ((((passes_quote isPrint _).append (passes_literal (by decide))).append
      (passes_decimal _)).append (passes_literal (by decide))).append (passes_decimal _)
      |>.append (passes_literal (by decide))

theorem passes_message (isPrint : Char → Bool) (f : Ineligibility) :
    Passes (f.message (quotedEntry isPrint)).toList := by
  have hentry := passes_quotedEntry isPrint
  cases f with
  | notAdmitted child ns =>
    exact (((passes_literal (by decide)).toList_append (hentry child)).toList_append
      (passes_literal (by decide))).toList_append (hentry ns)
  | notOffered child model primaryModel =>
    exact ((((((passes_literal (by decide)).toList_append (hentry child)).toList_append
      (passes_literal (by decide))).toList_append (hentry model)).toList_append
      (passes_literal (by decide))).toList_append (hentry primaryModel)).toList_append
      (passes_literal (by decide))

theorem splitFrom_append_separator {text : List Char} (h : Passes text) (part msg : List Char) :
    splitFrom false part (text ++ findingsSeparator.toList ++ msg)
      = (part ++ text) :: splitFrom false [] msg := by
  rw [List.append_assoc, h]
  rfl

/-- Texts that pass are read back. -/
theorem splitFrom_intercalate {texts : List (List Char)} (hne : texts ≠ [])
    (h : ∀ text ∈ texts, Passes text) :
    splitFrom false [] (findingsSeparator.toList.intercalate texts) = texts := by
  induction texts with
  | nil => exact absurd rfl hne
  | cons text texts ih =>
    have htext := h text List.mem_cons_self
    cases texts with
    | nil =>
      have hend := htext [] []
      rw [List.append_nil] at hend
      rw [List.intercalate_singleton, hend, List.nil_append, splitFrom]
    | cons text' texts =>
      rw [List.intercalate_cons_cons, splitFrom_append_separator htext, List.nil_append,
        ih (List.cons_ne_nil _ _) fun t ht ↦ h t (List.mem_cons_of_mem _ ht)]

theorem splitFindings_intercalate {texts : List String} (hne : texts ≠ [])
    (h : ∀ text ∈ texts, Passes text.toList) :
    splitFindings (findingsSeparator.intercalate texts) = texts := by
  rw [splitFindings, String.toList_intercalate, splitFrom_intercalate, List.map_map]
  · exact (List.map_congr_left fun text _ ↦ String.ofList_toList).trans (List.map_id _)
  · exact fun hnil ↦ hne (List.map_eq_nil_iff.mp hnil)
  · intro text htext
    obtain ⟨s, hs, rfl⟩ := List.mem_map.mp htext
    exact h s hs

/-! ## The count -/

theorem quotedEntry_toList (isPrint : Char → Bool) (s : String) :
    ∃ rest, (quotedEntry isPrint s).toList = '"' :: rest := by
  rw [quotedEntry]
  split_ifs
  · exact ⟨_, String.toList_ofList⟩
  · exact ⟨_, String.toList_ofList⟩

theorem prefix_append {text : List Char} {s : String} (h : text <+: s.toList) (t : String) :
    text <+: (s ++ t).toList := by
  rw [String.toList_append]
  exact h.trans (List.prefix_append _ _)

theorem message_toList (isPrint : Char → Bool) (f : Ineligibility) :
    "fallback \"".toList <+: (f.message (quotedEntry isPrint)).toList := by
  have hstart : "fallback \"".toList
      <+: ("fallback " ++ quotedEntry isPrint f.candidate).toList := by
    obtain ⟨rest, hrest⟩ := quotedEntry_toList isPrint f.candidate
    rw [String.toList_append, hrest]
    exact ⟨rest, rfl⟩
  cases f with
  | notAdmitted child ns => exact prefix_append (prefix_append hstart _) _
  | notOffered child model primaryModel =>
    exact prefix_append (prefix_append (prefix_append
      (prefix_append (prefix_append hstart _) _) _) _) _

theorem message_ne_empty (isPrint : Char → Bool) (f : Ineligibility) :
    f.message (quotedEntry isPrint) ≠ "" := by
  intro h
  obtain ⟨rest, hrest⟩ := message_toList isPrint f
  rw [h] at hrest
  exact List.append_ne_nil_of_left_ne_nil (by decide) rest hrest

/-- A finding is not read as the count: it goes on with a quote. -/
theorem moreFindings_message (isPrint : Char → Bool) (f : Ineligibility) :
    moreFindings (f.message (quotedEntry isPrint)) = none := by
  obtain ⟨rest, hrest⟩ := message_toList isPrint f
  rw [moreFindings, ← hrest]
  refine if_neg fun h ↦ ?_
  obtain ⟨tail, htail⟩ := List.isPrefixOf_iff_prefix.mp h.1
  have htake := congrArg (List.take 10) htail
  rw [List.take_append_of_le_length (by decide), List.take_append_of_le_length (by decide)] at htake
  exact absurd htake (by decide)

theorem moreFindings_oneMore : moreFindings fallbackFindingsOneMore = some 1 := by decide +kernel

theorem moreFindings_manyMore (n : ℕ) : moreFindings (fallbackFindingsManyMore n) = some n := by
  have hdigits : ∀ c ∈ decimal n, c.isDigit = true :=
    fun c hc ↦ Nat.isDigit_of_mem_toDigits (by norm_num) le_rfl hc
  have htext : (fallbackFindingsManyMore n).toList = moreStart ++ (decimal n ++ moreEnd) :=
    String.toList_ofList
  have htake : (decimal n ++ moreEnd).takeWhile Char.isDigit = decimal n := by
    rw [List.takeWhile_append_of_pos hdigits]
    exact List.append_nil _
  have hdrop : (decimal n ++ moreEnd).dropWhile Char.isDigit = moreEnd := by
    rw [List.dropWhile_append_of_pos hdigits]
    rfl
  have hstart : moreStart.isPrefixOf (moreStart ++ (decimal n ++ moreEnd)) = true :=
    List.isPrefixOf_iff_prefix.mpr (List.prefix_append _ _)
  rw [moreFindings, htext]
  simp only [List.drop_left, htake, hdrop]
  rw [if_pos ⟨hstart, Nat.toDigits_ne_nil, Or.inr trivial⟩]
  exact congrArg some Nat.ofDigitChars_ten_toDigits

theorem passes_oneMore : Passes fallbackFindingsOneMore.toList :=
  passes_literal (by decide)

theorem passes_manyMore (n : ℕ) : Passes (fallbackFindingsManyMore n).toList := by
  rw [fallbackFindingsManyMore, String.toList_ofList]
  exact (passes_literal (by decide)).append
    ((passes_decimal n).append (passes_literal (by decide)))

theorem manyMore_ne_empty (n : ℕ) : fallbackFindingsManyMore n ≠ "" := by
  intro h
  have htext := congrArg String.toList h
  rw [fallbackFindingsManyMore, String.toList_ofList] at htext
  exact List.append_ne_nil_of_left_ne_nil (by decide) _ htext

/-- The entries come back, with the count that follows them. -/
theorem foldl_readPart {parts : List String} (h : ∀ part ∈ parts, moreFindings part = none)
    (found : List String × ℕ) : parts.foldl readPart found = (found.1 ++ parts, found.2) := by
  induction parts generalizing found with
  | nil => rw [List.foldl_nil, List.append_nil]
  | cons part parts ih =>
    have hpart : readPart found part = (found.1 ++ [part], found.2) := by
      rw [readPart, h part List.mem_cons_self]
    rw [List.foldl_cons, hpart, ih fun p hp ↦ h p (List.mem_cons_of_mem _ hp), List.append_assoc]
    rfl

/-- A message of texts that pass is read part by part. -/
theorem listedFindings_intercalate {parts : List String}
    (hpasses : ∀ part ∈ parts, Passes part.toList) (hempty : "" ∉ parts) :
    listedFindings (findingsSeparator.intercalate parts)
      = ((parts.foldl readPart ([], 0)).1,
        (parts.foldl readPart ([], 0)).1.length + (parts.foldl readPart ([], 0)).2) := by
  rcases eq_or_ne parts [] with rfl | hne
  · rfl
  have hsplit := splitFindings_intercalate hne hpasses
  have hmsg : findingsSeparator.intercalate parts ≠ "" := by
    intro hmsg
    rw [hmsg] at hsplit
    exact hempty (hsplit ▸ List.mem_singleton_self _)
  rw [listedFindings, if_neg hmsg, hsplit]

/-- The count ends the message. -/
theorem foldl_readPart_count {parts : List String} {count : String} {n : ℕ}
    (h : ∀ part ∈ parts, moreFindings part = none) (hcount : moreFindings count = some n) :
    (parts ++ [count]).foldl readPart ([], 0) = (parts, n) := by
  rw [List.foldl_append, foldl_readPart h, List.foldl_cons, List.foldl_nil, readPart, hcount]
  rfl

/-! ## The list -/

/-- Entries with distinct keys are listed as long as there is room, and counted after that. -/
theorem foldl_add (findings : List FallbackFinding) (h : (findings.map fun f ↦ f.key).Nodup) :
    findings.foldl (fun (l : EntryList) f ↦ l.add f.key f.message) {}
      = { seen := (findings.map fun f ↦ f.key).reverse
          listed := (findings.map fun f ↦ f.message).take maxListedEntries
          more := findings.length - maxListedEntries } := by
  induction findings using List.reverseRecOn with
  | nil => rfl
  | append_singleton findings f ih =>
    rw [List.map_append, List.nodup_append] at h
    have hnew : f.key ∉ (findings.map fun f ↦ f.key).reverse := by
      intro hmem
      exact h.2.2 _ (List.mem_reverse.mp hmem) _ (List.mem_singleton_self _) rfl
    rw [List.foldl_append, ih h.1, List.foldl_cons, List.foldl_nil, EntryList.add, if_neg hnew]
    simp only [List.length_take, List.length_map, List.map_append, List.map_cons, List.map_nil,
      List.reverse_append, List.reverse_cons, List.reverse_nil, List.nil_append,
      List.singleton_append, List.length_append, List.length_cons, List.length_nil]
    split_ifs with hroom
    · rw [List.take_of_length_le (by simp; omega), List.take_of_length_le (by simp; omega)]
      congr 1
      omega
    · rw [List.take_append_of_le_length (by simp; omega)]
      congr 1
      omega

section

variable {isPrint : Char → Bool} {primary : Provider} {providers : List Provider}
  {callers : List String} {findings : List FallbackFinding}

/-- What a scan finds has distinct keys. -/
theorem nodup_keys
    (h : fallbackIneligibility (quotedEntry isPrint) primary providers callers = some findings) :
    (findings.map fun f ↦ f.key).Nodup := by
  obtain ⟨found, -, rfl⟩ := Option.map_eq_some_iff.mp h
  have hkeys := (foundMap (quotedEntry isPrint) found.flatten).nodupKeys
  rw [((List.perm_insertionSort FallbackFinding.le _).map _).nodup_iff, List.map_map]
  exact hkeys

theorem foundMap_message (quotedEntry : String → String) (found : List Ineligibility) :
    ∀ e ∈ (foundMap quotedEntry found).entries,
      ∃ i : Ineligibility, e.2 = i.message quotedEntry := by
  induction found using List.reverseRecOn with
  | nil => exact fun e he ↦ absurd he List.not_mem_nil
  | append_singleton found f ih =>
    intro e he
    rw [foundMap, List.foldl_append, ← foundMap, List.foldl_cons, List.foldl_nil,
      AList.entries_insert] at he
    rcases List.mem_cons.mp he with rfl | he
    · exact ⟨f, rfl⟩
    · exact ih e ((List.kerase_sublist _ _).mem he)

/-- A finding has the text of something that the scan noted. -/
theorem exists_message
    (h : fallbackIneligibility (quotedEntry isPrint) primary providers callers = some findings)
    {f : FallbackFinding} (hf : f ∈ findings) :
    ∃ i : Ineligibility, f.message = i.message (quotedEntry isPrint) := by
  obtain ⟨found, -, rfl⟩ := Option.map_eq_some_iff.mp h
  rw [List.mem_insertionSort] at hf
  obtain ⟨e, he, rfl⟩ := List.mem_map.mp hf
  exact foundMap_message _ _ e he

/-- The listed texts come back, with the number of all. -/
theorem listedFindings_messages {l : EntryList}
    (h : ∀ text ∈ l.listed, Passes text.toList ∧ text ≠ "" ∧ moreFindings text = none) :
    listedFindings (findingsSeparator.intercalate
      (l.messages fallbackFindingsOneMore fallbackFindingsManyMore))
      = (l.listed, l.listed.length + l.more) := by
  have hempty : "" ∉ l.listed := fun hmem ↦ (h "" hmem).2.1 rfl
  have hcount : ∀ count n, Passes count.toList → count ≠ "" → moreFindings count = some n →
      listedFindings (findingsSeparator.intercalate (l.listed ++ [count]))
        = (l.listed, l.listed.length + n) := by
    intro count n hpasses hne hmore
    rw [listedFindings_intercalate, foldl_readPart_count (fun text ht ↦ (h text ht).2.2) hmore]
    · intro part hpart
      rcases List.mem_append.mp hpart with hpart | hpart
      · exact (h part hpart).1
      · rwa [List.mem_singleton.mp hpart]
    · intro hmem
      rcases List.mem_append.mp hmem with hmem | hmem
      · exact hempty hmem
      · exact hne (List.mem_singleton.mp hmem).symm
  rw [EntryList.messages]
  split_ifs with hone hmany
  · rw [hone]
    exact hcount _ 1 passes_oneMore (by decide) moreFindings_oneMore
  · exact hcount _ _ (passes_manyMore _) (manyMore_ne_empty _) (moreFindings_manyMore _)
  · have hzero : l.more = 0 := by omega
    rw [listedFindings_intercalate (fun text ht ↦ (h text ht).1) hempty,
      foldl_readPart fun text ht ↦ (h text ht).2.2, hzero]
    rfl

theorem length_encode (text : List Char) : (Utf8.encode text).length = byteLength text := by
  rw [Utf8.encode, byteLength, List.length_flatMap]
  simp only [String.length_utf8EncodeChar]

/-- The message of a scan reads back as what it lists and how much there was. -/
theorem listedFindings_message
    (h : fallbackIneligibility (quotedEntry isPrint) primary providers callers = some findings)
    (hfits : byteLength (joinedFindings findings).toList ≤ maxConditionMessageBytes) :
    listedFindings (fallbackFindingsMessage findings)
      = ((findings.map fun f ↦ f.message).take maxListedEntries, findings.length) := by
  have hmessage : fallbackFindingsMessage findings = joinedFindings findings := by
    rw [← length_encode] at hfits
    rw [fallbackFindingsMessage, cutConditionMessage, truncate, if_pos hfits, Utf8.decode_encode,
      String.ofList_toList]
  have hlisted : ∀ text ∈ (findings.map fun f ↦ f.message).take maxListedEntries,
      Passes text.toList ∧ text ≠ "" ∧ moreFindings text = none := by
    intro text htext
    obtain ⟨f, hf, rfl⟩ := List.mem_map.mp (List.mem_of_mem_take htext)
    obtain ⟨i, hi⟩ := exists_message h hf
    rw [hi]
    exact ⟨passes_message isPrint i, message_ne_empty isPrint i, moreFindings_message isPrint i⟩
  rw [hmessage, joinedFindings, foldl_add findings (nodup_keys h)]
  refine (listedFindings_messages hlisted).trans (congrArg (Prod.mk _) ?_)
  simp only [List.length_take, List.length_map]
  omega

end

/-- A primary with a model whose id has a quote and a separator in it, and a fallback without it. -/
private def oddPrimary : Provider := Walk.oneModel "a" "x\"; y\\" [{ name := "b" }]

private def oddFallback : Provider := Walk.oneModel "b" "m" []

private def asciiPrint (c : Char) : Bool := 0x20 ≤ c.toNat && c.toNat < 0x7f

private def oddFindings : List FallbackFinding :=
  [.notAdmitted "b" "team", .notOffered "b" "x\"; y\\" "x\"; y\\"].map fun i : Ineligibility ↦
    ⟨i.key, i.message (quotedEntry asciiPrint)⟩

theorem listedFindings_message_odd :
    listedFindings (fallbackFindingsMessage oddFindings)
      = (["fallback \"b\" does not admit namespace \"team\"",
          "fallback \"b\" does not offer model \"x\\\"; y\\\\\" (primary model \"x\\\"; y\\\\\")"],
        2) := by
  have hscan : fallbackIneligibility (quotedEntry asciiPrint) oddPrimary [oddPrimary, oddFallback]
      ["team"] = some oddFindings := by decide +kernel
  have hfits : byteLength (joinedFindings oddFindings).toList ≤ maxConditionMessageBytes := by
    decide +kernel
  exact (listedFindings_message hscan hfits).trans (by decide +kernel)

end Kaalm.ModelProviders
