import Kaalm.Foundation.Calendar
import Mathlib.Data.List.Basic
import Mathlib.Data.String.Basic

/-!
# Replies to Discord

A reply is cut into chunks of at most 2000 characters, the length of a Discord message, and each
chunk is posted on its own. The chunks edit and follow up the deferred message of the interaction.
Once the interaction token has expired, or when the platform does not know it, they are posted as
channel messages with the bot token, each with a mention of the user before it.

The platform is a function from what it was sent before to the results of the attempts of a request.
`sendReply` gives everything that is posted, attempt by attempt, and the outcome.

The chunks of a text that is not empty are never empty, never too long, and make up the text
(`splitChunks_spec`). A mention is put before a chunk that may already have the full length. So the
messages that the bot posts are within the limit only if all the chunks leave room for the mention
(`LeavesRoom`), whatever the platform answers.
-/

namespace Kaalm.Gateway

open Calendar

/-! ## Chunks -/

/-- The end of the next chunk: after the last newline in the second half of the window, or else at
the end of the window. The last argument counts the places that are left to look at. -/
def findCut (runes : List Char) (limit : ℕ) : ℕ → ℕ
  | 0 => limit
  | k + 1 =>
    if runes[limit / 2 + k]? = some '\n' then limit / 2 + k + 1 else findCut runes limit k

/-- The loop of `splitChunks`. A chunk has at least one character, so there are no more rounds than
characters. -/
def chunkRunes (limit : ℕ) : ℕ → List Char → List (List Char)
  | 0, runes => if runes = [] then [] else [runes]
  | rounds + 1, runes =>
    if limit < runes.length then
      let cut := findCut runes limit (limit - limit / 2)
      runes.take cut :: chunkRunes limit rounds (runes.drop cut)
    else if runes = [] then [] else [runes]

/-- Pieces of at most `limit` characters, broken at newlines where there is one. -/
def splitChunks (text : String) (limit : ℕ) : List String :=
  if text.length ≤ limit then [text]
  else (chunkRunes limit text.length text.toList).map String.ofList

example : splitChunks "aaaa\nbbbb\ncccc" 9 = ["aaaa\n", "bbbb\ncccc"] := by decide +kernel

/-! ## Requests -/

inductive ReplyBucket
  | delivered
  | terminal
  | retried
  deriving DecidableEq

def classifyReplyStatus (status : ℕ) : ReplyBucket :=
  if 200 ≤ status ∧ status < 300 then .delivered
  else if status ∈ [400, 401, 403, 404, 405, 410, 415] then .terminal
  else .retried

/-- The last answer of a request's schedule. The status is `0` when no attempt was answered. -/
structure ReplyResult where
  bucket : ReplyBucket
  status : ℕ := 0
  deriving DecidableEq

inductive Method
  | patch
  | post
  deriving DecidableEq

/-- A request to the platform. -/
structure PlatformPost where
  method : Method
  url : String
  authorization : String := ""
  content : String
  allowedMentions : Option (List String) := none
  deriving DecidableEq

/-- How an attempt of a request ends. -/
inductive Attempt
  /-- The context is done before the next attempt. -/
  | cancelled
  | noClient
  | notBuilt
  /-- The request is sent and not answered. -/
  | lost
  | answered (status : ℕ)
  deriving DecidableEq

/-- The attempts of a request, after what was sent before. There is one for each delay of the
schedule. -/
abbrev Platform := List PlatformPost → PlatformPost → List Attempt

/-- The attempts of one request: what is sent, and the result. -/
def runSchedule (post : PlatformPost) : ReplyResult → List Attempt → List PlatformPost × ReplyResult
  | last, [] => ([], last)
  | last, .cancelled :: _ => ([], last)
  | last, .noClient :: attempts => runSchedule post last attempts
  | _, .notBuilt :: _ => ([], { bucket := .terminal })
  | last, .lost :: attempts =>
    let r := runSchedule post last attempts
    (post :: r.1, r.2)
  | _, .answered status :: attempts =>
    let last : ReplyResult := { bucket := classifyReplyStatus status, status := status }
    if last.bucket ≠ .retried then ([post], last)
    else
      let r := runSchedule post last attempts
      (post :: r.1, r.2)

def sendPlatformRequest (platform : Platform) (sent : List PlatformPost) (post : PlatformPost) :
    List PlatformPost × ReplyResult :=
  let r := runSchedule post { bucket := .retried } (platform sent post)
  (sent ++ r.1, r.2)

inductive CallbackOutcome
  | delivered
  | exhausted
  | rejected
  deriving DecidableEq

def replyRefused (res : ReplyResult) : CallbackOutcome :=
  if res.bucket = .retried then .exhausted else .rejected

/-! ## The adapter -/

def discordChunkLimit : ℕ := 2000

def discordTokenWindow : Time := 15 * 60 * second

def discordEmptyReply : String := "(empty reply)"

/-- What is kept of an interaction to reply to it. -/
structure DiscordReply where
  applicationID : String
  token : String
  channelID : String
  userID : String
  received : Time
  deriving DecidableEq

/-- What a reply reads of the gateway: the base URL, and the `botToken` of the channel's Secret,
`none` when it cannot be read. -/
structure DiscordAdapter where
  apiBaseURL : String
  botToken : Option String
  deriving DecidableEq

/-- One to twenty digits. -/
def discordSnowflake (s : String) : Bool :=
  s.utf8ByteSize ≠ 0 ∧ s.utf8ByteSize ≤ 20 ∧ s.toList.all Char.isDigit

def discordTokenShape (s : String) : Bool :=
  s.utf8ByteSize ≠ 0 ∧ s.utf8ByteSize ≤ 512
    ∧ s.toList.all fun c ↦ c.isAlphanum || c = '_' || c = '-' || c = '.'

namespace DiscordAdapter

/-- What stands before a chunk that the bot posts. -/
def mention (rc : DiscordReply) : String := "<@" ++ rc.userID ++ "> "

/-- A channel message with a chunk. The channel id has passed its check and needs no escape. -/
def botPost (d : DiscordAdapter) (rc : DiscordReply) (token chunk : String) : PlatformPost where
  method := .post
  url := d.apiBaseURL ++ "/channels/" ++ rc.channelID ++ "/messages"
  authorization := "Bot " ++ token
  content := mention rc ++ chunk
  allowedMentions := some [rc.userID]

def sendBotChunks (d : DiscordAdapter) (platform : Platform) (rc : DiscordReply) (token : String) :
    List PlatformPost → List String → List PlatformPost × CallbackOutcome
  | sent, [] => (sent, .delivered)
  | sent, chunk :: chunks =>
    let r := sendPlatformRequest platform sent (d.botPost rc token chunk)
    if r.2.bucket ≠ .delivered then (r.1, replyRefused r.2)
    else sendBotChunks d platform rc token r.1 chunks

/-- The refusals stand for a terminal result without a request. -/
def sendViaBot (d : DiscordAdapter) (platform : Platform) (rc : DiscordReply)
    (sent : List PlatformPost) (chunks : List String) : List PlatformPost × CallbackOutcome :=
  if !discordSnowflake rc.channelID then (sent, replyRefused { bucket := .terminal })
  else match d.botToken with
    | none => (sent, replyRefused { bucket := .terminal, status := 404 })
    | some token =>
      if token = "" then (sent, replyRefused { bucket := .terminal, status := 404 })
      else d.sendBotChunks platform rc token sent chunks

/-- The first chunk edits the deferred message, and the others follow it up. The application id and
the token have passed their checks and need no escape. -/
def webhookPost (d : DiscordAdapter) (rc : DiscordReply) (first : Bool) (chunk : String) :
    PlatformPost where
  method := if first then .patch else .post
  url := d.apiBaseURL ++ "/webhooks/" ++ rc.applicationID ++ "/" ++ rc.token
    ++ if first then "/messages/@original" else ""
  content := chunk

/-- The follow-up path. `all` are the chunks of the whole reply, for the switch to the bot. -/
def sendWebhookChunks (d : DiscordAdapter) (platform : Platform) (rc : DiscordReply)
    (all : List String) :
    Bool → List PlatformPost → List String → List PlatformPost × CallbackOutcome
  | _, sent, [] => (sent, .delivered)
  | first, sent, chunk :: chunks =>
    let r := sendPlatformRequest platform sent (d.webhookPost rc first chunk)
    if r.2.bucket = .delivered then sendWebhookChunks d platform rc all false r.1 chunks
    else if r.2.status = 404 ∧ first then d.sendViaBot platform rc r.1 all
    else (r.1, replyRefused r.2)

/-- The text that is sent for a reply. -/
def replyText (text : String) : String := if text = "" then discordEmptyReply else text

/-- The token of the interaction is not valid any more. -/
def expired (rc : DiscordReply) (now : Time) : Bool := discordTokenWindow < now - rc.received

/-- `SendReply`: what is posted, and the outcome. The context is `none` for a message of another
platform. -/
def sendReply (d : DiscordAdapter) (platform : Platform) (rc : Option DiscordReply) (now : Time)
    (text : String) : List PlatformPost × CallbackOutcome :=
  match rc with
  | none => ([], .rejected)
  | some rc =>
    if !discordSnowflake rc.applicationID || !discordTokenShape rc.token then
      ([], replyRefused { bucket := .terminal })
    else
      let chunks := splitChunks (replyText text) discordChunkLimit
      if expired rc now then d.sendViaBot platform rc [] chunks
      else d.sendWebhookChunks platform rc chunks true [] chunks

end DiscordAdapter

/-! ## Chunks make up the text -/

section Chunks

variable {limit : ℕ} {runes : List Char}

variable (runes) in
theorem findCut_bounds (hlimit : 1 ≤ limit) {k : ℕ} (hk : limit / 2 + k ≤ limit) :
    1 ≤ findCut runes limit k ∧ findCut runes limit k ≤ limit := by
  induction k with
  | zero => exact ⟨hlimit, le_rfl⟩
  | succ k ih =>
    rw [findCut]
    split_ifs
    · omega
    · exact ih (by omega)

theorem chunkRunes_of_le {rounds : ℕ} (h : runes.length ≤ limit) :
    chunkRunes limit rounds runes = if runes = [] then [] else [runes] := by
  cases rounds with
  | zero => rfl
  | succ rounds => rw [chunkRunes, if_neg (not_lt.mpr h)]

/-- A round takes a chunk off a text that is too long. -/
theorem chunkRunes_of_lt (hlimit : 1 ≤ limit) {rounds : ℕ} (hrounds : runes.length ≤ rounds)
    (h : limit < runes.length) :
    ∃ cut rounds', 1 ≤ cut ∧ cut ≤ limit ∧ (runes.drop cut).length ≤ rounds' ∧ rounds' < rounds
      ∧ chunkRunes limit rounds runes = runes.take cut :: chunkRunes limit rounds'
          (runes.drop cut) := by
  cases rounds with
  | zero => omega
  | succ rounds =>
    obtain ⟨hone, hle⟩ := findCut_bounds runes hlimit
      (show limit / 2 + (limit - limit / 2) ≤ limit by omega)
    refine ⟨_, rounds, hone, hle, ?_, Nat.lt_succ_self rounds, ?_⟩
    · rw [List.length_drop]
      omega
    · rw [chunkRunes, if_pos h]

/-- The chunks of the loop. -/
theorem chunkRunes_spec (hlimit : 1 ≤ limit) {rounds : ℕ} (hrounds : runes.length ≤ rounds) :
    (chunkRunes limit rounds runes).flatten = runes
      ∧ ∀ c ∈ chunkRunes limit rounds runes, c ≠ [] ∧ c.length ≤ limit := by
  induction rounds using Nat.strong_induction_on generalizing runes with
  | _ rounds ih =>
  by_cases h : limit < runes.length
  · obtain ⟨cut, rounds', hone, hle, hrounds', hlt, heq⟩ := chunkRunes_of_lt hlimit hrounds h
    obtain ⟨hflat, hchunks⟩ := ih rounds' hlt hrounds'
    rw [heq]
    refine ⟨by rw [List.flatten_cons, hflat, List.take_append_drop], fun c hc ↦ ?_⟩
    rcases List.mem_cons.mp hc with rfl | hc
    · have hlength : (runes.take cut).length = cut := List.length_take_of_le (by omega)
      refine ⟨List.ne_nil_of_length_pos (by omega), by omega⟩
    · exact hchunks c hc
  · rw [chunkRunes_of_le (not_lt.mp h)]
    split_ifs with hempty
    · rw [hempty]
      exact ⟨rfl, fun c hc ↦ absurd hc List.not_mem_nil⟩
    · refine ⟨List.flatten_singleton, fun c hc ↦ ?_⟩
      rw [List.mem_singleton.mp hc]
      exact ⟨hempty, not_lt.mp h⟩

theorem splitChunks_eq {text : String} (htext : text ≠ "") (limit : ℕ) :
    splitChunks text limit = (chunkRunes limit text.length text.toList).map String.ofList := by
  rw [splitChunks]
  split_ifs with h
  · have hne : text.toList ≠ [] := fun hnil ↦ htext (String.toList_eq_nil_iff.mp hnil)
    rw [chunkRunes_of_le h, if_neg hne, List.map_singleton, String.ofList_toList]
  · rfl

/-- The chunks of a text that is not empty. -/
theorem splitChunks_spec {text : String} (htext : text ≠ "") (hlimit : 1 ≤ limit) :
    (∀ c ∈ splitChunks text limit, c ≠ "" ∧ c.length ≤ limit)
      ∧ String.join (splitChunks text limit) = text := by
  obtain ⟨hflat, hchunks⟩ := chunkRunes_spec hlimit (le_refl text.toList.length)
  rw [splitChunks_eq htext]
  constructor
  · intro c hc
    obtain ⟨l, hl, rfl⟩ := List.mem_map.mp hc
    obtain ⟨hne, hle⟩ := hchunks l hl
    refine ⟨fun h ↦ hne ?_, by rwa [String.length_ofList]⟩
    rw [← String.toList_ofList (l := l), h]
    rfl
  · rw [← String.toList_inj, String.toList_join, List.flatMap_map]
    simp only [String.toList_ofList]
    rw [List.flatMap_id']
    exact hflat

end Chunks

/-! ## What is posted -/

section Posts

variable {P : PlatformPost → Prop} {platform : Platform} {post : PlatformPost}

theorem mem_runSchedule {p : PlatformPost} {last : ReplyResult} {attempts : List Attempt}
    (h : p ∈ (runSchedule post last attempts).1) : p = post := by
  induction attempts generalizing last with
  | nil => exact absurd h List.not_mem_nil
  | cons attempt attempts ih =>
    cases attempt with
    | cancelled => exact absurd h List.not_mem_nil
    | noClient => exact ih h
    | notBuilt => exact absurd h List.not_mem_nil
    | lost =>
      rcases List.mem_cons.mp h with h | h
      · exact h
      · exact ih h
    | answered status =>
      rw [runSchedule] at h
      split_ifs at h
      · exact List.mem_singleton.mp h
      · rcases List.mem_cons.mp h with h | h
        · exact h
        · exact ih h

variable (platform) in
/-- A request sends nothing but itself. -/
theorem forall_sendPlatformRequest {sent : List PlatformPost} (hsent : ∀ p ∈ sent, P p)
    (hpost : P post) : ∀ p ∈ (sendPlatformRequest platform sent post).1, P p := by
  intro p hp
  rcases List.mem_append.mp hp with hp | hp
  · exact hsent p hp
  · rw [mem_runSchedule hp]
    exact hpost

namespace DiscordAdapter

variable {d : DiscordAdapter} {rc : DiscordReply}

theorem forall_sendBotChunks {token : String} {sent : List PlatformPost} {chunks : List String}
    (hsent : ∀ p ∈ sent, P p) (hchunks : ∀ c ∈ chunks, P (d.botPost rc token c)) :
    ∀ p ∈ (d.sendBotChunks platform rc token sent chunks).1, P p := by
  induction chunks generalizing sent with
  | nil => exact hsent
  | cons chunk chunks ih =>
    have hnext := forall_sendPlatformRequest platform hsent
      (hchunks chunk List.mem_cons_self)
    rw [sendBotChunks]
    split_ifs
    · exact hnext
    · exact ih hnext fun c hc ↦ hchunks c (List.mem_cons_of_mem _ hc)

theorem forall_sendViaBot {sent : List PlatformPost} {chunks : List String}
    (hsent : ∀ p ∈ sent, P p)
    (hchunks : discordSnowflake rc.channelID → ∀ token ∈ d.botToken, token ≠ "" →
      ∀ c ∈ chunks, P (d.botPost rc token c)) :
    ∀ p ∈ (d.sendViaBot platform rc sent chunks).1, P p := by
  rw [sendViaBot]
  by_cases hchannel : discordSnowflake rc.channelID = true
  · rw [hchannel]
    cases htoken : d.botToken with
    | none => exact hsent
    | some token =>
      by_cases hempty : token = ""
      · simp only [hempty]
        exact hsent
      · simp only [if_neg hempty]
        exact forall_sendBotChunks hsent (hchunks hchannel token htoken hempty)
  · rw [Bool.eq_false_iff.mpr hchannel]
    exact hsent

/-- The follow-ups after the first one never switch. -/
theorem forall_sendWebhookChunks_rest {all : List String} {sent : List PlatformPost}
    {chunks : List String} (hsent : ∀ p ∈ sent, P p)
    (hchunks : ∀ c ∈ chunks, P (d.webhookPost rc false c)) :
    ∀ p ∈ (d.sendWebhookChunks platform rc all false sent chunks).1, P p := by
  induction chunks generalizing sent with
  | nil => exact hsent
  | cons chunk chunks ih =>
    have hnext := forall_sendPlatformRequest platform hsent
      (hchunks chunk List.mem_cons_self)
    rw [sendWebhookChunks]
    split_ifs with hdelivered hswitch
    · exact ih hnext fun c hc ↦ hchunks c (List.mem_cons_of_mem _ hc)
    · exact hswitch.2.elim
    · exact hnext

/-- A reply can be posted with the bot token: all its ids have their shape, and the token is
there. -/
def botReachable (d : DiscordAdapter) (rc : DiscordReply) : Bool :=
  discordSnowflake rc.applicationID && discordTokenShape rc.token && discordSnowflake rc.channelID
    && d.botToken.any (· ≠ "")

/-- The reply is posted with the bot token: this is possible, and the interaction token is too old
or the platform answers 404 to the first request. -/
def switchesToBot (d : DiscordAdapter) (platform : Platform) (rc : DiscordReply) (now : Time)
    (text : String) : Bool :=
  d.botReachable rc
    && (expired rc now || (splitChunks (replyText text) discordChunkLimit).head?.any fun chunk ↦
      (sendPlatformRequest platform [] (d.webhookPost rc true chunk)).2.status = 404)

theorem forall_sendReply {now : Time} {text : String}
    (hwebhook : ∀ first, ∀ c ∈ splitChunks (replyText text) discordChunkLimit,
      P (d.webhookPost rc first c))
    (hbot : d.switchesToBot platform rc now text → ∀ token,
      ∀ c ∈ splitChunks (replyText text) discordChunkLimit, P (d.botPost rc token c)) :
    ∀ p ∈ (d.sendReply platform (some rc) now text).1, P p := by
  have hnone : ∀ p ∈ ([] : List PlatformPost), P p := fun p hp ↦ absurd hp List.not_mem_nil
  simp only [sendReply]
  by_cases hshape : !discordSnowflake rc.applicationID || !discordTokenShape rc.token
  · rw [if_pos hshape]
    exact hnone
  rw [if_neg hshape]
  rw [Bool.not_eq_true, Bool.or_eq_false_iff, Bool.not_eq_false', Bool.not_eq_false'] at hshape
  -- What makes `switchesToBot` true, apart from the ids and the token.
  have hswitch : (expired rc now || (splitChunks (replyText text) discordChunkLimit).head?.any
        fun chunk ↦ (sendPlatformRequest platform [] (d.webhookPost rc true chunk)).2.status = 404)
      → discordSnowflake rc.channelID → ∀ token ∈ d.botToken, token ≠ "" →
        ∀ c ∈ splitChunks (replyText text) discordChunkLimit, P (d.botPost rc token c) := by
    intro hreason hchannel token htoken hempty
    refine hbot ?_ token
    rw [switchesToBot, botReachable, hshape.1, hshape.2, hreason, hchannel, htoken, Bool.and_true]
    exact decide_eq_true hempty
  split_ifs with hexpired
  · rw [hexpired, Bool.true_or] at hswitch
    exact forall_sendViaBot hnone (hswitch rfl)
  · generalize hchunks : splitChunks (replyText text) discordChunkLimit = chunks at *
    cases chunks with
    | nil => exact hnone
    | cons chunk chunks =>
      have hfirst := forall_sendPlatformRequest platform hnone
        (hwebhook true chunk List.mem_cons_self)
      rw [sendWebhookChunks]
      split_ifs with hdelivered hmissing
      · exact forall_sendWebhookChunks_rest hfirst fun c hc ↦
          hwebhook false c (List.mem_cons_of_mem _ hc)
      · refine forall_sendViaBot hfirst (hswitch ?_)
        rw [List.head?_cons, Option.any_some, decide_eq_true hmissing.1, Bool.or_true]
      · exact hfirst

end DiscordAdapter

end Posts

theorem replyText_ne_empty (text : String) : DiscordAdapter.replyText text ≠ "" := by
  rw [DiscordAdapter.replyText]
  split_ifs with h
  · decide
  · exact h

namespace DiscordAdapter

/-- All the chunks of the reply leave room for the mention of the user. -/
def LeavesRoom (rc : DiscordReply) (text : String) : Prop :=
  ∀ c ∈ splitChunks (replyText text) discordChunkLimit,
    (mention rc).length + c.length ≤ discordChunkLimit

/-- A platform that knows no interaction token, and takes what the bot posts. -/
def knowsBot : Platform := fun _ post ↦
  if post.authorization = "" then [.answered 404] else [.answered 200]

variable (d : DiscordAdapter) (rc : DiscordReply)

theorem sendBotChunks_knowsBot (token : String) (sent : List PlatformPost) (chunks : List String) :
    d.sendBotChunks knowsBot rc token sent chunks
      = (sent ++ chunks.map (d.botPost rc token), .delivered) := by
  induction chunks generalizing sent with
  | nil => rw [sendBotChunks, List.map_nil, List.append_nil]
  | cons chunk chunks ih =>
    have hsend : sendPlatformRequest knowsBot sent (d.botPost rc token chunk)
        = (sent ++ [d.botPost rc token chunk], { bucket := .delivered, status := 200 }) := by
      simp [sendPlatformRequest, knowsBot, botPost, runSchedule, classifyReplyStatus]
    rw [sendBotChunks, hsend]
    simp [ih]

/-- Such a platform gets every chunk, with a mention. -/
theorem mem_sendReply_knowsBot {d : DiscordAdapter} {rc : DiscordReply}
    (hreach : d.botReachable rc) (now : Time) {text c : String}
    (hc : c ∈ splitChunks (replyText text) discordChunkLimit) :
    ∃ p ∈ (d.sendReply knowsBot (some rc) now text).1, p.content = mention rc ++ c := by
  simp only [botReachable, Bool.and_eq_true, Option.any_eq_true, decide_eq_true_eq] at hreach
  obtain ⟨⟨⟨happ, htoken⟩, hchannel⟩, token, hbot, hempty⟩ := hreach
  have hvia : ∀ sent chunks, d.sendViaBot knowsBot rc sent chunks
      = (sent ++ chunks.map (d.botPost rc token), .delivered) := by
    intro sent chunks
    rw [sendViaBot, hchannel, hbot]
    simp only [if_neg hempty, Bool.not_true, Bool.false_eq_true, if_false]
    exact d.sendBotChunks_knowsBot rc token sent chunks
  refine ⟨d.botPost rc token c, ?_, rfl⟩
  simp only [sendReply, happ, htoken, hvia]
  split_ifs
  · exact absurd ‹_› (by decide)
  · exact List.mem_map_of_mem hc
  · generalize splitChunks (replyText text) discordChunkLimit = chunks at hc ⊢
    cases chunks with
    | nil => exact absurd hc List.not_mem_nil
    | cons chunk chunks =>
      have hsend : sendPlatformRequest knowsBot [] (d.webhookPost rc true chunk)
          = ([d.webhookPost rc true chunk], { bucket := .terminal, status := 404 }) := by
        simp [sendPlatformRequest, knowsBot, webhookPost, runSchedule, classifyReplyStatus]
      rw [sendWebhookChunks, hsend]
      simp only [hvia]
      exact List.mem_append_right _ (List.mem_map_of_mem hc)

end DiscordAdapter

open DiscordAdapter

/-- An adapter with a bot token. -/
def botAdapter : DiscordAdapter := { apiBaseURL := "http://discord", botToken := some "bot" }

/-- An interaction that was received at time zero. -/
def oldInteraction : DiscordReply where
  applicationID := "123"
  token := "abc"
  channelID := "456"
  userID := "789"
  received := 0

end Kaalm.Gateway
