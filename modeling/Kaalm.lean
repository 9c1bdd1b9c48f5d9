import Kaalm.Foundation.Calendar
import Kaalm.Foundation.Decimal
import Kaalm.Foundation.Json
import Kaalm.Foundation.Run
import Kaalm.Budget.Provider
import Kaalm.Budget.Ledger
import Kaalm.Budget.Hard
import Kaalm.Budget.System
import Kaalm.Budget.Slots
import Kaalm.Foundation.Unwinding
import Kaalm.Budget.Incarnation
import Kaalm.Budget.SpecEdit
import Kaalm.Budget.HardCap
import Kaalm.Budget.Partial
import Kaalm.Budget.Reducer
import Kaalm.Budget.ReducerView
import Kaalm.Budget.WritePath
import Kaalm.Budget.Publisher
import Kaalm.Budget.Exchange
import Kaalm.Budget.Replacement
import Kaalm.Budget.Restart
import Kaalm.Budget.PeerView
import Kaalm.Foundation.JsonScan
import Kaalm.Foundation.Journal
import Kaalm.Runtime.State
import Kaalm.Runtime.Codec
import Kaalm.Foundation.Watched
import Kaalm.Agent.Reconcile
import Kaalm.Agent.Cluster
import Kaalm.Agent.Wake
import Kaalm.Agent.IdleFloor
import Kaalm.Agent.Writes
import Kaalm.Foundation.Ascii
import Kaalm.Foundation.Bounded
import Kaalm.Foundation.JsonText
import Kaalm.Gateway.UsageScan
import Kaalm.Gateway.UsageBytes
import Kaalm.Foundation.Utf8
import Kaalm.Foundation.GoJson
import Kaalm.Translate.ToAnthropic
import Kaalm.Translate.Blocks
import Kaalm.Translate.ToOpenAI
import Kaalm.Translate.StreamEnd
import Kaalm.Foundation.Splice
import Kaalm.Foundation.JsonObject
import Kaalm.Gateway.RequestBody
import Kaalm.Gateway.RequestScan
import Kaalm.Gateway.RequestRewrite
import Kaalm.Gateway.RequestMeaning
import Kaalm.Foundation.Glob
import Kaalm.Gateway.Fallback
import Kaalm.Gateway.FallbackWalk
import Kaalm.Budget.Ladder
import Kaalm.Budget.Usage
import Kaalm.Budget.Archive
import Kaalm.Foundation.TokenBucket
import Kaalm.Gateway.RateLimit
import Kaalm.Gateway.RateBounds
import Kaalm.Foundation.Cut
import Kaalm.Foundation.Base64
import Kaalm.Gateway.Session
import Kaalm.Foundation.JsonReader
import Kaalm.Gateway.Broker
import Kaalm.Foundation.JsonEscape
import Kaalm.Foundation.JsonCompact
import Kaalm.Gateway.ToolsList
import Kaalm.Foundation.Float64
import Kaalm.Foundation.JsonValue
import Kaalm.Translate.Response
import Kaalm.Budget.Rollover
import Kaalm.Budget.Workloads
import Kaalm.Gateway.RateWaits
import Kaalm.Foundation.CivilDate
import Kaalm.Budget.Periods
import Kaalm.Gateway.DiscordReply
import Kaalm.Foundation.JsonSpelling
import Kaalm.Gateway.StreamUsage
import Kaalm.Gateway.ForcedUsage
import Kaalm.Gateway.FallbackCover
import Kaalm.Translate.StreamErrors
import Kaalm.Foundation.AnyValue
import Kaalm.Gateway.Envelope
import Kaalm.Foundation.RenamedMap
import Kaalm.Task.Mailbox
import Kaalm.Foundation.Window
import Kaalm.Foundation.Message
import Kaalm.Gateway.ChannelHealth
import Kaalm.Foundation.Singleflight
import Kaalm.Console.Access
import Kaalm.Storage.Migrator
import Kaalm.Provider.Eligibility
import Kaalm.Runtime.DedupWindow
import Kaalm.Agent.Silence
import Kaalm.Foundation.Ed25519
import Kaalm.Foundation.GoTime
import Kaalm.Foundation.Strconv
import Kaalm.Gateway.DiscordSignature
import Kaalm.Foundation.HttpHeader
import Kaalm.Gateway.ForwardedHeaders
import Kaalm.Foundation.Quote
import Kaalm.Provider.FindingsMessage
import Kaalm.Provider.OwnWrites
import Kaalm.Foundation.Sha256
import Kaalm.Gateway.VertexToken
import Kaalm.Translate.StreamAnswer
import Kaalm.Translate.EventAnswer
