import N2Kafka.Listener.Connection
import N2Kafka.Listener.HttpAuth
import N2Kafka.Listener.HtpasswdDatabase
import N2Kafka.Decoder.DecoderApi
import N2Kafka.Listener.Http
import N2Kafka.Listener.RequestGate
import N2Kafka.Listener.HttpLoop
import N2Kafka.Listener.HttpLoopExits
import N2Kafka.Lib.RefCount
import N2Kafka.Lib.Transition
import N2Kafka.Lib.Utf8
import N2Kafka.Lib.JsonUnescape
import N2Kafka.Lib.JsonGrammar
import N2Kafka.Util.KafkaMessageArray
import N2Kafka.Util.ProduceWarnings
import N2Kafka.Util.MessageSlices
import N2Kafka.Util.PayloadLifetime
import N2Kafka.Decoder.Yajl
import N2Kafka.Decoder.ZzDecoder
import N2Kafka.Util.TopicDatabase
import N2Kafka.Util.TopicRetention
import N2Kafka.Util.KafkaStats
import N2Kafka.Util.KafkaEnrichment
import N2Kafka.Util.GrowableString
import N2Kafka.Util.StringPrintf
import N2Kafka.Util.StringRefinement
import N2Kafka.Util.StringAppendJson
import N2Kafka.Decoder.ZzParserJson
import N2Kafka.Decoder.JsonFraming
import N2Kafka.Decoder.RejectedMessages
import N2Kafka.Decoder.Expat
import N2Kafka.Decoder.ZzParserXml
import N2Kafka.Decoder.XmlTranslation
import N2Kafka.Decoder.XmlChunking
import N2Kafka.Decoder.MessagesQueued
import N2Kafka.Decoder.XmlOffsets
import N2Kafka.Decoder.XmlNesting
import N2Kafka.Decoder.XmlChains
import N2Kafka.Decoder.XmlAllocations
import N2Kafka.Decoder.XmlErrors
import N2Kafka.Decoder.XmlRestarts
import N2Kafka.Decoder.XmlCodes
import N2Kafka.Decoder.XmlFragments
import N2Kafka.Decoder.XmlDepth
import N2Kafka.Decoder.XmlSlices
import N2Kafka.Listener.Decompression
import N2Kafka.Listener.Socket
import N2Kafka.Engine.GlobalConfig
import N2Kafka.Engine.RdkafkaConfig
import N2Kafka.Engine.RdkafkaOptions
import N2Kafka.Engine.StatsEnrichment
import N2Kafka.Decoder.ZzSession
import N2Kafka.Engine.Reload
import N2Kafka.Engine.ListenerThreads
import N2Kafka.Listener.PostConnection
import N2Kafka.Listener.SessionlessPost
import N2Kafka.Listener.RequestResources
import N2Kafka.Decoder.Callbacks
import N2Kafka.Listener.Pairing
import N2Kafka.Decoder.BodyEnd
import N2Kafka.Listener.TruncatedBody
import N2Kafka.Decoder.JsonAllocations
import N2Kafka.Decoder.SilentLosses
import N2Kafka.Lib.MachineWords
import N2Kafka.Util.StringWidths
import N2Kafka.Util.MessageArrayLayout
import N2Kafka.Util.Utf8Recognition
import N2Kafka.Decoder.TopicSelection
import N2Kafka.Listener.MerakiValidator
import N2Kafka.Engine.ListenerLives
import N2Kafka.Engine.Signals
import N2Kafka.Lib.RoundRobin
import N2Kafka.Listener.SocketClients
import N2Kafka.Listener.SocketLedger
import N2Kafka.Listener.HttpListeners
import N2Kafka.Listener.PostDelivery
import N2Kafka.Util.KafkaShutdown
import N2Kafka.Lib.Regions
import N2Kafka.Listener.ErrorAnswers
import N2Kafka.Listener.HttpOptions
import N2Kafka.Decoder.XmlAnswers
import N2Kafka.Listener.XmlPosts
