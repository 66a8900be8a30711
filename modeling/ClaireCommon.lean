import ClaireCommon.Events.Lemmas.Cancel
import ClaireCommon.Events.Lemmas.CancelInLoop
import ClaireCommon.Events.Lemmas.ChannelTable
import ClaireCommon.Events.Lemmas.Dispatch
import ClaireCommon.Events.Lemmas.EventLoopThread
import ClaireCommon.Events.Lemmas.EventLoopThreadPool
import ClaireCommon.Events.Lemmas.NoInterest
import ClaireCommon.Events.Lemmas.Timerfd
import ClaireCommon.Events.Lemmas.Timers
import ClaireCommon.Events.Lemmas.Wakeup
import ClaireCommon.Files.Lemmas.Append
import ClaireCommon.Files.Lemmas.ReadFileToString
import ClaireCommon.Logging.Lemmas.LogMessage
import ClaireCommon.Logging.Lemmas.LogStream
import ClaireCommon.Logging.Lemmas.LoggerFiles
import ClaireCommon.Logging.Lemmas.LoggerRecycle
import ClaireCommon.Logging.Lemmas.LoggerStop
import ClaireCommon.Logging.Lemmas.SharedLogFile
import ClaireCommon.Metrics.Lemmas.Accumulate
import ClaireCommon.Metrics.Lemmas.BucketLayout
import ClaireCommon.Metrics.Lemmas.CounterSampler
import ClaireCommon.Metrics.Lemmas.Counting
import ClaireCommon.Metrics.Lemmas.HistogramRecorder
import ClaireCommon.Metrics.Lemmas.SamplerClient
import ClaireCommon.Metrics.Lemmas.WriteAscii
import ClaireCommon.Metrics.Lemmas.WriteGraph
import ClaireCommon.Protobuf.Lemmas.Required
import ClaireCommon.Strings.Lemmas.CharSearch
import ClaireCommon.Strings.Lemmas.StringPrintf
import ClaireCommon.Strings.Lemmas.UriUnescape
import ClaireCommon.Strings.Lemmas.View
import ClaireCommon.Symbolizer.Lemmas.Abbreviations
import ClaireCommon.Symbolizer.Lemmas.AttributeValue
import ClaireCommon.Symbolizer.Lemmas.DefineFile
import ClaireCommon.Symbolizer.Lemmas.Leb
import ClaireCommon.Symbolizer.Lemmas.LineDivision
import ClaireCommon.Symbolizer.Lemmas.Lookups
import ClaireCommon.Symbolizer.Lemmas.PathResolution
import ClaireCommon.Symbolizer.Lemmas.SectionUnits
import ClaireCommon.Symbolizer.Lemmas.Symbolizer
import ClaireCommon.Symbolizer.Lemmas.Symbols
import ClaireCommon.Threading.Lemmas.BlockingQueue
import ClaireCommon.Threading.Lemmas.CountDownLatch
import ClaireCommon.Threading.Lemmas.Mutex
import ClaireCommon.Threading.Lemmas.Stranded
import ClaireCommon.Threading.Lemmas.ThisThread
import ClaireCommon.Threading.Lemmas.Thread
import ClaireCommon.Tracing.Lemmas.TraceRecorder
