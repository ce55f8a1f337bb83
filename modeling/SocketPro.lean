import SocketPro.Client.CallbackMatching
import SocketPro.Client.CallbackAccounts
import SocketPro.Client.JobAbort
import SocketPro.Json.Acceptance
import SocketPro.Queue.Transactions
import SocketPro.Queue.Routing
import SocketPro.Queue.OneQueue
import SocketPro.Go.VariantCodec
import SocketPro.Go.HandlerAccounts
import SocketPro.Deque.SafeDeque
import SocketPro.Memory.Refinement
import SocketPro.Database.AsyncDBHandler
import SocketPro.Cache.Snapshot
import SocketPro.Cache.CachePeer
import SocketPro.Go.RowDelivery
import SocketPro.CSharp.Downloads
import SocketPro.Java.CallbackOutcomes
import SocketPro.Python.ByteList
import SocketPro.Python.CallbackOutcomes
import SocketPro.Java.DBResults
import SocketPro.Python.DBResults
import SocketPro.Java.ParameterStream
import SocketPro.Python.ParameterStream
import SocketPro.WebSocket.Delivery
import SocketPro.Python.CacheRefinement
import SocketPro.File.AbortedUpload
import SocketPro.File.EndToEnd
import SocketPro.File.EndsOnce
import SocketPro.Cache.TextCells
import SocketPro.Cache.Queries
import SocketPro.Json.Turns
import SocketPro.Json.Widths
import SocketPro.Text.WebDates
import SocketPro.Database.VariantEquality
import SocketPro.Database.RecordCodec
import SocketPro.Python.VariantReading
import SocketPro.Java.CacheRefinement
import SocketPro.CSharp.Deque
import SocketPro.Go.DecimalText
import SocketPro.Client.SocketPool
import SocketPro.Go.UploadRun
import SocketPro.Queue.BatchFraming
import SocketPro.Client.ConfigRoundTrip
import SocketPro.Go.SaveLoad
import SocketPro.Java.QueryAlgebra
import SocketPro.Java.UFuture
import SocketPro.Memory.Growth
import SocketPro.Python.DecimalValues
import SocketPro.Text.VariantChange
import SocketPro.CSharp.DateTimes
