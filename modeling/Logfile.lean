import Logfile.Channel
import Logfile.StoppedRetry
import Logfile.Delivery
import Logfile.Frames
import Logfile.FrameGrammar
import Logfile.Reassembly
import Logfile.ReadersApart
import Logfile.SessionsApart
import Logfile.Receipts
import Logfile.UrlForm
import Logfile.HexBytes
import Logfile.LineSplitter
import Logfile.StringFormat
import Logfile.Colors
import Logfile.LogList
import Logfile.Injection
import Logfile.MapBody
import Logfile.Heartbeat
import Logfile.HeartbeatGrace
import Logfile.LogDocument
import Logfile.Shutdown
import Logfile.WakeUp
import Logfile.Removal
import Logfile.ConnectThreads
import Logfile.Destruction
import Logfile.ReplyWait
import Logfile.SendFailure
import Logfile.FileRecovery
import Logfile.Rotation
import Logfile.MaxSize
import Logfile.SocketConnect
import Logfile.SocksExchange
import Logfile.SslState
import Logfile.Registrations
import Logfile.Sinks
import Logfile.LifeCycle
import Logfile.LogFiles
import Logfile.Console
import Logfile.StompDelivery
import Logfile.ShutdownEnds
import Logfile.Routing
import Logfile.Configuration
import Logfile.CrashReport
import Logfile.Viewer
