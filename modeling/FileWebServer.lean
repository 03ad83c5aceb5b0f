import FileWebServer.Http.RoundTrip
import FileWebServer.Server.Containment
import FileWebServer.Server.Markup
import FileWebServer.Core.KeepaliveCalls
import FileWebServer.Core.Kqueue
import FileWebServer.Core.Resumption
import FileWebServer.Core.Framing
import FileWebServer.Core.Independence
import FileWebServer.Core.FileOwnership
import FileWebServer.Core.Handshakes
import FileWebServer.Core.Wakeups
import FileWebServer.Core.HalfClose
import FileWebServer.Core.PoolCalls
import FileWebServer.Http.ByteRange
import FileWebServer.Core.Bodies
import FileWebServer.Core.FirstRead
import FileWebServer.Core.Encryption
import FileWebServer.Core.TlsReads
import FileWebServer.Core.IdleTimer
import FileWebServer.Server.Links
import FileWebServer.Server.Decoding
import FileWebServer.Http.MimeSearch
import FileWebServer.Http.HeaderLines
import FileWebServer.Core.Freshness
import FileWebServer.Core.HeaderBlocks
import FileWebServer.Core.HeadRequests
import FileWebServer.Core.TimerSweep
import FileWebServer.Core.DirectoryPages
import FileWebServer.Core.Bounds
import FileWebServer.Core.Downloads
import FileWebServer.Core.Sessions
import FileWebServer.Core.Progress
import FileWebServer.Core.Handles
import FileWebServer.Core.Pipelining
import FileWebServer.Core.Conversations
import FileWebServer.Server.Cli
import FileWebServer.Program
