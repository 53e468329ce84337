import TokioLoop.LoopPoll
import TokioLoop.LoopReady
import TokioLoop.LoopComplete
import TokioLoop.LoopWake
import TokioLoop.LoopCounter
import TokioLoop.LoopTimers
import TokioLoop.LoopSignals
import TokioLoop.LoopLifecycle
import TokioLoop.LoopListeners
import TokioLoop.LoopCreateServer
import TokioLoop.LoopConnections
import TokioLoop.IoTable
import TokioLoop.IoBatch
import TokioLoop.IoDispatch
import TokioLoop.TokioRetention
import TokioLoop.TokioOrder
import TokioLoop.TokioTimers
import TokioLoop.TokioIoSlots
import TokioLoop.TokioServer
import TokioLoop.TokioTcpOutbound
import TokioLoop.TokioTcpClose
import TokioLoop.TokioTcpAttach
import TokioLoop.TokioTcpFlags
import TokioLoop.TokioTcpPause
import TokioLoop.TokioTcpHalfClose
import TokioLoop.TcpOutbound
import TokioLoop.TcpCallbacks
import TokioLoop.TcpBorrow
import TokioLoop.TcpTeardown
import TokioLoop.TcpErrors
import TokioLoop.TcpEdges
import TokioLoop.TcpPausing
import TokioLoop.TlsStreams
import TokioLoop.TlsOutbound
import TokioLoop.TlsTeardown
import TokioLoop.TlsInbound
import TokioLoop.UdpRegistry
import TokioLoop.UdpSend
import TokioLoop.IoStreams
import TokioLoop.TcpAccounting
import TokioLoop.TcpFlow
import TokioLoop.TcpMute
import TokioLoop.TcpReceive
import TokioLoop.TlsEof
import TokioLoop.TlsBuffered
import TokioLoop.IoReaders
import TokioLoop.HandleContexts
import TokioLoop.PipeTransports
import TokioLoop.PipeLifetime
import TokioLoop.PipeWrites
import TokioLoop.PipeLost
import TokioLoop.Lib.RoundRobin
import TokioLoop.AddrInfos
import TokioLoop.SockSendall
import TokioLoop.Lib.IpText
import TokioLoop.TokioExtraInfo
import TokioLoop.CreateConnection
import TokioLoop.CreateDatagramEndpoint
import TokioLoop.ChildWatchers
import TokioLoop.ServerLifecycle
import TokioLoop.Lib.Numbered
import TokioLoop.SockFutures
import TokioLoop.RunningLoops
import TokioLoop.TokioCreateServer
import TokioLoop.TcpShutdown
import TokioLoop.TcpLink
import TokioLoop.TokioSignals
import TokioLoop.TlsSession
import TokioLoop.TlsLink
