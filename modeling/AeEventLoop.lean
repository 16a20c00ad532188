import AeEventLoop.WhileLoop
import AeEventLoop.History
import AeEventLoop.PriorityQueue
import AeEventLoop.KeyedSet
import AeEventLoop.LinkedStore
import AeEventLoop.Resources
import AeEventLoop.Clock
import AeEventLoop.FileTable
import AeEventLoop.FileRuns
import AeEventLoop.Timer
import AeEventLoop.ProcessEvents
import AeEventLoop.Dispatch
import AeEventLoop.Barrier
import AeEventLoop.EventPointer
import AeEventLoop.InBounds
import AeEventLoop.AeMain
import AeEventLoop.Ae2
import AeEventLoop.Ae2Steps
import AeEventLoop.Ae2Pass
import AeEventLoop.Ae2Pops
import AeEventLoop.Ae2Balance
import AeEventLoop.Ae2Tombstones
import AeEventLoop.Ae3
import AeEventLoop.Ae3Map
import AeEventLoop.Ae3Steps
import AeEventLoop.Ae3Pass
import AeEventLoop.Ae3Delete
import AeEventLoop.Ae3Walk
import AeEventLoop.Ae3Survive
import AeEventLoop.Ae
import AeEventLoop.AeSteps
import AeEventLoop.AeTurn
import AeEventLoop.AePass
import AeEventLoop.AeSafe
import AeEventLoop.AeNodes
import AeEventLoop.AeList
import AeEventLoop.Deadlines
import AeEventLoop.Resize
import AeEventLoop.Finalizers
import AeEventLoop.Steady
import AeEventLoop.Lockstep
import AeEventLoop.Poll
import AeEventLoop.Spin
import AeEventLoop.Skew
import AeEventLoop.Bounded
import AeEventLoop.TcpClient
import AeEventLoop.TcpRuns
import AeEventLoop.TcpTimeouts
import AeEventLoop.TcpSettles
import AeEventLoop.TcpMain
import AeEventLoop.TcpReturns
import AeEventLoop.TimeEventTest
import AeEventLoop.TimeEventTest2
import AeEventLoop.TimeEventTest3
import AeEventLoop.CurlMulti
import AeEventLoop.CTimeVal
import AeEventLoop.Anet
import AeEventLoop.AnetOwns
import AeEventLoop.AnetAddr
import AeEventLoop.AnetStream
import AeEventLoop.HttpClient
import AeEventLoop.HttpTransfers
import AeEventLoop.Zmalloc
import AeEventLoop.Lifetime
