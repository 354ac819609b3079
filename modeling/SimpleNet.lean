import SimpleNet.Lib.Run
import SimpleNet.Lib.Flags
import SimpleNet.Lib.Fifo
import SimpleNet.Lib.Batch
import SimpleNet.Lib.Before
import SimpleNet.Lib.SortedSet
import SimpleNet.Lib.Slots
import SimpleNet.Lib.Snapshot
import SimpleNet.Lib.Refine
import SimpleNet.Lib.Alarms
import SimpleNet.Lib.Firings
import SimpleNet.Lib.Monitor
import SimpleNet.Lib.Pipe
import SimpleNet.Lib.Locks
import SimpleNet.EventLoop.Basic
import SimpleNet.EventLoop.Functors
import SimpleNet.EventLoop.Thread
import SimpleNet.EventLoop.StartLoop
import SimpleNet.EventLoop.Quit
import SimpleNet.EventLoop.Mutex
import SimpleNet.Net.Text
import SimpleNet.Net.InetAddress
import SimpleNet.Net.Parse
import SimpleNet.Net.RoundTrip
import SimpleNet.Server.Basic
import SimpleNet.Server.Account
import SimpleNet.Server.Table
import SimpleNet.Server.Destroy
import SimpleNet.Server.Pool
import SimpleNet.Server.Start
import SimpleNet.Server.Acceptor
import SimpleNet.Timer.Basic
import SimpleNet.Timer.Owned
import SimpleNet.Timer.Ops
import SimpleNet.Timer.Arithmetic
import SimpleNet.Timer.Sets
import SimpleNet.Timer.Cancel
import SimpleNet.Timer.Deadline
import SimpleNet.Timer.Pass
import SimpleNet.Timer.Frame
import SimpleNet.Timer.AddTimer
import SimpleNet.Timer.Service
import SimpleNet.Timer.OnTime
import SimpleNet.Reactor.Basic
import SimpleNet.Reactor.Views
import SimpleNet.Reactor.Mapped
import SimpleNet.Reactor.Poll
import SimpleNet.Connection.Basic
import SimpleNet.Connection.Step
import SimpleNet.Connection.Loop
import SimpleNet.Connection.Life
import SimpleNet.Connection.Queue
import SimpleNet.Connection.Down
import SimpleNet.Connection.State
import SimpleNet.Connection.Close
import SimpleNet.Connection.Poller
import SimpleNet.Connection.Session
import SimpleNet.Connection.Teardown
import SimpleNet.Connection.Stream
import SimpleNet.Connection.Shutdown
import SimpleNet.Connection.Lifetime
import SimpleNet.Connection.Output
import SimpleNet.Connection.Notify
import SimpleNet.Connection.Input
import SimpleNet.Connection.Peers
import SimpleNet.Client.Connector
import SimpleNet.Client.Sockets
import SimpleNet.Client.TcpClient
import SimpleNet.Client.Reconnect
import SimpleNet.Client.Stop
import SimpleNet.Client.Release
import SimpleNet.Client.Names
import SimpleNet.Client.Retry
import SimpleNet.Client.Available
import SimpleNet.Dispatch.Basic
import SimpleNet.Dispatch.Walk
import SimpleNet.Dispatch.LockOrder
