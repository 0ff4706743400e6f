import HzhMuduo.Foundation.Fallible
import HzhMuduo.Foundation.MachineWord
import HzhMuduo.Foundation.TransitionSystem
import HzhMuduo.Foundation.BatchQueue
import HzhMuduo.Foundation.Window
import HzhMuduo.Foundation.RoundRobin
import HzhMuduo.Foundation.Handshake
import HzhMuduo.Kernel
import HzhMuduo.Buffer
import HzhMuduo.ByteQueue
import HzhMuduo.BufferBounds
import HzhMuduo.BufferSpace
import HzhMuduo.InetAddress
import HzhMuduo.AddressText
import HzhMuduo.EventLoop.Basic
import HzhMuduo.EventLoop.Wakeup
import HzhMuduo.EventLoop.Fifo
import HzhMuduo.EventLoop.Exit
import HzhMuduo.EventLoop.Response
import HzhMuduo.EventLoopThread
import HzhMuduo.EventLoopThreadJoin
import HzhMuduo.EventLoopThreadLifetime
import HzhMuduo.EPOLLPoller
import HzhMuduo.EventList
import HzhMuduo.ChannelCalls
import HzhMuduo.TcpConnection
import HzhMuduo.EventLoopThreadLoop
import HzhMuduo.StartUp
import HzhMuduo.StartUpProgress
import HzhMuduo.OutgoingStream
import HzhMuduo.Notifications
import HzhMuduo.MessageLength
import HzhMuduo.CrossThreadSend
import HzhMuduo.HalfClose
import HzhMuduo.SendThenShutdown
import HzhMuduo.EchoServer
import HzhMuduo.Server.Basic
import HzhMuduo.Server.Steps
import HzhMuduo.Server.ConnectionTable
import HzhMuduo.Server.Frame
import HzhMuduo.Server.EventLoops
import HzhMuduo.Server.Placement
import HzhMuduo.Server.Ownership
import HzhMuduo.Server.Shape
import HzhMuduo.Server.Affinity
import HzhMuduo.Server.Alone
import HzhMuduo.Server.Connection
import HzhMuduo.Server.Removal
import HzhMuduo.Server.UpDown
import HzhMuduo.Server.Announcement
import HzhMuduo.Server.Lifetime
import HzhMuduo.Server.Existence
import HzhMuduo.Server.Stages
import HzhMuduo.Server.StateOrder
import HzhMuduo.Server.Lifecycle
import HzhMuduo.Server.Registry
import HzhMuduo.Server.Reclamation
import HzhMuduo.Server.Progress
import HzhMuduo.Server.Interest
import HzhMuduo.Server.WriteSide
import HzhMuduo.Server.Teardown
import HzhMuduo.Server.DownNotification
import HzhMuduo.Server.Notices
import HzhMuduo.Server.Streams
