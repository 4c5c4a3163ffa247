import LinuxAdvance.Calculator.DrainEnds
import LinuxAdvance.Calculator.RealFrames
import LinuxAdvance.Calculator.TextCodec
import LinuxAdvance.Calculator.Header
import LinuxAdvance.Calculator.Arithmetic
import LinuxAdvance.Calculator.Reassembly
import LinuxAdvance.Reactor.OrderlyClose
import LinuxAdvance.Agreement
import LinuxAdvance.Termination
import LinuxAdvance.Malformed
import LinuxAdvance.Leftover
import LinuxAdvance.Receiving
import LinuxAdvance.Independence
import LinuxAdvance.Calculator.Reconnect
import LinuxAdvance.Reactor.LoopOnce
import LinuxAdvance.Reactor.RecvEnds
import LinuxAdvance.Http.DocumentRoot
import LinuxAdvance.Http.Sessions
import LinuxAdvance.Http.Segmentation
import LinuxAdvance.Foundation.Lines
import LinuxAdvance.Http.Header
import LinuxAdvance.Http.Rendering
import LinuxAdvance.Http.StaticFiles
import LinuxAdvance.Http.Query
import LinuxAdvance.Foundation.Footprint
import LinuxAdvance.Http.History
import LinuxAdvance.Pool.Conservation
import LinuxAdvance.Chat.Room
import LinuxAdvance.Pool.Order
import LinuxAdvance.Pool.Instance
import LinuxAdvance.Chat.Order
import LinuxAdvance.Echo.SlotTable
import LinuxAdvance.Echo.SelectServer
import LinuxAdvance.Echo.PollServer
import LinuxAdvance.Echo.EpollServer
import LinuxAdvance.Echo.Occupancy
import LinuxAdvance.Echo.DescriptorRange
import LinuxAdvance.Echo.SameMachine
import LinuxAdvance.Cxx.Numeral
import LinuxAdvance.Foundation.Answers
import LinuxAdvance.Reactor.EdgeTrigger
import LinuxAdvance.Reactor.Rejected
import LinuxAdvance.Echo.FailedAccept
import LinuxAdvance.Chat.Relay
import LinuxAdvance.Pool.Completion
import LinuxAdvance.Udp.Dictionary
import LinuxAdvance.Tcp.TcpServer
import LinuxAdvance.Tcp.Commands
import LinuxAdvance.Chat.Members
import LinuxAdvance.Http.Site
import LinuxAdvance.Echo.Interest
import LinuxAdvance.Reactor.Isolation
import LinuxAdvance.Questions
