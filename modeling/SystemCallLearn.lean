import SystemCallLearn.Lib.Lts
import SystemCallLearn.Lib.Trace
import SystemCallLearn.Lib.Measure
import SystemCallLearn.Lib.Fifo
import SystemCallLearn.Lib.Mutex
import SystemCallLearn.Lib.Ring
import SystemCallLearn.Lib.ThreadCount
import SystemCallLearn.Pthread.RingQueue
import SystemCallLearn.Pthread.Proofs.RingQueueProofs
import SystemCallLearn.Pthread.Proofs.RingQueueProgressProofs
import SystemCallLearn.Pthread.SemRingQueue
import SystemCallLearn.Pthread.Proofs.SemRingQueueProofs
import SystemCallLearn.Pthread.Proofs.RingQueueRateProofs
import SystemCallLearn.Pthread.BlockQueue
import SystemCallLearn.Pthread.Proofs.BlockQueueProofs
import SystemCallLearn.Pthread.CpTest
import SystemCallLearn.Pthread.Proofs.CpTestProofs
import SystemCallLearn.Pthread.ThreadPool
import SystemCallLearn.Pthread.Proofs.ThreadPoolProofs
import SystemCallLearn.Pthread.Proofs.PoolFinishProofs
import SystemCallLearn.Pthread.Task
import SystemCallLearn.Pthread.Proofs.TaskProofs
import SystemCallLearn.Pthread.Proofs.TicketProofs
import SystemCallLearn.Pthread.Proofs.TicketEndProofs
import SystemCallLearn.Posix.Calls
import SystemCallLearn.Reactor.Util
import SystemCallLearn.Reactor.Service
import SystemCallLearn.Reactor.Connection
import SystemCallLearn.Reactor.Proofs.SenderProofs
import SystemCallLearn.Reactor.Proofs.SenderLoopProofs
import SystemCallLearn.Reactor.Proofs.UtilProofs
import SystemCallLearn.Reactor.Proofs.RecverProofs
import SystemCallLearn.Reactor.Proofs.BufferProofs
import SystemCallLearn.Reactor.Proofs.ResponseProofs
import SystemCallLearn.Reactor.Proofs.ConnectionProofs
import SystemCallLearn.Reactor.Reactor
import SystemCallLearn.Reactor.Server
import SystemCallLearn.Reactor.Proofs.ReactorProofs
import SystemCallLearn.Reactor.Proofs.DispatchProofs
import SystemCallLearn.Reactor.Proofs.ArmedProofs
import SystemCallLearn.Reactor.Proofs.NonBlockProofs
import SystemCallLearn.Reactor.Proofs.AccepterProofs
import SystemCallLearn.Reactor.Proofs.SoloProofs
import SystemCallLearn.Reactor.Proofs.IsolationProofs
import SystemCallLearn.Reactor.Proofs.RefineProofs
import SystemCallLearn.Reactor.Proofs.ConversationProofs
import SystemCallLearn.Reactor.Proofs.BlockingProofs
import SystemCallLearn.Reactor.Proofs.AccountProofs
import SystemCallLearn.Reactor.Proofs.RegistrationProofs
import SystemCallLearn.Lib.Slots
import SystemCallLearn.Multiplex.Sock
import SystemCallLearn.Multiplex.Proofs.SockProofs
import SystemCallLearn.Multiplex.SelectServer
import SystemCallLearn.Multiplex.Proofs.SelectServerProofs
import SystemCallLearn.Multiplex.Select
import SystemCallLearn.Multiplex.Proofs.SelectProofs
import SystemCallLearn.Multiplex.PollServer
import SystemCallLearn.Multiplex.Proofs.PollServerProofs
import SystemCallLearn.Multiplex.Proofs.ReadinessProofs
import SystemCallLearn.Lib.Session
import SystemCallLearn.Multiplex.EpollServer
import SystemCallLearn.Multiplex.Proofs.EpollServerProofs
import SystemCallLearn.Multiplex.Proofs.SessionProofs
import SystemCallLearn.Lib.Stage
import SystemCallLearn.Pthread.GetInstance
import SystemCallLearn.Pthread.Proofs.GetInstanceProofs
import SystemCallLearn.Pthread.Proofs.GetInstanceEndProofs
import SystemCallLearn.Net.UdpServer
import SystemCallLearn.Net.Proofs.UdpServerProofs
import SystemCallLearn.Lib.Mail
import SystemCallLearn.Net.UdpClient
import SystemCallLearn.Net.Udp
import SystemCallLearn.Net.Proofs.UdpProofs
import SystemCallLearn.Posix.Signals
import SystemCallLearn.Signal.BlockSignal
import SystemCallLearn.Signal.Proofs.BlockSignalProofs
