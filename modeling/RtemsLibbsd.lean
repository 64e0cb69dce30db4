import RtemsLibbsd.Transition
import RtemsLibbsd.Masks
import RtemsLibbsd.Heap
import RtemsLibbsd.HoldBalance
import RtemsLibbsd.Chain
import RtemsLibbsd.Slist
import RtemsLibbsd.DoublyLinked
import RtemsLibbsd.BusDma
import RtemsLibbsd.BusDmaLoad
import RtemsLibbsd.WriteBackCache
import RtemsLibbsd.BusDmaSync
import RtemsLibbsd.Mutex
import RtemsLibbsd.Lockmgr
import RtemsLibbsd.Lockmgr.Requests
import RtemsLibbsd.Libio
import RtemsLibbsd.Tracking
import RtemsLibbsd.Program
import RtemsLibbsd.Program.Destructors
import RtemsLibbsd.Program.Blocks
import RtemsLibbsd.Pieces
import RtemsLibbsd.Polling
import RtemsLibbsd.Termios
import RtemsLibbsd.Arp.Processor
import RtemsLibbsd.Arp.Records
import RtemsLibbsd.Xdr
import RtemsLibbsd.Rpcio.Model
import RtemsLibbsd.Rpcio.Slots
import RtemsLibbsd.Rpcio.Matching
import RtemsLibbsd.Rpcio.Tags
import RtemsLibbsd.Rpcio.Loop
import RtemsLibbsd.Rpcio.Completion
import RtemsLibbsd.Rpcio.Requestors
import RtemsLibbsd.Rpcio.Handover
import RtemsLibbsd.Rpcio.Encode
import RtemsLibbsd.Rpcio.RetryPeriod
import RtemsLibbsd.Rpcio.Lifetime
import RtemsLibbsd.Rpcio.RetransmissionQueue
import RtemsLibbsd.Epoch.Model
import RtemsLibbsd.Epoch.Records
import RtemsLibbsd.Epoch.Grace
import RtemsLibbsd.Epoch.Callbacks
import RtemsLibbsd.Epoch.Reclaim
import RtemsLibbsd.Epoch.Drain
import RtemsLibbsd.Epoch.Waiters
import RtemsLibbsd.Sleepqueue.Model
import RtemsLibbsd.Sleepqueue.Queues
import RtemsLibbsd.Sleepqueue.Threads
import RtemsLibbsd.Sleepqueue.Invariant
import RtemsLibbsd.Sleepqueue.Steps
import RtemsLibbsd.Sleepqueue.Safety
import RtemsLibbsd.Sleepqueue.Outcomes
import RtemsLibbsd.Sleepqueue.Timeout
import RtemsLibbsd.Nfs.Append
import RtemsLibbsd.Nfs.FileIo
import RtemsLibbsd.Nfs.Address
import RtemsLibbsd.Nfs.Directory
import RtemsLibbsd.Nfs.Readdir
import RtemsLibbsd.Nfs.Mount
import RtemsLibbsd.Nfs.Ledger
import RtemsLibbsd.Nfs.Nodes
import RtemsLibbsd.Nfs.Identity
import RtemsLibbsd.Nfs.Options
import RtemsLibbsd.Nfs.Specification
import RtemsLibbsd.Nfs.Initialize
import RtemsLibbsd.CString
import RtemsLibbsd.RcConf.Services
import RtemsLibbsd.RcConf.Placement
import RtemsLibbsd.RcConf.Worker
import RtemsLibbsd.RcConf.Lines
import RtemsLibbsd.RcConf.Arguments
import RtemsLibbsd.RcConf.Grammar
import RtemsLibbsd.RcConf.Find
import RtemsLibbsd.RcConf.Interfaces
import RtemsLibbsd.RcConf.CreateArgs
import RtemsLibbsd.RcConf.DefaultRouter
import RtemsLibbsd.Creation
import RtemsLibbsd.Vfs.Kernel
import RtemsLibbsd.Vfs.Location
import RtemsLibbsd.Vfs.Calls
import RtemsLibbsd.Vfs.Frame
import RtemsLibbsd.Vfs.Balance
import RtemsLibbsd.Vfs.Namei
import RtemsLibbsd.Vfs.Agreement
import RtemsLibbsd.Vfs.ComponentName
import RtemsLibbsd.Transfers
import RtemsLibbsd.Substitution
import RtemsLibbsd.Expansion
import RtemsLibbsd.Converter
import RtemsLibbsd.Nexus
import RtemsLibbsd.Devfs.Devices
import RtemsLibbsd.Devfs.Handlers
import RtemsLibbsd.ThreadStart
import RtemsLibbsd.Nvd
import RtemsLibbsd.NvdDisk
import RtemsLibbsd.Cam
import RtemsLibbsd.CamDisk
import RtemsLibbsd.Sdmmc.Clock
import RtemsLibbsd.Sdmmc.Transfer
import RtemsLibbsd.Locks
import RtemsLibbsd.BufferRing
import RtemsLibbsd.Ethernet.Mbuf
import RtemsLibbsd.Ethernet.Atsam
import RtemsLibbsd.Ethernet.AtsamRing
import RtemsLibbsd.Ethernet.Stmac
import RtemsLibbsd.Ethernet.StmacRing
import RtemsLibbsd.Ethernet.MveFilter
import RtemsLibbsd.Ethernet.MveRx
import RtemsLibbsd.Ethernet.MveTx
import RtemsLibbsd.Ethernet.MveTxRing
import RtemsLibbsd.Ethernet.MveStop
import RtemsLibbsd.OctetStuffing
import RtemsLibbsd.Ppp.Framing
import RtemsLibbsd.Ppp.Input
import RtemsLibbsd.Ppp.Output
import RtemsLibbsd.Ppp.RoundTrip
import RtemsLibbsd.Ppp.RxDaemon
import RtemsLibbsd.Ppp.TxDaemon
import RtemsLibbsd.Ppp.WholePacket
import RtemsLibbsd.Ppp.OutputReads
import RtemsLibbsd.Ppp.InputStores
import RtemsLibbsd.Ppp.ControlPackets
import RtemsLibbsd.Ppp.OutQueues
import RtemsLibbsd.Ppp.Negotiation
import RtemsLibbsd.Chat.Script
import RtemsLibbsd.Chat.Semantics
import RtemsLibbsd.Chat.Agreement
import RtemsLibbsd.Chat.Stream
import RtemsLibbsd.Chat.Buffers
import RtemsLibbsd.Waf.SourceList
import RtemsLibbsd.Waf.BuildSet
import RtemsLibbsd.Waf.NetConfig
import RtemsLibbsd.Routes.DefaultRoute
import RtemsLibbsd.Routes.GetRoute
import RtemsLibbsd.Mdns
import RtemsLibbsd.MdnsLookup
import RtemsLibbsd.SearchTree
import RtemsLibbsd.Chunk
import RtemsLibbsd.ReceiveRing
import RtemsLibbsd.Ethernet.Mpc8xxRx
import RtemsLibbsd.Ethernet.Mpc8xxTx
import RtemsLibbsd.Ethernet.Mpc8xxTxRing
import RtemsLibbsd.Ethernet.Mcf548xRx
import RtemsLibbsd.Ethernet.Mcf548xTx
import RtemsLibbsd.Ethernet.Mcf548xTxRing
import RtemsLibbsd.Ethernet.Mcf548xRestart
import RtemsLibbsd.Callout.Model
import RtemsLibbsd.Callout.Pass
import RtemsLibbsd.Callout.Sync
import RtemsLibbsd.Callout.Armings
import RtemsLibbsd.Callout.Drain
