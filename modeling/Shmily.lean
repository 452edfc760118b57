import Shmily.Foundation.Run
import Shmily.Foundation.Cancellation
import Shmily.Foundation.LinkedSpine
import Shmily.Foundation.NullChain
import Shmily.Foundation.RingPositions
import Shmily.Foundation.ByteArea
import Shmily.Foundation.OnesComplement
import Shmily.Foundation.NumberRange
import Shmily.Foundation.FileStore
import Shmily.Foundation.FirstFit
import Shmily.Foundation.Responses
import Shmily.Lib.CycleList
import Shmily.Lib.IndirectRingBuffer
import Shmily.Lib.BufferOwnership
import Shmily.Lib.RingBuffer
import Shmily.Lib.Bitmap
import Shmily.Lib.Strings
import Shmily.Lib.Readline
import Shmily.Mm.DoublebitMap
import Shmily.Mm.Memory
import Shmily.Mm.HeapShape
import Shmily.Mm.HeapInvariant
import Shmily.Mm.HeapSafety
import Shmily.Mm.PageMapping
import Shmily.Mm.PageTables
import Shmily.Mm.BlockReuse
import Shmily.Mm.Leaks
import Shmily.Mm.OldMemory
import Shmily.Mm.FailedAllocation
import Shmily.Mm.RunTracking
import Shmily.Mm.DoublebitWords
import Shmily.Mm.DoublebitStorage
import Shmily.Kernel.Process
import Shmily.Kernel.SchedulerInvariant
import Shmily.Kernel.Semaphore
import Shmily.Kernel.Lock
import Shmily.Kernel.Ipc
import Shmily.Kernel.IpcSystem
import Shmily.Kernel.SenderQueue
import Shmily.Kernel.Authenticity
import Shmily.Kernel.SelectiveReceive
import Shmily.Kernel.KernelReceive
import Shmily.Kernel.RequestReply
import Shmily.Net.Notification
import Shmily.Net.Packet
import Shmily.Net.Tcp
import Shmily.Net.Isolation
import Shmily.Net.Stream
import Shmily.Net.Connection
import Shmily.Net.Segments
import Shmily.Net.Answers
import Shmily.Net.Quiescence
import Shmily.Net.Turns
import Shmily.Net.ActiveClose
import Shmily.Net.Checksum
import Shmily.Net.Verification
import Shmily.Net.SequenceSpace
import Shmily.Fs.Inode
import Shmily.Fs.Dir
import Shmily.Fs.File
import Shmily.Fs.Layout
import Shmily.Fs.WriteFile
import Shmily.Fs.RoundTrip
import Shmily.Fs.Append
import Shmily.Fs.SharedFile
import Shmily.Fs.Ownership
import Shmily.Fs.DirEntries
import Shmily.Fs.Resolution
import Shmily.Fs.Requests
import Shmily.Fs.AccessControl
import Shmily.Fs.Descriptors
import Shmily.Fs.Removal
import Shmily.Fs.EntryRemoval
import Shmily.Fs.Making
import Shmily.Fs.Moving
import Shmily.Fs.WriteFrame
import Shmily.Fs.Format
import Shmily.Fs.Boot
import Shmily.Fs.Components
import Shmily.Fs.StaleEntries
import Shmily.Fs.Traversal
import Shmily.Fs.MissingPath
import Shmily.Fs.Exhaustion
import Shmily.Fs.PositionalRead
import Shmily.Fs.ReadLines
import Shmily.Fs.ClosedDescriptors
import Shmily.Terminal.Hahash
import Shmily.Terminal.User
import Shmily.Terminal.Paths
import Shmily.Terminal.FormatPath
import Shmily.Terminal.Lines
import Shmily.Terminal.Lookup
import Shmily.Terminal.Accounts
import Shmily.Foundation.Fields
import Shmily.Terminal.CommandLine
import Shmily.Terminal.Session
import Shmily.Terminal.Leftovers
import Shmily.Net.ArpCache
import Shmily.Net.ArpAnswers
import Shmily.Net.SocketTable
import Shmily.Foundation.Loop
import Shmily.Dr.Ne2k
import Shmily.Dr.FullRing
import Shmily.Dr.Disk
import Shmily.Dr.PartitionScan
import Shmily.Dr.EbrChain
import Shmily.Foundation.BitFields
import Shmily.Kernel.Time
import Shmily.Foundation.ByteBlock
import Shmily.Foundation.Labels
import Shmily.Net.Dns
import Shmily.Net.DnsChecksum
import Shmily.Lib.Decimal
import Shmily.Net.IpText
import Shmily.Dr.Keyboard
import Shmily.Lib.BitmapSearch
import Shmily.Lib.CycleSequence
import Shmily.Foundation.DigitSums
import Shmily.Mm.MemInfo
import Shmily.Kernel.Turns
import Shmily.Net.Icmp
import Shmily.Net.Lan
import Shmily.Lib.Print
import Shmily.Foundation.Placements
import Shmily.Kernel.Loader
import Shmily.Foundation.SelfMap
import Shmily.Mm.Mmu
import Shmily.Foundation.AtaChannel
import Shmily.Dr.DiskPorts
import Shmily.Fs.DiskServer
import Shmily.Foundation.Rendezvous
import Shmily.Kernel.Hierarchy
import Shmily.Kernel.Deadlock
