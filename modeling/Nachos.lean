import Nachos.Library.Codec
import Nachos.Library.BlockRegion
import Nachos.Library.Ownership
import Nachos.Library.Run
import Nachos.Library.Executions
import Nachos.Library.BoundedMap
import Nachos.Library.Pointwise
import Nachos.Machine.Disk
import Nachos.Machine.DiskLatency
import Nachos.Machine.Interrupt
import Nachos.Machine.InterruptQueue
import Nachos.Machine.Translate
import Nachos.Machine.Instruction
import Nachos.Machine.MipsSim
import Nachos.Machine.MemoryAccess
import Nachos.Machine.TranslationModes
import Nachos.Library.LittleEndian
import Nachos.Machine.ByteMemory
import Nachos.Machine.HostSafety
import Nachos.Machine.Relocation
import Nachos.Machine.Restart
import Nachos.Library.DoubleWord
import Nachos.Machine.Multiply
import Nachos.Machine.LoadDelay
import Nachos.Machine.RegisterFile
import Nachos.Machine.UserProgram
import Nachos.Machine.Overflow
import Nachos.Machine.UnalignedAccess
import Nachos.Machine.Network
import Nachos.Machine.Buffer
import Nachos.Machine.Console
import Nachos.FileSys.BitMap
import Nachos.FileSys.FileHeader
import Nachos.FileSys.OpenFile
import Nachos.FileSys.Directory
import Nachos.FileSys.Table
import Nachos.FileSys.DirectoryMap
import Nachos.FileSys.FileSystem
import Nachos.FileSys.FirstFit
import Nachos.FileSys.Transfer
import Nachos.FileSys.ByteRange
import Nachos.FileSys.RangeTransfer
import Nachos.FileSys.Copy
import Nachos.FileSys.Layout
import Nachos.FileSys.Allocation
import Nachos.FileSys.Overcommit
import Nachos.FileSys.Storage
import Nachos.FileSys.Tree
import Nachos.FileSys.Coherence
import Nachos.FileSys.Operations
import Nachos.FileSys.Contents
import Nachos.FileSys.ByteStore
import Nachos.FileSys.Format
import Nachos.FileSys.Calls
import Nachos.FileSys.SectorOwnership
import Nachos.FileSys.DirectoryTree
import Nachos.FileSys.RemoveDirectory
import Nachos.FileSys.KindDiscipline
import Nachos.FileSys.HeaderUses
import Nachos.FileSys.FailureAtomicity
import Nachos.FileSys.FileRefinement
import Nachos.FileSys.NoSectorLeak
import Nachos.FileSys.AllocateContract
import Nachos.FileSys.PerformanceTest
import Nachos.FileSys.PrintFile
import Nachos.FileSys.HandleIsolation
import Nachos.FileSys.SpliceLaw
import Nachos.FileSys.OpenFileTable
import Nachos.FileSys.SynchDisk
import Nachos.Network.Post
import Nachos.Network.MailRoundTrip
import Nachos.Network.PostalWorker
import Nachos.Network.MailTests
import Nachos.Network.Relay
import Nachos.Network.RelayMail
import Nachos.Network.RelayRuns
import Nachos.Network.RingTest
import Nachos.Library.Decimal
import Nachos.Library.Interaction
import Nachos.Library.Termination
import Nachos.Network.TCP
import Nachos.Network.BoundedWaiting
import Nachos.Network.AckTokens
import Nachos.Network.ReceiveBuffers
import Nachos.Network.PeerIsolation
import Nachos.Library.TokenExchange
import Nachos.Network.CutString
import Nachos.Network.TransferSides
import Nachos.Network.Dialogue
import Nachos.Network.StringTransfer
import Nachos.FileSys.NamedFile
import Nachos.Network.FileMachines
import Nachos.Network.FileTransfer
import Nachos.Network.Answering
import Nachos.Network.SendAttempt
import Nachos.Network.SendVerdict
import Nachos.Network.StopOnce
import Nachos.Network.Office
import Nachos.Network.TimerBalance
import Nachos.Network.Machines
import Nachos.Network.Teardown
import Nachos.Library.Tiling
import Nachos.Bin.Coff2Noff
import Nachos.Bin.ProgramImage
import Nachos.Bin.Execute
import Nachos.Bin.SameDecoding
import Nachos.Bin.Product
import Nachos.Bin.SharedMemory
import Nachos.Bin.Switch
import Nachos.Bin.TwoSimulators
import Nachos.Machine.SendBusy
import Nachos.Machine.Timer
import Nachos.Machine.Preemption
import Nachos.FileSys.StoredNames
import Nachos.Library.Namespace
import Nachos.FileSys.Hierarchy
import Nachos.FileSys.Mount
import Nachos.FileSys.Paths
import Nachos.FileSys.HierarchyRefinement
import Nachos.FileSys.DiskRefinement
import Nachos.Machine.ConsolePort
