import Nachos.Foundations.Runs
import Nachos.Lib.Bitmap
import Nachos.Lib.Proofs.BitmapProofs
import Nachos.Foundations.ByteMemory
import Nachos.Machine.Mmu
import Nachos.Userprog.AddressSpace
import Nachos.Userprog.Proofs.VmBasicProofs
import Nachos.Userprog.Proofs.FrameInvProofs
import Nachos.Userprog.Proofs.FrameOwnershipProofs
import Nachos.Userprog.Proofs.PagingSimProofs
import Nachos.Userprog.Proofs.PagingStepProofs
import Nachos.Userprog.Proofs.PagingTransparencyProofs
import Nachos.Lib.SortedList
import Nachos.Threads.Kernel
import Nachos.Threads.Proofs.SchedulerProofs
import Nachos.Threads.Proofs.ReadyThreadsProofs
import Nachos.Foundations.Resumption
import Nachos.Foundations.ByteList
import Nachos.Filesys.FileHeader
import Nachos.Filesys.World
import Nachos.Filesys.OpenFile
import Nachos.Filesys.Directory
import Nachos.Filesys.FileSystem
import Nachos.Filesys.Layout
import Nachos.Filesys.Proofs.FileHeaderProofs
import Nachos.Filesys.Proofs.LayoutProofs
import Nachos.Filesys.Proofs.TransferProofs
import Nachos.Filesys.Proofs.WriteStepProofs
import Nachos.Filesys.Proofs.WriteProofs
import Nachos.Filesys.Proofs.AppendProofs
import Nachos.Filesys.Proofs.WriteCallProofs
import Nachos.Filesys.ByteFile
import Nachos.Filesys.Proofs.ReadProofs
import Nachos.Filesys.Proofs.HandleProofs
import Nachos.Filesys.Proofs.ByteFileProofs
import Nachos.Filesys.Proofs.PositionalProofs
import Nachos.Filesys.Proofs.FrameProofs
import Nachos.Filesys.CurrentDirectory
import Nachos.Filesys.Proofs.DirectoryProofs
import Nachos.Filesys.Proofs.RemoveProofs
import Nachos.Filesys.Proofs.FileLocksProofs
import Nachos.Filesys.Proofs.TableStepProofs
import Nachos.Filesys.Proofs.CreateProofs
import Nachos.Userprog.FilesysSwap
import Nachos.Userprog.Proofs.FilesysSwapProofs
import Nachos.Threads.Synch
import Nachos.Threads.Discipline
import Nachos.Threads.Conditions
import Nachos.Threads.Channel
import Nachos.Threads.ChannelMachine
import Nachos.Threads.Proofs.SemaphoreProofs
import Nachos.Threads.Proofs.LockProofs
import Nachos.Threads.Proofs.ConditionProofs
import Nachos.Threads.Proofs.ChannelStepProofs
import Nachos.Threads.Proofs.ChannelProofs
import Nachos.Threads.Proofs.StrandedProofs
import Nachos.Threads.Proofs.JoinProofs
import Nachos.Threads.Inheritance
import Nachos.Threads.Proofs.InheritanceProofs
import Nachos.Foundations.CriticalSections
import Nachos.Filesys.ConcurrentWrites
import Nachos.Filesys.Proofs.ConcurrentWritesProofs
import Nachos.Filesys.Closing
import Nachos.Filesys.Proofs.ClosingProofs
import Nachos.Lib.Table
import Nachos.Lib.Proofs.TableProofs
import Nachos.Lib.TableMap
import Nachos.Lib.Proofs.TableMapProofs
import Nachos.Threads.ProcessTable
import Nachos.Threads.Proofs.ProcessTableProofs
import Nachos.Userprog.Transfer
import Nachos.Userprog.Proofs.TransferProofs
import Nachos.Userprog.Syscall
import Nachos.Userprog.Proofs.SyscallProofs
import Nachos.Filesys.OpenCounts
import Nachos.Filesys.Proofs.OpenCountsProofs
import Nachos.Filesys.DirectoryTree
import Nachos.Filesys.Proofs.TreeProofs
import Nachos.Filesys.Proofs.TidyProofs
import Nachos.Filesys.Proofs.InOrderProofs
import Nachos.Filesys.Proofs.ChangeDirProofs
import Nachos.Filesys.Proofs.EntryProofs
import Nachos.Filesys.Proofs.NewDirectoryProofs
import Nachos.Filesys.Proofs.UnlinkProofs
import Nachos.Lib.Proofs.SortedListProofs
import Nachos.Threads.Proofs.SelectionProofs
import Nachos.Threads.Reclaim
import Nachos.Threads.Proofs.ReclaimProofs
import Nachos.Machine.Interrupt
import Nachos.Machine.Proofs.InterruptProofs
import Nachos.Threads.SynchList
import Nachos.Threads.Proofs.SynchListProofs
import Nachos.Filesys.SynchDisk
import Nachos.Filesys.Proofs.SynchDiskProofs
import Nachos.Filesys.Proofs.AllocateProofs
import Nachos.Filesys.Proofs.PersistenceProofs
import Nachos.Filesys.DirectoryMap
import Nachos.Filesys.Proofs.DirectoryMapProofs
import Nachos.Userprog.EagerLoad
import Nachos.Userprog.Proofs.ShapeProofs
import Nachos.Userprog.Proofs.EagerLoadProofs
import Nachos.Userprog.Clock
import Nachos.Userprog.Proofs.ClockProofs
import Nachos.Userprog.PageTableAccess
import Nachos.Userprog.Proofs.PageTableAccessProofs
import Nachos.Filesys.CachedHeader
import Nachos.Filesys.Proofs.CachedHeaderProofs
import Nachos.Filesys.Proofs.SharedFileProofs
import Nachos.Filesys.Paths
import Nachos.Filesys.FileSession
import Nachos.Filesys.Proofs.PathsProofs
import Nachos.Filesys.Proofs.OverwriteProofs
import Nachos.Filesys.Proofs.SoundProofs
import Nachos.Filesys.Proofs.SoundPathProofs
import Nachos.Userprog.ReadCall
import Nachos.Userprog.Proofs.ReadCallProofs
import Nachos.Userprog.Args
import Nachos.Userprog.Proofs.ArgsProofs
import Nachos.Userprog.Proofs.ArgsStackProofs
import Nachos.Userprog.LsCall
import Nachos.Userprog.Proofs.LsCallProofs
import Nachos.Userprog.Termination
import Nachos.Userprog.Proofs.TerminationProofs
import Nachos.Userland.Shell
import Nachos.Userland.Proofs.ShellProofs
import Nachos.Machine.MipsSim
import Nachos.Machine.MipsArithmetic
import Nachos.Machine.Proofs.MipsFieldProofs
import Nachos.Machine.Proofs.MipsArithmeticProofs
import Nachos.Machine.Restart
import Nachos.Machine.Proofs.RestartProofs
import Nachos.Bin.Coff2noff
import Nachos.Bin.Proofs.Coff2noffProofs
import Nachos.Machine.Proofs.MultProofs
import Nachos.Foundations.Chains
import Nachos.Lib.LinkedList
import Nachos.Lib.Proofs.LinkedListProofs
import Nachos.Filesys.BitmapSet
import Nachos.Filesys.Proofs.BitmapSetProofs
import Nachos.Filesys.RoundTrip
import Nachos.Filesys.Proofs.RoundTripProofs
import Nachos.Filesys.Formatting
import Nachos.Filesys.Proofs.FormatProofs
import Nachos.Filesys.Proofs.FormatMemoryProofs
import Nachos.Threads.Proofs.SystemFramesProofs
import Nachos.Network.PostOffice
import Nachos.Network.Proofs.PacketProofs
import Nachos.Network.Proofs.PostOfficeProofs
import Nachos.Network.Proofs.DeliveryProofs
import Nachos.Filesys.Ownership
import Nachos.Filesys.Proofs.SessionProofs
import Nachos.Filesys.Proofs.OwnershipProofs
import Nachos.Filesys.Check
import Nachos.Filesys.Proofs.CheckProofs
