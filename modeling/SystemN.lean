import SystemN.Proofs.Mm.Harts
import SystemN.Proofs.Mm.Metadata
import SystemN.Proofs.Mm.DoubleFree
import SystemN.Proofs.Mm.Slab
import SystemN.Proofs.Mm.Deadlock
import SystemN.Proofs.Mm.Refine
import SystemN.Proofs.Contexts
import SystemN.Proofs.ProgramImage
import SystemN.Proofs.SpinlockIrq
import SystemN.Proofs.TrapVec
import SystemN.Proofs.UserCopy
import SystemN.Proofs.Munmap
import SystemN.Proofs.SbrkTrip
import SystemN.Proofs.Records
import SystemN.Proofs.FsRun
import SystemN.Proofs.Mm.FreePagetable
import SystemN.Proofs.Fifo
import SystemN.Proofs.Swtch
import SystemN.Proofs.Mm.Exhausted
import SystemN.Proofs.Mm.SlabRun
import SystemN.Proofs.Ecall
import SystemN.Proofs.IdleTrapVec
import SystemN.Proofs.FirstEntry
import SystemN.Proofs.SysWrite
import SystemN.Proofs.SysRead
import SystemN.Proofs.RamfsBounds
import SystemN.Proofs.CreateLookup
import SystemN.Proofs.Shell
import SystemN.Proofs.VfsOpen
import SystemN.Proofs.ListHeap
import SystemN.Proofs.Uart
import SystemN.Proofs.KernelTable
import SystemN.Proofs.UserMemory
import SystemN.Proofs.Boot
import SystemN.Proofs.CallSpec
import SystemN.Proofs.World
import SystemN.Proofs.Malloc
import SystemN.Proofs.Preempt
import SystemN.Proofs.Console
