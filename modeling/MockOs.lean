import MockOs.Kernel.Sched.Proofs.WaitQueue
import MockOs.Kernel.Sched.Mutex
import MockOs.Kernel.Sched.Proofs.Blocks
import MockOs.Kernel.Proofs.Log
import MockOs.Fs.Proofs.Preempt
import MockOs.Fs.Proofs.Wait
import MockOs.Kernel.Proofs.RefCount
import MockOs.Kernel.Proofs.AllOrNothing
import MockOs.Mm.Proofs.FreePage
import MockOs.Kernel.Proofs.Slots
import MockOs.Kernel.Proofs.LivePids
import MockOs.Kernel.Proofs.Family
import MockOs.Kernel.Proofs.StrayStack
import MockOs.Kernel.Sched.Proofs.RoundRobin
import MockOs.Fs.Proofs.Repeat
import MockOs.Kernel.Proofs.Drain
import MockOs.Kernel.Proofs.LogAsm
import MockOs.Kernel.Proofs.Star
import MockOs.Kernel.Proofs.Printk
import MockOs.Mm.Proofs.Duplicate
import MockOs.Kernel.Proofs.Codec
import MockOs.Kernel.Proofs.Traps
import MockOs.Kernel.Proofs.LogMem
import MockOs.Kernel.Proofs.Hd
import MockOs.Fs.Proofs.Carve
import MockOs.Tools.Proofs.Build
import MockOs.Kernel.Proofs.Interrupt
import MockOs.Kernel.Proofs.Processes
import MockOs.Tools.Proofs.Outcome
import MockOs.Include.String
import MockOs.Include.Proofs.Compare
import MockOs.Include.Proofs.Strtok
