import MockOs.Kernel.Log
import MockOs.Misc.X86

/-!
# The instructions of the kernel log (`kernel/nasm.asm`)

`atomic_add`, `log_buf` and `sync_log_buf_2` line by line, with interrupts off: the code runs
from its first instruction to its last with nothing in between. Addresses through DS are those
of the segment 0x1b; the message of `log_buf` is on the stack segment.
-/

namespace MockOs.Kernel

open X86

/-- The first instructions of the functions, and the `ret` of `log_buf`. -/
def addLoop : Nat := 0
def atomicAddTry : Nat := 9
def logBufEntry : Nat := 17
def logBufRet : Nat := 44
def syncEntry : Nat := 45
def syncReady : Nat := 56
def syncWriteEnd : Nat := 67
def syncNotCompleted : Nat := 72
def syncClean : Nat := 74
def syncRt : Nat := 76

/-- `nasm.asm:15-90` and `141-185`; `lb` is the address of `log_buffer`. -/
def logCode (lb : BitVec 32) : List Instr := [
  -- add_loop:
  .mov (.reg .eax) (.mem lb),
  .mov (.reg .ecx) (.reg .eax),
  .add (.reg .ecx) (.reg .edx),
  .cmp (.reg .ecx) (.imm 2048),
  .jcc .g atomicAddTry,
  .cmpxchg (.mem lb) .ecx,
  .jcc .nz addLoop,
  .mov (.reg .eax) (.reg .ecx),
  .ret,
  -- atomic_add_try:
  .pushf,
  .test (.stk .esp 0) (.imm 0x200),
  .add (.reg .esp) (.imm 4),
  .jcc .nz addLoop,
  .push (.reg .edx),
  .call syncEntry,
  .pop .edx,
  .jmp addLoop,
  -- log_buf:
  .push (.reg .ebp),
  .mov (.reg .ebp) (.reg .esp),
  .push (.reg .esi),
  .push (.reg .edi),
  .push (.reg .ds),
  .push (.reg .es),
  .mov16 .eax (.imm 0x1b),
  .mov16 .ds (.reg .eax),
  .mov (.reg .edx) (.stk .ebp 12),
  .call addLoop,
  .push (.reg .eax),
  .mov16 .eax (.reg .ss),
  .mov16 .ds (.reg .eax),
  .mov16 .eax (.imm 0x1b),
  .mov16 .es (.reg .eax),
  .mov (.reg .ecx) (.stk .ebp 12),
  .mov (.reg .esi) (.stk .ebp 8),
  .pop .edi,
  .add (.reg .edi) (.imm (lb + 16)),
  .sub (.reg .edi) (.reg .ecx),
  .cld,
  .repMovsb,
  -- .ret:
  .pop .es,
  .pop .ds,
  .pop .edi,
  .pop .esi,
  .pop .ebp,
  .ret,
  -- sync_log_buf_2:
  .push (.reg .ecx),
  .mov (.reg .ecx) (.mem lb),
  .sub (.reg .ecx) (.mem (lb + 8)),
  .test (.reg .ecx) (.reg .ecx),
  .jcc .z syncRt,
  .push (.reg .ebx),
  .mov (.reg .ebx) (.reg .ecx),
  .push (.reg .esi),
  .mov (.reg .esi) (.imm (lb + 16)),
  .add (.reg .esi) (.mem (lb + 8)),
  .mov16 .edx (.imm 0x3fd),
  -- .ready:
  .inAl,
  .testAl 0x20,
  .jcc .z syncWriteEnd,
  -- .write:
  .mov16 .edx (.imm 0x3f8),
  .movAl .esi,
  .cmpAx 0,
  .jcc .z syncWriteEnd,
  .outAl,
  .inc .esi,
  .mov16 .edx (.imm 0x3fd),
  .loop syncReady,
  -- .write_end:
  .test (.reg .ecx) (.reg .ecx),
  .jcc .nz syncNotCompleted,
  .mov (.mem lb) (.imm 0),
  .mov (.mem (lb + 8)) (.imm 0),
  .jmp syncClean,
  -- .not_completed:
  .sub (.reg .ebx) (.reg .ecx),
  .add (.mem (lb + 8)) (.reg .ebx),
  -- .clean:
  .pop .esi,
  .pop .ebx,
  -- .rt:
  .pop .ecx,
  .ret]

/-- `n` instructions. -/
def logRun (lb : BitVec 32) (port : Nat → BitVec 8) (n : Nat) (s : State) : State :=
  (State.step port (logCode lb))^[n] s

/-- `log_buffer` as the machine sees it. -/
def logOf (lb : BitVec 32) (s : State) : LogSys Unit where
  buf i := s.byte (lb + 16 + BitVec.ofNat 32 i)
  limit := (s.word lb).toNat
  offset := (s.word (lb + 8)).toNat
  writer _ := none
  msgs := []
  sent := s.sent

end MockOs.Kernel
