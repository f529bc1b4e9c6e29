import MockOs.Misc.CString
import MockOs.Misc.StringOps

/-!
# The string functions (`include/string.h`)

Each function is one `asm` statement, run from the registers that its operands are put into; the
operand `%4` of some of them is the argument itself. The machine is left as the statement leaves
it, with the result in one of the registers.
-/

namespace MockOs.StringH

open StringOps

/-- An `asm` statement: its lines and what is put into the registers before. -/
structure Asm where
  code : List Instr
  load : State → State

/-- The statement, started in `s`, ends in a state with `Q`. -/
def Asm.Ends (f : Asm) (s : State) (Q : State → Prop) : Prop := StringOps.Ends f.code 0 (f.load s) Q

/-- `strcpy` (`string.h:27-37`). -/
def strcpy (dest src : BitVec 32) : Asm where
  code := [
    .cld,
    -- 1:
    .lodsb,
    .stosb,
    .testAl,
    .jcc .ne 1]
  load s := { s with esi := src, edi := dest }

/-- `strncpy` (`string.h:39-54`). -/
def strncpy (dest src count : BitVec 32) : Asm where
  code := [
    .cld,
    -- 1:
    .dec .ecx,
    .jcc .s 8,
    .lodsb,
    .stosb,
    .testAl,
    .jcc .ne 1,
    .repStosb]
  load s := { s with esi := src, edi := dest, ecx := count }

/-- `strcat` (`string.h:56-69`). -/
def strcat (dest src : BitVec 32) : Asm where
  code := [
    .cld,
    .repneScasb,
    .dec .edi,
    -- 1:
    .lodsb,
    .stosb,
    .testAl,
    .jcc .ne 3]
  load s := { s with esi := src, edi := dest, eax := 0, ecx := 0xffffffff }

/-- `strncat` (`string.h:71-89`). -/
def strncat (dest src count : BitVec 32) : Asm where
  code := [
    .cld,
    .repneScasb,
    .dec .edi,
    .movImm .ecx count,
    -- 1:
    .dec .ecx,
    .jcc .s 10,
    .lodsb,
    .stosb,
    .testAl,
    .jcc .ne 4,
    -- 2:
    .xor .eax,
    .stosb]
  load s := { s with esi := src, edi := dest, eax := 0, ecx := 0xffffffff }

/-- `strcmp` (`string.h:91-109`), with the result in EAX. -/
def strcmp (cs ct : BitVec 32) : Asm where
  code := [
    .cld,
    -- 1:
    .lodsb,
    .scasb,
    .jcc .ne 8,
    .testAl,
    .jcc .ne 1,
    .xor .eax,
    .jmp 11,
    -- 2:
    .movImm .eax 1,
    .jcc .l 11,
    .neg .eax]
  load s := { s with edi := cs, esi := ct }

/-- `strncmp` (`string.h:111-131`), with the result in EAX. -/
def strncmp (cs ct count : BitVec 32) : Asm where
  code := [
    .cld,
    -- 1:
    .dec .ecx,
    .jcc .s 8,
    .lodsb,
    .scasb,
    .jcc .ne 10,
    .testAl,
    .jcc .ne 1,
    -- 2:
    .xor .eax,
    .jmp 13,
    -- 3:
    .movImm .eax 1,
    .jcc .l 13,
    .neg .eax]
  load s := { s with edi := cs, esi := ct, ecx := count }

/-- `strchr` (`string.h:133-149`), with the result in EAX. -/
def strchr (p : BitVec 32) (c : BitVec 8) : Asm where
  code := [
    .cld,
    .movAh,
    -- 1:
    .lodsb,
    .cmpAh,
    .jcc .e 8,
    .testAl,
    .jcc .ne 2,
    .movImm .esi 1,
    -- 2:
    .mov .eax .esi,
    .dec .eax]
  load s := { s.setAl c with esi := p }

/-- `strrchr` (`string.h:151-166`), with the result in EDX. -/
def strrchr (p : BitVec 32) (c : BitVec 8) : Asm where
  code := [
    .cld,
    .movAh,
    -- 1:
    .lodsb,
    .cmpAh,
    .jcc .ne 7,
    .mov .edx .esi,
    .dec .edx,
    -- 2:
    .testAl,
    .jcc .ne 2]
  load s := { s.setAl c with edx := 0, esi := p }

/-- `strspn` and `strcspn` have the same lines but for the last jump; the result is ESI less `cs`. -/
def span (c : Cond) (cs ct : BitVec 32) : Asm where
  code := [
    .cld,
    .movImm .edi ct,
    .repneScasb,
    .not .ecx,
    .dec .ecx,
    .mov .edx .ecx,
    -- 1:
    .lodsb,
    .testAl,
    .jcc .e 13,
    .movImm .edi ct,
    .mov .ecx .edx,
    .repneScasb,
    .jcc c 6,
    -- 2:
    .dec .esi]
  load s := { s with eax := 0, ecx := 0xffffffff, esi := cs }

/-- `strspn` (`string.h:168-190`). -/
def strspn (cs ct : BitVec 32) : Asm := span .e cs ct

/-- `strcspn` (`string.h:192-214`). -/
def strcspn (cs ct : BitVec 32) : Asm := span .ne cs ct

/-- `strpbrk` (`string.h:216-241`), with the result in ESI. -/
def strpbrk (cs ct : BitVec 32) : Asm where
  code := [
    .cld,
    .movImm .edi ct,
    .repneScasb,
    .not .ecx,
    .dec .ecx,
    .mov .edx .ecx,
    -- 1:
    .lodsb,
    .testAl,
    .jcc .e 15,
    .movImm .edi ct,
    .mov .ecx .edx,
    .repneScasb,
    .jcc .ne 6,
    .dec .esi,
    .jmp 16,
    -- 2:
    .xor .esi]
  load s := { s with eax := 0, ecx := 0xffffffff, esi := cs }

/-- `strstr` (`string.h:243-268`), with the result in EAX. -/
def strstr (cs ct : BitVec 32) : Asm where
  code := [
    .cld,
    .movImm .edi ct,
    .repneScasb,
    .not .ecx,
    .dec .ecx,
    .mov .edx .ecx,
    -- 1:
    .movImm .edi ct,
    .mov .eax .esi,
    .mov .ecx .edx,
    .repeCmpsb,
    .jcc .e 16,
    .xchg .eax .esi,
    .inc .esi,
    .cmpZero .eax (-1),
    .jcc .ne 6,
    .xor .eax]
  load s := { s with eax := 0, ecx := 0xffffffff, esi := cs }

/-- `strlen` (`string.h:270-281`), with the result in ECX. -/
def strlen (p : BitVec 32) : Asm where
  code := [
    .cld,
    .repneScasb,
    .not .ecx,
    .dec .ecx]
  load s := { s with edi := p, eax := 0, ecx := 0xffffffff }

/-- `strtok` (`string.h:285-342`) with `saved` in `___strtok`. The result is in EBX, and ESI goes
into `___strtok`. -/
def strtok (saved p ct : BitVec 32) : Asm where
  code := [
    .test .esi,
    .jcc .ne 5,
    .test .ebx,
    .jcc .e 46,
    .mov .esi .ebx,
    -- 1:
    .xor .ebx,
    .movImm .ecx (-1),
    .xor .eax,
    .cld,
    .movImm .edi ct,
    .repneScasb,
    .not .ecx,
    .dec .ecx,
    .jcc .e 43,
    .mov .edx .ecx,
    -- 2:
    .lodsb,
    .testAl,
    .jcc .e 43,
    .movImm .edi ct,
    .mov .ecx .edx,
    .repneScasb,
    .jcc .e 15,
    .dec .esi,
    .cmpZero .esi 0,
    .jcc .e 43,
    .mov .ebx .esi,
    -- 3:
    .lodsb,
    .testAl,
    .jcc .e 39,
    .movImm .edi ct,
    .mov .ecx .edx,
    .repneScasb,
    .jcc .ne 26,
    .dec .esi,
    .cmpZero .esi 0,
    .jcc .e 39,
    .storeZero .esi,
    .inc .esi,
    .jmp 40,
    -- 5:
    .xor .esi,
    -- 6:
    .cmpZero .ebx 0,
    .jcc .ne 43,
    .xor .ebx,
    -- 7:
    .test .ebx,
    .jcc .ne 46,
    .mov .esi .ebx]
  load s := { s with ebx := saved, esi := p }

/-- `memcpy` (`string.h:344-352`). -/
def memcpy (dest src n : BitVec 32) : Asm where
  code := [.cld, .repMovsb]
  load s := { s with ecx := n, esi := src, edi := dest }

/-- `memmove` (`string.h:354-369`). -/
def memmove (dest src n : BitVec 32) : Asm :=
  if dest < src then
    { code := [.cld, .repMovsb], load := fun s => { s with ecx := n, esi := src, edi := dest } }
  else
    { code := [.std, .repMovsb], load := fun s => { s with ecx := n, esi := src + n - 1, edi := dest + n - 1 } }

/-- `memcmp` (`string.h:371-385`), with the result in EAX. -/
def memcmp (cs ct count : BitVec 32) : Asm where
  code := [
    .cld,
    .repeCmpsb,
    .jcc .e 6,
    .movImm .eax 1,
    .jcc .l 6,
    .neg .eax]
  load s := { s with eax := 0, edi := cs, esi := ct, ecx := count }

/-- `memchr` (`string.h:387-401`), with the result in EDI. Without characters the function returns
before the statement. -/
def memchr (cs : BitVec 32) (c : BitVec 8) (count : BitVec 32) : Asm :=
  if count = 0 then { code := [], load := fun s => { s with edi := 0 } }
  else
    { code := [
        .cld,
        .repneScasb,
        .jcc .e 4,
        .movImm .edi 1,
        -- 1:
        .dec .edi]
      load := fun s => { s.setAl c with edi := cs, ecx := count } }

/-- `memset` (`string.h:403-411`). -/
def memset (p : BitVec 32) (c : BitVec 8) (count : BitVec 32) : Asm where
  code := [.cld, .repStosb]
  load s := { s.setAl c with edi := p, ecx := count }

end MockOs.StringH
