/-
The memory test: `tester` of `third_stage/big_page_table.asm`.

It writes a 5 to every byte from the address R15 holds up to 0x10019FC00
and reads each back, twice. What a byte reads back as is the memory's
affair: `stuck a` is the value a faulty byte returns whatever is written
to it, and a sound memory has `stuck a = none` everywhere.
-/
import BootLoader.Lib.Loop
import BootLoader.Cpu.Long

namespace BootLoader.ThirdStage

open FlatMemory

/-- What the byte at `a` reads back as. -/
def readBack (stuck : BitVec 64 → Option (BitVec 8)) (m : Mem)
    (a : BitVec 64) : BitVec 8 :=
  (stuck a).getD (m a)

/-- The machine in the test, and whether it went to `error_msg`. -/
structure Testing where
  cpu : Cpu
  error_msg : Bool

/-- One round at `test`: write, read, compare, move on. -/
def test (stuck : BitVec 64 → Option (BitVec 8)) (t : Testing) : Testing :=
  let c := t.cpu
  let a := c.reg .rax
  let c := c.store8 a 0x5#8
  let c := (c.reads a 1).setLow8 .rcx (readBack stuck c.mem a)
  let c := c.reads a 1
  if c.low8 .rcx ≠ readBack stuck c.mem a then
    { cpu := c, error_msg := true }
  else { cpu := c.set .rax (a + 1#64), error_msg := false }

/-- No `jne error_msg` and no `jg out`. -/
def goesOn (t : Testing) : Bool :=
  !t.error_msg && !(t.cpu.reg .rbx).slt (t.cpu.reg .rax)

/-- `tester` up to its loop. -/
def tester_start (c : Cpu) : Cpu :=
  let c := c.pushaq
  let c := c.set .rbx 0x10019FC00#64
  let c := c.set .rax (c.reg .r15)
  c.set .r15 (c.reg .r15 + 0x100#64)

/-- `tester` up to `out`; no start address gives more rounds than there
are addresses. -/
def testing (stuck : BitVec 64 → Option (BitVec 8)) (c : Cpu) : Testing :=
  Loop.doWhile goesOn (test stuck) (2 ^ 64)
    { cpu := tester_start c, error_msg := false }

/-- `tester`. -/
def tester (stuck : BitVec 64 → Option (BitVec 8)) (c : Cpu) : Cpu :=
  (testing stuck c).cpu.popaq

end BootLoader.ThirdStage
