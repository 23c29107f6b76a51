/-
A register access of the network driver, seen from the card and seen one
instruction at a time.

# The window

The card's registers are a file indexed by offset. A card in memory has the
file at `e1000_vaddress`. A card behind ports has two of them: what is
written to the first is the offset the second works on. `writeOn` and
`readOn` run `e1000_write_command` and `e1000_read_command` and hand the
card what they write before it answers.

# The instructions

`writeAccess` and `readAccess` are the driver's accesses to a card in
memory, one function an instruction. `e1000_int_handler` may run between
any two of them: `interruption` is one such run, from the frame the
processor pushes to the return from the stub.
-/
import Mathlib.Logic.Function.Basic
import BootLoader.ThirdStage.NicService
import BootLoader.ThirdStage.Idt

namespace BootLoader.ThirdStage

open FlatMemory Mem

variable {L : Layout}

-- ============================================================== the window

/-- The card's registers, and the offset last written to its address
port. -/
structure Window where
  file : BitVec 32 → BitVec 32
  latch : BitVec 32

namespace Window

/-- The register at an address or behind a port. -/
def offset (v a : BitVec 64) : BitVec 32 := (a - v).setWidth 32

/-- The card with its ports at `io`, its file at `v`, takes a write. -/
def take (io : BitVec 16) (v : BitVec 64) (c : Window) (w : DeviceWrite) :
    Window :=
  match w.addr with
  | .port q =>
      if q = io then { c with latch := w.value }
      else if q = io + 4#16 then
        { c with file := Function.update c.file c.latch w.value }
      else c
  | .mmio a => { c with file := Function.update c.file (offset v a) w.value }

/-- What a read gives; `other` answers at the ports that are not the
card's. -/
def answer (io : BitVec 16) (v : BitVec 64) (other : BitVec 16 → BitVec 32)
    (c : Window) : DeviceAddr → BitVec 32
  | .port q => if q = io + 4#16 then c.file c.latch else other q
  | .mmio a => c.file (offset v a)

end Window

variable (l : NicLabels L)

/-- The card after what the driver wrote from `s` to `s'`. -/
def takenSince (s s' : Nic) (c : Window) : Window :=
  (s'.since s).foldl (Window.take (s.cpu.mem.read16 l.e1000_io_base)
    (s.cpu.mem.read64 l.e1000_vaddress)) c

/-- `e1000_write_command` and the card. -/
def writeOn (s : Nic) (c : Window) : Nic × Window :=
  let s' := e1000_write_command l s
  (s', takenSince l s s' c)

/-- Where `e1000_read_command` reads. -/
def readSource (m : Mem) : DeviceAddr :=
  if m l.e1000_ioport_flag = 0x1#8 then
    .port (m.read16 (l.e1000_io_base + 4#64))
  else
    .mmio ((m.read16 l.e1000_rw_address).setWidth 64
      + m.read64 l.e1000_vaddress)

/-- `e1000_read_command` and the card. -/
def readOn (other : BitVec 16 → BitVec 32) (s : Nic) (c : Window) :
    Nic × Window :=
  -- what the command writes does not depend on the answer
  let c := takenSince l s (e1000_read_command l 0#32 s) c
  let a := c.answer (s.cpu.mem.read16 l.e1000_io_base)
    (s.cpu.mem.read64 l.e1000_vaddress) other (readSource l s.cpu.mem)
  (e1000_read_command l a s, c)

-- ======================================================== the instructions

/-- One instruction on the way to a card in memory. There is no result
where it leaves that way. -/
abbrev Instr := Nic → Option Nic

/-- An instruction of the processor alone. -/
def Instr.cpu (f : Cpu → Cpu) : Instr := fun s => some (s.run f)

/-- Instructions one after another. -/
def steps (is : List Instr) (s : Nic) : Option Nic :=
  is.foldlM (fun s i => i s) s

/-- `pushaq`, `cmp byte [e1000_ioport_flag], 0x1` and `je .use_ports`. The
comparison changes the flags only. -/
def commandEntry : List Instr :=
  (Cpu.pushaqOrder.map fun r => Instr.cpu (Cpu.push · r))
    ++ [Instr.cpu id,
      fun s => if s.cpu.mem l.e1000_ioport_flag = 0x1#8 then none else some s]

/-- `jmp .quit` and `popaq`. -/
def commandExit : List Instr :=
  Instr.cpu id :: Cpu.pushaqOrder.reverse.map fun r => Instr.cpu (Cpu.pop · r)

/-- `xor rax, rax` and `mov ax, word [e1000_rw_address]`. -/
def loadAddress : List Instr :=
  [Instr.cpu fun c => c.set .rax 0#64,
    Instr.cpu fun c => load16 c .rax l.e1000_rw_address]

/-- `add rax, [e1000_vaddress]` and `xor rbx, rbx`. -/
def addBase : List Instr :=
  [Instr.cpu fun c => c.set .rax (c.reg .rax + c.mem.read64 l.e1000_vaddress),
    Instr.cpu fun c => c.set .rbx 0#64]

/-- `mov ebx, [rax]`, from the card. -/
def loadCard (card : BitVec 64 → BitVec 32) : Instr :=
  Instr.cpu fun c =>
    (c.reads (c.reg .rax) 4).set .rbx ((card (c.reg .rax)).setWidth 64)

/-- `e1000_read_command`. -/
def readCommand (card : BitVec 64 → BitVec 32) : List Instr :=
  commandEntry l ++ loadAddress l ++ addBase l
    ++ [loadCard card,
      Instr.cpu fun c => c.store32 l.e1000_rw_data (c.low32 .rbx)]
    ++ commandExit

/-- Line `n` taken through gate `g` with `x` as the rest of the machine: the
processor's frame, the stub's saves, `e1000_int_handler`, and the registers
as they were, which the stub and `iretq` take from the stack. -/
def interruption (l : ServiceLabels L) (x : Machine) (g : Gate) (n : Fin 16)
    (cause : BitVec 32) (between : Dma) (head : BitVec 32)
    (rounds : List Arrival) (s : Nic) : Option Nic :=
  let e := stub_entry (irq_pushes n ({ x with cpu := s.cpu }.enter g none))
  (e1000_int_handler l cause between head rounds { s with cpu := e.cpu }).map
    fun r => { r.1 with cpu := { r.1.cpu with reg := s.cpu.reg } }

end BootLoader.ThirdStage
