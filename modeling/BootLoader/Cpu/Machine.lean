/-
The processor with what surrounds it: the interrupt controllers, the other
I/O ports, and the registers an interrupt saves beside the general ones.

`other` is what the ports without a model answer. The arithmetic flags are
not tracked: RFLAGS is what the last `iretq` loaded, up to the interrupt
flag, which `cli`, `sti` and an interrupt gate change.
-/
import BootLoader.Lib.Pic8259
import BootLoader.Cpu.Long

namespace BootLoader

/-- The interrupt descriptor table register. -/
structure Idtr where
  limit : BitVec 16
  base : BitVec 64
  deriving DecidableEq, Repr

structure Machine where
  cpu : Cpu
  pic : Pic8259.Pair
  other : BitVec 16 → BitVec 8
  idtr : Idtr
  rip : BitVec 64
  rflags : BitVec 64
  cs : BitVec 16
  ss : BitVec 16

namespace Machine

/-- Code that uses the processor only. -/
def run (m : Machine) (f : Cpu → Cpu) : Machine := { m with cpu := f m.cpu }

/-- `mov r, v`. -/
def set (m : Machine) (r : Reg) (v : BitVec 64) : Machine :=
  m.run fun c => c.set r v

/-- `in eax, dx`. -/
def inEax (m : Machine) : Machine :=
  m.set .rax ((m.pic.ind m.other (m.cpu.low16 .rdx)).setWidth 64)

/-- `out dx, eax`. -/
def outEax (m : Machine) : Machine :=
  { m with
    pic := m.pic.outd (m.cpu.low16 .rdx) ((m.cpu.reg .rax).setWidth 32) }

/-- `out port, al`. -/
def outAl (m : Machine) (port : BitVec 16) : Machine :=
  { m with pic := m.pic.outb port (m.cpu.low8 .rax) }

/-- The interrupt flag. -/
def interruptFlag : BitVec 64 := 0x200#64

def cli (m : Machine) : Machine :=
  { m with rflags := m.rflags &&& ~~~interruptFlag }

def sti (m : Machine) : Machine :=
  { m with rflags := m.rflags ||| interruptFlag }

@[simp] theorem run_cpu (m : Machine) (f : Cpu → Cpu) :
    (m.run f).cpu = f m.cpu := rfl

@[simp] theorem run_pic (m : Machine) (f : Cpu → Cpu) :
    (m.run f).pic = m.pic := rfl

@[simp] theorem run_other (m : Machine) (f : Cpu → Cpu) :
    (m.run f).other = m.other := rfl

@[simp] theorem cli_cpu (m : Machine) : m.cli.cpu = m.cpu := rfl

@[simp] theorem cli_pic (m : Machine) : m.cli.pic = m.pic := rfl

@[simp] theorem sti_cpu (m : Machine) : m.sti.cpu = m.cpu := rfl

@[simp] theorem sti_pic (m : Machine) : m.sti.pic = m.pic := rfl

@[simp] theorem set_cpu (m : Machine) (r : Reg) (v : BitVec 64) :
    (m.set r v).cpu = m.cpu.set r v := rfl

@[simp] theorem set_pic (m : Machine) (r : Reg) (v : BitVec 64) :
    (m.set r v).pic = m.pic := rfl

@[simp] theorem set_other (m : Machine) (r : Reg) (v : BitVec 64) :
    (m.set r v).other = m.other := rfl

end Machine

end BootLoader
