/-
Interrupts in 64-bit mode: the gates of the interrupt descriptor table,
the frame the processor pushes, and `iretq`.

# The frame

The processor rounds RSP down to a multiple of 16 and pushes SS, RSP,
RFLAGS, CS and RIP, then the error code of the exceptions that have one.
`frame` lists those five from RIP upwards. `iretq` takes the same five
from where RSP points, so it resumes the interrupted machine exactly when
RSP is back at the frame and the frame is untouched (`iretq_resumes`).
-/
import BootLoader.Cpu.Stack
import BootLoader.Cpu.Machine

namespace BootLoader

open FlatMemory Mem

-- ================================================================ gates

/-- A descriptor as the processor decodes it. -/
structure Gate where
  offset : BitVec 64
  selector : BitVec 16
  ist : BitVec 3
  flags : BitVec 8
  deriving DecidableEq, Repr

namespace Gate

/-- The sixteen bytes at `a`. -/
def decode (m : Mem) (a : BitVec 64) : Gate where
  offset := m.read32 (a + 8#64) ++ (m.read16 (a + 6#64) ++ m.read16 a)
  selector := m.read16 (a + 2#64)
  ist := (m (a + 4#64)).extractLsb' 0 3
  flags := m (a + 5#64)

def present (g : Gate) : Bool := g.flags.getLsbD 7

/-- The system type of a 64-bit interrupt gate. -/
def isInterrupt (g : Gate) : Bool := g.flags.extractLsb' 0 5 == 0xE#5

end Gate

-- ============================================================= the frame

namespace Machine

/-- RSP rounded down to a multiple of 16. -/
def frameBase (m : Machine) : BitVec 64 := m.cpu.reg .rsp &&& ~~~15#64

/-- What the processor pushes, from the last push upwards. -/
def frame (m : Machine) : List (BitVec 64) :=
  [m.rip, m.cs.setWidth 64, m.rflags, m.cpu.reg .rsp, m.ss.setWidth 64]

/-- TF, IF, NT, RF and VM, which an interrupt gate clears. -/
def gateFlags : BitVec 64 := 0x34300#64

/-- Delivery through gate `g`, with the error code if there is one. -/
def enter (m : Machine) (g : Gate) (error : Option (BitVec 64)) : Machine :=
  let c := m.cpu.set .rsp m.frameBase
  let c := c.pushImm (m.ss.setWidth 64)
  let c := c.pushImm (m.cpu.reg .rsp)
  let c := c.pushImm m.rflags
  let c := c.pushImm (m.cs.setWidth 64)
  let c := c.pushImm m.rip
  let c := match error with
    | none => c
    | some e => c.pushImm e
  { m with
    cpu := c
    rip := g.offset
    cs := g.selector
    rflags := m.rflags &&& ~~~gateFlags }

/-- `iretq`. -/
def iretq (m : Machine) : Machine :=
  let sp := m.cpu.reg .rsp
  let mem := m.cpu.mem
  { m with
    cpu := (m.cpu.reads sp 40).set .rsp (mem.read64 (sp + 24#64))
    rip := mem.read64 sp
    cs := (mem.read64 (sp + 8#64)).setWidth 16
    rflags := mem.read64 (sp + 16#64)
    ss := (mem.read64 (sp + 32#64)).setWidth 16 }

/-- The interrupted state is resumed: where it was, with its flags and
its registers. -/
structure Resumes (m m' : Machine) : Prop where
  rip : m'.rip = m.rip
  cs : m'.cs = m.cs
  rflags : m'.rflags = m.rflags
  ss : m'.ss = m.ss
  reg : m'.cpu.reg = m.cpu.reg

variable {m m' : Machine} {g : Gate} {error : Option (BitVec 64)}
  {b : BitVec 64}

theorem enter_reg {r : Reg} (h : r ≠ .rsp) :
    (m.enter g error).cpu.reg r = m.cpu.reg r := by
  unfold enter
  cases error <;> simp only [Cpu.pushImm_reg _ _ h, Cpu.set_reg_of_ne h]

/-- Where the frame starts. -/
theorem enter_rsp :
    (m.enter g error).cpu.reg .rsp
      = m.frameBase - 40#64 - BitVec.ofNat 64 (8 * error.toList.length) := by
  unfold enter
  cases error with
  | none =>
      simp only [Cpu.pushImm_rsp, Cpu.set_reg_self]
      apply BitVec.eq_of_toNat_eq
      simp only [BitVec.toNat_sub, BitVec.toNat_ofNat, Option.toList_none,
        List.length_nil]
      omega
  | some e =>
      simp only [Cpu.pushImm_rsp, Cpu.set_reg_self]
      apply BitVec.eq_of_toNat_eq
      simp only [BitVec.toNat_sub, BitVec.toNat_ofNat, Option.toList_some,
        List.length_cons, List.length_nil]
      omega

/-- The stack after the delivery. -/
theorem enter_holds :
    Holds (m.enter g error).cpu.mem ((m.enter g error).cpu.reg .rsp)
      (error.toList ++ m.frame) := by
  have h0 : Holds (m.cpu.set .rsp m.frameBase).mem
    ((m.cpu.set .rsp m.frameBase).reg .rsp) [] := trivial
  have h1 := Cpu.pushImm_holds h0 (by simp) (m.ss.setWidth 64)
  have h2 := Cpu.pushImm_holds h1 (by simp) (m.cpu.reg .rsp)
  have h3 := Cpu.pushImm_holds h2 (by simp) m.rflags
  have h4 := Cpu.pushImm_holds h3 (by simp) (m.cs.setWidth 64)
  have hframe := Cpu.pushImm_holds h4 (by simp) m.rip
  unfold enter
  cases error with
  | none => exact hframe
  | some e => exact Cpu.pushImm_holds hframe (by simp) e

/-- `iretq` at an interrupted machine's frame, with its other registers in
place, resumes it. -/
theorem iretq_resumes (h : Holds m'.cpu.mem (m'.cpu.reg .rsp) m.frame)
    (hreg : ∀ r, r ≠ .rsp → m'.cpu.reg r = m.cpu.reg r) :
    m.Resumes m'.iretq := by
  obtain ⟨hrip, hcs, hflags, hsp, hss, -⟩ := h
  simp only [BitVec.add_assoc, BitVec.reduceAdd] at hcs hflags hsp hss
  refine ⟨hrip, ?_, hflags, ?_, ?_⟩
  · show (m'.cpu.mem.read64 (m'.cpu.reg .rsp + 8#64)).setWidth 16 = m.cs
    rw [hcs]
    exact BitVec.setWidth_setWidth_of_le _ (by decide)
  · show (m'.cpu.mem.read64 (m'.cpu.reg .rsp + 32#64)).setWidth 16 = m.ss
    rw [hss]
    exact BitVec.setWidth_setWidth_of_le _ (by decide)
  · funext r
    show ((m'.cpu.reads _ 40).set .rsp _).reg r = _
    by_cases hr : r = .rsp
    · rw [hr, Cpu.set_reg_self]
      exact hsp
    · rw [Cpu.set_reg_of_ne hr]
      exact hreg r hr

end Machine

end BootLoader
