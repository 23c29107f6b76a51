/-
Interrupt set-up and dispatch of `third_stage/idt.asm`.

# The two tables

The interrupt descriptor table is 256 gates of 16 bytes at 0x40000, the
handler array 256 addresses at 0x41000. `setup_idt_entry` writes a gate
field by field, `register_idt_handler` an address.

# The stubs

A vector's stub pushes its number, over a zero where it takes the
processor to push no error code, and goes on to a common stub that saves
the registers, finds the handler by the number pushed, calls it or the
default one, and returns. What a handler does is not in this file:
`Handlers` gives, for the code at an address, its effect from the call to
the return. The addresses of the stubs are `Labels`, distinct as labels in
front of code are.
-/
import BootLoader.Lib.Loop
import BootLoader.Cpu.Interrupt
import BootLoader.ThirdStage.Pic

namespace BootLoader.ThirdStage

open FlatMemory

def IDT_BASE_ADDRESS : BitVec 64 := 0x40000#64

def IDT_HANDLERS_BASE_ADDRESS : BitVec 64 := 0x41000#64

def IDT_P_KERNEL_INTERRUPT_GATE : BitVec 8 := 0x8E#8

-- `struc IDT_ENTRY`
namespace IDT_ENTRY

def base_low : BitVec 64 := 0#64
def selector : BitVec 64 := 2#64
def reserved_ist : BitVec 64 := 4#64
def flags : BitVec 64 := 5#64
def base_mid : BitVec 64 := 6#64
def base_high : BitVec 64 := 8#64
def reserved : BitVec 64 := 12#64

end IDT_ENTRY

def IDT_DESCRIPTOR : Idtr := ⟨0x1000#16, IDT_BASE_ADDRESS⟩

/-- `load_idt_descriptor`. -/
def load_idt_descriptor (m : Machine) : Machine :=
  let m := m.run Cpu.pushaq
  let m := { m with idtr := IDT_DESCRIPTOR }
  m.run Cpu.popaq

-- ============================================================ the tables

/-- One store of `stosq`, with the direction flag clear. -/
def stosq (c : Cpu) : Cpu :=
  let c := c.store64 (c.reg .rdi) (c.reg .rax)
  let c := c.set .rdi (c.reg .rdi + 8#64)
  c.set .rcx (c.reg .rcx - 1#64)

/-- `rep stosq`: as often as RCX says. -/
def rep_stosq (c : Cpu) : Cpu := Loop.times stosq (c.reg .rcx).toNat c

/-- `init_idt`: clear 0x400 quadwords, the gates and what follows them up
to 0x42000. -/
def init_idt (c : Cpu) : Cpu :=
  let c := c.pushaq
  let c := c.set .rdi IDT_BASE_ADDRESS
  let c := c.set .rcx 0x400#64
  let c := c.set .rax 0#64
  let c := rep_stosq c
  c.popaq

/-- The store of `register_idt_handler`. -/
def register_idt_handler_body (c : Cpu) : Cpu :=
  let c := c.set .rdi (c.reg .rdi <<< 3)
  c.store64 (c.reg .rdi + IDT_HANDLERS_BASE_ADDRESS) (c.reg .rsi)

/-- `register_idt_handler`: interrupt number in RDI, address in RSI. -/
def register_idt_handler (c : Cpu) : Cpu :=
  (register_idt_handler_body c.pushaq).popaq

/-- The stores of `setup_idt_entry`. -/
def setup_idt_entry_body (c : Cpu) : Cpu :=
  let c := c.set .rdi (c.reg .rdi <<< 4)
  let c := c.set .rdi (c.reg .rdi + IDT_BASE_ADDRESS)
  let c := c.set .rax (c.reg .rsi)
  let c := c.setLow16 .rax (c.low16 .rax &&& 0xFFFF#16)
  let c := c.store16 (c.reg .rdi + IDT_ENTRY.base_low) (c.low16 .rax)
  let c := c.set .rax (c.reg .rsi)
  let c := c.set .rax (c.reg .rax >>> 16)
  let c := c.setLow16 .rax (c.low16 .rax &&& 0xFFFF#16)
  let c := c.store16 (c.reg .rdi + IDT_ENTRY.base_mid) (c.low16 .rax)
  let c := c.set .rax (c.reg .rsi)
  let c := c.set .rax (c.reg .rax >>> 32)
  let c := c.set .rax ((c.low32 .rax &&& 0xFFFFFFFF#32).setWidth 64)
  let c := c.store32 (c.reg .rdi + IDT_ENTRY.base_high) (c.low32 .rax)
  let c := c.store8 (c.reg .rdi + IDT_ENTRY.selector) 0x8#8
  let c := c.store8 (c.reg .rdi + IDT_ENTRY.reserved_ist) 0x0#8
  let c := c.store32 (c.reg .rdi + IDT_ENTRY.reserved) 0x0#32
  c.store8 (c.reg .rdi + IDT_ENTRY.flags) IDT_P_KERNEL_INTERRUPT_GATE

/-- `setup_idt_entry`: interrupt number in RDI, address in RSI. -/
def setup_idt_entry (c : Cpu) : Cpu :=
  (setup_idt_entry_body c.pushaq).popaq

/-- `mov rsi, label`, `mov rdi, n` and `call setup_idt_entry`. -/
def setup_entry (label n : BitVec 64) (c : Cpu) : Cpu :=
  setup_idt_entry ((c.set .rsi label).set .rdi n)

/-- A call of one of the two, with its number and address. -/
inductive IdtCall
  | setup (n : Fin 256) (h : BitVec 64)
  | register (n : Fin 256) (h : BitVec 64)
  deriving DecidableEq, Repr

def IdtCall.run (c : Cpu) : IdtCall → Cpu
  | .setup n h => setup_entry h (BitVec.ofNat 64 n) c
  | .register n h =>
      register_idt_handler ((c.set .rsi h).set .rdi (BitVec.ofNat 64 n))

/-- A sequence of calls, each from the registers its caller has then. -/
def idt_calls (c : Cpu) (calls : List ((Reg → BitVec 64) × IdtCall)) :
    Cpu :=
  calls.foldl (fun c x => x.2.run { c with reg := x.1 }) c

-- ============================================================= the stubs

/-- What the code at an address does from its call to its return. -/
abbrev Handlers := BitVec 64 → Machine → Machine

/-- `idt_default_handler`. -/
def idt_default_handler (c : Cpu) : Cpu := c.pushaq.popaq

/-- Both common stubs, up to the test of the handler's address. -/
def stub_entry (m : Machine) : Machine :=
  let m := m.run Cpu.pushaq
  let m := m.cli
  let m := m.set .rdi (m.cpu.reg .rsp)
  let m := m.run fun c => c.load64 .rax (c.reg .rdi + 120#64)
  let m := m.set .rax (m.cpu.reg .rax <<< 3)
  m.run fun c => c.load64 .rax (IDT_HANDLERS_BASE_ADDRESS + c.reg .rax)

/-- `isr_common_stub` from the test to `.out`. -/
def isr_call (handler : Handlers) (m : Machine) : Machine :=
  if m.cpu.reg .rax = 0#64 then m.run idt_default_handler
  else handler (m.cpu.reg .rax) m

/-- `irq_common_stub` from the test to `.out`: the end of interrupt goes
to both controllers after a registered handler. -/
def irq_call (handler : Handlers) (m : Machine) : Machine :=
  if m.cpu.reg .rax = 0#64 then m.run idt_default_handler
  else
    let m := handler (m.cpu.reg .rax) m
    let m := out_byte 0x20#8 MASTER_PIC_COMMAND_PORT m
    m.outAl SLAVE_PIC_COMMAND_PORT

/-- Both common stubs from `.out` up to `iretq`. -/
def stub_exit (m : Machine) : Machine :=
  let m := m.run Cpu.popaq
  let m := m.set .rsp (m.cpu.reg .rsp + 16#64)
  m.sti

/-- `isr_common_stub` up to its `iretq`. -/
def isr_common_stub (handler : Handlers) (m : Machine) : Machine :=
  stub_exit (isr_call handler (stub_entry m))

/-- `irq_common_stub` up to its `iretq`. -/
def irq_common_stub (handler : Handlers) (m : Machine) : Machine :=
  stub_exit (irq_call handler (stub_entry m))

/-- The two macros for exceptions. -/
inductive IsrMacro
  | ISR_NOERRCODE | ISR_ERRCODE
  deriving DecidableEq, Repr

/-- What a macro's code does before the jump to the common stub. -/
def IsrMacro.pushes (v : BitVec 64) (m : Machine) : IsrMacro → Machine
  | .ISR_NOERRCODE =>
      ((m.cli).run fun c => c.pushImm 0#64).run fun c => c.pushImm v
  | .ISR_ERRCODE => (m.cli).run fun c => c.pushImm v

open IsrMacro in
/-- The macro of each exception, in the order of the source. -/
def isr_macros : List IsrMacro :=
  [ISR_NOERRCODE, ISR_NOERRCODE, ISR_NOERRCODE, ISR_NOERRCODE,
   ISR_NOERRCODE, ISR_NOERRCODE, ISR_NOERRCODE, ISR_NOERRCODE,
   ISR_ERRCODE, ISR_NOERRCODE, ISR_ERRCODE, ISR_ERRCODE,
   ISR_ERRCODE, ISR_ERRCODE, ISR_ERRCODE, ISR_NOERRCODE,
   ISR_NOERRCODE, ISR_NOERRCODE, ISR_NOERRCODE, ISR_NOERRCODE,
   ISR_NOERRCODE, ISR_NOERRCODE, ISR_NOERRCODE, ISR_NOERRCODE,
   ISR_NOERRCODE, ISR_NOERRCODE, ISR_NOERRCODE, ISR_NOERRCODE,
   ISR_NOERRCODE, ISR_NOERRCODE, ISR_NOERRCODE, ISR_NOERRCODE]

def isr_kind (v : Fin 32) : IsrMacro := isr_macros.get (v.cast rfl)

/-- `isrN` up to its `iretq`. -/
def isr (handler : Handlers) (v : Fin 32) (m : Machine) : Machine :=
  isr_common_stub handler
    ((isr_kind v).pushes (BitVec.ofNat 64 v) m)

/-- The vector each line's stub pushes, in the order of the source. -/
def irq_vectors : List (BitVec 64) :=
  [32, 33, 34, 35, 36, 37, 38, 39, 40, 41, 42, 43, 44, 45, 46, 47]

/-- The `IRQ` macro before its jump. -/
def irq_pushes (k : Fin 16) (m : Machine) : Machine :=
  ((m.cli).run fun c => c.pushImm 0#64).run fun c =>
    c.pushImm (irq_vectors.get (k.cast rfl))

/-- `irqN` up to its `iretq`. -/
def irq (handler : Handlers) (k : Fin 16) (m : Machine) : Machine :=
  irq_common_stub handler (irq_pushes k m)

-- ============================================================= the labels

/-- The stubs of the table. -/
inductive Stub
  | isr (v : Fin 32) | irq (k : Fin 16) | isr255
  deriving DecidableEq, Repr

/-- The code of a stub, `iretq` included. -/
def Stub.run (handler : Handlers) (m : Machine) : Stub → Machine
  | .isr v => (ThirdStage.isr handler v m).iretq
  | .irq k => (ThirdStage.irq handler k m).iretq
  | .isr255 => m.iretq

structure Labels where
  addr : Stub → BitVec 64
  distinct : Function.Injective addr

def stubs : List Stub :=
  (List.finRange 32).map Stub.isr ++ (List.finRange 16).map Stub.irq
    ++ [Stub.isr255]

/-- The stub whose code starts at `a`. -/
def Labels.at (l : Labels) (a : BitVec 64) : Option Stub :=
  stubs.find? fun s => l.addr s == a

/-- Delivery of vector `v`: the gate the IDTR leads to, the frame, and the
stub at the gate's offset. There is no result where the processor finds no
usable gate, or one that leads elsewhere. -/
def deliver (l : Labels) (handler : Handlers) (m : Machine)
    (v : BitVec 8) (error : Option (BitVec 64)) : Option Machine :=
  if m.idtr.limit.toNat < 16 * v.toNat + 15 then none
  else
    let g := Gate.decode m.cpu.mem
      (m.idtr.base + BitVec.ofNat 64 (16 * v.toNat))
    if g.present && g.isInterrupt && g.ist == 0#3 then
      (l.at g.offset).map fun s => s.run handler (m.enter g error)
    else none

/-- Line `k` of the controllers: acknowledge it, deliver its vector. -/
def interrupt (l : Labels) (handler : Handlers) (m : Machine)
    (k : Fin 16) : Option Machine :=
  deliver l handler { m with pic := m.pic.acknowledge k }
    (m.pic.vector k) none

-- ============================================================= the set-up

/-- The calls of `setup_idt_irqs`. -/
def idt_irqs : List (Fin 16 × BitVec 64) :=
  [(0, 32), (1, 33), (2, 34), (3, 35), (4, 36), (5, 37), (6, 38), (7, 39),
   (8, 40), (9, 41), (10, 42), (11, 43), (12, 44), (13, 45), (14, 46),
   (15, 47)]

/-- `setup_idt_irqs`. -/
def setup_idt_irqs (l : Labels) (c : Cpu) : Cpu :=
  (idt_irqs.foldl (fun c e => setup_entry (l.addr (.irq e.1)) e.2 c)
    c.pushaq).popaq

/-- The calls of `setup_idt_exceptions`. -/
def idt_exceptions : List (Fin 32 × BitVec 64) :=
  [(0, 0), (1, 1), (2, 2), (3, 3), (4, 4), (5, 5), (6, 6), (7, 7), (8, 8),
   (9, 9), (10, 10), (11, 11), (12, 12), (13, 13), (14, 14), (15, 15),
   (16, 16), (17, 17), (18, 18), (19, 19), (20, 20), (21, 21), (22, 22),
   (23, 23), (24, 24), (25, 25), (26, 26), (27, 27), (28, 28), (29, 29),
   (30, 30), (31, 31)]

/-- `setup_idt_exceptions`. -/
def setup_idt_exceptions (l : Labels) (c : Cpu) : Cpu :=
  (idt_exceptions.foldl (fun c e => setup_entry (l.addr (.isr e.1)) e.2 c)
    c.pushaq).popaq

/-- One round of `.setup_idt_loop`. -/
def setup_idt_round (m : Machine) : Machine :=
  let m := m.set .rdi (m.cpu.reg .rcx)
  let m := set_irq_mask m
  m.set .rcx (m.cpu.reg .rcx + 1#64)

/-- `.setup_idt_loop`: mask every line. -/
def setup_idt_loop (m : Machine) : Machine :=
  Loop.doWhile (fun m => m.cpu.reg .rcx != 16#64) setup_idt_round 16 m

/-- `setup_idt`. -/
def setup_idt (l : Labels) (m : Machine) : Machine :=
  let m := m.run Cpu.pushaq
  let m := m.cli
  let m := configure_pic m
  let m := m.set .rcx 0x0#64
  let m := setup_idt_loop m
  let m := m.run (setup_idt_exceptions l)
  let m := m.run (setup_idt_irqs l)
  let m := m.run (setup_entry (l.addr .isr255) 255#64)
  let m := load_idt_descriptor m
  let m := m.set .rdi 0x0#64
  let m := clear_irq_mask m
  let m := m.sti
  m.run Cpu.popaq

end BootLoader.ThirdStage
