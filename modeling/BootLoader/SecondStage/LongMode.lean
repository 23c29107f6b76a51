/-
The end of the second stage: `pic.asm`, `idt.asm`, `video.asm`, `gdt.asm`
and `longmode.asm`, and the 64-bit code of `second_stage.asm`.

# The machine

`Machine` is the PC with the registers that only this part uses: the
control registers, the interrupt table's, the limit of DS, and the ports
written. In real mode the limit is whatever was last cached, so it is
state that the BIOS leaves.

# Stops

Where an instruction faults the processor looks for a handler. After
`load_idt_descriptor` there is none, so a fault is the end (`Halt.fault`).
Instructions are not fetched from memory, but once paging is on the code
goes on only where the address of the next instruction is its own
translation (`fetch`).
-/
import BootLoader.Lib.ModeSwitch
import BootLoader.SecondStage.LongModeCheck

namespace BootLoader.SecondStage

open FlatMemory Segment RealMode FirstStage ModeSwitch

variable {ω : Type _}

-- ============================================================ the machine

/-- How the second stage ends before it reaches the third. -/
inductive Halt
  | stop (s : Stop)
  | fault (f : Fault)
  deriving DecidableEq, Repr

abbrev Result := Except Halt

structure Machine (ω : Type _) where
  pc : Pc ω
  control : Control
  idtBase : BitVec 32
  idtLimit : BitVec 16
  dsLimit : BitVec 32
  ports : List (BitVec 16 × BitVec 8)

namespace Machine

/-- Instructions of the PC alone. -/
def step (f : Pc ω → Pc ω) (s : Machine ω) : Machine ω :=
  { s with pc := f s.pc }

/-- A routine of the PC alone. -/
def run (f : Pc ω → Outcome (Pc ω)) (s : Machine ω) : Result (Machine ω) :=
  match f s.pc with
  | .ok c => .ok { s with pc := c }
  | .error e => .error (.stop e)

/-- `call f`, with `back` the address of the instruction after it. -/
def call (back : BitVec 16) (f : Machine ω → Result (Machine ω))
    (s : Machine ω) : Result (Machine ω) := do
  let s ← f (s.step fun c => c.push back)
  if s.pc.ip = back then .ok s else .error (.stop .astray)

/-- `out port, al`. -/
def out (port : BitVec 16) (s : Machine ω) : Machine ω :=
  { s with ports := s.ports ++ [(port, s.pc.low8 .ax)] }

/-- The byte at the 32-bit offset `o` of DS. -/
def far (c : Pc ω) (o : BitVec 32) : BitVec 64 :=
  BitVec.ofNat 64 (16 * (c.seg .ds).toNat + o.toNat)

/-- `mov byte [o], v`, with a 32-bit offset. -/
def put8 (o : BitVec 32) (v : BitVec 8) (s : Machine ω) :
    Result (Machine ω) :=
  if s.dsLimit.toNat < o.toNat then .error (.fault .generalProtection)
  else .ok (s.step fun c => { c with mem := c.mem.write8 (far c o) v })

/-- An instruction that writes a control register. -/
def writes (f : Control → Except Fault Control) (s : Machine ω) :
    Result (Machine ω) :=
  match f s.control with
  | .ok c => .ok { s with control := c }
  | .error e => .error (.fault e)

/-- The `n` bytes at the linear address `a`. -/
def load (a : BitVec 64) (n : Nat) (s : Machine ω) :
    Result (BitVec (8 * n)) :=
  match s.control.read s.pc.mem a n with
  | .ok v => .ok v
  | .error e => .error (.fault e)

/-- The code goes on at `a`. -/
def fetch (a : BitVec 64) (s : Machine ω) : Result (Machine ω) :=
  match s.control.translate s.pc.mem a with
  | .ok p => if p = a then .ok s else .error (.stop .astray)
  | .error e => .error (.fault e)

end Machine

open Machine

-- ================================================================= labels

/-- The labels of the files modelled here, and the addresses of the
instruction after the `call` of `disable_pic` and after `mov cr0, ebx`. -/
structure SwitchLabels where
  pic_disabled_msg : BitVec 16
  IDT_DESCRIPTOR : BitVec 16
  GDT64 : BitVec 16
  LM64 : BitVec 16
  printed : BitVec 16
  paged : BitVec 16

def MASTER_PIC_DATA_PORT : BitVec 16 := 0x21#16
def SLAVE_PIC_DATA_PORT : BitVec 16 := 0xA1#16
def VIDEO_SIZE : BitVec 32 := 0x0FA0#32
def VIDEO_BUFFER_EFFECTIVE_ADDRESS : BitVec 32 := 0xB8000#32
def CODE_SEG : BitVec 16 := 0x0008#16
def DATA_SEG : BitVec 16 := 0x0010#16

/-- The last of the two definitions, in `page_table.asm`. -/
def PAGE_TABLE_EFFECTIVE_ADDRESS : BitVec 32 := 0x1000#32

/-- The bytes from `GDT64`, up to the alignment before `.Pointer`. -/
def gdt64 : List (BitVec 8) :=
  [0, 0, 0, 0, 0, 0, 0, 0]
    ++ [0, 0, 0, 0, 0, 0b10011000, 0b00100000, 0]
    ++ [0, 0, 0, 0, 0, 0b10010011, 0b00000000, 0]

namespace SwitchLabels

variable (L : SwitchLabels)

/-- Where `ALIGN 4` comes to. -/
def aligned : BitVec 16 :=
  BitVec.ofNat 16 ((L.GDT64.toNat + 24 + 3) / 4 * 4)

/-- `GDT64.Pointer`. -/
def pointer : BitVec 16 := L.aligned + 2#16

/-- The size in it, `$ - GDT64 - 1`. -/
def gdtSize : BitVec 16 := L.pointer - L.GDT64 - 1#16

end SwitchLabels

variable (P : Processor) (B : Bios ω) (L : SwitchLabels) (fuel : Nat)

-- ============================================================ the routines

/-- `disable_pic`. -/
def disable_pic (s : Machine ω) : Result (Machine ω) := do
  let s := s.step Pc.pusha
  let s := s.step fun c => c.setLow8 .ax 0xFF#8
  let s := s.out MASTER_PIC_DATA_PORT
  let s := s.out SLAVE_PIC_DATA_PORT
  let s := s.step fun c => c.set .si L.pic_disabled_msg
  let s ← s.run fun c => c.call L.printed (bios_print B fuel)
  .ok (s.step fun c => c.popa.ret)

/-- `lidt [o]`, of which 16-bit code takes 24 bits for the base. -/
def lidt (o : BitVec 16) (s : Machine ω) : Machine ω :=
  { s with
    idtLimit := s.pc.word .ds o
    idtBase := s.pc.dword .ds (o + 2#16) &&& 0x00FFFFFF#32 }

/-- `load_idt_descriptor`. -/
def load_idt_descriptor (s : Machine ω) : Result (Machine ω) :=
  let s := s.step Pc.pusha
  let s := lidt L.IDT_DESCRIPTOR s
  .ok (s.step fun c => c.popa.ret)

/-- `mov byte [ebx], v`, `inc ebx`, `inc eax`. -/
def cls_byte (v : BitVec 8) (s : Machine ω) : Result (Machine ω) := do
  let s ← s.put8 (s.pc.wide .bx) v
  let s := s.step fun c => c.setWide .bx (c.wide .bx + 1#32)
  .ok (s.step fun c => c.setWide .ax (c.wide .ax + 1#32))

/-- One round of `loop`: a blank and its attribute. -/
def cls_round (s : Machine ω) : Result (Machine ω) := do
  let s ← cls_byte 0x20#8 s
  cls_byte 0x00#8 s

def cls_loop (s : Machine ω) : Result (Machine ω) :=
  Loop.attempt (.stop .unfinished)
    (fun s => s.pc.wide .ax != s.pc.wide .cx) cls_round fuel s

/-- `video_cls_16`. -/
def video_cls_16 (s : Machine ω) : Result (Machine ω) := do
  let s := s.step Pc.pusha
  let s := s.step fun c => c.setWide .ax 0#32
  let s := s.step fun c => c.setWide .cx VIDEO_SIZE
  let s := s.step fun c => c.setWide .bx VIDEO_BUFFER_EFFECTIVE_ADDRESS
  let s ← cls_loop fuel s
  .ok (s.step fun c => c.popa.ret)

-- ============================================================== the switch

/-- A processor with long mode: CPUID is there, it has the extended leaf,
and bit 29 of EDX says so. -/
def longMode (P : Processor) : Bool :=
  P.toggles && decide (0x80000001 ≤ (P.leaf 0x80000000#32).eax.toNat)
    && (P.leaf 0x80000001#32).edx.getLsbD 29

/-- `rdmsr`, of EFER. -/
def rdmsr (s : Machine ω) : Machine ω :=
  s.step fun c => (c.setWide .ax (s.control.efer.extractLsb' 0 32)).setWide .dx
    (s.control.efer.extractLsb' 32 32)

/-- `wrmsr`, to EFER. A processor without the register faults at `rdmsr`
already, where nothing has happened either. -/
def wrmsr (s : Machine ω) : Result (Machine ω) :=
  s.writes fun c =>
    c.writeEfer (longMode P) (s.pc.wide .dx ++ s.pc.wide .ax)

/-- `lgdt [o]`, in 16-bit code. -/
def lgdt (o : BitVec 16) (s : Machine ω) : Result (Machine ω) := do
  let limit ← s.load (linear (s.pc.seg .ds) o) 2
  let base ← s.load (linear (s.pc.seg .ds) (o + 2#16)) 4
  .ok { s with control := s.control.lgdt limit (base &&& 0x00FFFFFF#32) }

/-- The machine in long mode, about to execute the instruction at `rip`:
the descriptors in CS and in the data segment registers. -/
structure Entered (ω : Type _) where
  machine : Machine ω
  cs : Descriptor
  data : Descriptor
  rip : BitVec 64

/-- `jmp sel:o`, from 16-bit code in long mode, to a 64-bit segment. -/
def jump_far (sel o : BitVec 16) (s : Machine ω) : Result (Entered ω) :=
  match s.control.codeSegment s.pc.mem sel with
  | .error e => .error (.fault e)
  | .ok d => do
      let s ← s.fetch (o.setWidth 64)
      .ok ⟨s, d, 0#64, o.setWidth 64⟩

/-- A selector in AX moved to a data segment register. -/
def move_data (s : Machine ω) : Result Descriptor :=
  match s.control.dataSegment s.pc.mem (s.pc.reg .ax) with
  | .error e => .error (.fault e)
  | .ok d => .ok d

/-- `LM64`: DS, ES, FS and GS, and the jump to the third stage. -/
def lm64 (e : Entered ω) : Result (Entered ω) := do
  let s := e.machine.step fun c => c.set .ax DATA_SEG
  let d ← move_data s
  let s := s.step fun c => c.setSeg .ds (c.reg .ax)
  let _ ← move_data s
  let s := s.step fun c => c.setSeg .es (c.reg .ax)
  let _ ← move_data s
  let _ ← move_data s
  let s ← s.fetch 0x10000#64
  .ok ⟨s, e.cs, d, 0x10000#64⟩

/-- `switch_to_long_mode`, up to its far jump. -/
def switch_to_long_mode (s : Machine ω) : Result (Entered ω) := do
  let s := s.step fun c => c.setWide .ax 0b10100000#32
  let s ← s.writes fun c => c.movCr4 (s.pc.wide .ax)
  let s := s.step fun c => c.setWide .di PAGE_TABLE_EFFECTIVE_ADDRESS
  let s := s.step fun c => c.setWide .dx (c.wide .di)
  let s ← s.writes fun c => .ok { c with cr3 := s.pc.wide .dx }
  let s := s.step fun c => c.setWide .cx 0xC0000080#32
  let s := rdmsr s
  let s := s.step fun c => c.setWide .ax (c.wide .ax ||| 0x00000100#32)
  let s ← wrmsr P s
  let s := s.step fun c => c.setWide .bx s.control.cr0
  let s := s.step fun c => c.setWide .bx (c.wide .bx ||| 0x80000001#32)
  let s ← s.writes fun c => c.movCr0 (s.pc.wide .bx)
  let s ← s.fetch (L.paged.setWidth 64)
  let s ← lgdt L.pointer s
  jump_far CODE_SEG L.LM64 s

end BootLoader.SecondStage
