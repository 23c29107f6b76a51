/-
The interrupt controller routines of `third_stage/pic.asm`.

`set_irq_mask` and `clear_irq_mask` are the same code but for one
instruction, `or` against `xor`, so both are `irq_mask` with that
operation. They read and write the mask register as a doubleword: the
three bytes above it belong to the next three ports.
-/
import BootLoader.Cpu.Machine

namespace BootLoader.ThirdStage

def MASTER_PIC_COMMAND_PORT : BitVec 16 := 0x20#16

def SLAVE_PIC_COMMAND_PORT : BitVec 16 := 0xA0#16

def MASTER_PIC_DATA_PORT : BitVec 16 := 0x21#16

def SLAVE_PIC_DATA_PORT : BitVec 16 := 0xA1#16

/-- `mov al, v` and `out port, al`. -/
def out_byte (v : BitVec 8) (port : BitVec 16) (m : Machine) : Machine :=
  (m.run fun c => c.setLow8 .rax v).outAl port

/-- `configure_pic`: initialise both controllers, interrupts from 32 on
the master and from 40 on the slave, all lines unmasked. -/
def configure_pic (m : Machine) : Machine :=
  let m := m.run Cpu.pushaq
  let m := out_byte 0xFF#8 MASTER_PIC_DATA_PORT m
  let m := m.outAl SLAVE_PIC_DATA_PORT
  let m := out_byte 0x11#8 MASTER_PIC_COMMAND_PORT m
  let m := m.outAl SLAVE_PIC_COMMAND_PORT
  let m := out_byte 0x20#8 MASTER_PIC_DATA_PORT m
  let m := out_byte 0x28#8 SLAVE_PIC_DATA_PORT m
  let m := out_byte 0x04#8 MASTER_PIC_DATA_PORT m
  let m := out_byte 0x02#8 SLAVE_PIC_DATA_PORT m
  let m := out_byte 0x01#8 MASTER_PIC_DATA_PORT m
  let m := m.outAl SLAVE_PIC_DATA_PORT
  let m := out_byte 0x0#8 MASTER_PIC_DATA_PORT m
  let m := m.outAl SLAVE_PIC_DATA_PORT
  m.run Cpu.popaq

/-- From `.master` on: read the mask, combine it with the line's bit,
write it back. -/
def irq_mask_master (op : BitVec 64 → BitVec 64 → BitVec 64) (m : Machine) :
    Machine :=
  let m := m.inEax
  let m := m.set .rcx (m.cpu.reg .rdi)
  let m := m.set .rdi 0x1#64
  let m := m.set .rdi
    (m.cpu.reg .rdi <<< ((m.cpu.low8 .rcx).toNat % 64))
  let m := m.set .rax (op (m.cpu.reg .rax) (m.cpu.reg .rdi))
  m.outEax

/-- Both mask routines, for the line in RDI. -/
def irq_mask (op : BitVec 64 → BitVec 64 → BitVec 64) (m : Machine) :
    Machine :=
  let m := m.run Cpu.pushaq
  let m := m.set .rdx (MASTER_PIC_DATA_PORT.setWidth 64)
  let m :=
    if (15#64).slt (m.cpu.reg .rdi) then m
    else if (m.cpu.reg .rdi).slt 8#64 then irq_mask_master op m
    else
      let m := m.set .rdi (m.cpu.reg .rdi - 8#64)
      let m := m.set .rdx (SLAVE_PIC_DATA_PORT.setWidth 64)
      irq_mask_master op m
  m.run Cpu.popaq

/-- `set_irq_mask`: `or rax, rdi`. -/
def set_irq_mask : Machine → Machine := irq_mask (· ||| ·)

/-- `clear_irq_mask`: `xor rax, rdi`. -/
def clear_irq_mask : Machine → Machine := irq_mask (· ^^^ ·)

-- ================================================================== calls

/-- A call of one of the two, with the line it names. -/
inductive MaskCall
  | set (n : Fin 16)
  | clear (n : Fin 16)
  deriving DecidableEq, Repr

def MaskCall.line : MaskCall → Fin 16
  | .set n | .clear n => n

/-- Load RDI and call. -/
def MaskCall.run (m : Machine) : MaskCall → Machine
  | .set n => set_irq_mask (m.set .rdi (BitVec.ofNat 64 n))
  | .clear n => clear_irq_mask (m.set .rdi (BitVec.ofNat 64 n))

/-- A sequence of calls. -/
def mask_calls (m : Machine) (calls : List MaskCall) : Machine :=
  calls.foldl MaskCall.run m

end BootLoader.ThirdStage
