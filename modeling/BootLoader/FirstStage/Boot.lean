/-
The first stage: `first_stage.asm` from its first instruction to the jump
to the second, with `bios_cls.asm`, `get_key_stroke.asm` and
`detect_boot_disk.asm`.

The program does not touch BX before it calls `read_disk_sectors`, which
adds the load offset to it; DL holds the drive number from the BIOS on.
What lies in memory is `first_stage_data`; the code itself is not looked
at.
-/
import BootLoader.FirstStage.Disk

namespace BootLoader.FirstStage

open RealMode

variable {ω : Type _}

-- ================================================================ labels

/-- The calls of `first_stage.asm` and of `detect_boot_disk.asm`. -/
inductive BootCall
  | cls | greeting | detecting | detect | second | third | loaded | key
  | bootedFrom | params | device
  deriving DecidableEq, Repr

/-- The addresses of the instructions after those calls, beside the labels
of the disk routines. -/
structure BootLabels extends DiskLabels where
  after : BootCall → BitVec 16

namespace DiskLabels

variable (L : DiskLabels)

def det_boot_msg : BitVec 16 := L.boot_drive + 12#16
def fault_msg : BitVec 16 := L.boot_drive + 46#16
def booted_from_msg : BitVec 16 := L.boot_drive + 63#16
def floppy_boot_msg : BitVec 16 := L.boot_drive + 74#16
def drive_boot_msg : BitVec 16 := L.boot_drive + 81#16
def greeting_msg : BitVec 16 := L.boot_drive + 88#16
def second_stage_loaded_msg : BitVec 16 := L.boot_drive + 100#16

end DiskLabels

def SECOND_STAGE_CODE_SEG : BitVec 16 := 0x0000#16
def SECOND_STAGE_OFFSET : BitVec 16 := 0xC000#16
def THIRD_STAGE_CODE_SEG : BitVec 16 := 0x1000#16
def THIRD_STAGE_OFFSET : BitVec 16 := 0x0000#16
def STACK_OFFSET : BitVec 16 := 0xB000#16

variable (B : Bios ω) (L : BootLabels) (fuel rounds : Nat)

-- ============================================================== services

/-- `bios_cls`. -/
def bios_cls (c : Pc ω) : Outcome (Pc ω) :=
  let c := c.pusha
  let c := c.setHigh8 .ax 0x0#8
  let c := c.setLow8 .ax 0x3#8
  let c := c.int B 0x10#8
  .ok c.popa.ret

/-- `get_key_stroke`. -/
def get_key_stroke (c : Pc ω) : Outcome (Pc ω) :=
  let c := c.pusha
  let c := c.setHigh8 .ax 0x0#8
  let c := c.int B 0x16#8
  .ok c.popa.ret

-- ====================================================== detect_boot_disk

/-- From `cmp dl,0` to `.finish`: drive 0 is the floppy, whose geometry the
data file has. -/
def detect_device (c : Pc ω) : Outcome (Pc ω) :=
  if c.low8 .dx = 0#8 then .ok (c.set .si L.floppy_boot_msg)
  else do
    let c ← c.call (L.after .params) (load_boot_drive_params B L.toDiskLabels)
    .ok (c.set .si L.drive_boot_msg)

/-- `detect_boot_disk`. The fault message is never printed: its call is
commented out. -/
def detect_boot_disk (c : Pc ω) : Outcome (Pc ω) := do
  let c := c.pusha
  let c := c.set .si L.fault_msg
  let c := c.set .ax 0#16
  let c := c.int B 0x13#8
  if c.carry then .error .hang
  else
    let c := c.set .si L.booted_from_msg
    let c ← c.call (L.after .bootedFrom) (bios_print B fuel)
    let c := c.put8 .ds L.boot_drive (c.low8 .dx)
    let c ← detect_device B L c
    let c ← c.call (L.after .device) (bios_print B fuel)
    .ok c.popa.ret

-- ================================================================== main

/-- A stage loaded: DI, the load address, the call. -/
def load_stage (call : BootCall) (n segment offset : BitVec 16) (c : Pc ω) :
    Outcome (Pc ω) :=
  let c := c.set .di n
  let c := c.put16 .ds L.disk_read_segment segment
  let c := c.put16 .ds L.disk_read_offset offset
  c.call (L.after call) (read_disk_sectors B L.toDiskLabels fuel rounds)

/-- A message printed. -/
def print_message (call : BootCall) (msg : BitVec 16) (c : Pc ω) :
    Outcome (Pc ω) :=
  (c.set .si msg).call (L.after call) (bios_print B fuel)

/-- `first_stage`, up to the jump. -/
def first_stage (c : Pc ω) : Outcome (Pc ω) := do
  let c := c.set .ax 0#16
  let c := c.setSeg .ds (c.reg .ax)
  let c := c.setSeg .ss (c.reg .ax)
  let c := c.set .sp STACK_OFFSET
  let c ← c.call (L.after .cls) (bios_cls B)
  let c ← print_message B L fuel .greeting L.greeting_msg c
  let c ← print_message B L fuel .detecting L.det_boot_msg c
  let c ← c.call (L.after .detect) (detect_boot_disk B L fuel)
  let c ← load_stage B L fuel rounds .second 0x8#16 SECOND_STAGE_CODE_SEG
    SECOND_STAGE_OFFSET c
  let c ← load_stage B L fuel rounds .third 0x7F#16 THIRD_STAGE_CODE_SEG
    THIRD_STAGE_OFFSET c
  let c ← print_message B L fuel .loaded L.second_stage_loaded_msg c
  let c ← c.call (L.after .key) (get_key_stroke B)
  .ok { c with ip := SECOND_STAGE_OFFSET }

end BootLoader.FirstStage
