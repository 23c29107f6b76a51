/-
Reading the disk: `load_boot_drive_params.asm`, `lba_2_chs.asm` and
`read_disk_sectors.asm`, label by label.

# The cells

The three routines share the variables of `first_stage_data.asm`, which
lie one after the other in the data segment, so one label places them all:
`boot_drive` is a byte, `lba_sector`, `spt`, `hpc` and `Cylinder` are
words, `Head` is a byte and `Sector` a word. The two strings and the two
words of the load address stand further up in the same file.

# Errors

A failed read prints and goes to `hang`, and a division by a zero cell is
the processor's divide error. `read_disk_sectors` takes a bound on the
rounds of its loop.
-/
import BootLoader.FirstStage.BiosPrint

namespace BootLoader.FirstStage

open RealMode

variable {ω : Type _}

-- ================================================================ labels

/-- The calls of `read_disk_sectors.asm`. -/
inductive DiskCall
  | chs | dot | errorDot | errorMsg
  deriving DecidableEq, Repr

/-- Where `first_stage_data.asm` starts, and the addresses of the
instructions after the calls. -/
structure DiskLabels where
  boot_drive : BitVec 16
  back : DiskCall → BitVec 16

namespace DiskLabels

variable (L : DiskLabels)

def lba_sector : BitVec 16 := L.boot_drive + 1#16
def spt : BitVec 16 := L.boot_drive + 3#16
def hpc : BitVec 16 := L.boot_drive + 5#16
def Cylinder : BitVec 16 := L.boot_drive + 7#16
def Head : BitVec 16 := L.boot_drive + 9#16
def Sector : BitVec 16 := L.boot_drive + 10#16
def disk_error_msg : BitVec 16 := L.boot_drive + 33#16
def dot : BitVec 16 := L.boot_drive + 134#16
def disk_read_segment : BitVec 16 := L.boot_drive + 139#16
def disk_read_offset : BitVec 16 := L.boot_drive + 141#16

end DiskLabels

/-- `first_stage_data.asm`: the variables, the messages, the load address. -/
def first_stage_data : List (BitVec 8) :=
  [0, 1, 0, 0x12, 0, 2, 0, 0, 0, 0, 0, 0]
    ++ chars "Detect Disk" ++ [13, 10, 0]
    ++ chars "Done" ++ [13, 10, 0]
    ++ chars "Disk Error" ++ [13, 10, 0]
    ++ chars "Unknown Device" ++ [13, 10, 0]
    ++ chars "Boot from " ++ [0]
    ++ chars "flpy" ++ [13, 10, 0]
    ++ chars "Disk" ++ [13, 10, 0]
    ++ chars "1st Stage" ++ [13, 10, 0]
    ++ [13, 10] ++ chars "2nd Stage" ++ [0]
    ++ chars "press key to resume" ++ [13, 10, 0]
    ++ chars "." ++ [0]
    ++ [13, 10, 0]
    ++ [0, 0, 0, 0]

variable (B : Bios ω) (L : DiskLabels) (fuel : Nat)

-- ============================================================= lba_2_chs

/-- `div word [o]`. -/
def div_word (o : BitVec 16) (c : Pc ω) : Outcome (Pc ω) :=
  (c.reads .ds o 2).div (c.word .ds o)

/-- `lba_2_chs`. -/
def lba_2_chs (c : Pc ω) : Outcome (Pc ω) := do
  let c := c.pusha
  let c := c.set .dx 0#16
  let c := c.get16 .ax .ds L.lba_sector
  let c ← div_word L.spt c
  let c := c.set .dx (c.reg .dx + 1#16)
  let c := c.put16 .ds L.Sector (c.reg .dx)
  let c := c.set .dx 0#16
  let c ← div_word L.hpc c
  let c := c.put16 .ds L.Cylinder (c.reg .ax)
  let c := c.put8 .ds L.Head (c.low8 .dx)
  .ok c.popa.ret

-- ================================================ load_boot_drive_params

/-- `load_boot_drive_params`. The answer's carry flag is not looked at. -/
def load_boot_drive_params (c : Pc ω) : Outcome (Pc ω) :=
  let c := c.pusha
  let c := c.set .di 0#16
  let c := c.setSeg .es (c.reg .di)
  let c := c.setHigh8 .ax 0x8#8
  let c := (c.reads .ds L.boot_drive 1).setLow8 .dx (c.byte .ds L.boot_drive)
  let c := c.int B 0x13#8
  let c := c.setHigh8 .dx (c.high8 .dx + 1#8)
  let c := c.put16 .ds L.hpc 0x0#16
  let c := c.put8 .ds (L.hpc + 1#16) (c.high8 .dx)
  let c := c.set .cx (c.reg .cx &&& 0x3F#16)
  let c := c.put16 .ds L.spt (c.reg .cx)
  .ok c.popa.ret

-- ===================================================== read_disk_sectors

/-- `.read_disk_error`. -/
def read_disk_error (c : Pc ω) : Outcome (Pc ω) := do
  let c := c.set .si L.dot
  let c ← c.call (L.back .errorDot) (bios_print B fuel)
  let c := c.set .si L.disk_error_msg
  let _ ← c.call (L.back .errorMsg) (bios_print B fuel)
  .error .hang

/-- The top of `.read_sector_loop`, up to the `int`: the sector's address
in CX and DH. -/
def sector_address (c : Pc ω) : Outcome (Pc ω) := do
  let c ← c.call (L.back .chs) (lba_2_chs L)
  let c := c.setHigh8 .ax 0x2#8
  let c := c.setLow8 .ax 0x1#8
  let c := c.get16 .cx .ds L.Cylinder
  let c := c.set .cx (c.reg .cx <<< 8)
  let c := (c.reads .ds L.Sector 2).set .cx (c.reg .cx ||| c.word .ds L.Sector)
  .ok ((c.reads .ds L.Head 1).setHigh8 .dx (c.byte .ds L.Head))

/-- One round of `.read_sector_loop`. -/
def read_sector_round (c : Pc ω) : Outcome (Pc ω) := do
  let c ← sector_address L c
  let c := c.int B 0x13#8
  if c.carry then read_disk_error B L fuel c
  else
    let c := c.set .si L.dot
    let c ← c.call (L.back .dot) (bios_print B fuel)
    let c := (c.reads .ds L.lba_sector 2).put16 .ds L.lba_sector
      (c.word .ds L.lba_sector + 1#16)
    .ok (c.set .bx (c.reg .bx + 0x200#16))

/-- The `jl` at the bottom of the loop: signed numbers. -/
def more_sectors (c : Pc ω) : Bool := (c.word .ds L.lba_sector).slt (c.reg .di)

def read_sector_loop (rounds : Nat) (c : Pc ω) : Outcome (Pc ω) :=
  Loop.attempt .unfinished (more_sectors L) (read_sector_round B L fuel) rounds c

/-- `read_disk_sectors` up to its loop. -/
def read_disk_setup (c : Pc ω) : Pc ω :=
  let c := c.pusha
  let c := (c.reads .ds L.lba_sector 2).set .di
    (c.reg .di + c.word .ds L.lba_sector)
  let c := c.get16 .ax .ds L.disk_read_segment
  let c := c.setSeg .es (c.reg .ax)
  let c := (c.reads .ds L.disk_read_offset 2).set .bx
    (c.reg .bx + c.word .ds L.disk_read_offset)
  (c.reads .ds L.boot_drive 1).setLow8 .dx (c.byte .ds L.boot_drive)

/-- `read_disk_sectors`, for DI sectors. -/
def read_disk_sectors (rounds : Nat) (c : Pc ω) : Outcome (Pc ω) := do
  let c ← read_sector_loop B L fuel rounds (read_disk_setup L c)
  .ok c.popa.ret

end BootLoader.FirstStage
