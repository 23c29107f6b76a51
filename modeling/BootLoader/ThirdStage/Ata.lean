/-
The identification of drives: `ata_identify_disk` of `third_stage/ata.asm`
and the loops of `third_stage.asm` that call it for two channels with two
drives each.

# The controller

A controller keeps the last byte written to each of its ports. What the
status and the data port answer is the choice of the drive that is
selected then: `AtaBus` gives for a base port and a selector the status
bytes and the words that position answers with, counted since the last
write, which is the command. A position without a drive answers too, with
a status.

# What is kept beside

`reports` is a history of how the calls ended: the status reads until an
error was reported, or until a transfer started, and where that put the
words. No instruction reads it. A loop has no result when the bound on its
rounds runs out, and neither has a call whose polling goes on past it.

# Texts

The messages are byte lists as elsewhere. Two texts that `ata_print_info`
prints lie in the buffer, so `video_print_at` takes them from memory.
-/
import Mathlib.Logic.Function.Basic
import BootLoader.ThirdStage.Nic

namespace BootLoader.ThirdStage

open FlatMemory

-- ============================================================== the labels

/-- Addresses of the routine's data, which is in one piece from
`ata_control_ports` on, of the loops' two variables, and of the texts and
digits it shares. -/
structure AtaLabels (L : Layout) where
  ata_control_ports : BitVec 64
  ata_channel_var : BitVec 64
  comma : BitVec 64
  newline : BitVec 64
  hexa_digits : BitVec 64
  data_in : 0x10000 ≤ ata_control_ports.toNat
    ∧ ata_control_ports.toNat + 2125 ≤ 0x20000
  channel_in : 0x10000 ≤ ata_channel_var.toNat
    ∧ ata_channel_var.toNat + 16 ≤ 0x20000
  channel_apart : ata_channel_var.toNat + 16 ≤ ata_control_ports.toNat
    ∨ ata_control_ports.toNat + 2125 ≤ ata_channel_var.toNat
  cursor_apart :
    (L.start_location.toNat + 2 ≤ ata_control_ports.toNat
        ∨ ata_control_ports.toNat + 2125 ≤ L.start_location.toNat)
      ∧ (L.start_location.toNat + 2 ≤ ata_channel_var.toNat
        ∨ ata_channel_var.toNat + 16 ≤ L.start_location.toNat)
  texts_in : comma.toNat + 30 ≤ 0x20000 ∧ newline.toNat + 30 ≤ 0x20000

namespace AtaLabels

variable {L : Layout} (l : AtaLabels L)

def ata_base_io_ports : BitVec 64 := l.ata_control_ports + 6#64
def ata_drv_selector : BitVec 64 := l.ata_control_ports + 15#64
def ata_error_msg : BitVec 64 := l.ata_control_ports + 18#64
def ata_identify_msg : BitVec 64 := l.ata_control_ports + 44#64
def ata_identify_buffer : BitVec 64 := l.ata_control_ports + 56#64
def ata_identify_buffer_index : BitVec 64 := l.ata_control_ports + 2104#64
def lba_48_supported : BitVec 64 := l.ata_control_ports + 2108#64

def ata_master_var : BitVec 64 := l.ata_channel_var + 8#64

end AtaLabels

/-- Labels past those of the assembled layout. -/
def ataLabels : AtaLabels assembledLayout where
  ata_control_ports := 0x12000#64
  ata_channel_var := 0x12900#64
  comma := 0x12910#64
  newline := 0x12920#64
  hexa_digits := 0x12930#64
  data_in := by decide
  channel_in := by decide
  channel_apart := by decide
  cursor_apart := by decide
  texts_in := by decide

-- =========================================================== the constants

def ATA_PRIMARY_BASE_IO : BitVec 16 := 0x1F0#16
def ATA_SECONDARY_BASE_IO : BitVec 16 := 0x170#16
def ATA_PRIMARY_CR_AS : BitVec 16 := 0x3F6#16
def ATA_SECONDARY_CR_AS : BitVec 16 := 0x376#16
def ATA_MASTER_DRV_SELECTOR : BitVec 8 := 0xA0#8
def ATA_SLAVE_DRV_SELECTOR : BitVec 8 := 0xB0#8

def ATA_CMD_IDENTIFY : BitVec 8 := 0xEC#8

def ATA_SR_BSY : BitVec 8 := 0x80#8
def ATA_SR_DRQ : BitVec 8 := 0x08#8
def ATA_SR_ERR : BitVec 8 := 0x01#8

def ATA_REG_SECCOUNT0 : BitVec 16 := 0x02#16
def ATA_REG_LBA0 : BitVec 16 := 0x03#16
def ATA_REG_LBA1 : BitVec 16 := 0x04#16
def ATA_REG_LBA2 : BitVec 16 := 0x05#16
def ATA_REG_HDDEVSEL : BitVec 16 := 0x06#16
def ATA_REG_COMMAND : BitVec 16 := 0x07#16
def ATA_REG_STATUS : BitVec 16 := 0x07#16

-- the fields of ATA_IDENTIFY_DEV_DUMP used, by byte
namespace ATA_IDENTIFY_DEV_DUMP

def serial : BitVec 64 := 20#64
def fw_version : BitVec 64 := 46#64
def command_set5 : BitVec 64 := 172#64
def lba_48_sectors : BitVec 64 := 200#64

end ATA_IDENTIFY_DEV_DUMP

def ata_error_msg : List (BitVec 8) :=
  ascii "Error Identifying Drive" ++ [13, 10, 0]
def ata_identify_msg : List (BitVec 8) := ascii "Found Drive" ++ [0]
def lba_48_supported : List (BitVec 8) := ascii "LBA-48 Supported" ++ [0]

-- ============================================================ the machine

/-- What a position answers to the command: its status bytes and its
words. -/
structure DriveAnswers where
  status : Nat → BitVec 8
  words : Nat → BitVec 16

/-- The positions, by base port and drive selector. -/
abbrev AtaBus := BitVec 16 → BitVec 8 → DriveAnswers

/-- How a call ended, after `polls` status reads: in an error, or in a
transfer of the drive behind `base` and `selector` to `buffer`. -/
inductive AtaReport
  | error (polls : Nat)
  | transfer (base : BitVec 16) (selector : BitVec 8) (polls : Nat)
      (buffer : BitVec 64)

/-- The processor, the bytes last written to the ports, what was read since
the last of these writes, and how the calls ended. -/
structure Ata where
  cpu : Cpu
  port : BitVec 16 → BitVec 8
  polls : Nat
  words : Nat
  reports : List AtaReport

namespace Ata

/-- Code that uses the processor only. -/
def run (s : Ata) (f : Cpu → Cpu) : Ata := { s with cpu := f s.cpu }

/-- `out dx, al`. -/
def outAl (s : Ata) : Ata :=
  { s with
    port := Function.update s.port (s.cpu.low16 .rdx) (s.cpu.low8 .rax)
    polls := 0
    words := 0 }

/-- The position selected on the channel at `base`. -/
def selected (bus : AtaBus) (s : Ata) (base : BitVec 16) : DriveAnswers :=
  bus base (s.port (base + ATA_REG_HDDEVSEL))

/-- `in al, dx`, at a status port. -/
def inAl (bus : AtaBus) (s : Ata) : Ata :=
  let d := s.selected bus (s.cpu.low16 .rdx - ATA_REG_STATUS)
  { s with cpu := s.cpu.setLow8 .rax (d.status s.polls), polls := s.polls + 1 }

/-- One round of `rep insw`, at a data port. -/
def insw (bus : AtaBus) (s : Ata) : Ata :=
  let d := s.selected bus (s.cpu.low16 .rdx)
  let c := s.cpu.store16 (s.cpu.reg .rdi) (d.words s.words)
  let c := c.set .rdi (c.reg .rdi + 2#64)
  let c := c.set .rcx (c.reg .rcx - 1#64)
  { s with cpu := c, words := s.words + 1 }

/-- `rep insw`. -/
def repInsw (bus : AtaBus) (s : Ata) : Ata :=
  Loop.times (insw bus) (s.cpu.reg .rcx).toNat s

/-- An entry of the history. -/
def report (s : Ata) (r : AtaReport) : Ata :=
  { s with reports := s.reports ++ [r] }

end Ata

variable {L : Layout} (l : AtaLabels L)

-- ================================================================ the ports

/-- `mov dx, [ata_base_io_ports+rdi]` and `add dx, offset`. -/
def channel_port (offset : BitVec 16) (c : Cpu) : Cpu :=
  let c := load16 c .rdx (l.ata_base_io_ports + c.reg .rdi)
  c.setLow16 .rdx (c.low16 .rdx + offset)

/-- AL to a register of the channel. -/
def write_channel (offset : BitVec 16) (s : Ata) : Ata :=
  (s.run (channel_port l offset)).outAl

/-- The status of the channel to AL. -/
def read_status (bus : AtaBus) (s : Ata) : Ata :=
  (s.run (channel_port l ATA_REG_STATUS)).inAl bus

def select_ata_disk (s : Ata) : Ata :=
  let s := s.run Cpu.pushaq
  let s := s.run fun c => c.set .rax 0#64
  let s := s.run (channel_port l ATA_REG_HDDEVSEL)
  let s := s.run fun c => load8 c .rax (l.ata_drv_selector + c.reg .rsi)
  let s := s.outAl
  s.run Cpu.popaq

-- ======================================================= ata_identify_disk

/-- `ata_identify_disk` up to the command. -/
def identify_command (s : Ata) : Ata :=
  let s := s.run fun c => c.set .rax (c.reg .rax ^^^ 0#64)
  let s := s.run fun c => load16 c .rdx (l.ata_control_ports + c.reg .rdi)
  let s := s.outAl
  let s := select_ata_disk l s
  let s := s.run fun c => c.set .rax 0#64
  let s := write_channel l ATA_REG_SECCOUNT0 s
  let s := write_channel l ATA_REG_LBA0 s
  let s := write_channel l ATA_REG_LBA1 s
  let s := write_channel l ATA_REG_LBA2 s
  let s := s.run (channel_port l ATA_REG_COMMAND)
  let s := s.run fun c => c.setLow8 .rax ATA_CMD_IDENTIFY
  s.outAl

/-- `mov cl, bit`, `and cl, al`. -/
def masked_status (bit : BitVec 8) (c : Cpu) : Cpu :=
  let c := c.setLow8 .rcx bit
  c.setLow8 .rcx (c.low8 .rcx &&& c.low8 .rax)

/-- `.check_ready`, for at most `fuel` rounds, and whether it leaves for
`.ready`; its other way out is `.error`. -/
def check_ready (bus : AtaBus) : Nat → Ata → Option (Ata × Bool)
  | 0, _ => none
  | fuel + 1, s =>
      let s := read_status l bus s
      let s := s.run fun c => c.set .rcx 0#64
      let s := s.run (masked_status ATA_SR_ERR)
      if s.cpu.low8 .rcx = ATA_SR_ERR then some (s, false)
      else
        let s := s.run (masked_status ATA_SR_DRQ)
        if s.cpu.low8 .rcx ≠ ATA_SR_DRQ then check_ready bus fuel s
        else some (s, true)

/-- From the entry to `.error` or `.ready`. The first status is compared as
a signed byte. -/
def identify_status (bus : AtaBus) (fuel : Nat) (s : Ata) :
    Option (Ata × Bool) :=
  let s := s.run Cpu.pushaq
  let s := identify_command l s
  let s := read_status l bus s
  if (s.cpu.low8 .rax).slt 0x2#8 then some (s, false)
  else check_ready l bus fuel s

/-- `.error`, up to its jump to `.out`. -/
def identify_error (s : Ata) : Ata :=
  let s := s.report (.error s.polls)
  s.run (print L l.ata_error_msg ata_error_msg)

/-- `.ready` up to `rep insw`: the operands. The index goes to SI and no
further. -/
def transfer_operands (c : Cpu) : Cpu :=
  let c := print L l.ata_identify_msg ata_identify_msg c
  let c := c.load64 .rdx (l.ata_base_io_ports + c.reg .rdi)
  let c := load16 c .rsi l.ata_identify_buffer_index
  let c := c.set .rdi (c.reg .rdi + l.ata_identify_buffer)
  let c := c.set .rcx 256#64
  c.set .rbx 0#64

/-- `rep insw` and `add word [ata_identify_buffer_index], 256`. -/
def transfer (bus : AtaBus) (s : Ata) : Ata :=
  let base := s.cpu.low16 .rdx
  let s := s.report (.transfer base (s.port (base + ATA_REG_HDDEVSEL))
    s.polls (s.cpu.reg .rdi))
  let s := s.repInsw bus
  s.run fun c => c.store16 l.ata_identify_buffer_index
    (c.mem.read16 l.ata_identify_buffer_index + 256#16)

/-- `video_print` of the text RSI points at, of at most `fuel` bytes. -/
def video_print_at (L : Layout) (fuel : Nat) (c : Cpu) : Option Cpu :=
  let c := c.pushaq
  let c := c.set .rbx 0xB8000#64
  let c := (c.reads L.start_location 2).setLow16 .rbx
    (c.low16 .rbx + c.mem.read16 L.start_location)
  let c := c.set .rcx 0#64
  (video_print_loop_at L fuel c).map Cpu.popaq

open ATA_IDENTIFY_DEV_DUMP

/-- A text of the buffer, cut off by a zero at `stop`, and a comma. -/
def print_field (field stop : BitVec 64) (fuel : Nat) (c : Cpu) :
    Option Cpu := do
  let c := c.store8 (l.ata_identify_buffer + stop) 0x0#8
  let c := c.set .rsi (l.ata_identify_buffer + field)
  let c ← video_print_at L fuel c
  return print L l.comma comma c

def ata_print_info (fuel : Nat) (c : Cpu) : Option Cpu := do
  let c := c.pushaq
  let c ← print_field l serial 39#64 fuel c
  let c ← print_field l fw_version 50#64 fuel c
  let c := c.set .rdi 0#64
  let c := c.load64 .rdi (l.ata_identify_buffer + lba_48_sectors)
  let c ← video_print_hexa L l.hexa_digits fuel c
  let c := c.setLow16 .rax 0x400#16
  let a := l.ata_identify_buffer + command_set5
  let c := (c.reads a 2).setLow16 .rax (c.low16 .rax &&& c.mem.read16 a)
  let c := if c.low16 .rax = 0x0#16 then c else
    print L l.lba_48_supported lba_48_supported (print L l.comma comma c)
  let c := print L l.newline newline c
  return c.popaq

/-- `.ready`. -/
def identify_ready (bus : AtaBus) (fuel : Nat) (s : Ata) : Option Ata := do
  let s := s.run (transfer_operands l)
  let s := transfer l bus s
  let c ← ata_print_info l fuel s.cpu
  return s.run fun _ => c

def ata_identify_disk (bus : AtaBus) (fuel : Nat) (s : Ata) :
    Option Ata := do
  let (s, ready) ← identify_status l bus fuel s
  let s ← if ready then identify_ready l bus fuel s
    else some (identify_error l s)
  return s.run Cpu.popaq

-- ================================================================ the loops

/-- `inc qword [a]`. -/
def inc_qword (a : BitVec 64) (c : Cpu) : Cpu :=
  (c.reads a 8).store64 a (c.mem.read64 a + 1#64)

/-- `cmp qword [a], v` and `jl`. -/
def qword_below (a v : BitVec 64) (s : Ata) : Bool :=
  (s.cpu.mem.read64 a).slt v

/-- One round of `master_slave_loop`, with the call. -/
def master_slave_round (bus : AtaBus) (fuel : Nat) (s : Ata) :
    Option Ata := do
  let s := s.run fun c => c.load64 .rdi l.ata_channel_var
  let s := s.run fun c => c.load64 .rsi l.ata_master_var
  let s ← ata_identify_disk l bus fuel s
  return s.run (inc_qword l.ata_master_var)

/-- One round of `channel_loop`. -/
def channel_round (bus : AtaBus) (fuel : Nat) (s : Ata) : Option Ata := do
  let s := s.run fun c => c.store64 l.ata_master_var 0x0#64
  let s ← Loop.finish (qword_below l.ata_master_var 0x2#64)
    (master_slave_round l bus fuel) fuel s
  let s := s.run (inc_qword l.ata_channel_var)
  return s.run (inc_qword l.ata_channel_var)

def channel_loop (bus : AtaBus) (fuel : Nat) (s : Ata) : Option Ata :=
  Loop.finish (qword_below l.ata_channel_var 0x4#64)
    (channel_round l bus fuel) fuel s

end BootLoader.ThirdStage
