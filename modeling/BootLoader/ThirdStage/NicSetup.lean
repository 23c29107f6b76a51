/-
How `third_stage/nic.asm` finds the card and brings it up:
`e1000_pci_config`, called for each function of the scan, and of
`e1000_init` the two steps `e1000_bus_master` and `e1000_detect_eeprom`.

# Reading the header

`e1000_pci_config` loads R9 from `pci_header` and not with its address, so
the fields it compares and records are those of the memory its first eight
bytes point at. Memory is flat here as in the rest of the third stage: an
address the page tables do not map, or one that is not canonical, reads as
what the memory holds there.

# Where control goes

`pci_bus_master` has no `ret` after its `popaq`. The next instruction is
the first of `e1000_bus_master`, which calls it again; `e1000_bus_master`
follows that path for as many calls as its bound allows. The loop of
`e1000_detect_eeprom` counts in RCX and has no result either when the bound
on its rounds runs out.
-/
import BootLoader.ThirdStage.Nic
import BootLoader.ThirdStage.Pci

namespace BootLoader.ThirdStage

open FlatMemory

-- ============================================================== the labels

/-- The labels of the setup: the position of the scan and the header, the
strings, and three bytes before `e1000_rx_cur` the position of the card. -/
structure SetupLabels (L : Layout) extends NicLabels L where
  pci : PciLabels
  newline : BitVec 64
  hexa_digits : BitVec 64
  found_intel_e1000_msg : BitVec 64
  e1000_eeprom_detected_msg : BitVec 64
  start_bus_mastering_msg : BitVec 64
  bus_mastering_msg : BitVec 64
  saved_in : 0x10003 ≤ e1000_rx_cur.toNat
  saved_apart : e1000_mem_base.toNat + 35 ≤ e1000_rx_cur.toNat - 3
    ∨ e1000_rx_cur.toNat ≤ e1000_mem_base.toNat
  saved_cursor : L.start_location.toNat + 2 ≤ e1000_rx_cur.toNat - 3
    ∨ e1000_rx_cur.toNat ≤ L.start_location.toNat
  position_apart : ∀ a ∈ [pci.bus, pci.device, pci.function],
    (a.toNat < e1000_mem_base.toNat ∨ e1000_mem_base.toNat + 35 ≤ a.toNat)
      ∧ (a.toNat < e1000_rx_cur.toNat - 3 ∨ e1000_rx_cur.toNat ≤ a.toNat)
      ∧ (a.toNat < L.start_location.toNat
        ∨ L.start_location.toNat + 2 ≤ a.toNat)
  setup_strings_in : ∀ a ∈ [newline, found_intel_e1000_msg,
    e1000_eeprom_detected_msg, start_bus_mastering_msg, bus_mastering_msg],
    a.toNat + 30 ≤ 0x20000

namespace SetupLabels

variable {L : Layout} (l : SetupLabels L)

def e1000_flag : BitVec 64 := l.e1000_mem_base + 24#64
def e1000_int_no : BitVec 64 := l.e1000_mem_base + 33#64
def e1000_eeprom_flag : BitVec 64 := l.e1000_mem_base + 34#64

def e1000_bus : BitVec 64 := l.e1000_rx_cur - 3#64
def e1000_device : BitVec 64 := l.e1000_rx_cur - 2#64
def e1000_function : BitVec 64 := l.e1000_rx_cur - 1#64

end SetupLabels

/-- The variables and strings past those of `nicLabels`. -/
def setupLabels : SetupLabels assembledLayout where
  toNicLabels := nicLabels
  pci := assembledPci
  newline := 0x12700#64
  hexa_digits := 0x12710#64
  found_intel_e1000_msg := 0x12720#64
  e1000_eeprom_detected_msg := 0x12740#64
  start_bus_mastering_msg := 0x12760#64
  bus_mastering_msg := 0x12780#64
  saved_in := by decide
  saved_apart := by decide
  saved_cursor := by decide
  position_apart := by
    simp only [List.forall_mem_cons]
    exact ⟨by decide, by decide, by decide, by simp⟩
  setup_strings_in := by simp

-- =========================================================== the constants

-- the fields used
namespace PCI_CONF_SPACE

def vendor_id : BitVec 64 := 0#64
def device_id : BitVec 64 := 2#64
def bar0 : BitVec 64 := 0x10#64
def bar1 : BitVec 64 := 0x14#64
def int_line : BitVec 64 := 0x30#64
def int_pin : BitVec 64 := 0x31#64

end PCI_CONF_SPACE

def INTEL_VEND : BitVec 16 := 0x8086#16
def E1000_DEV : BitVec 16 := 0x100E#16
def E1000_DEV1 : BitVec 16 := 0x153A#16
def E1000_DEV2 : BitVec 16 := 0x10EA#16
def E1000_DEV3 : BitVec 16 := 0x100F#16
def E1000_DEV4 : BitVec 16 := 0x1004#16

def REG_EEPROM : BitVec 16 := 0x0014#16

def found_intel_e1000_msg : List (BitVec 8) :=
  ascii "Found e1000 NIC device" ++ [13, 10, 0]
def e1000_eeprom_detected_msg : List (BitVec 8) :=
  ascii "e1000 EEProm Detected" ++ [13, 10, 0]
def start_bus_mastering_msg : List (BitVec 8) :=
  ascii "started bus mastering" ++ [13, 10, 0]
def bus_mastering_msg : List (BitVec 8) :=
  ascii "bus mastering enabled" ++ [13, 10, 0]

-- ======================================================== e1000_pci_config

open PCI_CONF_SPACE

/-- The comparisons of `e1000_pci_config`, on a header at `h`: the ways to
`.found`. -/
def Found (m : Mem) (h : BitVec 64) : Prop :=
  m.read16 (h + vendor_id) = INTEL_VEND
    ∧ (m.read16 (h + device_id) = E1000_DEV
      ∨ m.read16 (h + device_id) = E1000_DEV1
      ∨ m.read16 (h + device_id) = E1000_DEV2
      ∨ m.read16 (h + device_id) = E1000_DEV3
      ∨ m.read16 (h + device_id) = E1000_DEV4)

instance (m : Mem) (h : BitVec 64) : Decidable (Found m h) :=
  inferInstanceAs (Decidable (_ ∧ _))

variable {L : Layout} (l : SetupLabels L)

/-- `.found`, up to the message: the configuration out of the header at
R9. -/
def record_header (c : Cpu) : Cpu :=
  let c := c.store8 l.e1000_flag 0x1#8
  let c := c.set .rax 0#64
  let c := load8 c .rax (c.reg .r9 + bar0)
  let c := c.setLow8 .rax (c.low8 .rax &&& 0x1#8)
  let c := c.store8 l.e1000_ioport_flag (c.low8 .rax)
  let c := load32 c .rax (c.reg .r9 + bar1)
  let c := c.set .rax ((c.low32 .rax &&& ~~~0x1#32).setWidth 64)
  let c := c.store16 l.e1000_io_base (c.low16 .rax)
  let c := c.set .rax 0#64
  let c := load32 c .rax (c.reg .r9 + bar0)
  let c := c.set .rax ((c.low32 .rax &&& ~~~0x3#32).setWidth 64)
  let c := c.store64 l.e1000_mem_base (c.reg .rax)
  let c := c.set .rax 0#64
  let c := load8 c .rax (c.reg .r9 + int_line)
  let c := c.setLow8 .rax (c.low8 .rax ||| c.mem (c.reg .r9 + int_pin))
  c.store8 l.e1000_int_no (c.low8 .rax)

/-- `mov al, [src]` and `mov [dst], al`. -/
def copy_byte (dst src : BitVec 64) (c : Cpu) : Cpu :=
  let c := load8 c .rax src
  c.store8 dst (c.low8 .rax)

/-- The position of the scan kept as the card's. -/
def save_position (c : Cpu) : Cpu :=
  let c := copy_byte l.e1000_bus l.pci.bus c
  let c := copy_byte l.e1000_device l.pci.device c
  copy_byte l.e1000_function l.pci.function c

def e1000_pci_config (c : Cpu) : Cpu :=
  let c := c.pushaq
  let c := c.load64 .r9 l.pci.pci_header
  let c :=
    if Found c.mem (c.reg .r9) then
      let c := record_header l c
      let c := print L l.found_intel_e1000_msg found_intel_e1000_msg c
      save_position l c
    else c
  c.popaq

-- ======================================================== e1000_bus_master

/-- The processor in front of a configuration space that takes writes, and
what was written where. -/
structure BusState where
  cpu : Cpu
  address : BitVec 32
  space : ConfigSpace
  written : List (BitVec 32 × BitVec 32)

namespace BusState

def run (s : BusState) (f : Cpu → Cpu) : BusState := { s with cpu := f s.cpu }

/-- `out dx, eax`. -/
def outEax (s : BusState) : BusState :=
  let v := s.cpu.low32 .rax
  if s.cpu.low16 .rdx = CONFIG_ADDRESS then { s with address := v }
  else if s.cpu.low16 .rdx = CONFIG_DATA then
    { s with
      space := fun a => if a = s.address then v else s.space a
      written := s.written ++ [(s.address, v)] }
  else s

/-- `in eax, dx`; other ports read as all ones. -/
def inEax (s : BusState) : BusState :=
  let v := if s.cpu.low16 .rdx = CONFIG_DATA then s.space s.address
    else 0xFFFFFFFF#32
  s.run fun c => c.set .rax (v.setWidth 64)

end BusState

/-- The configuration address of the command register, in RAX. RAX is not
cleared first. -/
def command_address (c : Cpu) : Cpu :=
  let c := or_field l.pci.bus 16 c
  let c := or_field l.pci.device 11 c
  let c := or_field l.pci.function 8 c
  let c := c.set .rax ((c.low32 .rax ||| 0x80000000#32).setWidth 64)
  let c := c.set .rsi 0x4#64
  let c := c.set .rax (c.reg .rax ||| c.reg .rsi)
  c.setLow8 .rax (c.low8 .rax &&& 0xFC#8)

/-- RAX in hexadecimal, on a line. -/
def print_rax (fuel : Nat) (c : Cpu) : Option Cpu := do
  let c := c.set .rdi (c.reg .rax)
  let c ← video_print_hexa L l.hexa_digits fuel c
  return print L l.newline newline c

/-- `mov dx, CONFIG_ADDRESS` and `out dx, eax`. -/
def select_rax (s : BusState) : BusState :=
  let s := s.run fun c => c.setLow16 .rdx CONFIG_ADDRESS
  s.outEax

/-- `xor rax, rax`, `mov dx, CONFIG_DATA` and `in eax, dx`. -/
def read_selected (s : BusState) : BusState :=
  let s := s.run fun c => c.set .rax 0#64
  let s := s.run fun c => c.setLow16 .rdx CONFIG_DATA
  s.inEax

/-- `pci_bus_master`, up to its `popaq`. -/
def pci_bus_master (fuel : Nat) (s : BusState) : Option BusState := do
  let s := s.run Cpu.pushaq
  let s := s.run (command_address l)
  let s := s.run
    (print L l.start_bus_mastering_msg start_bus_mastering_msg)
  let c ← print_rax l fuel s.cpu
  let s := s.run fun _ => c
  -- the command register with bits 1 and 2 set, in RCX
  let s := s.run fun c => c.push .rax
  let s := read_selected (select_rax s)
  let s := s.run fun c => c.set .rcx (c.reg .rax)
  let s := s.run fun c => c.set .rcx (c.reg .rcx ||| 0x6#64)
  -- written back
  let s := s.run fun c => c.pop .rax
  let s := s.run fun c => c.push .rax
  let s := select_rax s
  let s := s.run fun c => c.setLow16 .rdx CONFIG_DATA
  let s := s.run fun c => c.set .rax (c.reg .rcx)
  let s := s.outEax
  -- and read again
  let s := s.run fun c => c.pop .rax
  let s := read_selected (select_rax s)
  let c ← print_rax l fuel s.cpu
  let s := s.run fun _ => c
  let s := if s.cpu.reg .rax = s.cpu.reg .rcx then
      s.run (print L l.bus_mastering_msg bus_mastering_msg)
    else s
  return s.run Cpu.popaq

/-- The card's position as the one to compose an address from. -/
def load_position (c : Cpu) : Cpu :=
  let c := copy_byte l.pci.bus l.e1000_bus c
  let c := copy_byte l.pci.device l.e1000_device c
  copy_byte l.pci.function l.e1000_function c

/-- `e1000_bus_master`, for at most `fuel` calls one in another. -/
def e1000_bus_master : Nat → BusState → Option BusState
  | 0, _ => none
  | fuel + 1, s => do
      let s := s.run Cpu.pushaq
      let s := s.run (load_position l)
      let s ← pci_bus_master l fuel s
      -- no `ret` there: control runs on into this routine's first line
      let s ← e1000_bus_master fuel s
      return s.run Cpu.popaq

-- ===================================================== e1000_detect_eeprom

/-- The driver with the number of values it has read. -/
structure Probe where
  nic : Nic
  reads : Nat

/-- One round of `.loop`, up to the backward jump: read the register, which
answers its `n`-th reader with `answers n`, and count. -/
def eeprom_round (answers : Nat → BitVec 32) (p : Probe) : Probe :=
  let s := p.nic.run fun c => c.store16 l.e1000_rw_address REG_EEPROM
  let s := e1000_read_command l.toNicLabels (answers p.reads) s
  let s := s.run fun c => c.set .rdi 0#64
  let s := s.run fun c => load32 c .rdi l.e1000_rw_data
  let s := s.run fun c => c.set .rdi (c.reg .rdi &&& 0x10#64)
  -- `cmp rdi, 0x10` sets flags that `dec rcx` sets again
  let s := s.run fun c => c.set .rcx (c.reg .rcx - 1#64)
  ⟨s, p.reads + 1⟩

/-- `.loop`, for at most `fuel` rounds, and whether it falls through its
backward jump: `jne` after `dec rcx` looks at RCX alone. The other way out
is `je .no_eprom`. -/
def eeprom_loop (answers : Nat → BitVec 32) :
    Nat → Probe → Option (Probe × Bool)
  | 0, _ => none
  | fuel + 1, p =>
      if p.nic.cpu.reg .rcx = 0x0#64 then some (p, false)
      else
        let p := eeprom_round l answers p
        if p.nic.cpu.reg .rcx ≠ 0x0#64 then eeprom_loop answers fuel p
        else some (p, true)

/-- `e1000_detect_eeprom` up to the loop. -/
def eeprom_start (s : Nic) : Nic :=
  let s := s.run Cpu.pushaq
  let s := s.run fun c => c.store16 l.e1000_rw_address REG_EEPROM
  let s := s.run fun c => c.store32 l.e1000_rw_data 0x1#32
  let s := e1000_write_command l.toNicLabels s
  s.run fun c => c.set .rcx 0xFFFFFFFF#64

/-- `e1000_detect_eeprom` after the loop. -/
def eeprom_done (detected : Bool) (s : Nic) : Nic :=
  let s := if detected then
      let s := s.run
        (print L l.e1000_eeprom_detected_msg e1000_eeprom_detected_msg)
      s.run fun c => c.store8 l.e1000_eeprom_flag 0x1#8
    else s.run fun c => c.store8 l.e1000_eeprom_flag 0x0#8
  s.run Cpu.popaq

def e1000_detect_eeprom (answers : Nat → BitVec 32) (fuel : Nat)
    (s : Nic) : Option Probe := do
  let (p, detected) ← eeprom_loop l answers fuel ⟨eeprom_start l s, 0⟩
  return { p with nic := eeprom_done l detected p.nic }

end BootLoader.ThirdStage
