/-
The PCI scan of `Kernel` and `get_pci_device` of `third_stage/pci.asm`.

The configuration space is reached through two ports: what was last
written to CONFIG_ADDRESS selects the doubleword that CONFIG_DATA reads.
The model takes the space as a function of that address. The scan's
position is three bytes of memory, and `calls` is a history of what they
held at each call of `get_pci_device`; no instruction reads it.

Every loop is bounded by the same number of rounds and has no result when
that runs out, so a result means that all of them ended.
-/
import BootLoader.Lib.Loop
import BootLoader.ThirdStage.Layout

namespace BootLoader.ThirdStage

open FlatMemory

-- ============================================================== the labels

/-- Addresses of the scan's position and of the header buffer, inside the
image and apart from each other. -/
structure PciLabels where
  bus : BitVec 64
  device : BitVec 64
  function : BitVec 64
  pci_header : BitVec 64
  bus_in : 0x10000 ≤ bus.toNat ∧ bus.toNat < imageEnd
  device_in : 0x10000 ≤ device.toNat ∧ device.toNat < imageEnd
  function_in : 0x10000 ≤ function.toNat ∧ function.toNat < imageEnd
  header_in :
    0x10000 ≤ pci_header.toNat ∧ pci_header.toNat + 512 ≤ imageEnd
  bus_device : bus ≠ device
  bus_function : bus ≠ function
  device_function : device ≠ function
  header_apart : ∀ a ∈ [bus, device, function],
    a.toNat < pci_header.toNat ∨ pci_header.toNat + 512 ≤ a.toNat

/-- The labels as the assembler places them in `third_stage.bin`. -/
def assembledPci : PciLabels where
  bus := 0x1129A#64
  device := 0x1129B#64
  function := 0x1129C#64
  pci_header := 0x10A61#64
  bus_in := by simp [imageEnd]
  device_in := by simp [imageEnd]
  function_in := by simp [imageEnd]
  header_in := by simp [imageEnd]
  bus_device := by simp
  bus_function := by simp
  device_function := by simp
  header_apart := by simp

-- =============================================================== the ports

def CONFIG_ADDRESS : BitVec 16 := 0xCF8#16

def CONFIG_DATA : BitVec 16 := 0xCFC#16

/-- The doubleword at each configuration address. -/
abbrev ConfigSpace := BitVec 32 → BitVec 32

/-- A position of the scan: bus, device and function. -/
abbrev Position := BitVec 8 × BitVec 8 × BitVec 8

/-- The processor with the address latch in front of the configuration
space, and the calls so far. -/
structure Scan where
  cpu : Cpu
  address : BitVec 32
  calls : List Position

namespace Scan

/-- Code that uses the processor only. -/
def run (s : Scan) (f : Cpu → Cpu) : Scan := { s with cpu := f s.cpu }

/-- `out dx, eax`. -/
def outEax (s : Scan) : Scan :=
  if s.cpu.low16 .rdx = CONFIG_ADDRESS then
    { s with address := s.cpu.low32 .rax }
  else s

/-- `in eax, dx`; other ports read as all ones. -/
def inEax (space : ConfigSpace) (s : Scan) : Scan :=
  let v := if s.cpu.low16 .rdx = CONFIG_DATA then space s.address
    else 0xFFFFFFFF#32
  s.run fun c => c.set .rax (v.setWidth 64)

end Scan

-- ========================================================== get_pci_device

/-- `mov bl, [a]` after RBX was cleared, `shl ebx, n`, `or eax, ebx`. -/
def or_field (a : BitVec 64) (n : Nat) (c : Cpu) : Cpu :=
  let c := c.set .rbx 0#64
  let c := (c.reads a 1).setLow8 .rbx (c.mem a)
  let c := c.set .rbx ((c.low32 .rbx <<< n).setWidth 64)
  c.set .rax ((c.low32 .rax ||| c.low32 .rbx).setWidth 64)

/-- `get_pci_device` up to its loop: the configuration address of the
function in EAX. -/
def get_pci_device_start (l : PciLabels) (c : Cpu) : Cpu :=
  let c := c.set .rax 0#64
  let c := or_field l.bus 16 c
  let c := or_field l.device 11 c
  let c := or_field l.function 8 c
  let c := c.set .rax ((c.low32 .rax ||| 0x80000000#32).setWidth 64)
  c.set .rsi 0#64

/-- One round of `pci_config_space_read_loop`. -/
def pci_config_space_read_round (l : PciLabels) (space : ConfigSpace)
    (s : Scan) : Scan :=
  let s := s.run fun c => c.push .rax
  let s := s.run fun c => c.set .rax (c.reg .rax ||| c.reg .rsi)
  let s := s.run fun c => c.setLow8 .rax (c.low8 .rax &&& 0xFC#8)
  let s := s.run fun c => c.setLow16 .rdx CONFIG_ADDRESS
  let s := s.outEax
  let s := s.run fun c => c.setLow16 .rdx CONFIG_DATA
  let s := s.run fun c => c.set .rax 0#64
  let s := s.inEax space
  let s := s.run fun c => c.store32 (l.pci_header + c.reg .rsi) (c.low32 .rax)
  let s := s.run fun c => c.set .rsi (c.reg .rsi + 4#64)
  s.run fun c => c.pop .rax

/-- `cmp rsi, 0xff` and `jl`. -/
def pci_config_space_more (s : Scan) : Bool := (s.cpu.reg .rsi).slt 0xFF#64

/-- `get_pci_device`. -/
def get_pci_device (l : PciLabels) (space : ConfigSpace) (fuel : Nat)
    (s : Scan) : Option Scan :=
  Loop.finish pci_config_space_more
    (fun s => some (pci_config_space_read_round l space s)) fuel
    (s.run (get_pci_device_start l))

-- ================================================================ the scan

/-- `call get_pci_device`, with the position in the history. -/
def call_get_pci_device (l : PciLabels) (space : ConfigSpace) (fuel : Nat)
    (s : Scan) : Option Scan :=
  let m := s.cpu.mem
  get_pci_device l space fuel
    { s with calls := s.calls ++ [(m l.bus, m l.device, m l.function)] }

/-- `inc byte [a]`. -/
def inc_byte (a : BitVec 64) (c : Cpu) : Cpu :=
  (c.reads a 1).store8 a (c.mem a + 1#8)

/-- `cmp byte [a], v` and `jne`. -/
def byte_differs (a : BitVec 64) (v : BitVec 8) (s : Scan) : Bool :=
  s.cpu.mem a != v

/-- One round of `function_loop`. -/
def function_loop_round (l : PciLabels) (space : ConfigSpace) (fuel : Nat)
    (s : Scan) : Option Scan := do
  let s ← call_get_pci_device l space fuel s
  return s.run (inc_byte l.function)

def function_loop (l : PciLabels) (space : ConfigSpace) (fuel : Nat)
    (s : Scan) : Option Scan :=
  Loop.finish (byte_differs l.function 8#8)
    (function_loop_round l space fuel) fuel s

/-- One round of `device_loop`. -/
def device_loop_round (l : PciLabels) (space : ConfigSpace) (fuel : Nat)
    (s : Scan) : Option Scan := do
  let s ← function_loop l space fuel s
  let s := s.run (inc_byte l.device)
  return s.run fun c => c.store8 l.function 0#8

def device_loop (l : PciLabels) (space : ConfigSpace) (fuel : Nat)
    (s : Scan) : Option Scan :=
  Loop.finish (byte_differs l.device 32#8)
    (device_loop_round l space fuel) fuel s

/-- One round of `bus_loop`. -/
def bus_loop_round (l : PciLabels) (space : ConfigSpace) (fuel : Nat)
    (s : Scan) : Option Scan := do
  let s ← device_loop l space fuel s
  let s := s.run (inc_byte l.bus)
  return s.run fun c => c.store8 l.device 0#8

def bus_loop (l : PciLabels) (space : ConfigSpace) (fuel : Nat)
    (s : Scan) : Option Scan :=
  Loop.finish (byte_differs l.bus 255#8) (bus_loop_round l space fuel) fuel s

/-- The scan of `Kernel`, from a processor at that label. -/
def kernel_scan (l : PciLabels) (space : ConfigSpace) (fuel : Nat)
    (c : Cpu) : Option Scan :=
  bus_loop l space fuel ⟨c, 0#32, []⟩

/-- The scan ends in `s`: with enough rounds that is its result. -/
def ScanEnds (l : PciLabels) (space : ConfigSpace) (c : Cpu) (s : Scan) :
    Prop :=
  ∃ n, ∀ fuel, n ≤ fuel → kernel_scan l space fuel c = some s

end BootLoader.ThirdStage
