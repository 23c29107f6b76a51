/-
`memory_scanner` and `print_memory_regions` of
`second_stage/memory_scanner.asm`.

The scanner is a dialogue: each round asks INT 15h/E820h for one region,
and the BIOS says by EBX whether there is another. Both loops test at the
bottom. The scanner's takes the number of calls it may make; the printer
counts its own rounds down in ECX.
-/
import BootLoader.FirstStage.BiosPrint

namespace BootLoader.SecondStage

open RealMode FirstStage

variable {ω : Type _}

def MEM_REGIONS_SEGMENT : BitVec 16 := 0x2000#16
def PTR_MEM_REGIONS_COUNT : BitVec 16 := 0x1000#16
def PTR_MEM_REGIONS_TABLE : BitVec 16 := 0x1018#16

/-- "SMAP". -/
def MEM_MAGIC_NUMBER : BitVec 32 := 0x534D4150#32

/-- The calls of `memory_scanner.asm`. -/
inductive MapCall
  | failed
  | count | countLine
  | baseHigh | baseLow | baseGap
  | lengthHigh | lengthLow | lengthGap
  | type | line
  deriving DecidableEq, Repr

/-- The labels `memory_scanner.asm` uses, and the addresses of the
instructions after its calls. -/
structure MapLabels where
  memory_scan_failed_msg : BitVec 16
  newline : BitVec 16
  double_space : BitVec 16
  hexa : Hexa
  back : MapCall → BitVec 16

variable (B : Bios ω) (L : MapLabels) (fuel : Nat)

-- ============================================================ scanning

/-- `.memory_scan_failed`. -/
def memory_scan_failed (c : Pc ω) : Outcome (Pc ω) := do
  let c := c.set .si L.memory_scan_failed_msg
  let _ ← c.call (L.back .failed) (bios_print B fuel)
  .error .hang

/-- One question, up to the BIOS's answer. -/
def scan_ask (c : Pc ω) : Pc ω :=
  let c := c.setWide .dx MEM_MAGIC_NUMBER
  let c := c.put16 .es (c.reg .di + 20#16) 1#16
  let c := c.setWide .ax 0xE820#32
  let c := c.setWide .cx 0x18#32
  c.int B 0x15#8

/-- One answer taken: the next slot, one more region. -/
def scan_take (c : Pc ω) : Pc ω :=
  let c := c.set .di (c.reg .di + 0x18#16)
  let c := c.reads .es PTR_MEM_REGIONS_COUNT 2
  c.put16 .es PTR_MEM_REGIONS_COUNT (c.word .es PTR_MEM_REGIONS_COUNT + 1#16)

/-- `.memory_scanner_loop`, for at most the given number of questions. -/
def memory_scanner_loop : Nat → Pc ω → Outcome (Pc ω)
  | 0, _ => .error .unfinished
  | rounds + 1, c =>
      let c := scan_ask B c
      if c.carry then memory_scan_failed B L fuel c
      else if c.wide .ax ≠ MEM_MAGIC_NUMBER then
        memory_scan_failed B L fuel c
      else
        let c := scan_take c
        if c.wide .bx ≠ 0#32 then memory_scanner_loop rounds c
        else .ok c

def memory_scanner (rounds : Nat) (c : Pc ω) : Outcome (Pc ω) := do
  let c := c.pusha
  let c := c.set .ax MEM_REGIONS_SEGMENT
  let c := c.setSeg .es (c.reg .ax)
  let c := c.setWide .bx 0#32
  let c := c.put16 .es PTR_MEM_REGIONS_COUNT 0#16
  let c := c.set .di PTR_MEM_REGIONS_TABLE
  let c ← memory_scanner_loop B L fuel rounds c
  .ok c.popa.ret

-- ============================================================ printing

/-- `push si`, `mov si, msg`, `call bios_print`, `pop si`. -/
def print_between (msg back : BitVec 16) (c : Pc ω) : Outcome (Pc ω) := do
  let c := c.push (c.reg .si)
  let c := c.set .si msg
  let c ← c.call back (bios_print B fuel)
  .ok (c.pop .si)

/-- One round of `.print_memory_regions_loop`. -/
def print_region (c : Pc ω) : Outcome (Pc ω) := do
  let c := c.get32 .di .es (c.reg .si + 4#16)
  let c ← c.call (L.back .baseHigh) ( bios_print_hexa_with_prefix B L.hexa fuel)
  let c := c.get32 .di .es (c.reg .si)
  let c ← c.call (L.back .baseLow) (bios_print_hexa B L.hexa fuel)
  let c ← print_between B fuel L.double_space (L.back .baseGap) c
  let c := c.get32 .di .es (c.reg .si + 12#16)
  let c ← c.call (L.back .lengthHigh)
    ( bios_print_hexa_with_prefix B L.hexa fuel)
  let c := c.get32 .di .es (c.reg .si + 8#16)
  let c ← c.call (L.back .lengthLow) (bios_print_hexa B L.hexa fuel)
  let c ← print_between B fuel L.double_space (L.back .lengthGap) c
  let c := c.get32 .di .es (c.reg .si + 16#16)
  let c ← c.call (L.back .type) ( bios_print_hexa_with_prefix B L.hexa fuel)
  let c ← print_between B fuel L.newline (L.back .line) c
  let c := c.set .si (c.reg .si + 0x18#16)
  .ok (c.setWide .cx (c.wide .cx - 1#32))

def print_regions_loop (rounds : Nat) (c : Pc ω) : Outcome (Pc ω) :=
  Loop.attempt .unfinished (fun c => c.wide .cx != 0#32)
    (print_region B L fuel) rounds c

/-- `print_memory_regions`, for at most the given number of lines. The
count is a word; ECX takes the two bytes after it as well. -/
def print_memory_regions (rounds : Nat) (c : Pc ω) : Outcome (Pc ω) := do
  let c := c.pusha
  let c := c.set .ax MEM_REGIONS_SEGMENT
  let c := c.setSeg .es (c.reg .ax)
  let c := c.setWide .di 0#32
  let c := c.get16 .di .es PTR_MEM_REGIONS_COUNT
  let c ← c.call (L.back .count) (bios_print_hexa B L.hexa fuel)
  let c := c.set .si L.newline
  let c ← c.call (L.back .countLine) (bios_print B fuel)
  let c := c.get32 .cx .es PTR_MEM_REGIONS_COUNT
  let c := c.set .si 0x1018#16
  let c ← print_regions_loop B L fuel rounds c
  .ok c.popa.ret

end BootLoader.SecondStage
