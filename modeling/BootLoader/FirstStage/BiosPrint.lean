/-
Printing through the BIOS: `bios_print.asm` and `bios_print_hexa.asm`,
label by label.

Both stages include `bios_print.asm`, each at addresses of its own; the
hexadecimal printer stands among the first stage's files and only the
second includes it. What is printed is read off the history of `int`s:
`typed` lists the characters given to the teletype service, oldest first.
-/
import BootLoader.Lib.Loop
import BootLoader.Cpu.RealCalls

namespace BootLoader.FirstStage

open FlatMemory Segment RealMode

variable {ω : Type _}

-- ============================================================ bios_print

/-- `.print_loop`. -/
def print_loop (B : Bios ω) : Nat → Pc ω → Outcome (Pc ω)
  | 0, _ => .error .unfinished
  | fuel + 1, c =>
      let c := (c.set .ax 0#16).lodsb
      if c.low8 .ax = 0#8 then .ok c
      else print_loop B fuel ((c.setHigh8 .ax 0x0E#8).int B 0x10#8)

/-- `bios_print`, for a string of fewer than `fuel` characters. -/
def bios_print (B : Bios ω) (fuel : Nat) (c : Pc ω) : Outcome (Pc ω) := do
  let c ← print_loop B fuel c.pusha
  .ok c.popa.ret

-- ======================================================= bios_print_hexa

/-- The labels `bios_print_hexa.asm` uses, and the addresses of the
instructions after its two calls. -/
structure Hexa where
  hexa_digits : BitVec 16
  hexa_prefix : BitVec 16
  back_prefix : BitVec 16
  back_digits : BitVec 16

/-- One round of `.loop`: the top digit of EBX. The index ESI is below 16,
so the 32-bit address is that of its low half. -/
def hexa_round (B : Bios ω) (L : Hexa) (c : Pc ω) : Pc ω :=
  let c := c.setWide .si (c.wide .bx)
  let c := c.setWide .si (c.wide .si &&& 0xF0000000#32)
  let c := c.setWide .si (c.wide .si >>> 0x1C)
  let o := L.hexa_digits + c.reg .si
  let c := (c.reads .ds o 1).setLow8 .ax (c.byte .ds o)
  let c := c.setHigh8 .ax 0x0E#8
  let c := c.int B 0x10#8
  let c := c.setWide .bx (c.wide .bx <<< 4)
  c.set .cx (c.reg .cx - 1#16)

def hexa_loop (B : Bios ω) (L : Hexa) (fuel : Nat) (c : Pc ω) :
    Outcome (Pc ω) :=
  Loop.attempt .unfinished (fun c => (0#16).slt (c.reg .cx))
    (fun c => .ok (hexa_round B L c)) fuel c

/-- `bios_print_hexa`: the eight digits of EDI. -/
def bios_print_hexa (B : Bios ω) (L : Hexa) (fuel : Nat) (c : Pc ω) :
    Outcome (Pc ω) := do
  let c := c.pusha
  let c := c.set .cx 8#16
  let c := c.setWide .bx (c.wide .di)
  let c ← hexa_loop B L fuel c
  .ok c.popa.ret

/-- `bios_print_hexa_with_prefix`. -/
def bios_print_hexa_with_prefix (B : Bios ω) (L : Hexa) (fuel : Nat)
    (c : Pc ω) : Outcome (Pc ω) := do
  let c := c.pusha
  let c := c.set .si L.hexa_prefix
  let c ← c.call L.back_prefix (bios_print B fuel)
  let c ← c.call L.back_digits (bios_print_hexa B L fuel)
  .ok c.popa.ret

-- ======================================================== what is printed

/-- The character of a call of the teletype service. -/
def Call.typed (x : Call) : Option (BitVec 8) :=
  if x.number = 0x10#8 ∧ (x.reg .ax).extractLsb' 8 8 = 0x0E#8 then
    some ((x.reg .ax).extractLsb' 0 8)
  else none

/-- The characters typed so far. -/
def typed (c : Pc ω) : List (BitVec 8) := c.issued.filterMap Call.typed

/-- The bytes of a message. -/
def chars (s : String) : List (BitVec 8) :=
  s.toList.map fun ch => BitVec.ofNat 8 ch.toNat

/-- The table at `hexa_digits`. -/
def hexaDigits : List (BitVec 8) := chars "0123456789ABCDEF"

/-- A 32-bit number in eight hexadecimal digits, highest first. -/
def hexText (v : BitVec 32) : List (BitVec 8) :=
  (List.range 8).map fun i => hexaDigits.getD (v.toNat / 16 ^ (7 - i) % 16) 0#8

/-- The string at `s:o`, up to its zero byte. -/
def Text (m : Mem) (s : BitVec 16) : BitVec 16 → List (BitVec 8) → Prop
  | o, [] => m (linear s o) = 0#8
  | o, ch :: rest =>
      m (linear s o) = ch ∧ ch ≠ 0#8 ∧ Text m s (o + 1#16) rest

/-- What a service leaves of the machine that returns nothing: AX may
change, and memory where the BIOS keeps its own. -/
structure Quiet (own : BitVec 64 → Prop) (depth : Nat) (c d : Pc ω) :
    Prop where
  reg : ∀ r, r ≠ .ax → d.reg r = c.reg r
  high : ∀ r, r ≠ .ax → d.high r = c.high r
  seg : d.seg = c.seg
  mem : c.Spares own depth d

/-- A BIOS whose teletype service (INT 10h, AH = 0Eh) is quiet. -/
def Teletype (B : Bios ω) (own : BitVec 64 → Prop) (depth : Nat) : Prop :=
  ∀ c : Pc ω, c.high8 .ax = 0x0E#8 → Quiet own depth c (B 0x10#8 c)

end BootLoader.FirstStage
