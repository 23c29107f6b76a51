/-
`loop_over_mem_regions` of `third_stage/big_page_table.asm`: is the
address in R14 usable memory?

The routine scans the table the second stage's `memory_scanner` left at
0x21018, 24 bytes an entry, from its first entry up to the stopping
address it computes from a fixed count of eight. All compares are signed.
The verdict goes to the byte `flag`.

`usable` is the same decision on the table's contents alone; the proofs
about the routine (`Proofs/MemRegions.lean`) go through it.
-/
import BootLoader.ThirdStage.Layout

namespace BootLoader.ThirdStage

open FlatMemory

-- =========================================================== the table

/-- One entry of the memory map. -/
structure Region where
  base : BitVec 64
  len : BitVec 64
  type : BitVec 32
  deriving DecidableEq, Repr

/-- Address of entry `i` of the table. -/
def entryAddr (i : Nat) : BitVec 64 := BitVec.ofNat 64 (0x21018 + 24 * i)

/-- Entry `i` of the table in memory. -/
def regionAt (m : Mem) (i : Nat) : Region where
  base := m.read64 (entryAddr i)
  len := m.read64 (entryAddr i + 8#64)
  type := m.read32 (entryAddr i + 16#64)

/-- The routine's interval test: `base ≤ a ≤ base + len` as signed words,
with the sum wrapping. -/
def Region.hits (r : Region) (a : BitVec 64) : Bool :=
  !a.slt r.base && !(r.base + r.len).slt a

/-- The verdict on `a` from entry `i` on, with `n` entries left: the type
of the first entry that hits. -/
def usableFrom (m : Mem) (a : BitVec 64) (i : Nat) : Nat → Bool
  | 0 => false
  | n + 1 =>
      if (regionAt m i).hits a then (regionAt m i).type == 1#32
      else usableFrom m a (i + 1) n

/-- The verdict on `a`: the stopping address leaves seven entries. -/
def usable (m : Mem) (a : BitVec 64) : Bool := usableFrom m a 0 7

-- ========================================================== the routine

def make_flag_1 (L : Layout) (c : Cpu) : Cpu := c.store8 L.flag 1#8

def make_flag_0 (L : Layout) (c : Cpu) : Cpu := c.store8 L.flag 0#8

/-- `second_compare`: `jng within_range`. -/
def second_compare (c : Cpu) : Bool := !(c.reg .r11).slt (c.reg .r14)

/-- The two compares: `jg second_compare`, `jl edit_first`, and equality
falls through to `second_compare`. -/
def in_bounds (c : Cpu) : Bool :=
  if (c.reg .r9).slt (c.reg .r14) then second_compare c
  else if (c.reg .r14).slt (c.reg .r9) then false
  else second_compare c

/-- `within_range`: the type doubleword, zero-extended into R9. -/
def within_range (L : Layout) (c : Cpu) : Cpu :=
  let c := c.set .r8 (c.reg .r8 + 8#64)
  let c := (c.reads (c.reg .r8) 4).set .r9
    ((c.mem.read32 (c.reg .r8)).zeroExtend 64)
  if c.reg .r9 = 1#64 then make_flag_1 L c else make_flag_0 L c

/-- `check_type_loop`: base and end of an entry into R9 and R11, then
either `within_range` or `edit_first`, which goes round while R8 is below
the stopping address in R10. -/
def check_type_loop (L : Layout) : Nat → Cpu → Cpu
  | 0, c => make_flag_0 L c
  | fuel + 1, c =>
      let c := c.load64 .r9 (c.reg .r8)
      let c := c.set .r8 (c.reg .r8 + 8#64)
      let c := c.load64 .r11 (c.reg .r8)
      let c := c.set .r11 (c.reg .r11 + c.reg .r9)
      if in_bounds c then within_range L c
      else
        let c := c.set .r8 (c.reg .r8 + 0x10#64)
        if (c.reg .r8).slt (c.reg .r10) then check_type_loop L fuel c
        else make_flag_0 L c

/-- `loop_over_mem_regions`: the stopping address is 8 * 24 past the
table's start at 0x21000, the first entry 24 past it. The bound on the
rounds is the count the routine loads; the loop stops by its own test
after seven. -/
def loop_over_mem_regions (L : Layout) (c : Cpu) : Cpu :=
  let c := c.pushaq
  let c := c.set .r8 0x21000#64
  let c := c.set .r9 0x8#64
  let c := c.set .r12 0x18#64
  let c := c.set .rax (c.reg .r9)
  let c := c.mul .r12
  let c := c.set .r10 (c.reg .rax)
  let c := c.set .r10 (c.reg .r10 + 0x21000#64)
  let c := c.set .r8 (c.reg .r8 + 0x18#64)
  let c := check_type_loop L 8 c
  c.popaq

end BootLoader.ThirdStage
