/-
`build_page_table` of `second_stage/page_table.asm`: the page tables the
processor has when it enters long mode.

`rep stosd` in 16-bit code counts in CX and stores at ES:DI, and the
offsets of `lea` and of the stores wrap at 64 KiB. The direction flag is
clear from `cld` on.
-/
import BootLoader.Lib.Loop
import BootLoader.Cpu.RealCalls

namespace BootLoader.SecondStage

open RealMode

variable {ω : Type _}

def PAGE_TABLE_BASE_ADDRESS : BitVec 16 := 0x0000#16
def PAGE_TABLE_BASE_OFFSET : BitVec 32 := 0x1000#32
def PAGE_PRESENT_WRITE : BitVec 32 := 0x3#32
def MEM_PAGE_4K : BitVec 16 := 0x1000#16

/-- One store of `stosd`, with the direction flag clear. -/
def stosd (c : Pc ω) : Pc ω :=
  (c.put32 .es (c.reg .di) (c.wide .ax)).set .di (c.reg .di + 4#16)

/-- `rep stosd`: as often as CX says. -/
def rep_stosd (c : Pc ω) : Pc ω :=
  (Loop.times stosd (c.reg .cx).toNat c).set .cx 0#16

/-- `lea eax, [es:di + MEM_PAGE_4K]`, `or eax, PAGE_PRESENT_WRITE`,
`mov [es:di], eax`: the table at ES:DI gets the next page as its first
entry. -/
def link_next (c : Pc ω) : Pc ω :=
  let c := c.setWide .ax ((c.reg .di + MEM_PAGE_4K).setWidth 32)
  let c := c.setWide .ax (c.wide .ax ||| PAGE_PRESENT_WRITE)
  c.put32 .es (c.reg .di) (c.wide .ax)

/-- One round of `.pte_loop`. -/
def pte_round (c : Pc ω) : Pc ω :=
  let c := c.put32 .es (c.reg .di) (c.wide .ax)
  let c := c.setWide .ax (c.wide .ax + MEM_PAGE_4K.setWidth 32)
  c.set .di (c.reg .di + 0x8#16)

def pte_loop (fuel : Nat) (c : Pc ω) : Outcome (Pc ω) :=
  Loop.attempt .unfinished (fun c => (c.wide .ax).slt 0x200000#32)
    (fun c => .ok (pte_round c)) fuel c

/-- `build_page_table`, with a bound on the rounds of its loop. -/
def build_page_table (fuel : Nat) (c : Pc ω) : Outcome (Pc ω) := do
  let c := c.pusha
  let c := c.set .ax PAGE_TABLE_BASE_ADDRESS
  let c := c.setSeg .es (c.reg .ax)
  let c := c.setWide .ax 0#32
  let c := c.setWide .di PAGE_TABLE_BASE_OFFSET
  let c := c.setWide .cx 0x1000#32
  let c := c.setWide .ax 0#32
  let c := rep_stosd c
  let c := c.setWide .di PAGE_TABLE_BASE_OFFSET
  let c := link_next c
  let c := c.set .di (c.reg .di + MEM_PAGE_4K)
  let c := link_next c
  let c := c.set .di (c.reg .di + MEM_PAGE_4K)
  let c := link_next c
  let c := c.set .di (c.reg .di + MEM_PAGE_4K)
  let c := c.setWide .ax PAGE_PRESENT_WRITE
  let c ← pte_loop fuel c
  .ok c.popa.ret

end BootLoader.SecondStage
