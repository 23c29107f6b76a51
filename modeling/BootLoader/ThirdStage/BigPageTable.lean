/-
The big page table: `start_here`, `page_walk` and `build_page_table2` of
`third_stage/big_page_table.asm`, and the clearing of the PML4 page by
`looping2` in `third_stage.asm`.

# The machine

`start_here` walks the virtual pages below 0x140000000 in order and maps
each with `page_walk`, whose searches for a usable frame have no bound of
their own. So this part is a transition system: a state (`Boot`) stands
at a label, and `step` runs the straight-line code from that label to the
next one. The called routines run to completion inside a step.

The two `je` after `video_print` in `allocate1` and `allocate2` read the
zero flag `video_print` left, which its last arithmetic instruction, a
`mul`, leaves undefined: `step` takes that flag as an argument.

# History

`tables` and `frames` record what the run has stored so far, in order:
the table pointers with the allocation that stored them, the data frames
with the virtual page each was chosen for. No instruction reads them.
-/
import BootLoader.Lib.Run
import BootLoader.ThirdStage.MemRegions
import BootLoader.ThirdStage.Video

namespace BootLoader.ThirdStage

open FlatMemory

-- ======================================================= clearing a page

/-- One round of the clearing loops: a quadword at RCX. -/
def clear_round (c : Cpu) : Cpu :=
  let c := c.store64 (c.reg .rcx) 0#64
  let c := c.set .rcx (c.reg .rcx + 0x8#64)
  c.set .r8 (c.reg .r8 - 1#64)

/-- The loop both clearing routines run, with the count they load. -/
def clear_loop (c : Cpu) : Cpu :=
  Loop.doWhile (fun c => c.reg .r8 != 0#64) clear_round 0x200 c

/-- `looping` in `build_page_table2`. -/
def looping (c : Cpu) : Cpu := clear_loop c

/-- `looping2` in `third_stage.asm`. -/
def looping2 (c : Cpu) : Cpu := clear_loop c

/-- `build_page_table2`: clear the page at RCX. -/
def build_page_table2 (c : Cpu) : Cpu :=
  let c := c.pushaq
  let c := c.set .r8 0x200#64
  let c := looping c
  c.popaq

-- ================================================================ states

/-- The three allocations of table pages. -/
inductive Level
  | l1 | l2 | l3
  deriving DecidableEq, Repr

/-- Where the code stands. `returned` is the instruction after
`call page_walk`, `done` the `ret` of `start_here`. -/
inductive Label
  | page_walk
  | allocate (k : Level)
  | adjust_then_call (k : Level)
  | approve_allocate (k : Level)
  | skip (k : Level)
  | allocate4
  | adjust_then_call4
  | approve_allocate4
  | skip4
  | returned
  | done
  deriving DecidableEq, Repr

structure Boot where
  pc : Label
  cpu : Cpu
  tables : List (Level × BitVec 64)
  frames : List (BitVec 64 × BitVec 64)

/-- The register that holds the entry's address in the table that
allocation `k` fills. -/
def Level.slot : Level → Reg
  | .l1 => .r13
  | .l2 => .r12
  | .l3 => .r11

-- ============================================================= page_walk

/-- `page_walk` up to its first branch: the four indices, and the address
of the PML4 entry. -/
def page_walk (s : Boot) : Boot :=
  let c := s.cpu
  let c := c.set .r9 (c.reg .r8)
  let c := c.set .r9 (c.reg .r9 &&& 0xFFF#64)
  let c := c.set .r10 (c.reg .r8)
  let c := c.set .r10 (c.reg .r10 <<< 0x2B)
  let c := c.set .r10 (c.reg .r10 >>> 0x37)
  let c := c.set .r11 (c.reg .r8)
  let c := c.set .r11 (c.reg .r11 <<< 0x22)
  let c := c.set .r11 (c.reg .r11 >>> 0x37)
  let c := c.set .r12 (c.reg .r8)
  let c := c.set .r12 (c.reg .r12 <<< 0x19)
  let c := c.set .r12 (c.reg .r12 >>> 0x37)
  let c := c.set .r13 (c.reg .r8)
  let c := c.set .r13 (c.reg .r13 <<< 0x10)
  let c := c.set .r13 (c.reg .r13 >>> 0x37)
  let c := c.set .r15 0x100000#64
  let c := c.set .r13 (c.reg .r13 <<< 3)
  let c := c.set .r13 (c.reg .r13 + c.reg .r15)
  let c := c.reads (c.reg .r13) 8
  { s with
    cpu := c
    pc := if c.mem.read64 (c.reg .r13) = 0#64 then .allocate .l1
      else .skip .l1 }

/-- The code `allocate1` and `allocate2` share: print, then branch on
the flag `video_print` left. -/
def allocate_unchecked (L : Layout) (k : Level) (addr : BitVec 64)
    (str : List (BitVec 8)) (zf : Bool) (s : Boot) : Boot :=
  let c := s.cpu.set .rsi addr
  let c := video_print L str c
  let c := c.set .r14 (c.reg .rcx)
  { s with
    cpu := c
    pc := if zf then .approve_allocate k else .adjust_then_call k }

def allocate1 (L : Layout) : Bool → Boot → Boot :=
  allocate_unchecked L .l1 L.allocate1_msg allocate1_msg

def allocate2 (L : Layout) : Bool → Boot → Boot :=
  allocate_unchecked L .l2 L.allocate2_msg allocate2_msg

/-- `allocate3` checks the frame RCX stands at before it moves on. -/
def allocate3 (L : Layout) (s : Boot) : Boot :=
  let c := s.cpu.set .rsi L.allocate3_msg
  let c := video_print L allocate3_msg c
  let c := c.set .r14 (c.reg .rcx)
  let c := loop_over_mem_regions L c
  let c := c.reads L.flag 1
  { s with
    cpu := c
    pc := if c.mem L.flag = 1#8 then .approve_allocate .l3
      else .adjust_then_call .l3 }

/-- One round of a frame search: 4 KiB further, ask, and stop or go
round. -/
def adjust_then_call (L : Layout) (bump : Reg) (approve again : Label)
    (s : Boot) : Boot :=
  let c := s.cpu
  let c := c.set bump (c.reg bump + 0x1000#64)
  let c := c.set .r14 (c.reg bump)
  let c := loop_over_mem_regions L c
  let c := c.reads L.flag 1
  { s with
    cpu := c
    pc := if c.mem L.flag = 1#8 then approve else again }

def adjust_then_call1 (L : Layout) : Boot → Boot :=
  adjust_then_call L .rcx (.approve_allocate .l1) (.adjust_then_call .l1)

def adjust_then_call2 (L : Layout) : Boot → Boot :=
  adjust_then_call L .rcx (.approve_allocate .l2) (.adjust_then_call .l2)

def adjust_then_call3 (L : Layout) : Boot → Boot :=
  adjust_then_call L .rcx (.approve_allocate .l3) (.adjust_then_call .l3)

def adjust_then_call4 (L : Layout) : Boot → Boot :=
  adjust_then_call L .rbx .approve_allocate4 .adjust_then_call4

/-- A table page: clear it, put the flag bits into RCX, store the
pointer. RCX keeps the flag bits as it moves past the page. -/
def approve_allocate (k : Level) (s : Boot) : Boot :=
  let c := build_page_table2 s.cpu
  let c := c.set .rcx (c.reg .rcx ||| 0x3#64)
  let c := c.store64 (c.reg k.slot) (c.reg .rcx)
  { s with
    cpu := c.set .rcx (c.reg .rcx + 0x1000#64)
    tables := s.tables ++ [(k, c.reg .rcx)]
    pc := .skip k }

def approve_allocate1 : Boot → Boot := approve_allocate .l1

def approve_allocate2 : Boot → Boot := approve_allocate .l2

def approve_allocate3 : Boot → Boot := approve_allocate .l3

/-- The step down one level: the index in `child` becomes the address of
its entry in the table `parent`'s entry points at, flag bits and all. -/
def skip (parent child : Reg) (null mapped : Label) (s : Boot) : Boot :=
  let c := s.cpu
  let c := c.set child (c.reg child <<< 3)
  let c := (c.reads (c.reg parent) 8).set child
    (c.reg child + c.mem.read64 (c.reg parent))
  let c := c.reads (c.reg child) 8
  { s with
    cpu := c
    pc := if c.mem.read64 (c.reg child) = 0#64 then null else mapped }

def skip1 : Boot → Boot := skip .r13 .r12 (.allocate .l2) (.skip .l2)

def skip2 : Boot → Boot := skip .r12 .r11 (.allocate .l3) (.skip .l3)

def skip3 (L : Layout) (s : Boot) : Boot :=
  skip .r11 .r10 .allocate4 .skip4 { s with cpu := s.cpu.set .rsi L.dot }

/-- `allocate4`: a frame up to 0x200000 is taken as it is. -/
def allocate4 (L : Layout) (s : Boot) : Boot :=
  let c := s.cpu.set .rsi L.pte_msg
  let c := video_print L pte_msg c
  let c := c.set .r14 (c.reg .rbx)
  { s with
    cpu := c
    pc :=
      if (c.reg .r14).slt 0x200000#64 then .approve_allocate4
      else if c.reg .r14 = 0x200000#64 then .approve_allocate4
      else .adjust_then_call4 }

/-- The data frame: the leaf entry is RBX itself. -/
def approve_allocate4 (s : Boot) : Boot :=
  let c := s.cpu
  let c := c.store64 (c.reg .r10) (c.reg .rbx)
  { s with
    cpu := c.set .rbx (c.reg .rbx + 0x1000#64)
    frames := s.frames ++ [(c.reg .r8, c.reg .rbx)]
    pc := .skip4 }

/-- `skip4`: back to `start_here`. -/
def skip4 (s : Boot) : Boot := { s with pc := .returned }

/-- The loop of `start_here` after the call, and its way out through
`mov cr3`, which takes the PML4's address from RDI. -/
def loop_construct_page_table (s : Boot) : Boot :=
  let c := s.cpu
  let c := c.set .r8 (c.reg .r8 + 0x1000#64)
  let c := c.set .r9 0x140000000#64
  if (c.reg .r8).slt (c.reg .r9) then { s with cpu := c, pc := .page_walk }
  else { s with cpu := c.set .rdi 0x100000#64, pc := .done }

-- =============================================================== the run

/-- From one label to the next; `zf` is the flag left undefined. -/
def step (L : Layout) (zf : Bool) (s : Boot) : Boot :=
  match s.pc with
  | .page_walk => page_walk s
  | .allocate .l1 => allocate1 L zf s
  | .adjust_then_call .l1 => adjust_then_call1 L s
  | .approve_allocate .l1 => approve_allocate1 s
  | .skip .l1 => skip1 s
  | .allocate .l2 => allocate2 L zf s
  | .adjust_then_call .l2 => adjust_then_call2 L s
  | .approve_allocate .l2 => approve_allocate2 s
  | .skip .l2 => skip2 s
  | .allocate .l3 => allocate3 L s
  | .adjust_then_call .l3 => adjust_then_call3 L s
  | .approve_allocate .l3 => approve_allocate3 s
  | .skip .l3 => skip3 L s
  | .allocate4 => allocate4 L s
  | .adjust_then_call4 => adjust_then_call4 L s
  | .approve_allocate4 => approve_allocate4 s
  | .skip4 => skip4 s
  | .returned => loop_construct_page_table s
  | .done => s

/-- The third stage up to `call start_here`: the PML4 page cleared. -/
def third_stage (c : Cpu) : Cpu :=
  let c := c.set .r8 0x200#64
  let c := c.set .rcx 0x100000#64
  looping2 c

/-- `start_here` up to its loop. The access history starts here. -/
def start_here (c : Cpu) : Boot :=
  let c := c.set .rbx 0x0#64
  let c := c.set .rcx 0x100000#64
  let c := c.set .rcx (c.reg .rcx + 0x1000#64)
  let c := c.set .r8 0x0#64
  { pc := .page_walk, cpu := { c with log := [] }, tables := [], frames := [] }

/-- Both allocation pointers are below 2^63. -/
def Bounded (s : Boot) : Prop :=
  (s.cpu.reg .rbx).toNat < 2 ^ 63 ∧ (s.cpu.reg .rcx).toNat < 2 ^ 63

/-- The states of `start_here` on the machine `c` before an allocation
pointer reaches 2^63. -/
def Reached (L : Layout) (c : Cpu) : Boot → Prop :=
  Run.Reaches (step L) Bounded (start_here (third_stage c))

end BootLoader.ThirdStage
