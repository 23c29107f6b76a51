/-
`video_print` and `video_print_hexa` of `third_stage/video.asm`, label by
label.

The string `video_print` is called with is given as the list of its bytes:
`lodsb` takes the next one, and both terminators (0 and 13) are bytes of
the list. `video_print_hexa` jumps into the same loop with RSI left where
its own work put it, so there the bytes are read from memory
(`video_print_loop_at`). The two loops of the scroll are bounded by the
counts their own tests stop at.
-/
import BootLoader.Lib.Loop
import BootLoader.ThirdStage.Layout

namespace BootLoader.ThirdStage

open FlatMemory

-- ============================================================= messages

/-- The bytes of a message. -/
def ascii (s : String) : List (BitVec 8) :=
  s.toList.map fun ch => BitVec.ofNat 8 ch.toNat

def allocate1_msg : List (BitVec 8) := ascii "PML4 Allocation" ++ [13, 0]
def allocate2_msg : List (BitVec 8) := ascii "Level 2 Allocation" ++ [13, 0]
def allocate3_msg : List (BitVec 8) := ascii "Level 3 Allocation" ++ [13, 0]
def pte_msg : List (BitVec 8) := ascii "This is PTE Level" ++ [13, 0]

-- ============================================================== scroll

/-- One round of `copy_up`: a quadword moves up one screen line. -/
def copy_up_round (c : Cpu) : Cpu :=
  let c := c.load64 .r8 (c.reg .rbx)
  let c := c.store64 (c.reg .rax) (c.reg .r8)
  let c := c.set .rbx (c.reg .rbx + 8#64)
  let c := c.set .rax (c.reg .rax + 8#64)
  c.set .rdx (c.reg .rdx + 1#64)

def copy_up (c : Cpu) : Cpu :=
  Loop.doWhile (fun c => (c.reg .rdx).slt 0x1E0#64) copy_up_round 0x1E0 c

/-- One round of `clear_last_line`: a blank with attribute 0. -/
def clear_last_line_round (c : Cpu) : Cpu :=
  let c := c.store8 (c.reg .rbx) 0x20#8
  let c := c.set .rbx (c.reg .rbx + 1#64)
  let c := c.store8 (c.reg .rbx) 0#8
  let c := c.set .rbx (c.reg .rbx + 1#64)
  c.set .rdx (c.reg .rdx + 1#64)

def clear_last_line (c : Cpu) : Cpu :=
  Loop.doWhile (fun c => c.reg .rdx != 0xA0#64) clear_last_line_round 0xA0 c

/-- `scroll`, up to its jump back to `cont_printing`. RAX is a copy
pointer here, so AL does not survive. -/
def scroll (c : Cpu) : Cpu :=
  let c := c.set .rbx 0xB80A0#64
  let c := c.set .rax 0xB8000#64
  let c := c.set .rdx 0#64
  let c := copy_up c
  let c := c.set .rdx 0#64
  let c := c.set .rbx 0xB8F00#64
  let c := clear_last_line c
  c.set .rbx 0xB8F00#64

-- ============================================================= printing

/-- `cont_printing`: character and attribute at RBX. -/
def cont_printing (c : Cpu) : Cpu :=
  let c := c.store8 (c.reg .rbx) (c.low8 .rax)
  let c := c.set .rbx (c.reg .rbx + 1#64)
  let c := c.store8 (c.reg .rbx) 0x1F#8
  let c := c.set .rbx (c.reg .rbx + 1#64)
  let c := c.set .rcx (c.reg .rcx + 1#64)
  c.set .rcx (c.reg .rcx + 1#64)

/-- `out_video_print_loop`: after a 13, the start of the next line. -/
def out_video_print_loop (L : Layout) (c : Cpu) : Cpu :=
  let c := c.set .rax 0#64
  let c := (c.reads L.start_location 2).setLow16 .rax
    (c.mem.read16 L.start_location)
  let c := c.set .r8 160#64
  let c := c.set .rdx 0#64
  let c := c.setLow16 .rax (c.low16 .rax + 0xA0#16)
  let c := c.div .r8
  let c := c.set .rdx 0#64
  let c := c.mul .r8
  c.store16 L.start_location (c.low16 .rax)

/-- `out_video_print_loop1`: after a 0, the cell after the text. -/
def out_video_print_loop1 (L : Layout) (c : Cpu) : Cpu :=
  let c := (c.reads L.start_location 2).setLow16 .rax
    (c.mem.read16 L.start_location)
  let c := c.setLow16 .rax (c.low16 .rax + c.low16 .rcx)
  c.store16 L.start_location (c.low16 .rax)

/-- `lodsb`, with `ch` the byte at RSI. -/
def lodsb (ch : BitVec 8) (c : Cpu) : Cpu :=
  let c := (c.reads (c.reg .rsi) 1).setLow8 .rax ch
  c.set .rsi (c.reg .rsi + 1#64)

/-- `video_print_loop`, over the rest of the string. -/
def video_print_loop (L : Layout) : List (BitVec 8) → Cpu → Cpu
  | [], c => c
  | ch :: rest, c =>
      let c := lodsb ch c
      if c.low8 .rax = 13#8 then out_video_print_loop L c
      else if c.low8 .rax = 0#8 then out_video_print_loop1 L c
      else
        let c := if c.reg .rbx = 0xB8FA0#64 then scroll c else c
        video_print_loop L rest (cont_printing c)

/-- `video_print`, with `str` the bytes at RSI. -/
def video_print (L : Layout) (str : List (BitVec 8)) (c : Cpu) : Cpu :=
  let c := c.pushaq
  let c := c.set .rbx 0xB8000#64
  let c := (c.reads L.start_location 2).setLow16 .rbx
    (c.low16 .rbx + c.mem.read16 L.start_location)
  let c := c.set .rcx 0#64
  let c := video_print_loop L str c
  c.popaq

-- ========================================================= video_print_hexa

/-- `video_print_loop` over the bytes RSI points at, for at most `fuel` of
them. -/
def video_print_loop_at (L : Layout) : Nat → Cpu → Option Cpu
  | 0, _ => none
  | fuel + 1, c =>
      let c := lodsb (c.mem (c.reg .rsi)) c
      if c.low8 .rax = 13#8 then some (out_video_print_loop L c)
      else if c.low8 .rax = 0#8 then some (out_video_print_loop1 L c)
      else
        let c := if c.reg .rbx = 0xB8FA0#64 then scroll c else c
        video_print_loop_at L fuel (cont_printing c)

/-- The top of `.loop`: the digit of the four highest bits of RDI. -/
def hexa_digit (hexa_digits : BitVec 64) (c : Cpu) : Cpu :=
  let c := c.set .rsi (c.reg .rdi)
  let c := c.set .rsi (c.reg .rsi >>> 0x3C)
  let a := hexa_digits + c.reg .rsi
  (c.reads a 1).setLow8 .rax (c.mem a)

/-- `.continue_print_hexa`, up to its backward jump. -/
def continue_print_hexa (c : Cpu) : Cpu :=
  let c := c.store8 (c.reg .rbx) (c.low8 .rax)
  let c := c.set .rbx (c.reg .rbx + 1#64)
  let c := c.store8 (c.reg .rbx) 0x1F#8
  let c := c.set .rbx (c.reg .rbx + 1#64)
  let c := c.set .rdi (c.reg .rdi <<< 0x4)
  c.set .rcx (c.reg .rcx - 1#64)

/-- `.loop`, at most `n` rounds. It leaves for `.scroll_hexa` at the end of
the screen, and falls through to it after the last digit. -/
def hexa_loop (hexa_digits : BitVec 64) : Nat → Cpu → Cpu
  | 0, c => c
  | n + 1, c =>
      let c := hexa_digit hexa_digits c
      if c.reg .rbx = 0xB8FA0#64 then c
      else
        let c := continue_print_hexa c
        if (0#64).slt (c.reg .rcx) then hexa_loop hexa_digits n c else c

/-- `.scroll_hexa`, up to its jump to `cont_printing`. `.copy_up_hexa` is
`copy_up` again. The `jne` after the one round of `.clear_last_line_hexa`
is taken (`clear_last_line_hexa_taken`), and it goes to `clear_last_line`
of the other routine; nothing reaches the jump back to the digits, or
the addition to `start_location` behind it. -/
def scroll_hexa (c : Cpu) : Cpu :=
  let c := c.set .rbx 0xB80A0#64
  let c := c.set .rax 0xB8000#64
  let c := c.set .rdx 0#64
  let c := copy_up c
  let c := c.set .rdx 0#64
  let c := c.set .rbx 0xB8F00#64
  let c := clear_last_line_round c
  let c := clear_last_line c
  c.set .rbx 0xB8F00#64

/-- `video_print_hexa`: the digits, then the scroll, then whatever text RSI
points at, up to the `popaq` and `ret` of `video_print`. -/
def video_print_hexa (L : Layout) (hexa_digits : BitVec 64) (fuel : Nat)
    (c : Cpu) : Option Cpu :=
  let c := c.pushaq
  let c := c.set .rbx 0xB8000#64
  let c := (c.reads L.start_location 2).setLow16 .rbx
    (c.low16 .rbx + c.mem.read16 L.start_location)
  let c := c.set .rcx 0x10#64
  let c := hexa_loop hexa_digits 0x10 c
  let c := scroll_hexa c
  (video_print_loop_at L fuel (cont_printing c)).map Cpu.popaq

end BootLoader.ThirdStage
