/-
The PC in real mode, as the first two stages use it: 16-bit registers with
the upper halves of the 32-bit ones, segments, a physical memory, and the
BIOS behind the `int` instruction.

# What is kept and what is not

A 32-bit register is its upper half `high r` and its 16-bit register
`reg r`, so 16-bit code leaves the upper halves alone by construction.
The BIOS is a parameter: a function that takes the whole machine to the
machine after the service, with a hidden state of its own (`bios`). `loads`
and `issued` are histories, of the memory operands read and of the `int`s
made; no instruction reads them, and pops are not among the loads. The
carry flag is state because the BIOS answers through it; every other flag
is folded into the jump it feeds, and `eflags` is what the last `popfd` or
service left there.

# Calls

`call` pushes the address to come back to, and control goes on after it
only if the routine's `ret` popped that address. A routine that comes back
to somewhere else is `astray`, and nothing is said of what follows.
-/
import BootLoader.Lib.Segment

namespace BootLoader.RealMode

open FlatMemory Segment

-- ============================================================ the state

/-- The general registers, by their 16-bit names. -/
inductive Gpr
  | ax | cx | dx | bx | sp | bp | si | di
  deriving DecidableEq, Repr

/-- The segment registers code addresses memory through. -/
inductive Seg
  | ds | es | ss
  deriving DecidableEq, Repr

/-- One memory operand read: `size` bytes at `addr`. -/
structure Load where
  addr : BitVec 64
  size : Nat
  deriving DecidableEq, Repr

/-- One `int`, with the registers it was made with. -/
structure Call where
  number : BitVec 8
  reg : Gpr → BitVec 16
  high : Gpr → BitVec 16
  seg : Seg → BitVec 16

structure Pc (ω : Type _) where
  reg : Gpr → BitVec 16
  high : Gpr → BitVec 16
  seg : Seg → BitVec 16
  carry : Bool
  eflags : BitVec 32
  ip : BitVec 16
  mem : Mem
  loads : List Load
  issued : List Call
  bios : ω

/-- How code ends that does not go on: at `hang`, in a divide error, at an
address its caller did not push, or not within the rounds it was given. -/
inductive Stop
  | hang | divideError | astray | unfinished
  deriving DecidableEq, Repr

abbrev Outcome := Except Stop

/-- A sequence that went through, taken apart. -/
theorem bind_inv {α β : Type _} {x : Outcome α} {f : α → Outcome β} {b : β}
    (h : (x >>= f) = .ok b) : ∃ a, x = .ok a ∧ f a = .ok b := by
  cases x with
  | error e => cases h
  | ok a => exact ⟨a, rfl, h⟩

/-- What each interrupt service makes of the machine. -/
abbrev Bios (ω : Type _) := BitVec 8 → Pc ω → Pc ω

namespace Pc

variable {ω : Type _}

-- ============================================================ registers

/-- `mov r, v`. -/
def set (c : Pc ω) (r : Gpr) (v : BitVec 16) : Pc ω :=
  { c with reg := fun r' => if r' = r then v else c.reg r' }

/-- `mov s, v`. -/
def setSeg (c : Pc ω) (s : Seg) (v : BitVec 16) : Pc ω :=
  { c with seg := fun s' => if s' = s then v else c.seg s' }

/-- The low byte of a register (AL, CL, DL, BL). -/
def low8 (c : Pc ω) (r : Gpr) : BitVec 8 := (c.reg r).extractLsb' 0 8

/-- The high byte of a register (AH, CH, DH, BH). -/
def high8 (c : Pc ω) (r : Gpr) : BitVec 8 := (c.reg r).extractLsb' 8 8

/-- `mov al, v` and its like. -/
@[simp] def setLow8 (c : Pc ω) (r : Gpr) (v : BitVec 8) : Pc ω :=
  c.set r ((c.reg r).extractLsb' 8 8 ++ v)

/-- `mov ah, v` and its like. -/
@[simp] def setHigh8 (c : Pc ω) (r : Gpr) (v : BitVec 8) : Pc ω :=
  c.set r (v ++ (c.reg r).extractLsb' 0 8)

/-- The 32-bit register. -/
def wide (c : Pc ω) (r : Gpr) : BitVec 32 := c.high r ++ c.reg r

/-- `mov er, v`. -/
def setWide (c : Pc ω) (r : Gpr) (v : BitVec 32) : Pc ω :=
  { c with
    reg := fun r' => if r' = r then v.extractLsb' 0 16 else c.reg r'
    high := fun r' => if r' = r then v.extractLsb' 16 16 else c.high r' }

-- =============================================================== memory

/-- The byte at `s:o`. -/
def byte (c : Pc ω) (s : Seg) (o : BitVec 16) : BitVec 8 :=
  c.mem (linear (c.seg s) o)

/-- The word at `s:o`. -/
def word (c : Pc ω) (s : Seg) (o : BitVec 16) : BitVec 16 :=
  load c.mem (c.seg s) o 2

/-- The doubleword at `s:o`. -/
def dword (c : Pc ω) (s : Seg) (o : BitVec 16) : BitVec 32 :=
  load c.mem (c.seg s) o 4

/-- Record that the `n` bytes at `s:o` were read. -/
def reads (c : Pc ω) (s : Seg) (o : BitVec 16) (n : Nat) : Pc ω :=
  { c with loads := c.loads ++ [⟨linear (c.seg s) o, n⟩] }

/-- `mov byte [s:o], v`. -/
def put8 (c : Pc ω) (s : Seg) (o : BitVec 16) (v : BitVec 8) : Pc ω :=
  { c with mem := store c.mem (c.seg s) o 1 v }

/-- `mov word [s:o], v`. -/
def put16 (c : Pc ω) (s : Seg) (o : BitVec 16) (v : BitVec 16) : Pc ω :=
  { c with mem := store c.mem (c.seg s) o 2 v }

/-- `mov dword [s:o], v`. -/
def put32 (c : Pc ω) (s : Seg) (o : BitVec 16) (v : BitVec 32) : Pc ω :=
  { c with mem := store c.mem (c.seg s) o 4 v }

/-- `mov r, word [s:o]`. -/
def get16 (c : Pc ω) (r : Gpr) (s : Seg) (o : BitVec 16) : Pc ω :=
  (c.reads s o 2).set r (c.word s o)

/-- `mov er, dword [s:o]`. -/
def get32 (c : Pc ω) (r : Gpr) (s : Seg) (o : BitVec 16) : Pc ω :=
  (c.reads s o 4).setWide r (c.dword s o)

/-- `lodsb`, with the direction flag clear. -/
def lodsb (c : Pc ω) : Pc ω :=
  let o := c.reg .si
  ((c.reads .ds o 1).setLow8 .ax (c.byte .ds o)).set .si (o + 1#16)

-- ============================================================ the stack

/-- `push v`. -/
def push (c : Pc ω) (v : BitVec 16) : Pc ω :=
  (c.set .sp (c.reg .sp - 2#16)).put16 .ss (c.reg .sp - 2#16) v

/-- `pop r`. -/
def pop (c : Pc ω) (r : Gpr) : Pc ω :=
  let a := c.reg .sp
  (c.set .sp (a + 2#16)).set r (c.word .ss a)

/-- `pusha`: the 16-bit registers, with SP as it was before. -/
def pusha (c : Pc ω) : Pc ω :=
  [c.reg .ax, c.reg .cx, c.reg .dx, c.reg .bx, c.reg .sp, c.reg .bp,
    c.reg .si, c.reg .di].foldl push c

/-- `popa`: the reverse, passing over the saved SP. -/
def popa (c : Pc ω) : Pc ω :=
  let c := ((c.pop .di).pop .si).pop .bp
  let c := c.set .sp (c.reg .sp + 2#16)
  (((c.pop .bx).pop .dx).pop .cx).pop .ax

/-- `ret`. -/
def ret (c : Pc ω) : Pc ω :=
  let a := c.reg .sp
  { c.set .sp (a + 2#16) with ip := c.word .ss a }

/-- `call f`, with `back` the address of the instruction after it. -/
def call (back : BitVec 16) (f : Pc ω → Outcome (Pc ω)) (c : Pc ω) :
    Outcome (Pc ω) := do
  let d ← f (c.push back)
  if d.ip = back then .ok d else .error .astray

-- =========================================================== arithmetic

/-- `div v`: AX and DX become quotient and remainder of DX:AX by `v`,
unless the quotient does not fit or `v` is zero. -/
def div (c : Pc ω) (v : BitVec 16) : Outcome (Pc ω) :=
  let n := (c.reg .dx).toNat * 65536 + (c.reg .ax).toNat
  if v = 0#16 ∨ 65535 < n / v.toNat then .error .divideError
  else .ok ((c.set .ax (BitVec.ofNat 16 (n / v.toNat))).set .dx
    (BitVec.ofNat 16 (n % v.toNat)))

-- ============================================================= the BIOS

/-- `int n`. The service does not rewrite the histories. -/
def int (B : Bios ω) (n : BitVec 8) (c : Pc ω) : Pc ω :=
  { B n c with
    ip := c.ip
    loads := c.loads
    issued := c.issued ++ [⟨n, c.reg, c.high, c.seg⟩] }

-- ====================================================== reading it back

section
variable (c : Pc ω) (r r' : Gpr) (s s' : Seg) (o v : BitVec 16)
  (v8 : BitVec 8) (v32 : BitVec 32) (B : Bios ω) (n : BitVec 8) (k : Nat)

@[simp] theorem set_reg :
    (c.set r v).reg r' = if r' = r then v else c.reg r' := rfl
@[simp] theorem set_high : (c.set r v).high = c.high := rfl
@[simp] theorem set_seg : (c.set r v).seg = c.seg := rfl
@[simp] theorem set_carry : (c.set r v).carry = c.carry := rfl
@[simp] theorem set_eflags : (c.set r v).eflags = c.eflags := rfl
@[simp] theorem set_ip : (c.set r v).ip = c.ip := rfl
@[simp] theorem set_mem : (c.set r v).mem = c.mem := rfl
@[simp] theorem set_loads : (c.set r v).loads = c.loads := rfl
@[simp] theorem set_issued : (c.set r v).issued = c.issued := rfl
@[simp] theorem set_bios : (c.set r v).bios = c.bios := rfl

@[simp] theorem setSeg_reg : (c.setSeg s v).reg = c.reg := rfl
@[simp] theorem setSeg_high : (c.setSeg s v).high = c.high := rfl
@[simp] theorem setSeg_seg :
    (c.setSeg s v).seg s' = if s' = s then v else c.seg s' := rfl
@[simp] theorem setSeg_carry : (c.setSeg s v).carry = c.carry := rfl
@[simp] theorem setSeg_eflags : (c.setSeg s v).eflags = c.eflags := rfl
@[simp] theorem setSeg_ip : (c.setSeg s v).ip = c.ip := rfl
@[simp] theorem setSeg_mem : (c.setSeg s v).mem = c.mem := rfl
@[simp] theorem setSeg_loads : (c.setSeg s v).loads = c.loads := rfl
@[simp] theorem setSeg_issued : (c.setSeg s v).issued = c.issued := rfl
@[simp] theorem setSeg_bios : (c.setSeg s v).bios = c.bios := rfl

@[simp] theorem setWide_reg : (c.setWide r v32).reg r'
    = if r' = r then v32.extractLsb' 0 16 else c.reg r' := rfl
@[simp] theorem setWide_high : (c.setWide r v32).high r'
    = if r' = r then v32.extractLsb' 16 16 else c.high r' := rfl
@[simp] theorem setWide_seg : (c.setWide r v32).seg = c.seg := rfl
@[simp] theorem setWide_carry : (c.setWide r v32).carry = c.carry := rfl
@[simp] theorem setWide_eflags : (c.setWide r v32).eflags = c.eflags := rfl
@[simp] theorem setWide_ip : (c.setWide r v32).ip = c.ip := rfl
@[simp] theorem setWide_mem : (c.setWide r v32).mem = c.mem := rfl
@[simp] theorem setWide_loads : (c.setWide r v32).loads = c.loads := rfl
@[simp] theorem setWide_issued : (c.setWide r v32).issued = c.issued := rfl
@[simp] theorem setWide_bios : (c.setWide r v32).bios = c.bios := rfl

@[simp] theorem reads_reg : (c.reads s o k).reg = c.reg := rfl
@[simp] theorem reads_high : (c.reads s o k).high = c.high := rfl
@[simp] theorem reads_seg : (c.reads s o k).seg = c.seg := rfl
@[simp] theorem reads_mem : (c.reads s o k).mem = c.mem := rfl
@[simp] theorem reads_eflags : (c.reads s o k).eflags = c.eflags := rfl
@[simp] theorem reads_ip : (c.reads s o k).ip = c.ip := rfl
@[simp] theorem reads_loads : (c.reads s o k).loads
    = c.loads ++ [⟨linear (c.seg s) o, k⟩] := rfl
@[simp] theorem reads_issued : (c.reads s o k).issued = c.issued := rfl
@[simp] theorem reads_bios : (c.reads s o k).bios = c.bios := rfl

@[simp] theorem put8_reg : (c.put8 s o v8).reg = c.reg := rfl
@[simp] theorem put8_high : (c.put8 s o v8).high = c.high := rfl
@[simp] theorem put8_seg : (c.put8 s o v8).seg = c.seg := rfl
@[simp] theorem put8_ip : (c.put8 s o v8).ip = c.ip := rfl
@[simp] theorem put8_loads : (c.put8 s o v8).loads = c.loads := rfl
@[simp] theorem put8_issued : (c.put8 s o v8).issued = c.issued := rfl
@[simp] theorem put8_bios : (c.put8 s o v8).bios = c.bios := rfl
@[simp] theorem put8_mem :
    (c.put8 s o v8).mem = store c.mem (c.seg s) o 1 v8 := rfl

@[simp] theorem put16_reg : (c.put16 s o v).reg = c.reg := rfl
@[simp] theorem put16_high : (c.put16 s o v).high = c.high := rfl
@[simp] theorem put16_seg : (c.put16 s o v).seg = c.seg := rfl
@[simp] theorem put16_carry : (c.put16 s o v).carry = c.carry := rfl
@[simp] theorem put16_eflags : (c.put16 s o v).eflags = c.eflags := rfl
@[simp] theorem put16_ip : (c.put16 s o v).ip = c.ip := rfl
@[simp] theorem put16_loads : (c.put16 s o v).loads = c.loads := rfl
@[simp] theorem put16_issued : (c.put16 s o v).issued = c.issued := rfl
@[simp] theorem put16_bios : (c.put16 s o v).bios = c.bios := rfl
@[simp] theorem put16_mem :
    (c.put16 s o v).mem = store c.mem (c.seg s) o 2 v := rfl

@[simp] theorem put32_reg : (c.put32 s o v32).reg = c.reg := rfl
@[simp] theorem put32_high : (c.put32 s o v32).high = c.high := rfl
@[simp] theorem put32_seg : (c.put32 s o v32).seg = c.seg := rfl
@[simp] theorem put32_ip : (c.put32 s o v32).ip = c.ip := rfl
@[simp] theorem put32_mem :
    (c.put32 s o v32).mem = store c.mem (c.seg s) o 4 v32 := rfl

@[simp] theorem int_reg : (c.int B n).reg = (B n c).reg := rfl
@[simp] theorem int_high : (c.int B n).high = (B n c).high := rfl
@[simp] theorem int_seg : (c.int B n).seg = (B n c).seg := rfl
@[simp] theorem int_carry : (c.int B n).carry = (B n c).carry := rfl
@[simp] theorem int_eflags : (c.int B n).eflags = (B n c).eflags := rfl
@[simp] theorem int_mem : (c.int B n).mem = (B n c).mem := rfl
@[simp] theorem int_bios : (c.int B n).bios = (B n c).bios := rfl
@[simp] theorem int_ip : (c.int B n).ip = c.ip := rfl
@[simp] theorem int_loads : (c.int B n).loads = c.loads := rfl
@[simp] theorem int_issued : (c.int B n).issued
    = c.issued ++ [⟨n, c.reg, c.high, c.seg⟩] := rfl

end

/-- The halves of a 32-bit register put together again. -/
theorem wide_setWide (c : Pc ω) (r : Gpr) (v : BitVec 32) :
    (c.setWide r v).wide r = v := by
  simp only [wide, setWide_reg, setWide_high, if_true]
  exact BitVec.extractLsb'_append_extractLsb'

theorem wide_setWide_of_ne (c : Pc ω) {r r' : Gpr} (v : BitVec 32)
    (h : r' ≠ r) : (c.setWide r v).wide r' = c.wide r' := by
  simp only [wide, setWide_reg, setWide_high, if_neg h]

theorem wide_eq {c d : Pc ω} {r : Gpr} (hr : d.reg r = c.reg r) (hh : d.high r = c.high r) :
    d.wide r = c.wide r := by
  simp only [wide, hr, hh]

end Pc

end BootLoader.RealMode
