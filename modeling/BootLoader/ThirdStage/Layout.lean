/-
Where the third stage's code, data and stack lie, and the notion of work
that stays in low memory.

`third_stage.asm` is assembled at 0x10000 and padded to 8650 bytes. The
stack the first stage set up (`STACK_OFFSET`) lies below it, the memory
map above it from 0x21000, the text buffer from 0xB8000, and the page
tables from 0x100000. The addresses of the labels are the assembler's
choice, so the model takes them as a `Layout` that keeps them inside the
image.
-/
import BootLoader.Cpu.Long

namespace BootLoader.ThirdStage

open FlatMemory

-- ============================================================ the layout

/-- First byte past the third stage's image. -/
def imageEnd : Nat := 0x10000 + 8650

/-- Addresses of the data labels the modelled code uses, inside the
image; a string label has room for the longest message. -/
structure Layout where
  flag : BitVec 64
  start_location : BitVec 64
  allocate1_msg : BitVec 64
  allocate2_msg : BitVec 64
  allocate3_msg : BitVec 64
  pte_msg : BitVec 64
  dot : BitVec 64
  flag_in : 0x10000 ≤ flag.toNat ∧ flag.toNat < imageEnd
  start_location_in :
    0x10000 ≤ start_location.toNat ∧ start_location.toNat + 8 ≤ imageEnd
  strings_in : ∀ a ∈ [allocate1_msg, allocate2_msg, allocate3_msg, pte_msg],
    a.toNat + 20 ≤ imageEnd

/-- The labels as the assembler places them in `third_stage.bin`. -/
def assembledLayout : Layout where
  flag := 0x11221#64
  start_location := 0x11272#64
  allocate1_msg := 0x11225#64
  allocate2_msg := 0x11236#64
  allocate3_msg := 0x1124A#64
  pte_msg := 0x1125E#64
  dot := 0x1121E#64
  flag_in := by simp [imageEnd]
  start_location_in := by simp [imageEnd]
  strings_in := by simp [imageEnd]

/-- RSP points into the stack: below the image, above the second stage's
page tables, with room for a register save. -/
def StackOk (c : Cpu) : Prop :=
  0x5100 ≤ (c.reg .rsp).toNat ∧ (c.reg .rsp).toNat ≤ 0x10000

-- ====================================================== low-memory work

/-- `d` is `c` after work on the image and the text buffer: RSP, the
stack, the memory map and everything from 0x100000 up are as before. -/
structure LowWork (c d : Cpu) : Prop where
  rsp : d.reg .rsp = c.reg .rsp
  stack : Mem.AgreeOn c.mem d.mem 0 0x10000
  map : Mem.AgreeOn c.mem d.mem 0x20000 0xB0000
  high : Mem.AgreeOn c.mem d.mem 0x100000 (2 ^ 64)
  log : ∀ x ∈ d.log, x ∈ c.log ∨ x.Below 0x100000

theorem LowWork.refl (c : Cpu) : LowWork c c :=
  ⟨rfl, Mem.AgreeOn.refl _ _ _, Mem.AgreeOn.refl _ _ _,
    Mem.AgreeOn.refl _ _ _, fun _ hx => Or.inl hx⟩

theorem LowWork.trans {c d e : Cpu} (h : LowWork c d) (h' : LowWork d e) :
    LowWork c e where
  rsp := h'.rsp.trans h.rsp
  stack := h.stack.trans h'.stack
  map := h.map.trans h'.map
  high := h.high.trans h'.high
  log := fun x hx => (h'.log x hx).elim (h.log x) Or.inr

/-- Registers other than RSP are free to change. -/
theorem LowWork.set {c d : Cpu} (h : LowWork c d) {r : Reg}
    (hr : r ≠ .rsp) (v : BitVec 64) : LowWork c (d.set r v) where
  rsp := by rw [Cpu.set_reg_of_ne (Ne.symm hr), h.rsp]
  stack := h.stack
  map := h.map
  high := h.high
  log := h.log

theorem LowWork.reads {c d : Cpu} (h : LowWork c d) {a : BitVec 64}
    {n : Nat} (ha : a.toNat + n ≤ 0x100000) : LowWork c (d.reads a n) where
  rsp := h.rsp
  stack := h.stack
  map := h.map
  high := h.high
  log := by
    intro x hx
    rcases List.mem_cons.1 hx with rfl | hx
    · exact Or.inr ha
    · exact h.log x hx

/-- A store into the image or between the memory map's reach and
0x100000. -/
theorem LowWork.store {c d e : Cpu} (h : LowWork c d) {a : BitVec 64}
    {n : Nat} {v : BitVec (8 * n)} (hreg : e.reg = d.reg)
    (hmem : e.mem = d.mem.write a n v)
    (hlog : e.log = ⟨true, a, n⟩ :: d.log)
    (ha : (0x10000 ≤ a.toNat ∧ a.toNat + n ≤ 0x20000)
      ∨ (0xB0000 ≤ a.toNat ∧ a.toNat + n ≤ 0x100000)) : LowWork c e where
  rsp := by rw [hreg, h.rsp]
  stack := h.stack.trans (by
    rw [hmem]
    exact Mem.agreeOn_write _ v (by omega) (by omega))
  map := h.map.trans (by
    rw [hmem]
    exact Mem.agreeOn_write _ v (by omega) (by omega))
  high := h.high.trans (by
    rw [hmem]
    exact Mem.agreeOn_write _ v (by omega) (by omega))
  log := by
    intro x hx
    rw [hlog] at hx
    rcases List.mem_cons.1 hx with rfl | hx
    · exact Or.inr (by show a.toNat + n ≤ _; omega)
    · exact h.log x hx

/-- `d` is `c` after a call that shows only in low memory: all registers
are back. -/
structure Quiet (c d : Cpu) : Prop where
  reg : d.reg = c.reg
  map : Mem.AgreeOn c.mem d.mem 0x20000 0xB0000
  high : Mem.AgreeOn c.mem d.mem 0x100000 (2 ^ 64)
  log : ∀ x ∈ d.log, x ∈ c.log ∨ x.Below 0x100000

/-- A routine that saves all registers, does low-memory work and restores
them is quiet. -/
theorem quiet_of_lowWork {c d : Cpu} (hs : StackOk c)
    (hw : LowWork c.pushaq d) :
    Quiet c d.popaq ∧ d.popaq.mem = d.mem := by
  obtain ⟨hlo, hhi⟩ := hs
  obtain ⟨-, -, hpmem, hplog⟩ := Cpu.pushaq_spec (c := c) (by omega)
  obtain ⟨hreg, hmem, hlog⟩ := Cpu.popaq_spec (c := c) (d := d) (by omega)
    hw.rsp (hw.stack.mono (by omega) (by omega))
  refine ⟨⟨hreg, ?_, ?_, ?_⟩, hmem⟩
  · rw [hmem]
    intro b hb1 hb2
    rw [hw.map b hb1 hb2]
    exact hpmem b (Or.inr (by omega))
  · rw [hmem]
    intro b hb1 hb2
    rw [hw.high b hb1 hb2]
    exact hpmem b (Or.inr (by omega))
  · intro x hx
    rcases hlog x hx with hx | hx
    · rcases hw.log x hx with hx | hx
      · rcases hplog x hx with hx | hx
        · exact Or.inl hx
        · refine Or.inr ?_
          unfold Access.Below at hx ⊢
          omega
      · exact Or.inr hx
    · refine Or.inr ?_
      unfold Access.Below at hx ⊢
      omega

end BootLoader.ThirdStage
