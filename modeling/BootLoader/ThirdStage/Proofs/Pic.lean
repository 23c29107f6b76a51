/-
What `configure_pic` leaves, and what the mask routines do over a sequence
of calls.

One call changes one bit (`irq_mask_bits`): `set_irq_mask` sets it,
`clear_irq_mask` flips it. So after any sequence a line's bit is what it
was at its last `set_irq_mask`, or at the start, flipped once for each
`clear_irq_mask` since (`mask_calls_bit`). That is what the calls ask for
exactly when there were no such clears, or an odd number on a masked line,
or an even number on an unmasked one.
-/
import Mathlib.Data.List.Induction
import BootLoader.Lib.Words
import BootLoader.ThirdStage.Pic

namespace BootLoader.ThirdStage

open Pic8259 Words

variable {m : Machine} {n : Nat}

-- ======================================================= configure_pic

/-- The controllers once configured: nothing masked, nothing in service,
vectors 32 and 40, no automatic end of interrupt. -/
def configured : Pair where
  master := ⟨0#8, 0#8, 0x11#8, 0x20#8, 0x04#8, 0x01#8, .ready⟩
  slave := ⟨0#8, 0#8, 0x11#8, 0x28#8, 0x02#8, 0x01#8, .ready⟩

theorem out_byte_al (v : BitVec 8) (port : BitVec 16) (m : Machine) :
    (out_byte v port m).cpu.low8 .rax = v := by
  unfold out_byte Machine.outAl Machine.run
  exact Cpu.low8_setLow8 _ _ _

theorem out_byte_pic (v : BitVec 8) (port : BitVec 16) (m : Machine) :
    (out_byte v port m).pic = m.pic.outb port v := by
  have hal := out_byte_al v port m
  show m.pic.outb port ((out_byte v port m).cpu.low8 .rax) = _
  rw [hal]

theorem outAl_pic (m : Machine) (port : BitVec 16) :
    (m.outAl port).pic = m.pic.outb port (m.cpu.low8 .rax) := rfl

/-- `configure_pic` ends in the same state whatever it found. -/
theorem configure_pic_pic (m : Machine) :
    (configure_pic m).pic = configured := by
  unfold configure_pic
  simp only [Machine.run_pic, out_byte_pic, outAl_pic, out_byte_al]
  generalize (m.pic.outb MASTER_PIC_DATA_PORT 0xFF#8).outb
    SLAVE_PIC_DATA_PORT 0xFF#8 = p
  simp [Pair.outb, Controller.command, Controller.data, Controller.last,
    configured, MASTER_PIC_DATA_PORT, SLAVE_PIC_DATA_PORT,
    MASTER_PIC_COMMAND_PORT, SLAVE_PIC_COMMAND_PORT]

-- =============================================================== one call

/-- What combining with the line's bit does to bit `i`. -/
structure BitOp (op : BitVec 64 → BitVec 64 → BitVec 64)
    (f : Bool → Bool → Bool) : Prop where
  bit : ∀ a b i, (op a b).getLsbD i = f (a.getLsbD i) (b.getLsbD i)
  keep : ∀ a, f a false = a

theorem bitOp_or : BitOp (· ||| ·) (· || ·) where
  bit := fun _ _ _ => BitVec.getLsbD_or
  keep := Bool.or_false

theorem bitOp_xor : BitOp (· ^^^ ·) (· ^^ ·) where
  bit := fun _ _ _ => BitVec.getLsbD_xor
  keep := Bool.xor_false

/-- The bit of line `n`, alone. -/
theorem getLsbD_line {n i : Nat} (hn : n < 8) :
    (0x1#64 <<< n).getLsbD i = decide (i = n) := by
  rw [BitVec.getLsbD_shiftLeft]
  by_cases h : i = n
  · subst h
    simp
    omega
  · simp [h]
    omega

variable {op : BitVec 64 → BitVec 64 → BitVec 64} {f : Bool → Bool → Bool}

/-- The byte `.master` writes back, bit by bit. -/
theorem master_byte (hop : BitOp op f) (port : BitVec 16) (hn : n < 8)
    {i : Nat} (hi : i < 8) :
    (((op ((m.pic.ind m.other port).setWidth 64)
        (0x1#64 <<< n)).setWidth 32).extractLsb' 0 8).getLsbD i
      = f ((m.pic.inb m.other port).getLsbD i) (decide (i = n)) := by
  rw [BitVec.getLsbD_extractLsb', BitVec.getLsbD_setWidth, hop.bit,
    BitVec.getLsbD_setWidth, getLsbD_line hn, Nat.zero_add,
    Pair.ind_low _ _ _ hi]
  have h1 : i < 32 := by omega
  have h2 : i < 64 := by omega
  simp [hi, h1, h2]

/-- `.master` as one transition of the controllers. -/
theorem irq_mask_master_pic (op : BitVec 64 → BitVec 64 → BitVec 64)
    (port : BitVec 16)
    (hdx : m.cpu.reg .rdx = port.setWidth 64) (hn : n < 8)
    (hdi : m.cpu.reg .rdi = BitVec.ofNat 64 n) :
    (irq_mask_master op m).pic = m.pic.outd port
      ((op ((m.pic.ind m.other port).setWidth 64) (0x1#64 <<< n)).setWidth
        32) := by
  have hport : m.cpu.low16 .rdx = port := by
    apply BitVec.eq_of_toNat_eq
    unfold Cpu.low16
    rw [hdx, BitVec.extractLsb'_toNat, BitVec.toNat_setWidth]
    omega
  have hcl : ((BitVec.ofNat 64 n).extractLsb' 0 8).toNat % 64 = n := by
    rw [BitVec.extractLsb'_toNat, BitVec.toNat_ofNat]
    omega
  unfold irq_mask_master Machine.inEax Machine.outEax
  simp only [Machine.set_cpu, Machine.set_pic, Cpu.low16, Cpu.low8,
    Cpu.set_reg, reduceCtorEq, if_true, if_false]
  rw [show (m.cpu.reg .rdx).extractLsb' 0 16 = port from hport, hdi, hcl]

/-- One call: the line's bit is combined, the others stay. -/
theorem irq_mask_bits (hop : BitOp op f) (h : m.pic.Ready) (hn : n < 16)
    (hdi : m.cpu.reg .rdi = BitVec.ofNat 64 n) :
    (irq_mask op m).pic.Ready
      ∧ ∀ i < 16, (irq_mask op m).pic.mask.getLsbD i
        = f (m.pic.mask.getLsbD i) (decide (i = n)) := by
  have hrdi : m.cpu.pushaq.reg .rdi = BitVec.ofNat 64 n := by
    rw [Cpu.pushaq_reg _ (by decide), hdi]
  have hnat : (BitVec.ofNat 64 n).toNat = n := by
    rw [BitVec.toNat_ofNat]
    omega
  have h15 : (15#64).slt (BitVec.ofNat 64 n) = false := by
    rw [slt_lit (by decide) (by omega)]
    exact decide_eq_false (by
      show ¬ 15 < n
      omega)
  have h8 : (BitVec.ofNat 64 n).slt 8#64 = decide (n < 8) := by
    rw [slt_lit (by omega) (by omega), hnat]
  unfold irq_mask
  simp only [Machine.run_cpu, Machine.set_cpu, Cpu.set_reg, reduceCtorEq,
    if_false, hrdi, h15, h8, Bool.false_eq_true, decide_eq_true_eq]
  by_cases hlow : n < 8
  · -- the master's register
    have hpic := irq_mask_master_pic op MASTER_PIC_DATA_PORT
      (m := (m.run Cpu.pushaq).set .rdx (MASTER_PIC_DATA_PORT.setWidth 64))
      (Cpu.set_reg_self _ _ _) hlow
      ((Cpu.set_reg_of_ne (by decide)).trans hrdi)
    rw [if_pos hlow, Machine.run_pic, hpic]
    change Pair.Ready (m.pic.outd 0x21#16 _) ∧ ∀ i < 16,
      (m.pic.outd 0x21#16 _).mask.getLsbD i = _
    rw [Pair.outd_master h]
    refine ⟨h, ?_⟩
    intro i hi
    rw [Pair.getLsbD_mask, Pair.getLsbD_mask]
    by_cases hi8 : i < 8
    · rw [if_pos hi8, if_pos hi8]
      exact master_byte hop _ hlow hi8
    · rw [if_neg hi8, if_neg hi8, decide_eq_false (by omega), hop.keep]
  · -- the slave's register, with the line counted from 8
    have hsub : BitVec.ofNat 64 n - 8#64 = BitVec.ofNat 64 (n - 8) := by
      apply BitVec.eq_of_toNat_eq
      simp only [BitVec.toNat_sub, BitVec.toNat_ofNat]
      omega
    have hslave : n - 8 < 8 := by omega
    rw [if_neg hlow]
    have hpic := irq_mask_master_pic op SLAVE_PIC_DATA_PORT
      (m := (((m.run Cpu.pushaq).set .rdx
        (MASTER_PIC_DATA_PORT.setWidth 64)).set .rdi
          (BitVec.ofNat 64 n - 8#64)).set .rdx
            (SLAVE_PIC_DATA_PORT.setWidth 64))
      (Cpu.set_reg_self _ _ _) hslave
      (by
        rw [hsub]
        exact (Cpu.set_reg_of_ne (by decide)).trans (Cpu.set_reg_self _ _ _))
    rw [Machine.run_pic, hpic]
    change Pair.Ready (m.pic.outd 0xA1#16 _) ∧ ∀ i < 16,
      (m.pic.outd 0xA1#16 _).mask.getLsbD i = _
    rw [Pair.outd_slave h]
    refine ⟨h, ?_⟩
    intro i hi
    rw [Pair.getLsbD_mask, Pair.getLsbD_mask]
    by_cases hi8 : i < 8
    · rw [if_pos hi8, if_pos hi8, decide_eq_false (by omega), hop.keep]
    · have hbyte := master_byte (m := m) hop 0xA1#16 hslave
        (i := i - 8) (by omega)
      have hsame : decide (i - 8 = n - 8) = decide (i = n) :=
        decide_eq_decide.2 (by omega)
      rw [hsame] at hbyte
      rw [if_neg hi8, if_neg hi8]
      exact hbyte

/-- A call of `set_irq_mask` or `clear_irq_mask`, bit by bit. -/
theorem MaskCall.run_bits (h : m.pic.Ready) (call : MaskCall) :
    (call.run m).pic.Ready ∧ ∀ i < 16,
      (call.run m).pic.mask.getLsbD i =
        match call with
        | .set n => m.pic.mask.getLsbD i || decide (i = n)
        | .clear n => m.pic.mask.getLsbD i ^^ decide (i = n) := by
  cases call with
  | set n =>
      exact irq_mask_bits bitOp_or (m := m.set .rdi _) h n.isLt
        (Cpu.set_reg_self _ _ _)
  | clear n =>
      exact irq_mask_bits bitOp_xor (m := m.set .rdi _) h n.isLt
        (Cpu.set_reg_self _ _ _)

-- ============================================================= sequences

/-- What the calls ask of line `n`: the last one that names it decides,
and a line never named keeps `b`. -/
def asked (n : Fin 16) (b : Bool) (calls : List MaskCall) : Bool :=
  calls.foldl (fun b call =>
    match call with
    | .set k => if k = n then true else b
    | .clear k => if k = n then false else b) b

/-- The line's bit at its last `set_irq_mask`, or at the start, and the
number of `clear_irq_mask` calls since. -/
def sinceSet (n : Fin 16) (b : Bool) (calls : List MaskCall) : Bool × Nat :=
  calls.foldl (fun s call =>
    match call with
    | .set k => if k = n then (true, 0) else s
    | .clear k => if k = n then (s.1, s.2 + 1) else s) (b, 0)

/-- One more call at the end. -/
theorem mask_calls_append (m : Machine) (calls : List MaskCall)
    (call : MaskCall) :
    mask_calls m (calls ++ [call]) = call.run (mask_calls m calls) :=
  List.foldl_append ..

/-- One more is odd exactly when the number was not. -/
theorem odd_succ (j : Nat) :
    (decide (j % 2 = 1) ^^ true) = decide ((j + 1) % 2 = 1) := by
  rw [Nat.add_mod]
  rcases Nat.mod_two_eq_zero_or_one j with hj | hj
  · rw [hj]
    rfl
  · rw [hj]
    rfl

/-- The bit after any sequence: flipped once for each clear since the
last set. -/
theorem mask_calls_bit (h : m.pic.Ready) (calls : List MaskCall) :
    (mask_calls m calls).pic.Ready ∧ ∀ n : Fin 16,
      (mask_calls m calls).pic.mask.getLsbD n
        = ((sinceSet n (m.pic.mask.getLsbD n) calls).1
          ^^ decide ((sinceSet n (m.pic.mask.getLsbD n) calls).2 % 2 = 1)) := by
  induction calls using List.reverseRecOn with
  | nil =>
      refine ⟨h, ?_⟩
      intro n
      exact (Bool.xor_false _).symm
  | append_singleton calls call ih =>
      obtain ⟨hready, hbits⟩ := ih
      obtain ⟨hready', hrun⟩ := MaskCall.run_bits hready call
      rw [mask_calls_append]
      refine ⟨hready', ?_⟩
      intro n
      rw [hrun n n.isLt, hbits n]
      unfold sinceSet
      rw [List.foldl_append]
      cases call with
      | set k =>
          by_cases hk : k = n
          · subst hk
            simp
          · have hne : (n : Nat) ≠ k := fun hv => hk (Fin.ext hv.symm)
            simp [hk, hne]
      | clear k =>
          by_cases hk : k = n
          · subst hk
            simp only [List.foldl_cons, List.foldl_nil, if_true,
              decide_true, Bool.xor_assoc]
            congr 1
            exact odd_succ _
          · have hne : (n : Nat) ≠ k := fun hv => hk (Fin.ext hv.symm)
            simp [hk, hne]

/-- What the calls ask for, in the same terms: masked with no clear since
the last set, clear with one or more. -/
theorem asked_eq (n : Fin 16) (b : Bool) (calls : List MaskCall) :
    asked n b calls = if (sinceSet n b calls).2 = 0
      then (sinceSet n b calls).1 else false := by
  induction calls using List.reverseRecOn with
  | nil => rfl
  | append_singleton calls call ih =>
      unfold asked sinceSet at ih ⊢
      rw [List.foldl_append, List.foldl_append]
      cases call with
      | set k =>
          by_cases hk : k = n
          · simp [hk]
          · simp only [List.foldl_cons, List.foldl_nil, if_neg hk]
            exact ih
      | clear k =>
          by_cases hk : k = n
          · simp [hk]
          · simp only [List.foldl_cons, List.foldl_nil, if_neg hk]
            exact ih

-- ============================================================ the result

/-- The masks after a sequence of calls are what the calls ask for exactly
when each line, since its last `set_irq_mask` or the start, was cleared
not at all, or an odd number of times if it was masked then and an even
number if it was not. -/
theorem irq_masks_iff (h : m.pic.Ready) (calls : List MaskCall) :
    (∀ n : Fin 16, (mask_calls m calls).pic.mask.getLsbD n
        = asked n (m.pic.mask.getLsbD n) calls)
      ↔ ∀ n : Fin 16, (sinceSet n (m.pic.mask.getLsbD n) calls).2 = 0
        ∨ (sinceSet n (m.pic.mask.getLsbD n) calls).1
          = decide ((sinceSet n (m.pic.mask.getLsbD n) calls).2 % 2 = 1) := by
  refine forall_congr' fun n => ?_
  rw [(mask_calls_bit h calls).2 n, asked_eq]
  generalize sinceSet n (m.pic.mask.getLsbD n) calls = s
  by_cases hzero : s.2 = 0
  · simp [hzero]
  · rw [if_neg hzero]
    constructor
    · intro hx
      exact Or.inr (bne_eq_false_iff_eq.1 hx)
    · rintro (hx | hx)
      · exact absurd hx hzero
      · exact bne_eq_false_iff_eq.2 hx

/-- A machine with ready controllers and these masks. -/
def maskedMachine (master slave : BitVec 8) : Machine where
  cpu := { reg := fun _ => 0#64, mem := fun _ => 0#8, log := [] }
  pic :=
    { master := ⟨master, 0#8, 0x11#8, 0x20#8, 0x04#8, 0x01#8, .ready⟩
      slave := ⟨slave, 0#8, 0x11#8, 0x28#8, 0x02#8, 0x01#8, .ready⟩ }
  other := fun _ => 0xFF#8
  idtr := ⟨0#16, 0#64⟩
  rip := 0#64
  rflags := 0#64
  cs := 0x8#16
  ss := 0x10#16

/-- The instance of a mask, a clear and a second line. -/
theorem irq_masks_iff_sample :
    (∀ n : Fin 16, (mask_calls (maskedMachine 0#8 0#8)
          [.set 3, .clear 3, .set 9]).pic.mask.getLsbD n
        = asked n ((maskedMachine 0#8 0#8).pic.mask.getLsbD n)
          [.set 3, .clear 3, .set 9])
      ↔ ∀ n : Fin 16,
        (sinceSet n ((maskedMachine 0#8 0#8).pic.mask.getLsbD n)
          [.set 3, .clear 3, .set 9]).2 = 0
        ∨ (sinceSet n ((maskedMachine 0#8 0#8).pic.mask.getLsbD n)
            [.set 3, .clear 3, .set 9]).1
          = decide ((sinceSet n ((maskedMachine 0#8 0#8).pic.mask.getLsbD n)
            [.set 3, .clear 3, .set 9]).2 % 2 = 1) :=
  irq_masks_iff ⟨rfl, rfl⟩ _

/-- Clearing a line that is not masked masks it. -/
theorem clear_irq_mask_sets : ¬ ∀ (m : Machine) (calls : List MaskCall),
    m.pic.Ready → ∀ n : Fin 16, (mask_calls m calls).pic.mask.getLsbD n
      = asked n (m.pic.mask.getLsbD n) calls := by
  intro h
  have hbit := h (maskedMachine 0#8 0#8) [.clear 0] ⟨rfl, rfl⟩ 0
  rw [(mask_calls_bit ⟨rfl, rfl⟩ [.clear 0]).2 0] at hbit
  exact absurd hbit (by decide)

end BootLoader.ThirdStage
