/-
The slave's lines after `setup_idt`.

`setup_idt` masks all sixteen lines and clears line 0 again
(`setup_idt_mask`), which leaves the master's line 2 masked, the line the
slave is wired to. No call for another line clears it, so no interrupt of
the slave gets through whatever its own mask says
(`slave_lines_blocked`).
-/
import BootLoader.ThirdStage.Proofs.Dispatch
import BootLoader.ThirdStage.Proofs.InService

namespace BootLoader.ThirdStage

open FlatMemory Mem Pic8259 Words

variable {m : Machine} {op : BitVec 64 → BitVec 64 → BitVec 64} {l : Labels}

-- =========================================================== the registers

/-- From `.master` on, RSP and memory stay. -/
theorem irq_mask_master_rsp (m : Machine) :
    (irq_mask_master op m).cpu.reg .rsp = m.cpu.reg .rsp := by
  unfold irq_mask_master Machine.inEax Machine.outEax
  simp only [Machine.set_cpu, Cpu.set_reg, reduceCtorEq, if_false]

theorem irq_mask_master_mem (m : Machine) :
    (irq_mask_master op m).cpu.mem = m.cpu.mem := by
  unfold irq_mask_master Machine.inEax Machine.outEax
  simp only [Machine.set_cpu, Cpu.set_mem]

/-- The mask routines between their saves. -/
theorem irq_mask_body (op : BitVec 64 → BitVec 64 → BitVec 64)
    (m : Machine) : ∃ d : Machine, irq_mask op m = d.run Cpu.popaq
      ∧ d.cpu.reg .rsp = m.cpu.pushaq.reg .rsp
      ∧ d.cpu.mem = m.cpu.pushaq.mem := by
  unfold irq_mask
  refine ⟨_, rfl, ?_⟩
  split
  · simp only [Machine.set_cpu, Machine.run_cpu, Cpu.set_reg, Cpu.set_mem,
      reduceCtorEq, if_false, and_self]
  split
  · simp only [irq_mask_master_rsp, irq_mask_master_mem, Machine.set_cpu,
      Machine.run_cpu, Cpu.set_reg, Cpu.set_mem, reduceCtorEq, if_false,
      and_self]
  · simp only [irq_mask_master_rsp, irq_mask_master_mem, Machine.set_cpu,
      Machine.run_cpu, Cpu.set_reg, Cpu.set_mem, reduceCtorEq, if_false,
      and_self]

/-- The mask routines keep every register. -/
theorem irq_mask_reg (m : Machine) :
    (irq_mask op m).cpu.reg = m.cpu.reg := by
  obtain ⟨d, heq, hrsp, hmem⟩ := irq_mask_body op m
  rw [heq, Machine.run_cpu]
  refine (Cpu.popaq_undo (c := m.cpu) hrsp ?_).1
  rw [hmem]
  exact Same.refl _ _ _

-- =============================================================== setup_idt

/-- The machine after `k` rounds of `.setup_idt_loop`. -/
structure MaskedTo (k : Nat) (m : Machine) : Prop where
  rcx : m.cpu.reg .rcx = BitVec.ofNat 64 k
  ready : m.pic.Ready
  mask : ∀ i < 16, m.pic.mask.getLsbD i = decide (i < k)

/-- One round masks one more line. -/
theorem MaskedTo.step {k : Nat} (hk : k < 16) (h : MaskedTo k m) :
    MaskedTo (k + 1) (setup_idt_round m) := by
  obtain ⟨hready, hbits⟩ := irq_mask_bits bitOp_or
    (m := m.set .rdi (m.cpu.reg .rcx)) h.ready hk
    ((Cpu.set_reg_self _ _ _).trans h.rcx)
  refine ⟨?_, hready, ?_⟩
  · have hkeep : (set_irq_mask (m.set .rdi (m.cpu.reg .rcx))).cpu.reg .rcx
        = BitVec.ofNat 64 k := by
      unfold set_irq_mask
      rw [irq_mask_reg]
      exact (Cpu.set_reg_of_ne (by decide)).trans h.rcx
    show ((set_irq_mask (m.set .rdi (m.cpu.reg .rcx))).cpu.set .rcx
      ((set_irq_mask (m.set .rdi (m.cpu.reg .rcx))).cpu.reg .rcx
        + 1#64)).reg .rcx = _
    rw [Cpu.set_reg_self, hkeep, BitVec.ofNat_add]
  · intro i hi
    refine (hbits i hi).trans ?_
    rw [show (m.set .rdi (m.cpu.reg .rcx)).pic = m.pic from rfl, h.mask i hi,
      ← Bool.decide_or]
    exact decide_eq_decide.2 (by omega)

/-- The loop masks every line. -/
theorem setup_idt_loop_mask (h : MaskedTo 0 m) :
    MaskedTo 16 (setup_idt_loop m) := by
  unfold setup_idt_loop
  refine Loop.doWhile_counted MaskedTo (by omega)
    (fun k s hk hs => hs.step hk) ?_ ?_ (Nat.le_refl 16) h
  · intro k s _ hk hs
    show (s.cpu.reg .rcx != 16#64) = true
    rw [hs.rcx]
    refine bne_iff_ne.2 fun heq => ?_
    have hnat := congrArg BitVec.toNat heq
    rw [toNat_lit (by omega), toNat_lit (by omega)] at hnat
    omega
  · intro s hs
    show (s.cpu.reg .rcx != 16#64) = false
    rw [hs.rcx]
    rfl

theorem load_idt_descriptor_pic (m : Machine) :
    (load_idt_descriptor m).pic = m.pic := rfl

/-- Clearing line 0 with all lines masked. -/
theorem clear_line_zero (hall : MaskedTo 16 m) {d : Machine}
    (hpic : d.pic = m.pic) (hrdi : d.cpu.reg .rdi = BitVec.ofNat 64 0) :
    (clear_irq_mask d).pic.Ready
      ∧ ∀ i < 16, (clear_irq_mask d).pic.mask.getLsbD i
        = decide (i ≠ 0) := by
  obtain ⟨hready, hbits⟩ := irq_mask_bits bitOp_xor (m := d)
    (hpic ▸ hall.ready) (by omega) hrdi
  refine ⟨hready, ?_⟩
  intro i hi
  refine (hbits i hi).trans ?_
  rw [hpic, hall.mask i hi, decide_eq_true hi]
  simp

/-- All lines are clear when the loop starts. -/
theorem maskedTo_zero (m : Machine) :
    MaskedTo 0 ((configure_pic m).set .rcx 0x0#64) := by
  have hpic : ((configure_pic m).set .rcx 0x0#64).pic = configured :=
    configure_pic_pic _
  refine ⟨Cpu.set_reg_self _ _ _, hpic ▸ normal_configured.ready, ?_⟩
  intro i _
  rw [hpic, show configured.mask = 0#16 from rfl, BitVec.getLsbD_zero]
  exact (decide_eq_false (Nat.not_lt_zero i)).symm

/-- `setup_idt` in one expression. -/
theorem setup_idt_eq (l : Labels) (m : Machine) :
    setup_idt l m
      = (clear_irq_mask ((load_idt_descriptor ((((setup_idt_loop
          ((configure_pic (m.run Cpu.pushaq).cli).set .rcx 0x0#64)).run
          (setup_idt_exceptions l)).run (setup_idt_irqs l)).run
          (setup_entry (l.addr .isr255) 255#64))).set .rdi
          0x0#64)).sti.run Cpu.popaq := rfl

/-- `setup_idt` leaves every line masked but line 0. -/
theorem setup_idt_mask (l : Labels) (m : Machine) :
    (setup_idt l m).pic.Ready
      ∧ ∀ i < 16, (setup_idt l m).pic.mask.getLsbD i = decide (i ≠ 0) := by
  have hall := setup_idt_loop_mask (maskedTo_zero (m.run Cpu.pushaq).cli)
  rw [setup_idt_eq]
  generalize setup_idt_loop _ = s at hall ⊢
  rw [Machine.run_pic, Machine.sti_pic]
  refine clear_line_zero hall ?_ ?_
  · rw [Machine.set_pic, load_idt_descriptor_pic, Machine.run_pic,
      Machine.run_pic, Machine.run_pic]
  · rw [Machine.set_cpu]
    exact Cpu.set_reg_self _ _ _

-- ================================================================ the slave

/-- The last call that names line `n`, masked to begin with, is the first
`clear_irq_mask` since it was masked. -/
def FirstClear (n : Fin 16) (calls : List MaskCall) : Prop :=
  (sinceSet n true calls).2 = 1

instance (n : Fin 16) (calls : List MaskCall) :
    Decidable (FirstClear n calls) := inferInstanceAs (Decidable (_ = _))

/-- A line that no call names is as it was. -/
theorem sinceSet_unnamed {n : Fin 16} {calls : List MaskCall}
    (h : ∀ call ∈ calls, call.line ≠ n) (s : Bool) :
    sinceSet n s calls = (s, 0) := by
  induction calls using List.reverseRecOn with
  | nil => rfl
  | append_singleton calls call ih =>
      have hbefore := ih fun call' hc =>
        h call' (List.mem_append_left _ hc)
      have hline : call.line ≠ n :=
        h call (List.mem_append_right _ List.mem_cons_self)
      unfold sinceSet at hbefore ⊢
      rw [List.foldl_append, hbefore]
      cases call with
      | set k => exact if_neg hline
      | clear k => exact if_neg hline

/-- Line 2 stays masked under calls for other lines, and with it every
line of the slave. -/
theorem slave_passes (l : Labels) (m : Machine) {calls : List MaskCall}
    (h : ∀ call ∈ calls, call.line ≠ 2) {n : Fin 16} (hn : 8 ≤ n.val) :
    (mask_calls (setup_idt l m) calls).pic.passes n = false := by
  obtain ⟨hready, hmask⟩ := setup_idt_mask l m
  have hcascade := (mask_calls_bit hready calls).2 2
  rw [hmask _ (by decide), sinceSet_unnamed h] at hcascade
  have hbit : (mask_calls (setup_idt l m) calls).pic.master.imr.getLsbD 2
      = true := by
    rw [Pair.getLsbD_mask, if_pos (by decide)] at hcascade
    exact hcascade
  unfold Pair.passes
  rw [if_neg (by omega), hbit]
  exact Bool.and_false _

/-- After `setup_idt` and calls for lines other than 2, every slave line
whose last call is its first clear gets through exactly when there is no
such line. -/
theorem slave_lines_blocked (l : Labels) (m : Machine)
    (calls : List MaskCall) (h : ∀ call ∈ calls, call.line ≠ 2) :
    (∀ n : Fin 16, 8 ≤ n.val → FirstClear n calls →
      (mask_calls (setup_idt l m) calls).pic.passes n = true)
      ↔ ∀ n : Fin 16, 8 ≤ n.val → ¬ FirstClear n calls := by
  refine forall_congr' fun n => forall_congr' fun hn => ?_
  rw [slave_passes l m h hn]
  simp

/-- The instance of clears of the master's lines only. -/
theorem slave_lines_blocked_sample :
    (∀ n : Fin 16, 8 ≤ n.val → FirstClear n [.clear 1, .set 9] →
      (mask_calls (setup_idt sampleLabels interruptedMachine)
        [.clear 1, .set 9]).pic.passes n = true)
      ↔ ∀ n : Fin 16, 8 ≤ n.val → ¬ FirstClear n [.clear 1, .set 9] :=
  slave_lines_blocked sampleLabels interruptedMachine [.clear 1, .set 9]
    (by decide)

/-- Clearing line 9 does not let it through. -/
theorem slave_line_masked : ¬ ∀ (l : Labels) (m : Machine)
    (calls : List MaskCall), (∀ call ∈ calls, call.line ≠ 2) →
    ∀ n : Fin 16, 8 ≤ n.val → FirstClear n calls →
      (mask_calls (setup_idt l m) calls).pic.passes n = true := by
  intro h
  have hpass := h sampleLabels interruptedMachine [.clear 9] (by decide) 9
    (by decide) rfl
  rw [slave_passes sampleLabels interruptedMachine (by decide)
    (by decide)] at hpass
  exact absurd hpass (by decide)

end BootLoader.ThirdStage
