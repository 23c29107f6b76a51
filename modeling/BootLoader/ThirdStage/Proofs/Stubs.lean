/-
The stack discipline of the interrupt stubs, and which exceptions they
return from.

# One rule for all stubs

Whatever a stub pushed, two quadwords lie on top of the rest when it jumps
to its common stub: its number and something below it. The common stubs
put the saved registers on top and take all of it off again (`passes`),
so `iretq` runs with RSP at the rest. That is the processor's frame
exactly when what lies under the number is the error code, the
processor's or the zero pushed in its place.

# The exceptions

The macros push the zero for every vector but 8 and 10 to 14. The
processor pushes an error code for 17, 21, 29 and 30 as well, and there
`iretq` runs one quadword short of the frame (`isr_transparent_iff`).
-/
import BootLoader.ThirdStage.Idt
import BootLoader.ThirdStage.Proofs.Pic

namespace BootLoader.ThirdStage

open FlatMemory Mem Words

variable {m m' : Machine} {c : Cpu} {handler : Handlers}
  {vs : List (BitVec 64)} {x y b : BitVec 64}

-- ============================================================ the handlers

/-- A callee keeps RSP and the frame above it: fifteen registers, the two
quadwords of the stub and the five of the processor. -/
structure Kept (m m' : Machine) : Prop where
  rsp : m'.cpu.reg .rsp = m.cpu.reg .rsp
  saved : Same m.cpu.mem m'.cpu.mem (m.cpu.reg .rsp) 176

/-- Every handler returns with a balanced stack and the frame intact. -/
def Returns (handler : Handlers) : Prop := ∀ a m, Kept m (handler a m)

/-- The default handler keeps every register, and writes under RSP
only. -/
theorem idt_default_handler_spec (c : Cpu) :
    (idt_default_handler c).reg = c.reg
      ∧ ∀ b, ¬ Under (c.reg .rsp) 120 b →
        (idt_default_handler c).mem b = c.mem b := by
  obtain ⟨hreg, hmem⟩ := Cpu.popaq_undo (c := c) (d := c.pushaq) rfl
    (Same.refl _ _ _)
  refine ⟨hreg, ?_⟩
  intro b hb
  show c.pushaq.popaq.mem b = _
  rw [hmem]
  exact Cpu.pushaq_mem c hb

theorem kept_default (m : Machine) : Kept m (m.run idt_default_handler) := by
  obtain ⟨hreg, hmem⟩ := idt_default_handler_spec m.cpu
  refine ⟨congrFun hreg .rsp, ?_⟩
  intro k hk
  exact hmem _ (not_under (by omega))

theorem isr_call_kept (hh : Returns handler) (m : Machine) :
    Kept m (isr_call handler m) := by
  unfold isr_call
  split
  · exact kept_default m
  · exact hh _ m

theorem irq_call_kept (hh : Returns handler) (m : Machine) :
    Kept m (irq_call handler m) := by
  unfold irq_call
  split
  · exact kept_default m
  · obtain ⟨hrsp, hsaved⟩ := hh (m.cpu.reg .rax) m
    exact ⟨hrsp, hsaved⟩

-- ======================================================= the common stubs

/-- The entry as one processor: registers saved, their place in RDI, the
handler's address in RAX. -/
theorem stub_entry_cpu (m : Machine) :
    (stub_entry m).cpu.mem = m.cpu.pushaq.mem
      ∧ (stub_entry m).cpu.reg .rsp = m.cpu.pushaq.reg .rsp
      ∧ (stub_entry m).cpu.reg .rdi = m.cpu.pushaq.reg .rsp
      ∧ (stub_entry m).cpu.reg .rax
        = m.cpu.pushaq.mem.read64 (IDT_HANDLERS_BASE_ADDRESS
          + m.cpu.pushaq.mem.read64 (m.cpu.pushaq.reg .rsp + 120#64) <<< 3)
      ∧ (stub_entry m).pic = m.pic := by
  unfold stub_entry
  simp only [Machine.run_cpu, Machine.run_pic, Machine.cli_cpu,
    Machine.cli_pic, Machine.set_cpu, Machine.set_pic, Cpu.load64_reg,
    Cpu.load64_mem, Cpu.set_mem, Cpu.set_reg, reduceCtorEq, if_true,
    if_false, and_self]

/-- The stack at the call. -/
theorem stub_entry_holds (h : Holds m.cpu.mem (m.cpu.reg .rsp) vs)
    (hlen : 8 * vs.length + 120 < 2 ^ 64) :
    Holds (stub_entry m).cpu.mem ((stub_entry m).cpu.reg .rsp)
      (Cpu.saved m.cpu.reg ++ vs) := by
  obtain ⟨hmem, hrsp, -, -, -⟩ := stub_entry_cpu m
  rw [hmem, hrsp]
  exact Cpu.pushaq_holds h hlen

/-- The handler's address is read by the number on top of the stack. -/
theorem stub_entry_rax
    (h : Holds m.cpu.mem (m.cpu.reg .rsp) (x :: vs))
    (hlen : 8 * (x :: vs).length + 120 < 2 ^ 64) :
    (stub_entry m).cpu.reg .rax
      = (stub_entry m).cpu.mem.read64
        (IDT_HANDLERS_BASE_ADDRESS + x <<< 3) := by
  obtain ⟨hmem, -, -, hrax, -⟩ := stub_entry_cpu m
  have hx : m.cpu.pushaq.mem.read64 (m.cpu.pushaq.reg .rsp + 120#64) = x :=
    (Cpu.pushaq_holds h hlen).tail.1
  rw [hrax, hmem, hx]

/-- The exit takes the saved registers and two quadwords off. -/
theorem stub_exit_spec {f : Reg → BitVec 64}
    (h : Holds m.cpu.mem (m.cpu.reg .rsp) (Cpu.saved f ++ x :: y :: vs)) :
    (stub_exit m).cpu.reg .rsp = m.cpu.reg .rsp + 136#64
      ∧ (∀ r, r ≠ .rsp → (stub_exit m).cpu.reg r = f r)
      ∧ (stub_exit m).cpu.mem = m.cpu.mem := by
  obtain ⟨hreg, hrsp, hmem⟩ := Cpu.popaq_holds h
  refine ⟨?_, ?_, hmem⟩
  · show m.cpu.popaq.reg .rsp + 16#64 = _
    rw [hrsp, BitVec.add_assoc]
    rfl
  · intro r hr
    show (m.cpu.popaq.set .rsp _).reg r = _
    rw [Cpu.set_reg_of_ne hr]
    exact hreg r hr

/-- A common stub around a call that keeps the frame: everything the stub
put on the stack is off again, the rest of the frame is in place. -/
theorem passes {call : Machine → Machine} (hcall : ∀ m, Kept m (call m))
    (h : Holds m.cpu.mem (m.cpu.reg .rsp) (x :: y :: vs))
    (hlen : vs.length ≤ 5) :
    (stub_exit (call (stub_entry m))).cpu.reg .rsp
        = m.cpu.reg .rsp + 16#64
      ∧ (∀ r, r ≠ .rsp →
          (stub_exit (call (stub_entry m))).cpu.reg r = m.cpu.reg r)
      ∧ Holds (stub_exit (call (stub_entry m))).cpu.mem
        ((stub_exit (call (stub_entry m))).cpu.reg .rsp) vs := by
  have hholds := stub_entry_holds h (by
    simp only [List.length_cons]
    omega)
  have hsp : (stub_entry m).cpu.reg .rsp = m.cpu.reg .rsp - 120#64 :=
    (stub_entry_cpu m).2.1.trans (Cpu.pushaq_rsp m.cpu)
  obtain ⟨hrsp, hsaved⟩ := hcall (stub_entry m)
  have hafter : Holds (call (stub_entry m)).cpu.mem
      ((call (stub_entry m)).cpu.reg .rsp)
      (Cpu.saved m.cpu.reg ++ x :: y :: vs) := by
    rw [hrsp]
    refine hholds.congr (hsaved.mono ?_)
    simp only [List.length_append, Cpu.saved_length, List.length_cons]
    omega
  obtain ⟨h1, h2, h3⟩ := stub_exit_spec hafter
  have hend : (stub_exit (call (stub_entry m))).cpu.reg .rsp
      = m.cpu.reg .rsp + 16#64 := by
    rw [h1, hrsp, hsp]
    apply BitVec.eq_of_toNat_eq
    simp only [BitVec.toNat_sub, BitVec.toNat_add, BitVec.toNat_ofNat]
    omega
  refine ⟨hend, h2, ?_⟩
  have htail := hafter.tail
  rw [Cpu.saved_length] at htail
  have hrest := htail.2.2
  simp only [BitVec.add_assoc, BitVec.reduceAdd, Nat.reduceMul] at hrest
  rw [h3, h1]
  exact hrest

-- ============================================================ the lines

/-- Where the handler array has the entry of vector `n`. -/
def handlerAddr (n : Nat) : BitVec 64 :=
  IDT_HANDLERS_BASE_ADDRESS + BitVec.ofNat 64 (8 * n)

/-- The entry. -/
def handlerEntry (mem : Mem) (n : Nat) : BitVec 64 :=
  mem.read64 (handlerAddr n)

theorem handlerAddr_toNat {n : Nat} (hn : n < 256) :
    (handlerAddr n).toNat = 0x41000 + 8 * n := by
  unfold handlerAddr IDT_HANDLERS_BASE_ADDRESS
  rw [toNat_add_lit (by rw [toNat_lit (by omega)]; omega),
    toNat_lit (by omega)]

/-- An entry depends on its eight bytes. -/
theorem handlerEntry_congr {mem mem' : Mem} {n : Nat} (hn : n < 256)
    (h : ∀ b : BitVec 64, 0x41000 + 8 * n ≤ b.toNat →
      b.toNat < 0x41000 + 8 * n + 8 → mem' b = mem b) :
    handlerEntry mem' n = handlerEntry mem n := by
  have haddr := handlerAddr_toNat hn
  have hag : AgreeOn mem mem' (0x41000 + 8 * n) (0x41000 + 8 * n + 8) := h
  exact read64_congr_of_range hag (by omega) (by omega) (by omega)

theorem irq_vectors_get (k : Fin 16) :
    irq_vectors.get (k.cast rfl) = BitVec.ofNat 64 (32 + k) := by
  revert k
  decide

theorem irq_pushes_reg (k : Fin 16) {r : Reg} (hr : r ≠ .rsp) :
    (irq_pushes k m).cpu.reg r = m.cpu.reg r :=
  (Cpu.pushImm_reg _ _ hr).trans (Cpu.pushImm_reg _ _ hr)

/-- A zero and the line's vector on what the processor left. -/
theorem irq_pushes_holds (h : Holds m.cpu.mem (m.cpu.reg .rsp) vs)
    (hlen : vs.length ≤ 6) (k : Fin 16) :
    Holds (irq_pushes k m).cpu.mem ((irq_pushes k m).cpu.reg .rsp)
        (BitVec.ofNat 64 (32 + k) :: 0#64 :: vs)
      ∧ (irq_pushes k m).cpu.reg .rsp = m.cpu.reg .rsp - 16#64 := by
  have hzero := Cpu.pushImm_holds h (by omega) 0#64
  have hnum := Cpu.pushImm_holds hzero (by
    rw [List.length_cons]
    omega) (irq_vectors.get (k.cast rfl))
  refine ⟨?_, ?_⟩
  · rw [← irq_vectors_get k]
    exact hnum
  · show m.cpu.reg .rsp - 8#64 - 8#64 = _
    rw [BitVec.sub_sub]
    rfl

/-- All an interrupt pushes before the handler runs lies in the 176 bytes
under the frame. -/
theorem irq_pushed_mem (m : Machine) (g : Gate) (k : Fin 16)
    (hb : ¬ Under m.frameBase 176 b) :
    (irq_pushes k (m.enter g none)).cpu.pushaq.mem b = m.cpu.mem b := by
  have hsp : (irq_pushes k (m.enter g none)).cpu.reg .rsp
      = m.frameBase - 56#64 := by
    rw [(irq_pushes_holds (m := m.enter g none) Machine.enter_holds
      (Nat.le_succ 5) k).2, Machine.enter_rsp]
    simp [BitVec.sub_sub]
  rw [Cpu.pushaq_mem]
  · refine Cpu.foldl_pushImm_mem [m.ss.setWidth 64, m.cpu.reg .rsp, m.rflags,
      m.cs.setWidth 64, m.rip, 0#64, irq_vectors.get (k.cast rfl)]
      (m.cpu.set .rsp m.frameBase) (by simp) ?_
    exact fun hu => hb (hu.mono (by simp))
  · rw [hsp]
    exact fun hu => hb hu.of_sub

/-- The line's entry is what the common stub tests. -/
theorem irq_rax (h : Holds m.cpu.mem (m.cpu.reg .rsp) vs)
    (hlen : vs.length ≤ 6) (k : Fin 16) :
    (stub_entry (irq_pushes k m)).cpu.reg .rax
      = handlerEntry (irq_pushes k m).cpu.pushaq.mem (32 + k) := by
  have hoff : BitVec.ofNat 64 (32 + k) <<< 3
      = BitVec.ofNat 64 (8 * (32 + k)) := by
    apply BitVec.eq_of_toNat_eq
    rw [BitVec.toNat_shiftLeft, Nat.shiftLeft_eq, BitVec.toNat_ofNat,
      BitVec.toNat_ofNat]
    omega
  rw [stub_entry_rax (irq_pushes_holds h hlen k).1 (by
    simp only [List.length_cons]
    omega), (stub_entry_cpu _).1, hoff]
  rfl

-- ========================================================= the exceptions

/-- The exceptions for which the processor pushes an error code. -/
def pushesErrorCode (v : Fin 32) : Bool :=
  v.val ∈ [8, 10, 11, 12, 13, 14, 17, 21, 29, 30]

/-- Exception `v` delivered to `m`: `e` is the error code, if it has
one. -/
def exception (m : Machine) (g : Gate) (v : Fin 32) (e : BitVec 64) :
    Machine :=
  m.enter g (if pushesErrorCode v then some e else none)

/-- The macro with the zero is on every vector but these. -/
theorem isr_kind_eq (v : Fin 32) :
    isr_kind v = if v.val ∈ [8, 10, 11, 12, 13, 14]
      then .ISR_ERRCODE else .ISR_NOERRCODE := by
  revert v
  decide

theorem pushes_reg (mac : IsrMacro) (v : BitVec 64) {r : Reg}
    (hr : r ≠ .rsp) : (mac.pushes v m).cpu.reg r = m.cpu.reg r := by
  cases mac with
  | ISR_NOERRCODE =>
      exact (Cpu.pushImm_reg _ _ hr).trans (Cpu.pushImm_reg _ _ hr)
  | ISR_ERRCODE => exact Cpu.pushImm_reg _ _ hr

/-- A zero and the number on what the processor left. -/
theorem pushes_noerrcode (h : Holds m.cpu.mem (m.cpu.reg .rsp) vs)
    (hlen : vs.length ≤ 6) (v : BitVec 64) :
    Holds (IsrMacro.ISR_NOERRCODE.pushes v m).cpu.mem
        ((IsrMacro.ISR_NOERRCODE.pushes v m).cpu.reg .rsp) (v :: 0#64 :: vs)
      ∧ (IsrMacro.ISR_NOERRCODE.pushes v m).cpu.reg .rsp
        = m.cpu.reg .rsp - 16#64 := by
  have hzero := Cpu.pushImm_holds h (by omega) 0#64
  have hnum := Cpu.pushImm_holds hzero (by
    rw [List.length_cons]
    omega) v
  refine ⟨hnum, ?_⟩
  show m.cpu.reg .rsp - 8#64 - 8#64 = _
  rw [BitVec.sub_sub]
  rfl

/-- The number on the processor's error code. -/
theorem pushes_errcode (h : Holds m.cpu.mem (m.cpu.reg .rsp) vs)
    (hlen : vs.length ≤ 6) (v : BitVec 64) :
    Holds (IsrMacro.ISR_ERRCODE.pushes v m).cpu.mem
        ((IsrMacro.ISR_ERRCODE.pushes v m).cpu.reg .rsp) (v :: vs)
      ∧ (IsrMacro.ISR_ERRCODE.pushes v m).cpu.reg .rsp
        = m.cpu.reg .rsp - 8#64 :=
  ⟨Cpu.pushImm_holds h (by omega) v, rfl⟩

/-- What a stub leaves for `iretq`, from the stack it found. -/
theorem isr_returns (hh : Returns handler) {v : Fin 32} {m' : Machine}
    (hm : m' = (isr_kind v).pushes (BitVec.ofNat 64 v) m)
    (h : Holds m'.cpu.mem (m'.cpu.reg .rsp) (x :: y :: vs))
    (hlen : vs.length ≤ 5) :
    (isr handler v m).cpu.reg .rsp = m'.cpu.reg .rsp + 16#64
      ∧ (∀ r, r ≠ .rsp → (isr handler v m).cpu.reg r = m.cpu.reg r)
      ∧ Holds (isr handler v m).cpu.mem ((isr handler v m).cpu.reg .rsp)
        vs := by
  subst hm
  obtain ⟨h1, h2, h3⟩ := passes (isr_call_kept hh) h hlen
  refine ⟨h1, ?_, h3⟩
  intro r hr
  exact (h2 r hr).trans (pushes_reg _ _ hr)

/-- The frame is whole and on top again: the interrupted machine is
resumed. -/
theorem exception_resumes (hh : Returns handler) (m : Machine) (g : Gate)
    (v : Fin 32) (e : BitVec 64) (hv : v.val ∉ [17, 21, 29, 30]) :
    (isr handler v (exception m g v e)).cpu.reg .rsp = m.frameBase - 40#64
      ∧ m.Resumes (isr handler v (exception m g v e)).iretq := by
  have hmac := isr_kind_eq v
  -- either way the number and one more quadword lie on the frame
  have hstack : ∃ y, Holds
      ((isr_kind v).pushes (BitVec.ofNat 64 v) (exception m g v e)).cpu.mem
      (((isr_kind v).pushes (BitVec.ofNat 64 v)
        (exception m g v e)).cpu.reg .rsp)
      (BitVec.ofNat 64 v :: y :: m.frame)
      ∧ ((isr_kind v).pushes (BitVec.ofNat 64 v)
        (exception m g v e)).cpu.reg .rsp = m.frameBase - 40#64 - 16#64 := by
    unfold exception
    by_cases herr : v.val ∈ [8, 10, 11, 12, 13, 14]
    · have hpush : pushesErrorCode v = true := by
        simp only [pushesErrorCode, decide_eq_true_eq]
        simp only [List.mem_cons, List.not_mem_nil, or_false] at herr ⊢
        omega
      rw [if_pos herr] at hmac
      rw [hmac, if_pos hpush]
      obtain ⟨h1, h2⟩ := pushes_errcode (m := m.enter g (some e))
        Machine.enter_holds (Nat.le_refl 6) (BitVec.ofNat 64 v)
      refine ⟨e, h1, ?_⟩
      rw [h2, Machine.enter_rsp, BitVec.sub_sub _ _ 8#64]
      rfl
    · have hpush : pushesErrorCode v = false := by
        simp only [pushesErrorCode, decide_eq_false_iff_not]
        simp only [List.mem_cons, List.not_mem_nil, or_false] at herr hv ⊢
        omega
      rw [if_neg herr] at hmac
      rw [hmac, if_neg (Bool.eq_false_iff.1 hpush)]
      obtain ⟨h1, h2⟩ := pushes_noerrcode (m := m.enter g none)
        Machine.enter_holds (Nat.le_succ 5) (BitVec.ofNat 64 v)
      refine ⟨0#64, h1, ?_⟩
      rw [h2, Machine.enter_rsp, Option.toList_none, List.length_nil,
        Nat.mul_zero, BitVec.sub_zero]
  obtain ⟨y, hholds, hsp⟩ := hstack
  obtain ⟨h1, h2, h3⟩ := isr_returns hh rfl hholds (Nat.le_refl 5)
  refine ⟨?_, ?_⟩
  · rw [h1, hsp, BitVec.sub_add_cancel]
  · refine Machine.iretq_resumes h3 fun r hr => ?_
    exact (h2 r hr).trans (Machine.enter_reg hr)

/-- One quadword too many stays on the stack: RSP is short of the
frame. -/
theorem exception_short (hh : Returns handler) (m : Machine) (g : Gate)
    (v : Fin 32) (e : BitVec 64) (hv : v.val ∈ [17, 21, 29, 30]) :
    (isr handler v (exception m g v e)).cpu.reg .rsp
      = m.frameBase - 48#64 := by
  have hmac := isr_kind_eq v
  have hnot : v.val ∉ [8, 10, 11, 12, 13, 14] := by
    simp only [List.mem_cons, List.not_mem_nil, or_false] at hv ⊢
    omega
  have hpush : pushesErrorCode v = true := by
    simp only [pushesErrorCode, decide_eq_true_eq]
    simp only [List.mem_cons, List.not_mem_nil, or_false] at hv ⊢
    omega
  rw [if_neg hnot] at hmac
  unfold exception
  rw [if_pos hpush]
  obtain ⟨hholds, hsp⟩ := pushes_noerrcode (m := m.enter g (some e))
    Machine.enter_holds (Nat.le_refl 6) (BitVec.ofNat 64 v)
  rw [← hmac] at hholds hsp
  -- only the two quadwords the common stub takes off matter here
  have htop : Holds
      ((isr_kind v).pushes (BitVec.ofNat 64 v) (m.enter g (some e))).cpu.mem
      (((isr_kind v).pushes (BitVec.ofNat 64 v)
        (m.enter g (some e))).cpu.reg .rsp) [BitVec.ofNat 64 v, 0#64] :=
    ⟨hholds.1, hholds.2.1, trivial⟩
  obtain ⟨h1, -, -⟩ := isr_returns hh rfl htop (Nat.zero_le 5)
  rw [h1, hsp, BitVec.sub_add_cancel, Machine.enter_rsp, BitVec.sub_sub]
  rfl

/-- An exception is transparent exactly when its vector is not one of the
four whose error code the macros do not know of. -/
theorem isr_transparent_iff (hh : Returns handler) (m : Machine) (g : Gate)
    (v : Fin 32) (e : BitVec 64) :
    ((isr handler v (exception m g v e)).cpu.reg .rsp
        = m.frameBase - 40#64
      ∧ m.Resumes (isr handler v (exception m g v e)).iretq)
      ↔ v.val ∉ [17, 21, 29, 30] := by
  constructor
  · rintro ⟨hrsp, -⟩ hv
    rw [exception_short hh m g v e hv] at hrsp
    have hnat := congrArg BitVec.toNat hrsp
    simp only [BitVec.toNat_sub, BitVec.toNat_ofNat] at hnat
    omega
  · exact exception_resumes hh m g v e

/-- A machine with the kernel's stack, interrupted at 0x10000. -/
def interruptedMachine : Machine :=
  { (maskedMachine 0#8 0#8).set .rsp 0xB000#64 with rip := 0x10000#64 }

/-- The gate of a stub at 0x12000. -/
def sampleGate : Gate := ⟨0x12000#64, 0x8#16, 0#3, 0x8E#8⟩

theorem returns_idle : Returns fun _ m => m :=
  fun _ _ => ⟨rfl, Same.refl _ _ _⟩

/-- The instance of a page fault. -/
theorem isr_transparent_iff_sample :
    (isr (fun _ m => m) 14
        (exception interruptedMachine sampleGate 14 2#64)).cpu.reg .rsp
        = interruptedMachine.frameBase - 40#64
      ∧ interruptedMachine.Resumes
        (isr (fun _ m => m) 14
          (exception interruptedMachine sampleGate 14 2#64)).iretq :=
  (isr_transparent_iff returns_idle interruptedMachine sampleGate 14
    2#64).2 (by decide)

/-- An alignment check does not return. -/
theorem exception_not_transparent : ¬ ∀ (handler : Handlers)
    (m : Machine) (g : Gate) (v : Fin 32) (e : BitVec 64),
    Returns handler →
    (isr handler v (exception m g v e)).cpu.reg .rsp = m.frameBase - 40#64
      ∧ m.Resumes (isr handler v (exception m g v e)).iretq := by
  intro h
  have hrsp := (h (fun _ m => m) interruptedMachine sampleGate 17 0#64
    returns_idle).1
  rw [exception_short returns_idle _ _ _ _ (by decide)] at hrsp
  have hnat := congrArg BitVec.toNat hrsp
  simp only [BitVec.toNat_sub, BitVec.toNat_ofNat] at hnat
  omega

end BootLoader.ThirdStage
