/-
The 64-bit CPU as the third stage uses it: sixteen general registers and
a flat memory, with the `pushaq`/`popaq` macros of `pushaq.asm`.

# What is kept and what is not

Registers and memory are exactly the machine's: 64-bit wrap-around, the
8- and 16-bit parts of a register as merges, the register saves of
`pushaq` as stores below RSP. `log` is a history of the data accesses; no
instruction reads it. Flags are not state: a comparison is folded into
the jump it feeds, and the one jump that reads a flag the architecture
leaves undefined takes that flag as an argument. Control flow is Lean's,
so the return address a `call` pushes is not stored.
-/
import BootLoader.Lib.Memory

namespace BootLoader

open FlatMemory

-- ============================================================ the state

/-- The general registers. -/
inductive Reg
  | rax | rbx | rcx | rdx | rbp | rsi | rdi | rsp
  | r8 | r9 | r10 | r11 | r12 | r13 | r14 | r15
  deriving DecidableEq, Repr

/-- One data access: the bytes `[addr, addr + size)`. -/
structure Access where
  write : Bool
  addr : BitVec 64
  size : Nat
  deriving DecidableEq, Repr

/-- The access ends at or below `b`. -/
def Access.Below (b : Nat) (x : Access) : Prop := x.addr.toNat + x.size ≤ b

theorem Access.Below.mono {x : Access} {a b : Nat} (h : x.Below a)
    (hab : a ≤ b) : x.Below b := Nat.le_trans h hab

structure Cpu where
  reg : Reg → BitVec 64
  mem : Mem
  log : List Access

namespace Cpu

-- ========================================================= instructions

/-- `mov r, v`. -/
def set (c : Cpu) (r : Reg) (v : BitVec 64) : Cpu :=
  { c with reg := fun r' => if r' = r then v else c.reg r' }

/-- Replace the low 16 bits of a register (`mov ax, v`). -/
def setLow16 (c : Cpu) (r : Reg) (v : BitVec 16) : Cpu :=
  c.set r ((c.reg r).extractLsb' 16 48 ++ v)

/-- Replace the low 8 bits of a register (`mov al, v`). -/
def setLow8 (c : Cpu) (r : Reg) (v : BitVec 8) : Cpu :=
  c.set r ((c.reg r).extractLsb' 8 56 ++ v)

/-- The low 16 bits of a register. -/
def low16 (c : Cpu) (r : Reg) : BitVec 16 := (c.reg r).extractLsb' 0 16

/-- The low 32 bits of a register. -/
def low32 (c : Cpu) (r : Reg) : BitVec 32 := (c.reg r).extractLsb' 0 32

/-- The low 8 bits of a register. -/
def low8 (c : Cpu) (r : Reg) : BitVec 8 := (c.reg r).extractLsb' 0 8

/-- Record that `n` bytes at `a` were read. -/
def reads (c : Cpu) (a : BitVec 64) (n : Nat) : Cpu :=
  { c with log := ⟨false, a, n⟩ :: c.log }

/-- `mov byte [a], v`. -/
def store8 (c : Cpu) (a : BitVec 64) (v : BitVec 8) : Cpu :=
  { c with mem := c.mem.write8 a v, log := ⟨true, a, 1⟩ :: c.log }

/-- `mov word [a], v`. -/
def store16 (c : Cpu) (a : BitVec 64) (v : BitVec 16) : Cpu :=
  { c with mem := c.mem.write16 a v, log := ⟨true, a, 2⟩ :: c.log }

/-- `mov dword [a], v`. -/
def store32 (c : Cpu) (a : BitVec 64) (v : BitVec 32) : Cpu :=
  { c with mem := c.mem.write32 a v, log := ⟨true, a, 4⟩ :: c.log }

/-- `mov qword [a], v`. -/
def store64 (c : Cpu) (a : BitVec 64) (v : BitVec 64) : Cpu :=
  { c with mem := c.mem.write64 a v, log := ⟨true, a, 8⟩ :: c.log }

/-- `mov r, qword [a]`. -/
def load64 (c : Cpu) (r : Reg) (a : BitVec 64) : Cpu :=
  (c.reads a 8).set r (c.mem.read64 a)

/-- `push r`. -/
def push (c : Cpu) (r : Reg) : Cpu :=
  let v := c.reg r
  let c := c.set .rsp (c.reg .rsp - 8#64)
  c.store64 (c.reg .rsp) v

/-- `pop r`. -/
def pop (c : Cpu) (r : Reg) : Cpu :=
  let a := c.reg .rsp
  (c.load64 r a).set .rsp (a + 8#64)

/-- `mul r`: RDX:RAX becomes RAX times `r`. -/
def mul (c : Cpu) (r : Reg) : Cpu :=
  let n := (c.reg .rax).toNat * (c.reg r).toNat
  (c.set .rax (BitVec.ofNat 64 n)).set .rdx (BitVec.ofNat 64 (n / 2 ^ 64))

/-- `div r`: RAX and RDX become quotient and remainder of RDX:RAX by `r`.
The callers modelled here divide with RDX clear and `r` nonzero, so the
divide error does not arise. -/
def div (c : Cpu) (r : Reg) : Cpu :=
  let n := (c.reg .rdx).toNat * 2 ^ 64 + (c.reg .rax).toNat
  let d := (c.reg r).toNat
  (c.set .rax (BitVec.ofNat 64 (n / d))).set .rdx (BitVec.ofNat 64 (n % d))

/-- The registers `pushaq` saves, in its order. -/
def pushaqOrder : List Reg :=
  [.rax, .rbx, .rcx, .rdx, .rbp, .rsi, .rdi, .r8, .r9, .r10, .r11, .r12,
    .r13, .r14, .r15]

/-- The `pushaq` macro: fifteen pushes. -/
def pushaq (c : Cpu) : Cpu := pushaqOrder.foldl push c

/-- The `popaq` macro: the pops in reverse order. -/
def popaq (c : Cpu) : Cpu := pushaqOrder.reverse.foldl pop c

-- ====================================================== reading it back

@[simp] theorem set_reg_self (c : Cpu) (r : Reg) (v : BitVec 64) :
    (c.set r v).reg r = v := if_pos rfl

theorem set_reg (c : Cpu) (r r' : Reg) (v : BitVec 64) :
    (c.set r v).reg r' = if r' = r then v else c.reg r' := rfl

theorem set_reg_of_ne {c : Cpu} {r r' : Reg} {v : BitVec 64}
    (h : r' ≠ r) : (c.set r v).reg r' = c.reg r' := if_neg h

@[simp] theorem set_mem (c : Cpu) (r : Reg) (v : BitVec 64) :
    (c.set r v).mem = c.mem := rfl

@[simp] theorem set_log (c : Cpu) (r : Reg) (v : BitVec 64) :
    (c.set r v).log = c.log := rfl

@[simp] theorem setLow16_mem (c : Cpu) (r : Reg) (v : BitVec 16) :
    (c.setLow16 r v).mem = c.mem := rfl

@[simp] theorem setLow16_log (c : Cpu) (r : Reg) (v : BitVec 16) :
    (c.setLow16 r v).log = c.log := rfl

@[simp] theorem setLow8_mem (c : Cpu) (r : Reg) (v : BitVec 8) :
    (c.setLow8 r v).mem = c.mem := rfl

@[simp] theorem setLow8_log (c : Cpu) (r : Reg) (v : BitVec 8) :
    (c.setLow8 r v).log = c.log := rfl

@[simp] theorem reads_reg (c : Cpu) (a : BitVec 64) (n : Nat) :
    (c.reads a n).reg = c.reg := rfl

@[simp] theorem reads_mem (c : Cpu) (a : BitVec 64) (n : Nat) :
    (c.reads a n).mem = c.mem := rfl

@[simp] theorem reads_log (c : Cpu) (a : BitVec 64) (n : Nat) :
    (c.reads a n).log = ⟨false, a, n⟩ :: c.log := rfl

@[simp] theorem store8_reg (c : Cpu) (a : BitVec 64) (v : BitVec 8) :
    (c.store8 a v).reg = c.reg := rfl

@[simp] theorem store8_mem (c : Cpu) (a : BitVec 64) (v : BitVec 8) :
    (c.store8 a v).mem = c.mem.write8 a v := rfl

@[simp] theorem store8_log (c : Cpu) (a : BitVec 64) (v : BitVec 8) :
    (c.store8 a v).log = ⟨true, a, 1⟩ :: c.log := rfl

@[simp] theorem store16_reg (c : Cpu) (a : BitVec 64) (v : BitVec 16) :
    (c.store16 a v).reg = c.reg := rfl

@[simp] theorem store16_mem (c : Cpu) (a : BitVec 64) (v : BitVec 16) :
    (c.store16 a v).mem = c.mem.write16 a v := rfl

@[simp] theorem store16_log (c : Cpu) (a : BitVec 64) (v : BitVec 16) :
    (c.store16 a v).log = ⟨true, a, 2⟩ :: c.log := rfl

@[simp] theorem store32_reg (c : Cpu) (a : BitVec 64) (v : BitVec 32) :
    (c.store32 a v).reg = c.reg := rfl

@[simp] theorem store32_mem (c : Cpu) (a : BitVec 64) (v : BitVec 32) :
    (c.store32 a v).mem = c.mem.write32 a v := rfl

@[simp] theorem store64_reg (c : Cpu) (a v : BitVec 64) :
    (c.store64 a v).reg = c.reg := rfl

@[simp] theorem store64_mem (c : Cpu) (a v : BitVec 64) :
    (c.store64 a v).mem = c.mem.write64 a v := rfl

@[simp] theorem store64_log (c : Cpu) (a v : BitVec 64) :
    (c.store64 a v).log = ⟨true, a, 8⟩ :: c.log := rfl

@[simp] theorem load64_mem (c : Cpu) (r : Reg) (a : BitVec 64) :
    (c.load64 r a).mem = c.mem := rfl

@[simp] theorem load64_log (c : Cpu) (r : Reg) (a : BitVec 64) :
    (c.load64 r a).log = ⟨false, a, 8⟩ :: c.log := rfl

theorem load64_reg (c : Cpu) (r r' : Reg) (a : BitVec 64) :
    (c.load64 r a).reg r' = if r' = r then c.mem.read64 a else c.reg r' :=
  rfl

theorem setLow16_reg (c : Cpu) (r r' : Reg) (v : BitVec 16) :
    (c.setLow16 r v).reg r'
      = if r' = r then (c.reg r).extractLsb' 16 48 ++ v else c.reg r' := rfl

theorem setLow8_reg (c : Cpu) (r r' : Reg) (v : BitVec 8) :
    (c.setLow8 r v).reg r'
      = if r' = r then (c.reg r).extractLsb' 8 56 ++ v else c.reg r' := rfl

/-- A low half replaced is read back. -/
@[simp] theorem low16_setLow16 (c : Cpu) (r : Reg) (v : BitVec 16) :
    (c.setLow16 r v).low16 r = v := by
  unfold low16
  rw [setLow16_reg, if_pos rfl]
  exact BitVec.extractLsb'_append_eq_right

/-- A low byte replaced is read back. -/
@[simp] theorem low8_setLow8 (c : Cpu) (r : Reg) (v : BitVec 8) :
    (c.setLow8 r v).low8 r = v := by
  unfold low8
  rw [setLow8_reg, if_pos rfl]
  exact BitVec.extractLsb'_append_eq_right

-- =========================================== saving and restoring registers

/-- Pushing a list of registers: RSP drops by eight each, the other
registers stay, memory changes only below the old RSP. -/
theorem foldl_push (rs : List Reg) : ∀ (c : Cpu),
    8 * rs.length ≤ (c.reg .rsp).toNat →
    ((rs.foldl push c).reg .rsp).toNat
        = (c.reg .rsp).toNat - 8 * rs.length
      ∧ (∀ r, r ≠ .rsp → (rs.foldl push c).reg r = c.reg r)
      ∧ (∀ b : BitVec 64, (b.toNat < (c.reg .rsp).toNat - 8 * rs.length
          ∨ (c.reg .rsp).toNat ≤ b.toNat) →
          (rs.foldl push c).mem b = c.mem b)
      ∧ (∀ x ∈ (rs.foldl push c).log, x ∈ c.log
          ∨ x.Below (c.reg .rsp).toNat) := by
  induction rs with
  | nil =>
      intro c _
      exact ⟨rfl, fun _ _ => rfl, fun _ _ => rfl, fun _ hx => Or.inl hx⟩
  | cons r rs ih =>
      intro c hroom
      rw [List.length_cons] at hroom
      have hsp : ((c.push r).reg .rsp).toNat = (c.reg .rsp).toNat - 8 := by
        show (c.reg .rsp - 8#64).toNat = _
        simp only [BitVec.toNat_sub, BitVec.toNat_ofNat]
        omega
      obtain ⟨h1, h2, h3, h4⟩ := ih (c.push r) (by omega)
      rw [List.foldl_cons, List.length_cons]
      refine ⟨by omega, ?_, ?_, ?_⟩
      · intro r' hr'
        rw [h2 r' hr']
        exact if_neg hr'
      · intro b hb
        rw [h3 b (by omega)]
        have hsp' : (c.reg .rsp - 8#64).toNat = (c.reg .rsp).toNat - 8 := hsp
        exact @Mem.write_apply_of_out c.mem (c.reg .rsp - 8#64) b 8
          (c.reg r) (by omega) (by omega)
      · intro x hx
        rcases h4 x hx with hx | hx
        · rcases List.mem_cons.1 hx with rfl | hx
          · refine Or.inr ?_
            show (c.reg .rsp - 8#64).toNat + 8 ≤ _
            have hsp' : (c.reg .rsp - 8#64).toNat = (c.reg .rsp).toNat - 8 :=
              hsp
            omega
          · exact Or.inl hx
        · refine Or.inr ?_
          unfold Access.Below at hx ⊢
          omega

/-- Popping what was pushed: if in between RSP came back to where the
pushes left it and their bytes are still there, the registers pushed have
their old values again. -/
theorem foldl_pop (rs : List Reg) (hnd : rs.Nodup) (hrsp : Reg.rsp ∉ rs) :
    ∀ (c d : Cpu), 8 * rs.length ≤ (c.reg .rsp).toNat →
    d.reg .rsp = (rs.foldl push c).reg .rsp →
    Mem.AgreeOn (rs.foldl push c).mem d.mem
        ((c.reg .rsp).toNat - 8 * rs.length) (c.reg .rsp).toNat →
    (rs.reverse.foldl pop d).reg .rsp = c.reg .rsp
      ∧ (∀ r ∈ rs, (rs.reverse.foldl pop d).reg r = c.reg r)
      ∧ (∀ r ∉ rs, r ≠ .rsp → (rs.reverse.foldl pop d).reg r = d.reg r)
      ∧ (rs.reverse.foldl pop d).mem = d.mem
      ∧ (∀ x ∈ (rs.reverse.foldl pop d).log, x ∈ d.log
          ∨ x.Below (c.reg .rsp).toNat) := by
  induction rs with
  | nil =>
      intro c d _ hd _
      exact ⟨hd, fun _ h => by simp at h, fun _ _ _ => rfl, rfl,
        fun _ hx => Or.inl hx⟩
  | cons r rs ih =>
      intro c d hroom hd hag
      have hne : r ≠ .rsp := fun h => hrsp (h ▸ List.mem_cons_self)
      rw [List.nodup_cons] at hnd
      rw [List.length_cons] at hroom hag
      have hsp : (c.reg .rsp - 8#64).toNat = (c.reg .rsp).toNat - 8 := by
        simp only [BitVec.toNat_sub, BitVec.toNat_ofNat]
        omega
      have hsp' : (c.push r).reg .rsp = c.reg .rsp - 8#64 := rfl
      obtain ⟨h1, h2, h3, h4, h5⟩ := ih hnd.2
        (fun h => hrsp (List.mem_cons_of_mem _ h)) (c.push r) d
        (by rw [hsp']; omega) hd
        (hag.mono (by rw [hsp']; omega) (by rw [hsp']; omega))
      rw [List.reverse_cons, List.foldl_append, List.foldl_cons,
        List.foldl_nil]
      -- the last pop reads the slot of the first push
      have hread : d.mem.read64 (c.reg .rsp - 8#64) = c.reg r := by
        obtain ⟨-, -, hpush, -⟩ := foldl_push rs (c.push r)
          (by rw [hsp']; omega)
        have h1 : d.mem.read64 (c.reg .rsp - 8#64)
            = (rs.foldl push (c.push r)).mem.read64 (c.reg .rsp - 8#64) :=
          Mem.read64_congr_of_range hag (by omega) (by omega) (by omega)
        have h2 : Mem.AgreeOn (c.push r).mem
            (rs.foldl push (c.push r)).mem ((c.reg .rsp).toNat - 8)
            (c.reg .rsp).toNat := by
          intro b hb1 hb2
          exact hpush b (Or.inr (by rw [hsp']; omega))
        rw [h1, Mem.read64_congr_of_range h2 (by omega) (by omega)
          (by omega)]
        exact Mem.read64_write64_self c.mem _ _
      refine ⟨?_, ?_, ?_, h4, ?_⟩
      · show (rs.reverse.foldl pop d).reg .rsp + 8#64 = _
        rw [h1, hsp', BitVec.sub_add_cancel]
      · intro r' hr'
        show ((((rs.reverse.foldl pop d).load64 r _).set .rsp _).reg r') = _
        have hr'sp : r' ≠ .rsp := fun h => hrsp (h ▸ hr')
        rw [set_reg_of_ne hr'sp, load64_reg]
        by_cases hrr : r' = r
        · rw [if_pos hrr, h4, h1, hsp', hread, hrr]
        · rw [if_neg hrr]
          rcases List.mem_cons.1 hr' with hr' | hr'
          · exact absurd hr' hrr
          · rw [h2 r' hr']
            exact if_neg hr'sp
      · intro r' hr' hr'sp
        show ((((rs.reverse.foldl pop d).load64 r _).set .rsp _).reg r') = _
        rw [List.mem_cons, not_or] at hr'
        rw [set_reg_of_ne hr'sp, load64_reg, if_neg hr'.1]
        exact h3 r' hr'.2 hr'sp
      · intro x hx
        have hx' : x ∈ (⟨false, (rs.reverse.foldl pop d).reg .rsp, 8⟩ :
            Access) :: (rs.reverse.foldl pop d).log := hx
        rcases List.mem_cons.1 hx' with rfl | hx'
        · refine Or.inr ?_
          show ((rs.reverse.foldl pop d).reg .rsp).toNat + 8 ≤ _
          rw [h1, hsp']
          omega
        · rcases h5 x hx' with hx' | hx'
          · exact Or.inl hx'
          · refine Or.inr ?_
            unfold Access.Below at hx' ⊢
            rw [hsp'] at hx'
            omega

/-- Restoring registers adds to the access history. -/
theorem mem_log_popaq {c : Cpu} {x : Access} (hx : x ∈ c.log) :
    x ∈ c.popaq.log := by
  have hfold : ∀ (rs : List Reg) (d : Cpu), x ∈ d.log →
      x ∈ (rs.foldl pop d).log := by
    intro rs
    induction rs with
    | nil => exact fun _ hd => hd
    | cons r rs ih => exact fun d hd => ih (d.pop r) (List.mem_cons_of_mem _ hd)
  exact hfold _ c hx

/-- Restoring registers writes nothing. -/
theorem popaq_mem (c : Cpu) : c.popaq.mem = c.mem := by
  have hfold : ∀ (rs : List Reg) (d : Cpu), (rs.foldl pop d).mem = d.mem := by
    intro rs
    induction rs with
    | nil => exact fun _ => rfl
    | cons r rs ih => exact fun d => ih (d.pop r)
  exact hfold _ c

/-- Saving registers changes RSP only, wherever it points. -/
theorem pushaq_reg (c : Cpu) {r : Reg} (h : r ≠ .rsp) :
    c.pushaq.reg r = c.reg r := by
  have hfold : ∀ (rs : List Reg) (d : Cpu),
      (rs.foldl push d).reg r = d.reg r := by
    intro rs
    induction rs with
    | nil => exact fun _ => rfl
    | cons r' rs ih =>
        intro d
        rw [List.foldl_cons, ih]
        exact set_reg_of_ne h
  exact hfold _ c

/-- Every general register but RSP is saved. -/
theorem mem_pushaqOrder {r : Reg} (h : r ≠ .rsp) : r ∈ pushaqOrder := by
  cases r <;> simp_all [pushaqOrder]

/-- `pushaq`: RSP drops by 120, the other registers stay, memory changes
only in the 120 bytes below the old RSP. -/
theorem pushaq_spec {c : Cpu} (hroom : 120 ≤ (c.reg .rsp).toNat) :
    (c.pushaq.reg .rsp).toNat = (c.reg .rsp).toNat - 120
      ∧ (∀ r, r ≠ .rsp → c.pushaq.reg r = c.reg r)
      ∧ (∀ b : BitVec 64, (b.toNat < (c.reg .rsp).toNat - 120
          ∨ (c.reg .rsp).toNat ≤ b.toNat) → c.pushaq.mem b = c.mem b)
      ∧ (∀ x ∈ c.pushaq.log, x ∈ c.log ∨ x.Below (c.reg .rsp).toNat) :=
  foldl_push pushaqOrder c hroom

/-- `popaq` undoes `pushaq`: a routine that keeps RSP and the save area
returns with every register as it was at the call. -/
theorem popaq_spec {c d : Cpu} (hroom : 120 ≤ (c.reg .rsp).toNat)
    (hrsp : d.reg .rsp = c.pushaq.reg .rsp)
    (hag : Mem.AgreeOn c.pushaq.mem d.mem ((c.reg .rsp).toNat - 120)
      (c.reg .rsp).toNat) :
    d.popaq.reg = c.reg ∧ d.popaq.mem = d.mem
      ∧ (∀ x ∈ d.popaq.log, x ∈ d.log ∨ x.Below (c.reg .rsp).toNat) := by
  obtain ⟨h1, h2, -, h4, h5⟩ := foldl_pop pushaqOrder (by decide) (by decide)
    c d hroom hrsp hag
  refine ⟨?_, h4, h5⟩
  funext r
  by_cases hr : r = .rsp
  · rw [hr]
    exact h1
  · exact h2 r (mem_pushaqOrder hr)

end Cpu

end BootLoader
