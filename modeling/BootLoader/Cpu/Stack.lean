/-
Pushes and pops in terms of what the stack holds.

`Long.lean` has the register saves for a stack that does not wrap; here
RSP is any 64-bit value, as it is at an interrupt. `saved f` is what
`pushaq` leaves on the stack of a processor whose registers are `f`, and
`popaq` finds it there again if the callee kept those bytes.
-/
import BootLoader.Lib.Stack
import BootLoader.Cpu.Long

namespace BootLoader.Cpu

open FlatMemory Mem

variable {c d : Cpu} {b v : BitVec 64} {vs : List (BitVec 64)}

/-- `push qword v`. -/
def pushImm (c : Cpu) (v : BitVec 64) : Cpu :=
  (c.set .rsp (c.reg .rsp - 8#64)).store64 (c.reg .rsp - 8#64) v

theorem push_eq (c : Cpu) (r : Reg) : c.push r = c.pushImm (c.reg r) := rfl

-- ============================================================= one push

@[simp] theorem pushImm_rsp (c : Cpu) (v : BitVec 64) :
    (c.pushImm v).reg .rsp = c.reg .rsp - 8#64 := rfl

theorem pushImm_reg (c : Cpu) (v : BitVec 64) {r : Reg} (h : r ≠ .rsp) :
    (c.pushImm v).reg r = c.reg r := set_reg_of_ne h

theorem pushImm_mem (c : Cpu) (v : BitVec 64)
    (h : ¬ Under (c.reg .rsp) 8 b) : (c.pushImm v).mem b = c.mem b :=
  write64_push c.mem v h

theorem pushImm_holds (h : Holds c.mem (c.reg .rsp) vs)
    (hlen : 8 * vs.length + 8 < 2 ^ 64) (v : BitVec 64) :
    Holds (c.pushImm v).mem ((c.pushImm v).reg .rsp) (v :: vs) :=
  h.push hlen v

/-- A pop takes the head. -/
theorem pop_holds (h : Holds c.mem (c.reg .rsp) (v :: vs)) {r : Reg}
    (hr : r ≠ .rsp) :
    (c.pop r).reg .rsp = c.reg .rsp + 8#64 ∧ (c.pop r).reg r = v
      ∧ (∀ r', r' ≠ r → r' ≠ .rsp → (c.pop r).reg r' = c.reg r')
      ∧ (c.pop r).mem = c.mem := by
  refine ⟨set_reg_self _ _ _, ?_, ?_, rfl⟩
  · show ((c.load64 r (c.reg .rsp)).set .rsp _).reg r = v
    rw [set_reg_of_ne hr, load64_reg, if_pos rfl]
    exact h.1
  · intro r' hne hsp
    show ((c.load64 r (c.reg .rsp)).set .rsp _).reg r' = _
    rw [set_reg_of_ne hsp, load64_reg, if_neg hne]

-- ====================================================== a list of pushes

/-- Values pushed in turn. -/
theorem foldl_pushImm_mem (vs : List (BitVec 64)) :
    ∀ (c : Cpu), 8 * vs.length ≤ 2 ^ 64 →
    ¬ Under (c.reg .rsp) (8 * vs.length) b →
    (vs.foldl pushImm c).mem b = c.mem b := by
  induction vs with
  | nil => exact fun _ _ _ => rfl
  | cons v vs ih =>
      intro c hlen hb
      rw [List.length_cons] at hlen hb
      have hunder : ¬ Under (c.reg .rsp - 8#64) (8 * vs.length) b :=
        fun hu => hb hu.of_push
      rw [List.foldl_cons, ih (c.pushImm v) (by omega) hunder]
      exact pushImm_mem c v fun hu => hb (hu.mono (by omega))

/-- The registers `rs` pushed in turn. -/
theorem foldl_push_stack (rs : List Reg) (hrsp : Reg.rsp ∉ rs) :
    ∀ (c : Cpu) (vs : List (BitVec 64)), Holds c.mem (c.reg .rsp) vs →
    8 * (rs.length + vs.length) < 2 ^ 64 →
    (rs.foldl push c).reg .rsp
        = c.reg .rsp - BitVec.ofNat 64 (8 * rs.length)
      ∧ Holds (rs.foldl push c).mem ((rs.foldl push c).reg .rsp)
        (rs.reverse.map c.reg ++ vs)
      ∧ (∀ b, ¬ Under (c.reg .rsp) (8 * rs.length) b →
          (rs.foldl push c).mem b = c.mem b) := by
  induction rs with
  | nil =>
      intro c vs h _
      exact ⟨(BitVec.sub_zero _).symm, h, fun _ _ => rfl⟩
  | cons r rs ih =>
      intro c vs h hlen
      rw [List.mem_cons, not_or] at hrsp
      rw [List.length_cons] at hlen
      have hpush := pushImm_holds h (by omega) (c.reg r)
      obtain ⟨hsp, hholds, hmem⟩ := ih hrsp.2 (c.push r) (c.reg r :: vs) hpush
        (by rw [List.length_cons]; omega)
      rw [List.foldl_cons, List.length_cons]
      have hregs : rs.reverse.map (c.push r).reg = rs.reverse.map c.reg := by
        refine List.map_congr_left fun r' hr' => ?_
        refine pushImm_reg c _ fun heq => hrsp.2 ?_
        exact heq ▸ List.mem_reverse.1 hr'
      refine ⟨?_, ?_, ?_⟩
      · rw [hsp]
        show c.reg .rsp - 8#64 - _ = _
        apply BitVec.eq_of_toNat_eq
        simp only [BitVec.toNat_sub, BitVec.toNat_ofNat]
        omega
      · rw [hregs] at hholds
        rw [List.reverse_cons, List.map_append, List.append_assoc]
        exact hholds
      · intro b hb
        have hunder : ¬ Under (c.reg .rsp - 8#64) (8 * rs.length) b :=
          fun hu => hb hu.of_push
        rw [hmem b hunder]
        exact pushImm_mem c _ fun hu => hb (hu.mono (by omega))

/-- The registers `rs` popped in turn. -/
theorem foldl_pop_stack (f : Reg → BitVec 64) (rs : List Reg)
    (hnd : rs.Nodup) (hrsp : Reg.rsp ∉ rs) :
    ∀ (c : Cpu), Holds c.mem (c.reg .rsp) (rs.map f ++ vs) →
    (rs.foldl pop c).reg .rsp
        = c.reg .rsp + BitVec.ofNat 64 (8 * rs.length)
      ∧ (∀ r ∈ rs, (rs.foldl pop c).reg r = f r)
      ∧ (∀ r ∉ rs, r ≠ .rsp → (rs.foldl pop c).reg r = c.reg r)
      ∧ (rs.foldl pop c).mem = c.mem := by
  induction rs with
  | nil =>
      intro c _
      exact ⟨(BitVec.add_zero _).symm, fun _ h => by simp at h,
        fun _ _ _ => rfl, rfl⟩
  | cons r rs ih =>
      intro c h
      rw [List.mem_cons, not_or] at hrsp
      rw [List.nodup_cons] at hnd
      obtain ⟨hsp, hval, hkeep, hmem⟩ := pop_holds h (Ne.symm hrsp.1)
      obtain ⟨h1, h2, h3, h4⟩ := ih hnd.2 hrsp.2 (c.pop r) (by
        rw [hmem, hsp]
        exact h.2)
      rw [List.foldl_cons, List.length_cons]
      refine ⟨?_, ?_, ?_, h4.trans hmem⟩
      · rw [h1, hsp]
        apply BitVec.eq_of_toNat_eq
        simp only [BitVec.toNat_add, BitVec.toNat_ofNat]
        omega
      · intro r' hr'
        rcases List.mem_cons.1 hr' with rfl | hr'
        · rw [h3 _ hnd.1 (Ne.symm hrsp.1)]
          exact hval
        · exact h2 r' hr'
      · intro r' hr' hr'sp
        rw [List.mem_cons, not_or] at hr'
        rw [h3 r' hr'.2 hr'sp]
        exact hkeep r' hr'.1 hr'sp

-- ======================================================= pushaq and popaq

/-- What `pushaq` leaves of registers `f`, from the last push upwards. -/
def saved (f : Reg → BitVec 64) : List (BitVec 64) :=
  pushaqOrder.reverse.map f

@[simp] theorem saved_length (f : Reg → BitVec 64) :
    (saved f).length = 15 := rfl

theorem pushaq_holds (h : Holds c.mem (c.reg .rsp) vs)
    (hlen : 8 * vs.length + 120 < 2 ^ 64) :
    Holds c.pushaq.mem (c.pushaq.reg .rsp) (saved c.reg ++ vs) := by
  have hlen' : pushaqOrder.length = 15 := rfl
  exact (foldl_push_stack pushaqOrder (by decide) c vs h (by omega)).2.1

theorem pushaq_rsp (c : Cpu) : c.pushaq.reg .rsp = c.reg .rsp - 120#64 :=
  (foldl_push_stack pushaqOrder (by decide) c [] trivial (by decide)).1

theorem pushaq_mem (c : Cpu) (h : ¬ Under (c.reg .rsp) 120 b) :
    c.pushaq.mem b = c.mem b :=
  (foldl_push_stack pushaqOrder (by decide) c [] trivial (by decide)).2.2 b h

/-- `popaq` takes fifteen quadwords, whatever they are. -/
theorem popaq_rsp (c : Cpu) : c.popaq.reg .rsp = c.reg .rsp + 120#64 := by
  have hfold : ∀ (rs : List Reg) (d : Cpu), (rs.foldl pop d).reg .rsp
      = d.reg .rsp + BitVec.ofNat 64 (8 * rs.length) := by
    intro rs
    induction rs with
    | nil => exact fun d => (BitVec.add_zero _).symm
    | cons r rs ih =>
        intro d
        rw [List.foldl_cons, ih]
        show d.reg .rsp + 8#64 + _ = _
        apply BitVec.eq_of_toNat_eq
        simp only [List.length_cons, BitVec.toNat_add, BitVec.toNat_ofNat]
        omega
  exact hfold pushaqOrder.reverse c

/-- `popaq` restores what the stack holds. -/
theorem popaq_holds {f : Reg → BitVec 64}
    (h : Holds c.mem (c.reg .rsp) (saved f ++ vs)) :
    (∀ r, r ≠ .rsp → c.popaq.reg r = f r)
      ∧ c.popaq.reg .rsp = c.reg .rsp + 120#64 ∧ c.popaq.mem = c.mem := by
  obtain ⟨h1, h2, -, h4⟩ := foldl_pop_stack f pushaqOrder.reverse (by decide)
    (by decide) c h
  exact ⟨fun r hr => h2 r (List.mem_reverse.2 (mem_pushaqOrder hr)), h1, h4⟩

/-- `popaq` undoes `pushaq` after a body that keeps RSP and the bytes of
the save area. -/
theorem popaq_undo (hrsp : d.reg .rsp = c.pushaq.reg .rsp)
    (hsame : Same c.pushaq.mem d.mem (c.pushaq.reg .rsp) 120) :
    d.popaq.reg = c.reg ∧ d.popaq.mem = d.mem := by
  have hholds : Holds d.mem (d.reg .rsp) (saved c.reg ++ []) := by
    have hpushed : Holds c.pushaq.mem (c.pushaq.reg .rsp)
        (saved c.reg ++ []) := pushaq_holds trivial (by decide)
    rw [hrsp]
    exact hpushed.congr (hsame.mono (by simp))
  obtain ⟨h1, h2, h3⟩ := popaq_holds hholds
  refine ⟨?_, h3⟩
  funext r
  by_cases hr : r = .rsp
  · rw [hr, h2, hrsp, pushaq_rsp, BitVec.sub_add_cancel]
  · exact h1 r hr

/-- A routine that saves the registers, keeps RSP and writes in `[lo, hi)`
only, away from its stack: the registers are kept, and memory changes in
that range and under RSP. -/
theorem popaq_after (lo hi : Nat)
    (hclear : ∀ b, Under (c.reg .rsp) 120 b → b.toNat < lo ∨ hi ≤ b.toNat)
    (hrsp : d.reg .rsp = c.pushaq.reg .rsp)
    (hmem : ∀ b : BitVec 64, b.toNat < lo ∨ hi ≤ b.toNat →
      d.mem b = c.pushaq.mem b) :
    d.popaq.reg = c.reg ∧ d.popaq.mem = d.mem
      ∧ ∀ b : BitVec 64, ¬ Under (c.reg .rsp) 120 b →
        b.toNat < lo ∨ hi ≤ b.toNat → d.popaq.mem b = c.mem b := by
  have hsame : Same c.pushaq.mem d.mem (c.pushaq.reg .rsp) 120 := by
    intro k hk
    refine hmem _ (hclear _ ?_)
    rw [pushaq_rsp]
    exact under_add hk
  obtain ⟨hreg, hkeep⟩ := popaq_undo hrsp hsame
  refine ⟨hreg, hkeep, ?_⟩
  intro b hunder hout
  rw [hkeep, hmem b hout]
  exact pushaq_mem c hunder

end BootLoader.Cpu
