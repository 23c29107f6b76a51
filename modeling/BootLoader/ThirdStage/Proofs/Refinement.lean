/-
The machine refines the allocator model.

`step_ok` is the whole of it: from a state where the invariant holds and
both pointers are below 2^63, one step of the machine keeps the invariant,
is one step of the model under `Boot.abs`, and touches only what `Touches`
names. It is put together from one lemma for each kind of step; the
searches and messages share one (`StepOk.calm`), since all they change is
low memory, scratch registers and their own pointer.

`Reached.held` and `Reached.abs` are the run versions.
-/
import BootLoader.ThirdStage.Proofs.Invariant

namespace BootLoader.ThirdStage

open FlatMemory RadixTables Words

variable {m₀ : Mem} {L : Layout} {zf : Bool} {s t : Boot} {c d : Cpu}
  {lst : Nat → List (BitVec 64)} {page : Nat} {k : Level}

-- ============================================================ scaffolding

/-- Past the walk no cursor is in use. -/
theorem Cursors.unused {cur : Nat} {reg : Reg → BitVec 64}
    (h : cur = 0 ∨ 4 < cur) : Cursors lst page cur reg where
  slot := by
    intro l h1 h2 h3
    omega
  rest := by
    intro l h1 h2 h3
    omega

/-- Assemble a step: the allocators' invariant comes with the simulation. -/
theorem StepOk.of (h : Held m₀ s) (ht : step L zf s = t)
    (hcore : Core m₀ t.lst t.cpu)
    (hcur : Cursors t.lst t.abs.page t.pc.cursor t.cpu.reg)
    (hal : (t.cpu.reg .r8).toNat % 0x1000 = 0)
    (hroot : t.pc ≠ .page_walk → t.cpu.reg .r15 = 0x100000#64)
    (hsim : t.abs = s.abs.step (accepts m₀) zf)
    (hlog : ∀ x ∈ t.cpu.log, x ∈ s.cpu.log ∨ Touches s x) :
    StepOk m₀ L zf s := by
  subst ht
  refine ⟨⟨hcore, hcur, hal, hroot, ?_⟩, hsim, hlog⟩
  rw [hsim]
  exact h.alloc.step

/-- `d` is `c` after calls that show only in low memory, with the scratch
registers and the pointers free to change. -/
structure Calm (c d : Cpu) : Prop where
  reg : ∀ r, r ≠ .rsi → r ≠ .r14 → r ≠ .rcx → r ≠ .rbx → d.reg r = c.reg r
  map : Mem.AgreeOn c.mem d.mem 0x20000 0xB0000
  high : Mem.AgreeOn c.mem d.mem 0x100000 (2 ^ 64)
  log : ∀ x ∈ d.log, x ∈ c.log ∨ x.Below 0x100000

theorem Calm.refl (c : Cpu) : Calm c c :=
  ⟨fun _ _ _ _ _ => rfl, Mem.AgreeOn.refl _ _ _, Mem.AgreeOn.refl _ _ _,
    fun _ hx => Or.inl hx⟩

theorem Calm.set {r : Reg} (h : Calm c d)
    (hr : r = .rsi ∨ r = .r14 ∨ r = .rcx ∨ r = .rbx) (v : BitVec 64) :
    Calm c (d.set r v) := by
  refine ⟨?_, h.map, h.high, h.log⟩
  intro r' h1 h2 h3 h4
  rw [← h.reg r' h1 h2 h3 h4]
  refine Cpu.set_reg_of_ne ?_
  rintro rfl
  rcases hr with hr | hr | hr | hr
  · exact h1 hr
  · exact h2 hr
  · exact h3 hr
  · exact h4 hr

theorem Calm.quiet {e : Cpu} (h : Calm c d) (h' : Quiet d e) : Calm c e where
  reg := by rw [h'.reg]; exact h.reg
  map := h.map.trans h'.map
  high := h.high.trans h'.high
  log := fun x hx => (h'.log x hx).elim (h.log x) Or.inr

theorem Calm.reads (h : Calm c d) {a : BitVec 64} {n : Nat}
    (ha : a.toNat + n ≤ 0x100000) : Calm c (d.reads a n) where
  reg := h.reg
  map := h.map
  high := h.high
  log := by
    intro x hx
    rcases List.mem_cons.1 hx with rfl | hx
    · exact Or.inr ha
    · exact h.log x hx

theorem Calm.stack (h : Calm c d) (hs : StackOk c) : StackOk d := by
  unfold StackOk
  rw [h.reg .rsp (by decide) (by decide) (by decide) (by decide)]
  exact hs

/-- A calm step that stays at its depth. -/
theorem StepOk.calm (h : Held m₀ s) {l : Label}
    (ht : step L zf s = { s with cpu := d, pc := l }) (hc : Calm s.cpu d)
    (hptr : (s.cpu.reg .rcx).toNat ≤ (d.reg .rcx).toNat)
    (hcur : l.cursor = s.pc.cursor) (hpc : s.pc ≠ .page_walk)
    (hsim : ({ s with cpu := d, pc := l } : Boot).abs
      = s.abs.step (accepts m₀) zf) : StepOk m₀ L zf s := by
  have hreg : ∀ l, d.reg (slotReg l) = s.cpu.reg (slotReg l) := by
    intro l
    refine hc.reg _ ?_ ?_ ?_ ?_ <;>
      (unfold slotReg; split <;> decide)
  have h8 : d.reg .r8 = s.cpu.reg .r8 :=
    hc.reg .r8 (by decide) (by decide) (by decide) (by decide)
  refine StepOk.of h ht ?_ ?_ ?_ ?_ hsim ?_
  · exact h.core.frame (hc.reg .rsp (by decide) (by decide) (by decide)
      (by decide)) hc.map hc.high hptr
  · show Cursors s.lst ((d.reg .r8).toNat / 0x1000) l.cursor d.reg
    rw [hcur, h8]
    exact h.cursors.congr hreg
  · show (d.reg .r8).toNat % 0x1000 = 0
    rw [h8]
    exact h.aligned
  · intro _
    show d.reg .r15 = _
    rw [hc.reg .r15 (by decide) (by decide) (by decide) (by decide)]
    exact h.root hpc
  · intro x hx
    exact (hc.log x hx).imp_right Or.inl

/-- The region check's verdict on a register, from the memory map the run
started with. -/
theorem accepts_reg (h : Held m₀ s) (hc : Calm s.cpu d) (a : BitVec 64) :
    usable d.mem a = accepts m₀ a.toNat := by
  unfold accepts
  rw [usable_congr (h.core.map.trans hc.map), BitVec.ofNat_toNat,
    BitVec.setWidth_eq]

-- =============================================================== searches

/-- The message before an allocation. -/
theorem calm_print (h : Held m₀ s) (addr : BitVec 64)
    (str : List (BitVec 8)) (hlen : str.length ≤ 0x1000)
    (haddr : addr.toNat + str.length ≤ 0x100000) :
    Calm s.cpu (video_print L str (s.cpu.set .rsi addr)) := by
  have h1 := (Calm.refl s.cpu).set (r := .rsi) (by decide) addr
  exact h1.quiet (video_print_quiet (h1.stack h.core.stack) str hlen haddr)

/-- The addresses of the messages leave room for their texts. -/
theorem message_room {a : BitVec 64} (ha : a ∈ [L.allocate1_msg,
    L.allocate2_msg, L.allocate3_msg, L.pte_msg]) :
    a.toNat + 20 ≤ 0x100000 := by
  have := L.strings_in a ha
  unfold imageEnd at this
  omega

/-- The check of an address a search has put into R14. -/
theorem calm_check (h : Held m₀ s) (hc : Calm s.cpu d) (a : BitVec 64)
    (h14 : d.reg .r14 = a) :
    Calm s.cpu ((loop_over_mem_regions L d).reads L.flag 1)
      ∧ (loop_over_mem_regions L d).reg = d.reg
      ∧ ((loop_over_mem_regions L d).mem L.flag = 1#8
        ↔ accepts m₀ a.toNat = true) := by
  obtain ⟨hq, hflag⟩ :=
    loop_over_mem_regions_spec (L := L) (hc.stack h.core.stack)
  have hin := L.flag_in
  unfold imageEnd at hin
  refine ⟨(hc.quiet hq).reads (by omega), hq.reg, ?_⟩
  rw [hflag, h14, accepts_reg h hc]
  cases accepts m₀ a.toNat <;> decide

/-- `allocate1` and `allocate2`. -/
theorem allocate_unchecked_ok (h : Held m₀ s) (hpc : s.pc = .allocate k)
    (hk : k ≠ .l3) (addr : BitVec 64) (str : List (BitVec 8))
    (ht : step L zf s = allocate_unchecked L k addr str zf s)
    (hlen : str.length ≤ 20) (haddr : addr.toNat + 20 ≤ 0x100000) :
    StepOk m₀ L zf s := by
  have hc := calm_print (L := L) h addr str (by omega)
    (by omega)
  have hq := video_print_quiet (L := L)
    (((Calm.refl s.cpu).set (r := .rsi) (by decide) addr).stack h.core.stack)
    str (by omega) (by show addr.toNat + _ ≤ _; omega)
  refine StepOk.calm h ht (hc.set (by decide) _) ?_ ?_ (by simp [hpc]) ?_
  · show _ ≤ ((video_print L str (s.cpu.set .rsi addr)).reg .rcx).toNat
    rw [hq.reg]
    exact Nat.le_refl _
  · rw [hpc]
    cases zf <;> rfl
  · have hstep : s.abs.step (accepts m₀) zf = s.abs.choose zf k := by
      unfold Alloc.step
      rw [show s.abs.pc = .allocate k from hpc]
      cases k <;> first | rfl | exact absurd rfl hk
    rw [hstep]
    unfold Boot.abs Alloc.choose
    simp only [Cpu.set_reg, hq.reg]
    simp

/-- `allocate3`. -/
theorem allocate3_ok (h : Held m₀ s) (hpc : s.pc = .allocate .l3) :
    StepOk m₀ L zf s := by
  have hroom := message_room (L := L) (a := L.allocate3_msg) (by simp)
  have hc := calm_print (L := L) h L.allocate3_msg allocate3_msg
    (by decide) (by
      have : allocate3_msg.length ≤ 20 := by decide
      omega)
  have hq := video_print_quiet (L := L)
    (((Calm.refl s.cpu).set (r := .rsi) (by decide) L.allocate3_msg).stack
      h.core.stack) allocate3_msg (by decide) (by
      have : allocate3_msg.length ≤ 20 := by decide
      show L.allocate3_msg.toNat + _ ≤ _
      omega)
  obtain ⟨p, hp⟩ : ∃ p, p = video_print L allocate3_msg
      (s.cpu.set .rsi L.allocate3_msg) := ⟨_, rfl⟩
  rw [← hp] at hc hq
  have hrcx : p.reg .rcx = s.cpu.reg .rcx := congrFun hq.reg .rcx
  obtain ⟨hcalm, hreg, hverdict⟩ := calm_check (L := L) h
    (hc.set (r := .r14) (by decide) (p.reg .rcx)) (p.reg .rcx)
    (Cpu.set_reg_self _ _ _)
  have ht : step L zf s = { s with
      cpu := (loop_over_mem_regions L (p.set .r14 (p.reg .rcx))).reads
        L.flag 1
      pc := if (loop_over_mem_regions L (p.set .r14 (p.reg .rcx))).mem
        L.flag = 1#8 then .approve_allocate .l3
        else .adjust_then_call .l3 } := by
    unfold step
    rw [hpc, hp]
    rfl
  generalize loop_over_mem_regions L (p.set .r14 (p.reg .rcx)) = e
    at hcalm hreg hverdict ht
  have hsame : ∀ r, r ≠ .rsi → r ≠ .r14 → e.reg r = s.cpu.reg r := by
    intro r h1 h2
    rw [hreg, Cpu.set_reg_of_ne h2, hq.reg, Cpu.set_reg_of_ne h1]
  refine StepOk.calm h ht hcalm ?_ ?_ (by simp [hpc]) ?_
  · show _ ≤ (e.reg .rcx).toNat
    exact Nat.le_of_eq (by rw [hsame .rcx (by decide) (by decide)])
  · rw [hpc]
    split <;> rfl
  · have hstep : s.abs.step (accepts m₀) zf
        = s.abs.choose (accepts m₀ s.abs.ptr) .l3 := by
      unfold Alloc.step
      rw [show s.abs.pc = .allocate .l3 from hpc]
    rw [hstep]
    rw [hrcx] at hverdict
    unfold Boot.abs Alloc.choose
    simp only [Cpu.reads_reg, hsame .rcx (by decide) (by decide),
      hsame .rbx (by decide) (by decide), hsame .r8 (by decide) (by decide),
      hverdict]

/-- One round of a search, for either pointer. -/
theorem adjust_ok (h : Held m₀ s) (bump : Reg) (approve again : Label)
    (hbump : bump = .rcx ∨ bump = .rbx)
    (ht : step L zf s = adjust_then_call L bump approve again s)
    (hroom : (s.cpu.reg bump).toNat < 2 ^ 63) (hpc : s.pc ≠ .page_walk)
    (hcur : approve.cursor = s.pc.cursor ∧ again.cursor = s.pc.cursor)
    (hsim : s.abs.step (accepts m₀) zf =
      { s.abs with
        ptr := s.abs.ptr + if bump = .rcx then 0x1000 else 0
        data := s.abs.data + if bump = .rcx then 0 else 0x1000
        pc := if accepts m₀ ((s.cpu.reg bump).toNat + 0x1000) then approve
          else again }) : StepOk m₀ L zf s := by
  have hnum : (s.cpu.reg bump + 0x1000#64).toNat
      = (s.cpu.reg bump).toNat + 0x1000 := toNat_add_lit (by omega)
  obtain ⟨hcalm, hreg, hverdict⟩ := calm_check (L := L) h
    (((Calm.refl s.cpu).set (r := bump)
      (by rcases hbump with rfl | rfl <;> decide)
        (s.cpu.reg bump + 0x1000#64)).set (r := .r14) (by decide)
        (s.cpu.reg bump + 0x1000#64))
    (s.cpu.reg bump + 0x1000#64) (Cpu.set_reg_self _ _ _)
  rw [hnum] at hverdict
  have ht' : step L zf s = { s with
      cpu := (loop_over_mem_regions L
        ((s.cpu.set bump (s.cpu.reg bump + 0x1000#64)).set .r14
          (s.cpu.reg bump + 0x1000#64))).reads L.flag 1
      pc := if (loop_over_mem_regions L
        ((s.cpu.set bump (s.cpu.reg bump + 0x1000#64)).set .r14
          (s.cpu.reg bump + 0x1000#64))).mem L.flag = 1#8 then approve
        else again } := by
    rw [ht]
    unfold adjust_then_call
    simp only [Cpu.set_reg_self, Cpu.reads_mem]
  generalize loop_over_mem_regions L
    ((s.cpu.set bump (s.cpu.reg bump + 0x1000#64)).set .r14
      (s.cpu.reg bump + 0x1000#64)) = e at hcalm hreg hverdict ht'
  have hr : ∀ r, r ≠ .r14 → e.reg r
      = if r = bump then s.cpu.reg bump + 0x1000#64 else s.cpu.reg r := by
    intro r h1
    rw [hreg, Cpu.set_reg_of_ne h1]
    rfl
  refine StepOk.calm h ht' hcalm ?_ ?_ hpc ?_
  · show _ ≤ (e.reg .rcx).toNat
    rw [hr .rcx (by decide)]
    rcases hbump with rfl | rfl
    · rw [if_pos rfl, hnum]
      omega
    · exact Nat.le_of_eq (by rw [if_neg (by decide)])
  · split
    · exact hcur.1
    · exact hcur.2
  · rw [hsim]
    unfold Boot.abs
    simp only [Cpu.reads_reg, hr .rcx (by decide), hr .rbx (by decide),
      hr .r8 (by decide), hverdict]
    rcases hbump with rfl | rfl
    · simp only [if_true, hnum, reduceCtorEq, if_false, Nat.add_zero]
    · simp only [if_true, hnum, reduceCtorEq, if_false, Nat.add_zero]

/-- `adjust_then_call1` to `adjust_then_call3`. -/
theorem adjust_then_call_ok (h : Held m₀ s)
    (hpc : s.pc = .adjust_then_call k) (hb : Bounded s) :
    StepOk m₀ L zf s := by
  refine adjust_ok h .rcx (.approve_allocate k) (.adjust_then_call k)
    (Or.inl rfl) ?_ hb.2 (by simp [hpc]) ?_ ?_
  · unfold step
    rw [hpc]
    cases k <;> rfl
  · rw [hpc]
    exact ⟨rfl, rfl⟩
  · unfold Alloc.step
    rw [show s.abs.pc = .adjust_then_call k from hpc]
    rfl

/-- `adjust_then_call4`. -/
theorem adjust_then_call4_ok (h : Held m₀ s)
    (hpc : s.pc = .adjust_then_call4) (hb : Bounded s) :
    StepOk m₀ L zf s := by
  refine adjust_ok h .rbx .approve_allocate4 .adjust_then_call4
    (Or.inr rfl) ?_ hb.1 (by simp [hpc]) ?_ ?_
  · unfold step
    rw [hpc]
    rfl
  · rw [hpc]
    exact ⟨rfl, rfl⟩
  · unfold Alloc.step
    rw [show s.abs.pc = .adjust_then_call4 from hpc]
    rfl

/-- `allocate4`. -/
theorem allocate4_ok (h : Held m₀ s) (hpc : s.pc = .allocate4)
    (hb : Bounded s) : StepOk m₀ L zf s := by
  have hroom := message_room (L := L) (a := L.pte_msg) (by simp)
  have hlen : pte_msg.length ≤ 20 := by decide
  have hc := calm_print (L := L) h L.pte_msg pte_msg
    (by omega) (by omega)
  have hq := video_print_quiet (L := L)
    (((Calm.refl s.cpu).set (r := .rsi) (by decide) L.pte_msg).stack
      h.core.stack) pte_msg (by omega)
    (by show L.pte_msg.toNat + _ ≤ _; omega)
  obtain ⟨p, hp⟩ : ∃ p, p = video_print L pte_msg
      (s.cpu.set .rsi L.pte_msg) := ⟨_, rfl⟩
  rw [← hp] at hc hq
  have hsame : ∀ r, r ≠ .rsi → p.reg r = s.cpu.reg r := by
    intro r hr
    rw [hq.reg, Cpu.set_reg_of_ne hr]
  have ht : step L zf s = { s with
      cpu := p.set .r14 (p.reg .rbx)
      pc := if (p.reg .rbx).slt 0x200000#64 then .approve_allocate4
        else if p.reg .rbx = 0x200000#64 then .approve_allocate4
        else .adjust_then_call4 } := by
    unfold step
    rw [hpc, hp]
    rfl
  -- less, or equal: the two jumps together
  have hbranch : (if (p.reg .rbx).slt 0x200000#64 then Label.approve_allocate4
        else if p.reg .rbx = 0x200000#64 then .approve_allocate4
        else .adjust_then_call4)
      = if s.abs.data ≤ 0x200000 then .approve_allocate4
        else .adjust_then_call4 := by
    have hdata : s.abs.data = (s.cpu.reg .rbx).toNat := rfl
    rw [hsame .rbx (by decide), slt_lit hb.1 (by omega), hdata]
    simp only [decide_eq_true_eq, ← BitVec.toNat_inj, BitVec.toNat_ofNat]
    split
    · rw [if_pos (by omega)]
    · split
      · rw [if_pos (by omega)]
      · rw [if_neg (by omega)]
  refine StepOk.calm h ht (hc.set (by decide) _) ?_ ?_ (by simp [hpc]) ?_
  · show _ ≤ (p.reg .rcx).toNat
    exact Nat.le_of_eq (by rw [hsame .rcx (by decide)])
  · rw [hpc, hbranch]
    split <;> rfl
  · have hstep : s.abs.step (accepts m₀) zf = s.abs.chooseFrame := by
      unfold Alloc.step
      rw [show s.abs.pc = .allocate4 from hpc]
    rw [hstep, hbranch]
    unfold Boot.abs Alloc.chooseFrame
    simp only [Cpu.set_reg, hsame .rcx (by decide), hsame .rbx (by decide),
      hsame .r8 (by decide), reduceCtorEq, if_false]

-- ================================================================ the walk

/-- An index times eight, as an address offset. -/
theorem ofNat_shiftLeft_three (n : Nat) :
    BitVec.ofNat 64 n <<< 3 = BitVec.ofNat 64 (8 * n) := by
  apply BitVec.eq_of_toNat_eq
  rw [BitVec.toNat_shiftLeft, BitVec.toNat_ofNat, BitVec.toNat_ofNat,
    Nat.shiftLeft_eq]
  omega

/-- The branch on an entry, where it is null for exactly the pages that
need a table. -/
theorem enter_pc {a : Alloc} {e : BitVec 64} (h : e = 0#64 ↔ a.needs k) :
    (if e = 0#64 then Label.allocate k else .skip k) = (a.enter k).pc := by
  unfold Alloc.enter
  by_cases hn : a.needs k
  · rw [if_pos (h.2 hn)]
    exact (if_pos hn).symm
  · rw [if_neg fun h' => hn (h.1 h')]
    exact (if_neg hn).symm

/-- The index a pair of shifts cuts out of the address in R8. -/
theorem index_field (x : BitVec 64) {a : Nat} (ha : a ≤ 43) :
    (x <<< a) >>> 55
      = BitVec.ofNat 64 (x.toNat / 0x1000 / 2 ^ (43 - a) % 512) := by
  have hpow : (2 : Nat) ^ (55 - a) = 0x1000 * 2 ^ (43 - a) := by
    rw [show (0x1000 : Nat) = 2 ^ 12 by decide, ← Nat.pow_add]
    congr 1
    omega
  apply BitVec.eq_of_toNat_eq
  rw [toNat_field x (by omega), toNat_lit (by omega), Nat.div_div_eq_div_mul,
    hpow]

/-- The first entry of the PML4 page. -/
theorem root_slot : BitVec.ofNat 64 0 <<< 3 + 0x100000#64
    = slotAddr [0x100000#64] 0 := by decide

/-- What `page_walk` leaves up to its first branch. -/
structure PageWalk (s t : Boot) : Prop where
  r13 : t.cpu.reg .r13
    = ((s.cpu.reg .r8 <<< 0x10) >>> 0x37) <<< 3 + 0x100000#64
  r12 : t.cpu.reg .r12 = (s.cpu.reg .r8 <<< 0x19) >>> 0x37
  r11 : t.cpu.reg .r11 = (s.cpu.reg .r8 <<< 0x22) >>> 0x37
  r10 : t.cpu.reg .r10 = (s.cpu.reg .r8 <<< 0x2B) >>> 0x37
  r15 : t.cpu.reg .r15 = 0x100000#64
  keep : ∀ r ∈ [Reg.rsp, .rcx, .rbx, .r8], t.cpu.reg r = s.cpu.reg r
  mem : t.cpu.mem = s.cpu.mem
  log : t.cpu.log = ⟨false, t.cpu.reg .r13, 8⟩ :: s.cpu.log
  pc : t.pc = if s.cpu.mem.read64 (t.cpu.reg .r13) = 0#64
    then .allocate .l1 else .skip .l1
  tables : t.tables = s.tables
  frames : t.frames = s.frames

theorem pageWalk (s : Boot) : PageWalk s (page_walk s) := by
  unfold page_walk
  constructor <;>
    simp only [Cpu.set_reg, Cpu.reads_reg, Cpu.set_mem, Cpu.reads_mem,
      Cpu.set_log, Cpu.reads_log, reduceCtorEq, if_true, if_false]
  intro r hr
  simp only [List.mem_cons, List.not_mem_nil, or_false] at hr
  rcases hr with rfl | rfl | rfl | rfl <;> simp only [reduceCtorEq, if_false]

/-- It leaves the root's slot in R13 and the indices below. -/
theorem PageWalk.cursors (hw : PageWalk s t) (hroot : lst 0 = [0x100000#64])
    (hpage : page = (s.cpu.reg .r8).toNat / 0x1000) (hp : page < 0x140000) :
    Cursors lst page 1 t.cpu.reg := by
  constructor
  · rintro l rfl - -
    have hz : page / 0x8000000 = 0 := by omega
    have hidx := index_field (s.cpu.reg .r8) (a := 0x10) (by omega)
    have hzero : (s.cpu.reg .r8).toNat / 0x1000 / 2 ^ (43 - 0x10) % 512 = 0 :=
      by omega
    rw [hzero] at hidx
    show t.cpu.reg .r13 = slotAddr (lst 0) (page / span 1)
    rw [hw.r13, hidx, hroot, show page / span 1 = 0 from hz]
    exact root_slot
  · intro l _ hl hl'
    rw [hpage]
    match l, hl, hl' with
    | 2, _, _ => exact hw.r12.trans (index_field _ (by omega))
    | 3, _, _ => exact hw.r11.trans (index_field _ (by omega))
    | 4, _, _ => exact hw.r10.trans (index_field _ (by omega))

/-- `page_walk` up to its first branch. -/
theorem page_walk_ok (h : Held m₀ s) (hpc : s.pc = .page_walk) :
    StepOk m₀ L zf s := by
  have hp := h.page_lt (by simp [hpc])
  have hpage : s.abs.page = (s.cpu.reg .r8).toNat / 0x1000 := rfl
  have hw := pageWalk s
  have hstep : step L zf s = page_walk s := by
    unfold step
    rw [hpc]
  generalize page_walk s = t at hw hstep
  have hfirst : s.lst 0 = [0x100000#64] := rfl
  have hcursors := hw.cursors hfirst hpage hp
  have hroot : t.cpu.reg .r13 = slotAddr (s.lst 0) (s.abs.page / span 1) :=
    hcursors.slot 1 rfl (by omega) (by omega)
  have habs : t.abs.page = s.abs.page := by
    unfold Boot.abs
    rw [hw.keep .r8 (by simp)]
  have hlst : t.lst = s.lst := lst_same hw.tables hw.frames
  -- the branch, and with it the depth reached
  have hnull := h.read_null (k := .l1) (by simp [hpc]) (by rw [hpc]; rfl)
  have hbranch : t.pc = (s.abs.enter .l1).pc := by
    rw [hw.pc, hroot]
    exact enter_pc hnull
  have hcur : t.pc.cursor = 1 := by
    rw [hbranch]
    unfold Alloc.enter
    split <;> rfl
  have hin := h.slot_in (by simp [hpc]) (l := 1) (by omega) (by omega)
    (by omega)
  refine StepOk.of h hstep ?_ ?_ ?_ ?_ ?_ ?_
  · rw [hlst]
    exact h.core.congr (hw.keep .rsp (by simp)) hw.mem
      (hw.keep .rcx (by simp))
  · rw [hlst, habs, hcur]
    exact hcursors
  · rw [hw.keep .r8 (by simp)]
    exact h.aligned
  · exact fun _ => hw.r15
  · have hs : s.abs.step (accepts m₀) zf = s.abs.enter .l1 := by
      unfold Alloc.step
      rw [show s.abs.pc = .page_walk from hpc]
    rw [hs]
    have hrest : t.abs = { s.abs with pc := t.pc } := by
      unfold Boot.abs
      rw [hw.keep .r8 (by simp), hw.keep .rcx (by simp),
        hw.keep .rbx (by simp), hw.tables, hw.frames]
    rw [hrest, hbranch]
    rfl
  · intro x hx
    rw [hw.log] at hx
    rcases List.mem_cons.1 hx with rfl | hx
    · exact Or.inr (Or.inr (Or.inl ⟨1, by omega, by omega, hin, hroot, rfl⟩))
    · exact Or.inl hx

/-- A slot spans 512 of the slots below it. -/
theorem span_succ {l : Nat} (hl : 1 ≤ l) (hl' : l ≤ 3) :
    span (l + 1) * 512 = span l := by
  obtain rfl | rfl | rfl : l = 1 ∨ l = 2 ∨ l = 3 := by omega
  · rfl
  · rfl
  · rfl

/-- The address below: an index times eight, and the pointer in the entry
above. -/
theorem Cursors.descend {l : Nat} {m : Mem} {reg : Reg → BitVec 64}
    (h : Cursors lst page l reg) (hl : 1 ≤ l) (hl' : l ≤ 3)
    (hlink : m.read64 (slotAddr (lst (l - 1)) (page / span l))
      = (lst l).getD (page / span l) 0) :
    reg (slotReg (l + 1)) <<< 3 + m.read64 (reg (slotReg l))
      = slotAddr (lst l) (page / span (l + 1)) := by
  have hslot := h.slot l rfl hl (by omega)
  have hrest := h.rest (l + 1) (by omega) (by omega) (by omega)
  rw [hslot, hlink, hrest, ofNat_shiftLeft_three, BitVec.add_comm]
  refine slotAddr_of_table ?_ rfl rfl
  rw [Nat.div_div_eq_div_mul, span_succ hl hl']

/-- The register of the next depth is none of the others'. -/
theorem slotReg_ne {l n : Nat} (hl : 1 ≤ l) (hl' : l ≤ 3)
    (hn : n = l ∨ l + 1 < n) (hn' : n ≤ 4) : slotReg n ≠ slotReg (l + 1) := by
  obtain rfl | rfl | rfl : l = 1 ∨ l = 2 ∨ l = 3 := by omega
  · obtain rfl | rfl | rfl : n = 1 ∨ n = 3 ∨ n = 4 := by omega
    · decide
    · decide
    · decide
  · obtain rfl | rfl : n = 2 ∨ n = 4 := by omega
    · decide
    · decide
  · obtain rfl : n = 3 := by omega
    decide

theorem slotReg_free (n : Nat) : slotReg n ≠ .rsi ∧ slotReg n ≠ .r8
    ∧ slotReg n ≠ .r15 ∧ slotReg n ≠ .rcx ∧ slotReg n ≠ .rbx
    ∧ slotReg n ≠ .rsp := by
  unfold slotReg
  split <;> decide

/-- One depth further down, with the address found there. -/
theorem Cursors.down {l : Nat} {reg reg' : Reg → BitVec 64}
    (h : Cursors lst page l reg) (hl : 1 ≤ l) (hl' : l ≤ 3)
    (hreg : ∀ r, r ≠ .rsi → reg' r = if r = slotReg (l + 1)
      then slotAddr (lst l) (page / span (l + 1)) else reg r) :
    Cursors lst page (l + 1) reg' where
  slot := by
    rintro n rfl - -
    rw [hreg _ (slotReg_free _).1, if_pos rfl]
    rfl
  rest := by
    intro n _ h1 h2
    rw [hreg _ (slotReg_free n).1,
      if_neg (slotReg_ne hl hl' (Or.inr h1) h2)]
    exact h.rest n (by omega) (by omega) h2

/-- What `skip` leaves, `v` being the address it computes. -/
structure Skip (l : Nat) (null mapped : Label) (s t : Boot) (v : BitVec 64) :
    Prop where
  reg : ∀ r, r ≠ .rsi →
    t.cpu.reg r = if r = slotReg (l + 1) then v else s.cpu.reg r
  mem : t.cpu.mem = s.cpu.mem
  pc : t.pc = if s.cpu.mem.read64 v = 0#64 then null else mapped
  tables : t.tables = s.tables
  frames : t.frames = s.frames
  log : t.cpu.log = ⟨false, v, 8⟩ :: ⟨false, s.cpu.reg (slotReg l), 8⟩
    :: s.cpu.log

/-- `skip`, RSI being free. -/
theorem skip_spec {l : Nat} (hl : 1 ≤ l) (hl' : l ≤ 3) (null mapped : Label)
    (hkeep : c = s.cpu ∨ ∃ v, c = s.cpu.set .rsi v) :
    Skip l null mapped s
      (skip (slotReg l) (slotReg (l + 1)) null mapped { s with cpu := c })
      (s.cpu.reg (slotReg (l + 1)) <<< 3
        + s.cpu.mem.read64 (s.cpu.reg (slotReg l))) := by
  have hcreg : ∀ r, r ≠ .rsi → c.reg r = s.cpu.reg r := by
    intro r hr
    rcases hkeep with rfl | ⟨v, rfl⟩
    · rfl
    · exact Cpu.set_reg_of_ne hr
  have hcmem : c.mem = s.cpu.mem := by
    rcases hkeep with rfl | ⟨v, rfl⟩ <;> rfl
  have hclog : c.log = s.cpu.log := by
    rcases hkeep with rfl | ⟨v, rfl⟩ <;> rfl
  have hapart := slotReg_ne hl hl' (n := l) (Or.inl rfl) (by omega)
  obtain ⟨v, hv⟩ : ∃ v, v = s.cpu.reg (slotReg (l + 1)) <<< 3
      + s.cpu.mem.read64 (s.cpu.reg (slotReg l)) := ⟨_, rfl⟩
  obtain ⟨t, ht⟩ : ∃ t, skip (slotReg l) (slotReg (l + 1)) null mapped
      { s with cpu := c } = t := ⟨_, rfl⟩
  rw [ht, ← hv]
  have hchild : ∀ r, t.cpu.reg r
      = if r = slotReg (l + 1) then v else c.reg r := by
    intro r
    rw [← ht, hv]
    unfold skip
    simp only [Cpu.set_reg, Cpu.reads_reg, Cpu.set_mem, hcmem,
      hcreg _ (slotReg_free _).1, if_true, if_neg hapart]
    split <;> rfl
  have hmem : t.cpu.mem = s.cpu.mem := by
    rw [← ht, ← hcmem]
    rfl
  refine ⟨?_, hmem, ?_, by rw [← ht]; rfl, by rw [← ht]; rfl, ?_⟩
  · intro r hr
    rw [hchild, hcreg r hr]
  · have hraw : t.pc = if t.cpu.mem.read64 (t.cpu.reg (slotReg (l + 1)))
        = 0#64 then null else mapped := by
      rw [← ht]
      rfl
    rw [hraw, hmem, hchild, if_pos rfl]
  · have hraw : t.cpu.log = ⟨false, t.cpu.reg (slotReg (l + 1)), 8⟩
        :: ⟨false, (c.set (slotReg (l + 1))
          (c.reg (slotReg (l + 1)) <<< 3)).reg (slotReg l), 8⟩
        :: c.log := by
      rw [← ht]
      rfl
    rw [hraw, hchild, if_pos rfl, Cpu.set_reg_of_ne hapart,
      hcreg _ (slotReg_free _).1, hclog]

/-- A step down, whatever it branches to. -/
theorem skip_ok (h : Held m₀ s) {l : Nat} (hl : 1 ≤ l) (hl' : l ≤ 3)
    (hpc : s.pc ≠ .done ∧ s.pc ≠ .page_walk) (hcur : s.pc.cursor = l)
    (hprog : s.pc.progress = l) (null mapped : Label)
    (hkeep : c = s.cpu ∨ ∃ v, c = s.cpu.set .rsi v)
    (ht : step L zf s = skip (slotReg l) (slotReg (l + 1)) null mapped
      { s with cpu := c })
    (hcur' : null.cursor = l + 1 ∧ (mapped.cursor = l + 1 ∨ 4 ≤ l + 1))
    (hsim : s.abs.step (accepts m₀) zf = { s.abs with
      pc := if s.cpu.mem.read64 (slotAddr (s.lst l)
        (s.abs.page / span (l + 1))) = 0#64 then null else mapped })
    (hnull : l = 3 → s.cpu.mem.read64 (slotAddr (s.lst l)
      (s.abs.page / span (l + 1))) = 0#64) : StepOk m₀ L zf s := by
  have hk := skip_spec (s := s) hl hl' null mapped hkeep
  rw [← ht] at hk
  have hcursors : Cursors s.lst s.abs.page l s.cpu.reg := by
    rw [← hcur]
    exact h.cursors
  have hin := h.slot_in hpc.1 hl (by omega) (by omega)
  have hlink := h.core.forest.linked (l - 1) (by omega) _ hin
  rw [show l - 1 + 1 = l by omega] at hlink
  rw [hcursors.descend hl hl' hlink] at hk
  obtain ⟨t, ht'⟩ : ∃ t, step L zf s = t := ⟨_, rfl⟩
  rw [ht'] at hk
  have hreg : ∀ r, r ≠ .rsi → r ≠ slotReg (l + 1) →
      t.cpu.reg r = s.cpu.reg r := by
    intro r h1 h2
    rw [hk.reg r h1, if_neg h2]
  obtain ⟨-, h8', h15', hrcx', hrbx', hrsp'⟩ := slotReg_free (l + 1)
  have h8 := hreg .r8 (by decide) h8'.symm
  have hrcx := hreg .rcx (by decide) hrcx'.symm
  have hrbx := hreg .rbx (by decide) hrbx'.symm
  have hlst : t.lst = s.lst := lst_same hk.tables hk.frames
  have habs : t.abs = { s.abs with pc := t.pc } := by
    unfold Boot.abs
    rw [h8, hrcx, hrbx, hk.tables, hk.frames]
  refine StepOk.of h ht' ?_ ?_ ?_ ?_ ?_ ?_
  · rw [hlst]
    exact h.core.congr (hreg .rsp (by decide) hrsp'.symm) hk.mem hrcx
  · rw [hlst, habs]
    show Cursors s.lst s.abs.page t.pc.cursor t.cpu.reg
    have hone : t.pc.cursor = l + 1 := by
      rw [hk.pc]
      by_cases hz : s.cpu.mem.read64 (slotAddr (s.lst l)
          (s.abs.page / span (l + 1))) = 0#64
      · rw [if_pos hz]
        exact hcur'.1
      · rw [if_neg hz]
        rcases hcur'.2 with hm | hm
        · exact hm
        · exact absurd (hnull (by omega)) hz
    rw [hone]
    exact hcursors.down hl hl' hk.reg
  · rw [h8]
    exact h.aligned
  · intro _
    rw [hreg .r15 (by decide) h15'.symm]
    exact h.root hpc.2
  · rw [hsim, habs, hk.pc]
  · intro x hx
    rw [hk.log] at hx
    rcases List.mem_cons.1 hx with rfl | hx
    · refine Or.inr (Or.inr (Or.inl ⟨l + 1, by omega, by omega, ?_, rfl, rfl⟩))
      exact h.slot_in hpc.1 (by omega) (by omega) (by omega)
    · rcases List.mem_cons.1 hx with rfl | hx
      · exact Or.inr (Or.inr (Or.inl ⟨l, hl, by omega, hin,
          hcursors.slot l rfl hl (by omega), rfl⟩))
      · exact Or.inl hx

/-- `skip1` to `skip3`. -/
theorem skip_level_ok (h : Held m₀ s) (hpc : s.pc = .skip k) :
    StepOk m₀ L zf s := by
  have hnd : s.pc ≠ .done := by simp [hpc]
  have hnw : s.pc ≠ .page_walk := by simp [hpc]
  have habs : s.abs.pc = .skip k := hpc
  cases k with
  | l1 =>
      have hnull := h.read_null (k := .l2) hnd (by rw [hpc]; rfl)
      refine skip_ok h (l := 1) (by omega) (by omega) ⟨hnd, hnw⟩
        (by rw [hpc]; rfl) (by rw [hpc]; rfl) (.allocate .l2) (.skip .l2)
        (Or.inl rfl) ?_ ⟨rfl, Or.inl rfl⟩ ?_ (fun h3 => by omega)
      · unfold step
        rw [hpc]
        rfl
      · unfold Alloc.step
        rw [habs]
        show s.abs.enter .l2 = _
        unfold Alloc.enter
        rw [show (if s.abs.needs .l2 then Label.allocate .l2 else .skip .l2)
          = _ from (enter_pc hnull).symm]
        rfl
  | l2 =>
      have hnull := h.read_null (k := .l3) hnd (by rw [hpc]; rfl)
      refine skip_ok h (l := 2) (by omega) (by omega) ⟨hnd, hnw⟩
        (by rw [hpc]; rfl) (by rw [hpc]; rfl) (.allocate .l3) (.skip .l3)
        (Or.inl rfl) ?_ ⟨rfl, Or.inl rfl⟩ ?_ (fun h3 => by omega)
      · unfold step
        rw [hpc]
        rfl
      · unfold Alloc.step
        rw [habs]
        show s.abs.enter .l3 = _
        unfold Alloc.enter
        rw [show (if s.abs.needs .l3 then Label.allocate .l3 else .skip .l3)
          = _ from (enter_pc hnull).symm]
        rfl
  | l3 =>
      have hleaf := h.read_leaf hnd (by rw [hpc]; rfl) (by rw [hpc]; rfl)
      rw [show s.abs.page = s.abs.page / span (3 + 1) from
        (Nat.div_one _).symm] at hleaf
      refine skip_ok h (l := 3) (by omega) (by omega) ⟨hnd, hnw⟩
        (by rw [hpc]; rfl) (by rw [hpc]; rfl) .allocate4 .skip4
        (Or.inr ⟨L.dot, rfl⟩) ?_ ⟨rfl, Or.inr (by omega)⟩ ?_ (fun _ => hleaf)
      · unfold step
        rw [hpc]
        rfl
      · rw [if_pos hleaf]
        unfold Alloc.step
        rw [habs]

-- ============================================================== approvals

/-- A quadword of a cleared page. -/
theorem read64_cleared {m : Mem} {a b : BitVec 64} {n : Nat}
    (hz : ∀ x : BitVec 64, a.toNat ≤ x.toNat → x.toNat < a.toNat + n →
      m x = 0) (hlo : a.toNat ≤ b.toNat) (hhi : b.toNat + 8 ≤ a.toNat + n)
    (htop : a.toNat + n ≤ 2 ^ 64) : m.read64 b = 0 := by
  refine Mem.read64_eq_zero ?_
  intro k hk
  have hnum : (b + BitVec.ofNat 64 k).toNat = b.toNat + k := by
    simp only [BitVec.toNat_add, BitVec.toNat_ofNat]
    omega
  exact hz _ (by omega) (by omega)

/-- The pages of the later levels stand behind the first table, so their
slots stay clear of the byte before it. -/
theorem Held.slot_past (h : Held m₀ s) (hpc : s.pc ≠ .done) {l : Nat}
    (hl : 2 ≤ l) (hl' : l ≤ 4) (hprog : l ≤ s.pc.progress + 1)
    {p : BitVec 64} (hp : p ∈ s.lst 1) :
    p.toNat ≤ (slotAddr (s.lst (l - 1)) (s.abs.page / span l)).toNat := by
  have hin := h.slot_in hpc (by omega) hl' hprog
  obtain ⟨haddr, -, -⟩ := h.core.forest.slot_bounds (by omega) hin
  obtain ⟨k, hk⟩ : ∃ k : Level, k.num = l - 1 := by
    obtain rfl | rfl | rfl : l = 2 ∨ l = 3 ∨ l = 4 := by omega
    · exact ⟨.l1, rfl⟩
    · exact ⟨.l2, rfl⟩
    · exact ⟨.l3, rfl⟩
  have hmem := getD_mem (Forest.table_mem hin)
  rw [← hk] at hmem haddr
  have hfirst := h.alloc.tables.first _
    (mem_abs_tables (mem_lst_num (k := .l1).1 hp)) rfl _
    (mem_abs_tables (mem_lst_num.1 hmem))
  have hle : p.toNat ≤ ((s.lst k.num).getD (s.abs.page / span l / 512) 0).toNat :=
    hfirst
  rw [← hk]
  omega

/-- The byte before the first table survives a store past it. -/
theorem hole_write {m : Mem} {p a v : BitVec 64} (hp : 0x101003 ≤ p.toNat)
    (ha : p.toNat ≤ a.toNat) (htop : a.toNat + 8 ≤ 2 ^ 64) :
    m.write64 a v (p - 3#64) = m (p - 3#64) := by
  have hsub : (p - 3#64).toNat = p.toNat - 3 := by
    simp only [BitVec.toNat_sub, BitVec.toNat_ofNat]
    omega
  exact @Mem.write_apply_of_out m a (p - 3#64) 8 v (by omega) (by omega)

/-- What an approval does to a state: `d` is the machine with the page
cleared, `v` the pointer stored. -/
structure Approval (k : Level) (s t : Boot) (d : Cpu) (v : BitVec 64) :
    Prop where
  reg : ∀ r, t.cpu.reg r = if r = .rcx then v + 0x1000#64 else s.cpu.reg r
  mem : t.cpu.mem = d.mem.write64 (s.cpu.reg k.slot) v
  log : t.cpu.log = ⟨true, s.cpu.reg k.slot, 8⟩ :: d.log
  tables : t.tables = s.tables ++ [(k, v)]
  frames : t.frames = s.frames
  pc : t.pc = .skip k

theorem approval (k : Level) (hreg : (build_page_table2 s.cpu).reg = s.cpu.reg) :
    Approval k s (approve_allocate k s) (build_page_table2 s.cpu)
      (s.cpu.reg .rcx ||| 0x3#64) := by
  have hne : k.slot ≠ .rcx := by cases k <;> decide
  unfold approve_allocate
  refine ⟨?_, ?_, ?_, ?_, rfl, rfl⟩
  · intro r
    simp only [Cpu.set_reg, Cpu.store64_reg, hreg, if_true]
    by_cases hr : r = .rcx
    · rw [if_pos hr, if_pos hr]
    · rw [if_neg hr, if_neg hr, if_neg hr]
  · simp only [Cpu.set_reg, Cpu.store64_mem, Cpu.set_mem, hreg, if_true,
      if_neg hne]
  · simp only [Cpu.set_reg, Cpu.store64_log, Cpu.set_log, hreg, if_neg hne]
  · simp only [Cpu.set_reg, Cpu.store64_reg, hreg, if_true]

/-- The pointer an approval stores, as the allocators count it. -/
theorem Held.tag_toNat (h : Held m₀ s) :
    (s.cpu.reg .rcx ||| 0x3#64).toNat = Alloc.tag s.abs.ptr := by
  have hr := h.alloc.tables.residue
  have hptr : s.abs.ptr = (s.cpu.reg .rcx).toNat := rfl
  rw [hptr] at hr
  rw [toNat_or_three (by split at hr <;> omega)]
  rfl

/-- At the approval of level `k` its next slot is the page's. -/
theorem Held.pending_slot (h : Held m₀ s) (hpc : s.pc = .approve_allocate k) :
    (s.lst k.num).length = s.abs.page / span k.num
      ∧ s.cpu.reg k.slot
        = slotAddr (s.lst (k.num - 1)) (s.lst k.num).length := by
  have hlen : (s.lst k.num).length = s.abs.page / span k.num := by
    have hl := h.length_tables k
    have hpend := h.alloc.counts.pending k (by
      show s.pc.allocates k
      rw [hpc]
      rfl)
    rw [hpc, if_neg (by cases k <;> decide)] at hl
    rw [hl]
    cases k <;> simp only [Level.span, Level.num, span] at hpend ⊢ <;> omega
  refine ⟨hlen, ?_⟩
  have hs := h.cursors.slot k.num (by rw [hpc]; rfl) (by cases k <;> decide)
    (by cases k <;> decide)
  have hreg : slotReg k.num = k.slot := by cases k <;> rfl
  rw [hlen, ← hreg]
  exact hs

/-- From the second level on the pointer carries the flag bits. -/
theorem Held.ptr_residue (h : Held m₀ s) (hpc : s.pc = .approve_allocate k) :
    (k = .l1 ∧ s.abs.tables = [] ∧ s.lst 1 = []
        ∧ (s.cpu.reg .rcx).toNat % 0x1000 = 0)
      ∨ (k ≠ .l1 ∧ (s.cpu.reg .rcx).toNat % 0x1000 = 3) := by
  have hr := h.alloc.tables.residue
  have hptr : s.abs.ptr = (s.cpu.reg .rcx).toNat := rfl
  rw [hptr] at hr
  by_cases hk : k = .l1
  · subst hk
    have hnil := h.alloc.counts.tables_nil hpc
    rw [if_pos hnil] at hr
    refine Or.inl ⟨rfl, hnil, ?_, hr⟩
    have hz : (s.lst Level.l1.num).length = 0 := by
      rw [length_lst]
      unfold Alloc.count
      rw [hnil]
      rfl
    exact List.length_eq_zero_iff.1 hz
  · -- the root's child is there
    refine Or.inr ⟨hk, ?_⟩
    rw [if_neg] at hr
    · exact hr
    · intro hnil
      have h1 := h.length_tables .l1
      rw [hpc, if_pos (by cases k <;> first | decide | exact absurd rfl hk),
        length_lst] at h1
      unfold Alloc.count at h1
      rw [hnil] at h1
      simp at h1

/-- The memory side of an approval: a cleared page joins the tree. -/
theorem Approval.core {v : BitVec 64} (h : Held m₀ s)
    (hpc : s.pc = .approve_allocate k) (hb : Bounded s)
    (ha : Approval k s t d v) (hv : v.toNat = Alloc.tag s.abs.ptr)
    (hzero : ∀ b : BitVec 64, (s.cpu.reg .rcx).toNat ≤ b.toNat →
      b.toNat < (s.cpu.reg .rcx).toNat + 0x1000 → d.mem b = 0)
    (hrest : ∀ b : BitVec 64, 0x20000 ≤ b.toNat →
      (b.toNat < (s.cpu.reg .rcx).toNat
        ∨ (s.cpu.reg .rcx).toNat + 0x1000 ≤ b.toNat) →
      d.mem b = s.cpu.mem b) : Core m₀ t.lst t.cpu := by
  have hnd : s.pc ≠ .done := by simp [hpc]
  have hk : 1 ≤ k.num ∧ k.num ≤ 3 := by cases k <;> decide
  have hrcx := hb.2
  have hstart : 0x101000 ≤ (s.cpu.reg .rcx).toNat := h.alloc.tables.start
  obtain ⟨htag, -⟩ := h.alloc.tables.tag_ptr
  have hptr : s.abs.ptr = (s.cpu.reg .rcx).toNat := rfl
  have hres := h.ptr_residue hpc
  have hnext : (v + 0x1000#64).toNat = v.toNat + 0x1000 :=
    toNat_add_lit (by omega)
  obtain ⟨hlen, hslot⟩ := h.pending_slot hpc
  obtain ⟨n, hn⟩ : ∃ n, k.num = n + 1 := ⟨k.num - 1, by omega⟩
  have hin := h.slot_in hnd hk.1 (by omega)
    (by rw [hpc]; show k.num ≤ k.num - 1 + 1; omega)
  rw [← hlen] at hin
  obtain ⟨-, hslo, hshi⟩ := h.core.forest.slot_bounds (by omega) hin
  have hlst : t.lst = grow s.lst (n + 1) v := by
    rw [← hn]
    exact lst_table ha.tables ha.frames
  have hmem : t.cpu.mem
      = d.mem.write64 (slotAddr (s.lst n) (s.lst (n + 1)).length) v := by
    rw [ha.mem, hslot, hn]
    rfl
  rw [hn] at hin hslo hshi
  change _ < capacity slack s.lst n at hin
  change _ ≤ (slotAddr (s.lst n) _).toNat at hslo
  change (slotAddr (s.lst n) _).toNat + 8 ≤ _ at hshi
  refine ⟨?_, ?_, ?_, ?_⟩
  · unfold StackOk
    rw [ha.reg, if_neg (by decide)]
    exact h.core.stack
  · have hd : Mem.AgreeOn s.cpu.mem d.mem 0x20000 0xB0000 :=
      fun b h1 h2 => hrest b h1 (Or.inl (by omega))
    rw [hmem]
    exact (h.core.map.trans hd).trans
      (Mem.agreeOn_write64 _ _ (by omega) (Or.inl (by omega)))
  · rw [ha.reg, if_pos rfl, hnext, hmem, hlst]
    have hforest : Forest d.mem 4 slack s.lst 0x100000
        (s.cpu.reg .rcx).toNat :=
      h.core.forest.frame fun b h1 h2 => hrest b (by omega) (Or.inl h2)
    refine hforest.addTable (by omega) hin (by omega) (by omega) (by omega)
      (by omega) ?_ ?_
    · -- only the first table has slack, and it is the first of its level
      rcases hres with ⟨rfl, -, hnil, -⟩ | ⟨hne, -⟩
      · obtain rfl : n = 0 := by
          change 1 = n + 1 at hn
          omega
        exact Or.inl hnil
      · refine Or.inr (if_neg ?_)
        cases k with
        | l1 => exact absurd rfl hne
        | l2 => change 2 = n + 1 at hn; omega
        | l3 => change 3 = n + 1 at hn; omega
    · intro j hj
      have haddr : (v + BitVec.ofNat 64 (8 * j)).toNat = v.toNat + 8 * j :=
        toNat_add_lit (by omega)
      have hroom : v.toNat + 8 * j + 8 ≤ (s.cpu.reg .rcx).toNat + 0x1000 := by
        rcases hres with ⟨rfl, -, -, hr⟩ | ⟨-, hr⟩
        · obtain rfl : n = 0 := by
            change 1 = n + 1 at hn
            omega
          change j < 512 - 1 at hj
          omega
        · omega
      exact read64_cleared (n := 0x1000) hzero (by omega) (by omega)
        (by omega)
  · intro p hp
    rw [hlst] at hp
    rw [hmem]
    rcases hres with ⟨rfl, -, hnil, hr⟩ | ⟨hne, -⟩
    · -- the first table itself: the byte is the first of the cleared page
      obtain rfl : n = 0 := by
        change 1 = n + 1 at hn
        omega
      rw [grow_self, hnil, List.nil_append] at hp
      obtain rfl := List.mem_singleton.1 hp
      have hsub : (p - 3#64).toNat = (s.cpu.reg .rcx).toNat := by
        simp only [BitVec.toNat_sub, BitVec.toNat_ofNat]
        omega
      refine ⟨by omega, ?_⟩
      rw [← hzero (p - 3#64) (by omega) (by omega)]
      exact @Mem.write_apply_of_out d.mem _ (p - 3#64) 8 p (by omega)
        (by omega)
    · have hn1 : n ≠ 0 := by
        cases k with
        | l1 => exact absurd rfl hne
        | l2 => change 2 = n + 1 at hn; omega
        | l3 => change 3 = n + 1 at hn; omega
      rw [grow_of_ne (by omega)] at hp
      obtain ⟨hlo, hz⟩ := h.core.hole p hp
      have hpast := h.slot_past hnd (l := k.num) (by omega) (by omega)
        (by rw [hpc]; show k.num ≤ k.num - 1 + 1; omega) hp
      rw [← hlen, hn] at hpast
      change p.toNat ≤ (slotAddr (s.lst n) _).toNat at hpast
      have hhigh := h.core.forest.high 1 (by omega) p hp
      have hsub : (p - 3#64).toNat = p.toNat - 3 := by
        simp only [BitVec.toNat_sub, BitVec.toNat_ofNat]
        omega
      refine ⟨hlo, ?_⟩
      rw [hole_write hlo hpast (by omega), ← hz]
      exact hrest _ (by omega) (Or.inl (by omega))

/-- `approve_allocate1` to `approve_allocate3`. -/
theorem approve_allocate_ok (h : Held m₀ s)
    (hpc : s.pc = .approve_allocate k) (hb : Bounded s) :
    StepOk m₀ L zf s := by
  have hk : 1 ≤ k.num ∧ k.num ≤ 3 := by cases k <;> decide
  have hrcx := hb.2
  have hstart : 0x101000 ≤ (s.cpu.reg .rcx).toNat := h.alloc.tables.start
  obtain ⟨hreg, hzero, hrest, hlog, -⟩ := build_page_table2_spec
    h.core.stack (by omega) (by omega)
  have ha := approval k hreg
  have hv := h.tag_toNat
  obtain ⟨htag, -⟩ := h.alloc.tables.tag_ptr
  have hptr : s.abs.ptr = (s.cpu.reg .rcx).toNat := rfl
  have hcore := ha.core h hpc hb hv hzero hrest
  obtain ⟨hlen, hslot⟩ := h.pending_slot hpc
  have hstep : step L zf s = approve_allocate k s := by
    unfold step
    rw [hpc]
    cases k <;> rfl
  generalize approve_allocate k s = t at ha hcore hstep
  generalize s.cpu.reg .rcx ||| 0x3#64 = v at ha hv
  have hnext : (v + 0x1000#64).toNat = v.toNat + 0x1000 :=
    toNat_add_lit (by omega)
  have habs : t.abs = s.abs.approve k := by
    unfold Boot.abs Alloc.approve
    rw [ha.reg, ha.reg, ha.reg, ha.tables, ha.frames, ha.pc,
      if_neg (show Reg.r8 ≠ .rcx by decide),
      if_neg (show Reg.rbx ≠ .rcx by decide), if_pos rfl, hnext, hv,
      List.map_append, List.map_cons, List.map_nil, hv]
    rfl
  refine StepOk.of h hstep hcore ?_ ?_ ?_ ?_ ?_
  · rw [ha.pc, habs, lst_table ha.tables ha.frames]
    have hc := h.cursors
    rw [hpc] at hc
    have hne : ∀ l, slotReg l ≠ .rcx := by
      intro l
      unfold slotReg
      split <;> decide
    constructor
    · intro l h1 h2 h3
      rw [ha.reg, if_neg (hne l), grow_of_ne (by
        change l = k.num at h1
        omega)]
      exact hc.slot l h1 h2 h3
    · intro l h1 h2 h3
      rw [ha.reg, if_neg (hne l)]
      exact hc.rest l h1 h2 h3
  · rw [ha.reg, if_neg (by decide)]
    exact h.aligned
  · intro _
    rw [ha.reg, if_neg (by decide)]
    exact h.root (by simp [hpc])
  · rw [habs]
    unfold Alloc.step
    rw [show s.abs.pc = .approve_allocate k from hpc]
  · intro x hx
    rw [ha.log] at hx
    rcases List.mem_cons.1 hx with rfl | hx
    · refine Or.inr (Or.inr (Or.inl ⟨k.num, hk.1, by omega, ?_, ?_, rfl⟩))
      · exact h.slot_in (by simp [hpc]) hk.1 (by omega)
          (by rw [hpc]; show k.num ≤ k.num - 1 + 1; omega)
      · rw [← hlen]
        exact hslot
    · rcases hlog x hx with hx | hx | hx
      · exact Or.inl hx
      · exact Or.inr (Or.inl hx)
      · exact Or.inr (Or.inr (Or.inr ⟨k, hpc, hx⟩))

/-- `approve_allocate4`: the frame goes into the page's leaf slot. -/
theorem approve_allocate4_ok (h : Held m₀ s)
    (hpc : s.pc = .approve_allocate4) (hb : Bounded s) :
    StepOk m₀ L zf s := by
  have hnd : s.pc ≠ .done := by simp [hpc]
  have hpage : s.abs.page = (s.cpu.reg .r8).toNat / 0x1000 := rfl
  have hal := h.aligned
  have hin : s.abs.page / span 4 < capacity slack s.lst 3 :=
    h.slot_in hnd (l := 4) (by omega) (by omega)
      (by rw [hpc]; exact Nat.le_refl 4)
  obtain ⟨-, hslo, hshi⟩ := h.core.forest.slot_bounds (by omega) hin
  have htop := h.core.forest.top
  have hlen : (s.lst 4).length = s.abs.page / span 4 := by
    show (s.frames.map Prod.snd).length = s.abs.page / 1
    rw [List.length_map, length_frames, h.alloc.counts.frames, Nat.div_one,
      show s.abs.pc = _ from hpc]
    rfl
  have hslot : s.cpu.reg .r10 = slotAddr (s.lst 3) (s.lst 4).length := by
    rw [hlen]
    exact h.cursors.slot 4 (by rw [hpc]; rfl) (by omega) (by omega)
  have hrbx : (s.cpu.reg .rbx + 0x1000#64).toNat
      = (s.cpu.reg .rbx).toNat + 0x1000 := toNat_add_lit (by
    have := hb.1
    omega)
  obtain ⟨t, ht⟩ : ∃ t, approve_allocate4 s = t := ⟨_, rfl⟩
  have hstep : step L zf s = t := by
    rw [← ht]
    unfold step
    rw [hpc]
  have hreg : ∀ r, t.cpu.reg r
      = if r = .rbx then s.cpu.reg .rbx + 0x1000#64 else s.cpu.reg r := by
    intro r
    rw [← ht]
    rfl
  have hmem : t.cpu.mem = s.cpu.mem.write64
      (slotAddr (s.lst 3) (s.lst 4).length) (s.cpu.reg .rbx) := by
    rw [← ht, ← hslot]
    rfl
  have hlst : t.lst = grow s.lst 4 (s.cpu.reg .rbx) :=
    lst_frame (v := s.cpu.reg .r8) (by rw [← ht]; rfl) (by rw [← ht]; rfl)
  have htpc : t.pc = .skip4 := by
    rw [← ht]
    rfl
  have habs : t.abs = s.abs.approveFrame := by
    have hfr : t.frames = s.frames ++ [(s.cpu.reg .r8, s.cpu.reg .rbx)] := by
      rw [← ht]
      rfl
    have htab : t.tables = s.tables := by
      rw [← ht]
      rfl
    have hr8 : 0x1000 * s.abs.page = (s.cpu.reg .r8).toNat := by
      omega
    unfold Alloc.approveFrame
    rw [hr8]
    unfold Boot.abs
    rw [hreg, hreg, hreg, hfr, htab, htpc, if_pos rfl,
      if_neg (show Reg.r8 ≠ .rbx by decide),
      if_neg (show Reg.rcx ≠ .rbx by decide), hrbx, List.map_append]
    rfl
  rw [← hlen] at hin hslo hshi
  refine StepOk.of h hstep ⟨?_, ?_, ?_, ?_⟩ ?_ ?_ ?_ ?_ ?_
  · unfold StackOk
    rw [hreg, if_neg (by decide)]
    exact h.core.stack
  · rw [hmem]
    exact h.core.map.trans
      (Mem.agreeOn_write64 _ _ (by omega) (Or.inl (by omega)))
  · rw [hreg, if_neg (by decide), hmem, hlst]
    exact h.core.forest.putLeaf rfl hin _
  · intro p hp
    rw [hlst, grow_of_ne (by omega)] at hp
    obtain ⟨hlo, hz⟩ := h.core.hole p hp
    have hpast : p.toNat ≤ (slotAddr (s.lst 3) (s.abs.page / span 4)).toNat :=
      h.slot_past hnd (l := 4) (by omega) (by omega)
        (by rw [hpc]; exact Nat.le_refl 4) hp
    rw [← hlen] at hpast
    refine ⟨hlo, ?_⟩
    rw [hmem, ← hz]
    exact hole_write hlo hpast (by omega)
  · rw [htpc]
    exact Cursors.unused (Or.inr (Nat.lt_add_one 4))
  · rw [hreg, if_neg (by decide)]
    exact hal
  · intro _
    rw [hreg, if_neg (by decide)]
    exact h.root (by simp [hpc])
  · rw [habs]
    unfold Alloc.step
    rw [show s.abs.pc = .approve_allocate4 from hpc]
  · intro x hx
    have hlog : t.cpu.log = ⟨true, s.cpu.reg .r10, 8⟩ :: s.cpu.log := by
      rw [← ht]
      rfl
    rw [hlog] at hx
    rcases List.mem_cons.1 hx with rfl | hx
    · refine Or.inr (Or.inr (Or.inl ⟨4, by omega, by omega, ?_, ?_, rfl⟩))
      · rw [← hlen]
        exact hin
      · rw [← hlen]
        exact hslot
    · exact Or.inl hx

-- ========================================================== page to page

/-- `skip4`. -/
theorem skip4_ok (h : Held m₀ s) (hpc : s.pc = .skip4) :
    StepOk m₀ L zf s := by
  have hstep : step L zf s = skip4 s := by
    unfold step
    rw [hpc]
  refine StepOk.of h hstep ?_ (Cursors.unused (Or.inr (Nat.lt_add_one 4)))
    h.aligned (fun _ => h.root (by simp [hpc])) ?_ (fun _ hx => Or.inl hx)
  · rw [show (skip4 s).lst = s.lst from lst_same rfl rfl]
    exact h.core
  · unfold Alloc.step
    rw [show s.abs.pc = .skip4 from hpc]
    rfl

/-- The loop of `start_here`, and its way out. -/
theorem returned_ok (h : Held m₀ s) (hpc : s.pc = .returned) :
    StepOk m₀ L zf s := by
  have hpage : s.abs.page = (s.cpu.reg .r8).toNat / 0x1000 := rfl
  have hp := h.page_lt (by simp [hpc])
  have hal := h.aligned
  have h8 : (s.cpu.reg .r8 + 0x1000#64).toNat
      = (s.cpu.reg .r8).toNat + 0x1000 := toNat_add_lit (by omega)
  obtain ⟨t, ht⟩ : ∃ t, loop_construct_page_table s = t := ⟨_, rfl⟩
  have hstep : step L zf s = t := by
    rw [← ht]
    unfold step
    rw [hpc]
  have hgo : (s.cpu.reg .r8 + 0x1000#64).slt 0x140000000#64
      = decide (s.abs.page + 1 < Alloc.pageCount) := by
    rw [slt_lit (by omega) (by omega), h8]
    unfold Alloc.pageCount
    exact decide_eq_decide.2 (by omega)
  have hbranch : t = if s.abs.page + 1 < Alloc.pageCount
      then { s with
        cpu := (s.cpu.set .r8 (s.cpu.reg .r8 + 0x1000#64)).set .r9
          0x140000000#64
        pc := .page_walk }
      else { s with
        cpu := ((s.cpu.set .r8 (s.cpu.reg .r8 + 0x1000#64)).set .r9
          0x140000000#64).set .rdi 0x100000#64
        pc := .done } := by
    have hraw : t = if (s.cpu.reg .r8 + 0x1000#64).slt 0x140000000#64
        then { s with
          cpu := (s.cpu.set .r8 (s.cpu.reg .r8 + 0x1000#64)).set .r9
            0x140000000#64
          pc := .page_walk }
        else { s with
          cpu := ((s.cpu.set .r8 (s.cpu.reg .r8 + 0x1000#64)).set .r9
            0x140000000#64).set .rdi 0x100000#64
          pc := .done } := by
      rw [← ht]
      rfl
    rw [hraw, hgo]
    simp only [decide_eq_true_eq]
  have htreg : ∀ r, r ≠ .r9 → r ≠ .rdi → t.cpu.reg r
      = if r = .r8 then s.cpu.reg .r8 + 0x1000#64 else s.cpu.reg r := by
    intro r h1 h2
    rw [hbranch]
    split
    · exact Cpu.set_reg_of_ne h1
    · rw [Cpu.set_reg_of_ne h2]
      exact Cpu.set_reg_of_ne h1
  have htmem : t.cpu.mem = s.cpu.mem ∧ t.cpu.log = s.cpu.log
      ∧ t.tables = s.tables ∧ t.frames = s.frames := by
    rw [hbranch]
    split <;> exact ⟨rfl, rfl, rfl, rfl⟩
  have htpc : t.pc = if s.abs.page + 1 < Alloc.pageCount then .page_walk
      else .done := by
    rw [hbranch]
    split <;> rfl
  obtain ⟨hmem, hlog, htab, hfr⟩ := htmem
  refine StepOk.of h hstep ?_ ?_ ?_ ?_ ?_ ?_
  · rw [lst_same htab hfr]
    exact h.core.congr (htreg .rsp (by decide) (by decide)) hmem
      (htreg .rcx (by decide) (by decide))
  · refine Cursors.unused ?_
    rw [htpc]
    split
    · exact Or.inl rfl
    · exact Or.inr (Nat.lt_add_one 4)
  · rw [htreg .r8 (by decide) (by decide), if_pos rfl, h8]
    omega
  · intro _
    rw [htreg .r15 (by decide) (by decide), if_neg (by decide)]
    exact h.root (by simp [hpc])
  · have hstep' : s.abs.step (accepts m₀) zf = s.abs.next := by
      unfold Alloc.step
      rw [show s.abs.pc = .returned from hpc]
    have habs : t.abs = { s.abs with page := s.abs.page + 1, pc := t.pc } := by
      unfold Boot.abs
      rw [htreg .r8 (by decide) (by decide),
        htreg .rcx (by decide) (by decide),
        htreg .rbx (by decide) (by decide), htab, hfr, if_pos rfl,
        if_neg (show Reg.rcx ≠ .r8 by decide),
        if_neg (show Reg.rbx ≠ .r8 by decide), h8,
        Nat.add_div_right _ (by decide : 0 < 0x1000)]
    rw [hstep', habs, htpc]
    rfl
  · intro x hx
    rw [hlog] at hx
    exact Or.inl hx

-- ================================================================ the run

/-- The step theorem. -/
theorem step_ok (h : Held m₀ s) (hb : Bounded s) : StepOk m₀ L zf s := by
  cases hpc : s.pc with
  | page_walk => exact page_walk_ok h hpc
  | allocate k =>
      cases k with
      | l1 =>
          refine allocate_unchecked_ok h hpc (by decide) L.allocate1_msg
            allocate1_msg ?_ (by decide)
            (message_room (L := L) (by simp))
          unfold step
          rw [hpc]
          rfl
      | l2 =>
          refine allocate_unchecked_ok h hpc (by decide) L.allocate2_msg
            allocate2_msg ?_ (by decide)
            (message_room (L := L) (by simp))
          unfold step
          rw [hpc]
          rfl
      | l3 => exact allocate3_ok h hpc
  | adjust_then_call k => exact adjust_then_call_ok h hpc hb
  | approve_allocate k => exact approve_allocate_ok h hpc hb
  | skip k => exact skip_level_ok h hpc
  | allocate4 => exact allocate4_ok h hpc hb
  | adjust_then_call4 => exact adjust_then_call4_ok h hpc hb
  | approve_allocate4 => exact approve_allocate4_ok h hpc hb
  | skip4 => exact skip4_ok h hpc
  | returned => exact returned_ok h hpc
  | done =>
      have hstep : step L zf s = s := by
        unfold step
        rw [hpc]
      refine ⟨by rw [hstep]; exact h, ?_, ?_⟩
      · rw [hstep]
        unfold Alloc.step
        rw [show s.abs.pc = .done from hpc]
      · rw [hstep]
        exact fun _ hx => Or.inl hx

/-- The machine starts where the model starts. -/
theorem abs_start (c : Cpu) : (start_here c).abs = Alloc.init := by
  unfold Boot.abs start_here Alloc.init
  simp only [Cpu.set_reg, reduceCtorEq, if_true, if_false, List.map_nil,
    BitVec.toNat_add, BitVec.toNat_ofNat]

theorem start_here_mem (c : Cpu) : (start_here c).cpu.mem = c.mem := by
  unfold start_here
  dsimp only
  rw [Cpu.set_mem, Cpu.set_mem, Cpu.set_mem, Cpu.set_mem]

/-- The invariant at the start: an empty PML4 page, nothing handed out. -/
theorem held_start (hs : StackOk c) :
    Held c.mem (start_here (third_stage c)) := by
  have h := third_stage_spec c
  generalize third_stage c = u at h ⊢
  obtain ⟨t, ht⟩ : ∃ t, start_here u = t := ⟨_, rfl⟩
  rw [ht]
  have hrsp : t.cpu.reg .rsp = c.reg .rsp := by
    rw [← h.reg .rsp (by decide) (by decide), ← ht]
    unfold start_here
    simp only [Cpu.set_reg, reduceCtorEq, if_false]
  have hrcx : t.cpu.reg .rcx = 0x100000#64 + 0x1000#64 := by
    rw [← ht]
    unfold start_here
    simp only [Cpu.set_reg, reduceCtorEq, if_true, if_false]
  have hmem : t.cpu.mem = u.mem := by
    rw [← ht]
    exact start_here_mem u
  have habs : t.abs = Alloc.init := by
    rw [← ht]
    exact abs_start _
  have hlst : ∀ k, t.lst (k + 1) = [] := by
    intro k
    rw [← ht]
    match k with
    | 0 => rfl
    | 1 => rfl
    | 2 => rfl
    | 3 => rfl
    | k + 4 => rfl
  have hbase : (0x100000#64).toNat = 0x100000 := toNat_lit (by omega)
  have hforest : Forest u.mem 4 slack t.lst (0x100000#64).toNat
      ((0x100000#64).toNat + 0x1000) := by
    refine Forest.root_only rfl hlst (by rw [hbase]; omega) ?_
    intro j hj
    have haddr : (0x100000#64 + BitVec.ofNat 64 (8 * j)).toNat
        = (0x100000#64).toNat + 8 * j :=
      toNat_add_lit (by rw [hbase]; omega)
    refine read64_cleared (a := 0x100000#64) (n := 0x1000) ?_ (by omega)
      (by omega) (by rw [hbase]; omega)
    rw [hbase]
    exact h.zero
  rw [hbase] at hforest
  refine ⟨⟨?_, ?_, ?_, ?_⟩, ?_, ?_, ?_, ?_⟩
  · unfold StackOk
    rw [hrsp]
    exact hs
  · rw [hmem]
    intro b h1 h2
    exact h.rest b (by omega)
  · rw [hrcx, hmem, toNat_add_lit (by rw [hbase]; omega), hbase]
    exact hforest
  · intro p hp
    rw [hlst 0] at hp
    cases hp
  · refine Cursors.unused (Or.inl ?_)
    rw [← ht]
    rfl
  · rw [← ht]
    rfl
  · intro hne
    exact absurd (by rw [← ht]; rfl) hne
  · rw [habs]
    exact Alloc.inv_init

/-- The invariant over a run. -/
theorem Reached.held (hs : StackOk c) (h : Reached L c s) : Held c.mem s :=
  Run.Reaches.invariant (held_start hs)
    (fun _ _ hh hb => (step_ok hh hb).held) h

/-- The abstract states a bounded run of the model passes through. -/
def Alloc.Reached (U : Nat → Bool) : Alloc → Prop :=
  Run.Reaches (Alloc.step U) (fun a => a.data < 2 ^ 63 ∧ a.ptr < 2 ^ 63)
    Alloc.init

/-- The allocators' invariant over a run of the model. -/
theorem Alloc.Reached.inv {U : Nat → Bool} {a : Alloc}
    (h : Alloc.Reached U a) : Alloc.Inv U a :=
  Run.Reaches.invariant Alloc.inv_init (fun _ _ hi _ => hi.step) h

/-- The simulation over a run. -/
theorem Reached.abs (hs : StackOk c) (h : Reached L c s) :
    Alloc.Reached (accepts c.mem) s.abs := by
  refine Run.Reaches.invariant_of_reached
    (I := fun s => Alloc.Reached (accepts c.mem) s.abs) ?_ ?_ h
  · show Alloc.Reached _ (start_here _).abs
    rw [abs_start]
    exact Run.Reaches.start
  · intro s zf hr ih hb
    have hok : StepOk c.mem L zf _ := step_ok (Reached.held hs hr) hb
    rw [hok.sim]
    exact Run.Reaches.step zf ih hb

end BootLoader.ThirdStage
