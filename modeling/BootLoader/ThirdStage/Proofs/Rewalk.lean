/-
`page_walk` on a page that has been walked.

The walk knows a mapped page by a nonzero entry at each of four levels. The
three levels of tables pass: a table's address is never null. The leaf is
the frame's address as it stands, without flag bits, and the frame of page
0 is 0. So a second walk of any other page only reads (`walk_mapped`), and
a second walk of page 0 comes to `allocate4` again: it stores another frame
in the entry, and RBX moves on (`Inner`).
-/
import BootLoader.ThirdStage.Proofs.SoftwareTables
import BootLoader.ThirdStage.Proofs.IdentityMap

namespace BootLoader.ThirdStage

open FlatMemory RadixTables Words

variable {m₀ : Mem} {L : Layout} {zf : Bool} {s t w : Boot} {c : Cpu}
  {v : BitVec 64} {page l n : Nat}

-- ========================================================== the property

/-- `page_walk` about to run on `v`. -/
def Boot.calls (s : Boot) (v : BitVec 64) : Boot :=
  { s with pc := .page_walk, cpu := s.cpu.set .r8 v }

/-- After `n` steps from `s` the walk is back, for the first time. -/
def ComesBack (L : Layout) (z : Nat → Bool) (s : Boot) (n : Nat) : Prop :=
  (Run.run (step L) z s n).pc = .returned
    ∧ ∀ k < n, (Run.run (step L) z s k).pc ≠ .returned

/-- Every entry of every table of `s` is the same in `t`. -/
def EntriesKept (s t : Boot) : Prop :=
  ∀ p ∈ 0x100000#64 :: s.tables.map Prod.snd, ∀ j < 512,
    t.cpu.mem.read64 (p + BitVec.ofNat 64 (8 * j))
      = s.cpu.mem.read64 (p + BitVec.ofNat 64 (8 * j))

/-- A walk of `v` in `s` comes back with tables and allocators as they
were. -/
def WalksIdle (L : Layout) (s : Boot) (v : BitVec 64) : Prop :=
  ∀ z, ∃ n, ComesBack L z (s.calls v) n
    ∧ (Run.run (step L) z (s.calls v) n).cpu.reg .rbx = s.cpu.reg .rbx
    ∧ (Run.run (step L) z (s.calls v) n).cpu.reg .rcx = s.cpu.reg .rcx
    ∧ EntriesKept s (Run.run (step L) z (s.calls v) n)

-- ============================================================== the walk

/-- A walk of `page` from `w`, down to depth `l`, that has only read. -/
structure Down (w : Boot) (page l : Nat) (t : Boot) : Prop where
  cursors : Cursors w.lst page l t.cpu.reg
  mem : t.cpu.mem = w.cpu.mem
  keep : ∀ r ∈ [Reg.rsp, .rcx, .rbx, .r8], t.cpu.reg r = w.cpu.reg r

theorem down_step (hd : Down w page l t) (hl : 1 ≤ l) (hl' : l ≤ 3)
    {null mapped : Label} (hkeep : c = t.cpu ∨ ∃ x, c = t.cpu.set .rsi x)
    (hstep : step L zf t = skip (slotReg l) (slotReg (l + 1)) null mapped
      { t with cpu := c })
    (hlink : w.cpu.mem.read64 (slotAddr (w.lst (l - 1)) (page / span l))
      = (w.lst l).getD (page / span l) 0) :
    Down w page (l + 1) (step L zf t)
      ∧ (step L zf t).pc = if w.cpu.mem.read64
          (slotAddr (w.lst l) (page / span (l + 1))) = 0#64 then null
        else mapped := by
  have hk := skip_spec hl hl' null mapped hkeep
  rw [← hstep, hd.mem, hd.cursors.descend hl hl' hlink] at hk
  refine ⟨⟨hd.cursors.down hl hl' hk.reg, hk.mem.trans hd.mem, ?_⟩, ?_⟩
  · intro r hr
    obtain ⟨-, h8, -, hrcx, hrbx, hrsp⟩ := slotReg_free (l + 1)
    have hne : r ≠ .rsi ∧ r ≠ slotReg (l + 1) := by
      simp only [List.mem_cons, List.not_mem_nil, or_false] at hr
      rcases hr with rfl | rfl | rfl | rfl
      · exact ⟨by decide, hrsp.symm⟩
      · exact ⟨by decide, hrcx.symm⟩
      · exact ⟨by decide, hrbx.symm⟩
      · exact ⟨by decide, h8.symm⟩
    rw [hk.reg r hne.1, if_neg hne.2, hd.keep r hr]
  · rw [hk.pc, hd.mem]

theorem step_skip1 (zf : Bool) (hpc : t.pc = .skip .l1) : step L zf t
    = skip (slotReg 1) (slotReg 2) (.allocate .l2) (.skip .l2) t := by
  unfold step
  rw [hpc]
  rfl

theorem step_skip2 (zf : Bool) (hpc : t.pc = .skip .l2) : step L zf t
    = skip (slotReg 2) (slotReg 3) (.allocate .l3) (.skip .l3) t := by
  unfold step
  rw [hpc]
  rfl

theorem step_skip3 (zf : Bool) (hpc : t.pc = .skip .l3) : step L zf t
    = skip (slotReg 3) (slotReg 4) .allocate4 .skip4
      { t with cpu := t.cpu.set .rsi L.dot } := by
  unfold step
  rw [hpc]
  rfl

/-- Where the tables are there, four steps lead to the leaf entry. -/
theorem walk_mapped {hi : Nat}
    (hf : Forest w.cpu.mem 4 slack w.lst 0x100000 hi)
    (hpc : w.pc = .page_walk) (hpage : page = (w.cpu.reg .r8).toNat / 0x1000)
    (hp : page < 0x140000) (ht : page / 512 < (w.lst 3).length)
    (z : Nat → Bool) :
    Down w page 4 (Run.run (step L) z w 4)
      ∧ ((Run.run (step L) z w 4).pc = if w.cpu.mem.read64
          (slotAddr (w.lst 3) page) = 0#64 then .allocate4 else .skip4)
      ∧ ∀ k < 4, (Run.run (step L) z w k).pc ≠ .returned := by
  have hr1 : (w.lst 2).length ≤ capacity slack w.lst 1 := hf.room 1 (by omega)
  have hr0 : (w.lst 1).length ≤ capacity slack w.lst 0 := hf.room 0 (by omega)
  have hcap2 : page / 0x200 < capacity slack w.lst 2 :=
    Nat.lt_of_lt_of_le ht (hf.room 2 (by omega))
  have ht2 := Forest.table_mem hcap2
  have hcap1 : page / 0x40000 < capacity slack w.lst 1 := by omega
  have ht1 := Forest.table_mem hcap1
  have hcap0 : page / 0x8000000 < capacity slack w.lst 0 := by omega
  -- no pointer on the way is null
  have hnz : ∀ k i, k < 4 → i < (w.lst k).length →
      (w.lst k).getD i 0 ≠ 0#64 := by
    intro k i hk hi hz
    have hlow := hf.low k hk _ (getD_mem hi)
    have hz' : (w.lst k).getD i 0 = 0#64 := hz
    rw [hz'] at hlow
    exact absurd hlow (by decide)
  have hlink0 := hf.linked 0 (by omega) _ hcap0
  have hlink1 := hf.linked 1 (by omega) _ hcap1
  have hlink2 := hf.linked 2 (by omega) _ hcap2
  have hs1 : Run.run (step L) z w 1 = page_walk w := by
    show step L (z 0) w = _
    unfold step
    rw [hpc]
  have hw := pageWalk w
  rw [← hs1] at hw
  have hd1 : Down w page 1 (Run.run (step L) z w 1) :=
    ⟨hw.cursors rfl hpage hp, hw.mem, hw.keep⟩
  have hp1 : (Run.run (step L) z w 1).pc = .skip .l1 := by
    have hslot := hd1.cursors.slot 1 rfl (by omega) (by omega)
    rw [hw.pc]
    refine if_neg ?_
    rw [show (Run.run (step L) z w 1).cpu.reg .r13
        = slotAddr (w.lst 0) (page / 0x8000000) from hslot, hlink0]
    exact hnz 1 _ (by omega) (by omega)
  obtain ⟨hd2, hp2⟩ := down_step hd1 (by omega) (by omega) (Or.inl rfl)
    (step_skip1 (L := L) (z 1) hp1) hlink0
  have hne2 : w.cpu.mem.read64 (slotAddr (w.lst 1) (page / span 2)) ≠ 0#64 := by
    show w.cpu.mem.read64 (slotAddr (w.lst 1) (page / 0x40000)) ≠ _
    rw [hlink1]
    exact hnz 2 _ (by omega) (by omega)
  rw [if_neg hne2] at hp2
  obtain ⟨hd3, hp3⟩ := down_step hd2 (by omega) (by omega) (Or.inl rfl)
    (step_skip2 (L := L) (z 2) hp2) hlink1
  have hne3 : w.cpu.mem.read64 (slotAddr (w.lst 2) (page / span 3)) ≠ 0#64 := by
    show w.cpu.mem.read64 (slotAddr (w.lst 2) (page / 0x200)) ≠ _
    rw [hlink2]
    exact hnz 3 _ (by omega) ht
  rw [if_neg hne3] at hp3
  obtain ⟨hd4, hp4⟩ := down_step hd3 (by omega) (by omega)
    (Or.inr ⟨L.dot, rfl⟩) (step_skip3 (L := L) (z 3) hp3) hlink2
  rw [show page / span 4 = page from Nat.div_one page] at hp4
  refine ⟨hd4, hp4, ?_⟩
  intro k hk
  match k, hk with
  | 0, _ => exact fun he => Label.noConfusion (hpc.symm.trans he)
  | 1, _ => exact fun he => Label.noConfusion (hp1.symm.trans he)
  | 2, _ => exact fun he => Label.noConfusion (hp2.symm.trans he)
  | 3, _ => exact fun he => Label.noConfusion (hp3.symm.trans he)

/-- The same from a state of the run, for a page it has walked. -/
theorem Held.walk_again (h : Held m₀ s) {i : Nat}
    {x : BitVec 64 × BitVec 64} (hx : s.frames[i]? = some x)
    (z : Nat → Bool) :
    Down (s.calls x.1) i 4 (Run.run (step L) z (s.calls x.1) 4)
      ∧ ((Run.run (step L) z (s.calls x.1) 4).pc
        = if x.2 = 0#64 then .allocate4 else .skip4)
      ∧ ∀ k < 4, (Run.run (step L) z (s.calls x.1) k).pc ≠ .returned := by
  have hi := (List.getElem?_eq_some_iff.1 hx).1
  have hpage : i = ((s.calls x.1).cpu.reg .r8).toNat / 0x1000 := by
    show i = ((s.cpu.set .r8 x.1).reg .r8).toNat / 0x1000
    rw [Cpu.set_reg_self, h.frame_page hx, Nat.mul_div_cancel_left i (by omega)]
  have hlast : i < 0x140000 := by
    have hlen := h.alloc.counts.frames
    have hp := h.alloc.counts.page
    rw [← length_frames] at hlen
    unfold Alloc.pageCount at hp
    by_cases hd : s.abs.pc = .done
    · rw [if_pos hd] at hp
      rw [hd] at hlen
      change _ = _ + 0 at hlen
      omega
    · rw [if_neg hd] at hp
      have hst : s.abs.pc.stored ≤ 1 := by
        unfold Label.stored
        split <;> decide
      omega
  have hwalk := walk_mapped (L := L) (w := s.calls x.1) h.core.forest rfl
    hpage hlast (h.leaf_table hi) z
  rw [show (s.calls x.1).cpu.mem.read64 (slotAddr ((s.calls x.1).lst 3) i)
    = x.2 from (h.leaf hx).2] at hwalk
  exact hwalk

/-- A frame other than page 0's is not 0. -/
theorem Held.frame_zero (h : Held m₀ s) {x : BitVec 64 × BitVec 64}
    (hx : x ∈ s.frames) : x.2 = 0#64 ↔ x.1 = 0#64 := by
  have hplaced : Alloc.Placed (accepts m₀) (x.1.toNat, x.2.toNat) :=
    h.alloc.frames.placed _ (List.mem_map.2 ⟨x, hx, rfl⟩)
  unfold Alloc.Placed at hplaced
  rw [← BitVec.toNat_inj, ← BitVec.toNat_inj]
  simp only [BitVec.toNat_ofNat, Nat.zero_mod] at hplaced ⊢
  split at hplaced <;> omega

/-- A page that is not page 0 is walked again without a trace. -/
theorem walks_idle (h : Held m₀ s) {x : BitVec 64 × BitVec 64}
    (hx : x ∈ s.frames) (hne : x.1 ≠ 0#64) : WalksIdle L s x.1 := by
  intro z
  obtain ⟨i, hi⟩ := List.getElem?_of_mem hx
  obtain ⟨hd, hpc, hbefore⟩ := h.walk_again (L := L) hi z
  rw [if_neg fun hz => hne ((h.frame_zero hx).1 hz)] at hpc
  have hlast : Run.run (step L) z (s.calls x.1) 5
      = skip4 (Run.run (step L) z (s.calls x.1) 4) := by
    show step L (z 4) (Run.run (step L) z (s.calls x.1) 4) = _
    generalize Run.run (step L) z (s.calls x.1) 4 = u at hpc
    unfold step
    rw [hpc]
  refine ⟨5, ⟨?_, ?_⟩, ?_, ?_, ?_⟩
  · rw [hlast]
    rfl
  · intro k hk
    rcases Nat.lt_or_ge k 4 with hlt | hge
    · exact hbefore k hlt
    · obtain rfl : k = 4 := by omega
      rw [hpc]
      exact Label.noConfusion
  · rw [hlast]
    exact hd.keep .rbx (by simp)
  · rw [hlast]
    exact hd.keep .rcx (by simp)
  · intro p _ j _
    rw [hlast]
    exact congrArg (fun m => Mem.read64 m _) hd.mem

-- ================================================================= page 0

/-- The second walk of page 0 past its null leaf, at `a`, with RBX `b` at
its start: nothing stored yet, or a frame stored and RBX past it. The last
condition rules out that RBX comes round to where it was. -/
inductive Inner (a b : BitVec 64) (t : Boot) : Prop
  | searching (hpc : t.pc = .allocate4 ∨ t.pc = .adjust_then_call4
        ∨ t.pc = .approve_allocate4)
      (hslot : t.cpu.reg .r10 = a) (hstack : StackOk t.cpu)
      (hlow : b = 0x1000#64 →
        t.cpu.reg .rbx = b ∧ t.pc ≠ .adjust_then_call4)
  | stored (hpc : t.pc = .skip4 ∨ t.pc = .returned)
      (hentry : t.cpu.mem.read64 a + 0x1000#64 = t.cpu.reg .rbx)
      (hlow : b = 0x1000#64 → t.cpu.reg .rbx = 0x2000#64)

variable {a b : BitVec 64}

/-- Print, and compare RBX with 0x200000. -/
theorem Inner.allocate4 (hslot : t.cpu.reg .r10 = a) (hstack : StackOk t.cpu)
    (hlow : b = 0x1000#64 → t.cpu.reg .rbx = b) :
    Inner a b (allocate4 L t) := by
  have hroom := message_room (L := L) (a := L.pte_msg) (by simp)
  have hlen : pte_msg.length ≤ 20 := by decide
  have hq := video_print_quiet (L := L) (c := t.cpu.set .rsi L.pte_msg)
    hstack pte_msg (by omega) (by show L.pte_msg.toNat + _ ≤ _; omega)
  have ht : BootLoader.ThirdStage.allocate4 L t = { t with
      cpu := (video_print L pte_msg (t.cpu.set .rsi L.pte_msg)).set .r14
        ((video_print L pte_msg (t.cpu.set .rsi L.pte_msg)).reg .rbx)
      pc := if ((video_print L pte_msg (t.cpu.set .rsi L.pte_msg)).reg
          .rbx).slt 0x200000#64 then .approve_allocate4
        else if (video_print L pte_msg (t.cpu.set .rsi L.pte_msg)).reg .rbx
          = 0x200000#64 then .approve_allocate4
        else .adjust_then_call4 } := rfl
  rw [ht]
  generalize video_print L pte_msg (t.cpu.set .rsi L.pte_msg) = d at hq
  have hreg : ∀ r, r ≠ .rsi → d.reg r = t.cpu.reg r := by
    intro r hr
    rw [hq.reg, Cpu.set_reg_of_ne hr]
  refine .searching ?_ ?_ ?_ ?_
  · dsimp only
    split
    · exact Or.inr (Or.inr rfl)
    · split
      · exact Or.inr (Or.inr rfl)
      · exact Or.inr (Or.inl rfl)
  · exact (hreg .r10 (by decide)).trans hslot
  · show 0x5100 ≤ (d.reg .rsp).toNat ∧ (d.reg .rsp).toNat ≤ 0x10000
    rw [hreg .rsp (by decide)]
    exact hstack
  · intro hb
    have hrbx := (hreg .rbx (by decide)).trans (hlow hb)
    refine ⟨hrbx, ?_⟩
    dsimp only
    rw [hrbx, hb]
    decide

/-- A page on, and ask. -/
theorem Inner.adjust (hslot : t.cpu.reg .r10 = a) (hstack : StackOk t.cpu)
    (hne : b ≠ 0x1000#64) : Inner a b (adjust_then_call4 L t) := by
  have hs : StackOk ((t.cpu.set .rbx (t.cpu.reg .rbx + 0x1000#64)).set .r14
      (t.cpu.reg .rbx + 0x1000#64)) := hstack
  obtain ⟨hq, -⟩ := loop_over_mem_regions_spec (L := L) hs
  have ht : adjust_then_call4 L t = { t with
      cpu := (loop_over_mem_regions L ((t.cpu.set .rbx
        (t.cpu.reg .rbx + 0x1000#64)).set .r14
          (t.cpu.reg .rbx + 0x1000#64))).reads L.flag 1
      pc := if (loop_over_mem_regions L ((t.cpu.set .rbx
        (t.cpu.reg .rbx + 0x1000#64)).set .r14
          (t.cpu.reg .rbx + 0x1000#64))).mem L.flag = 1#8
        then .approve_allocate4 else .adjust_then_call4 } := by
    unfold adjust_then_call4 adjust_then_call
    simp only [Cpu.set_reg_self, Cpu.reads_mem]
  rw [ht]
  generalize loop_over_mem_regions L _ = d at hq
  refine .searching ?_ ?_ ?_ fun hb => absurd hb hne
  · dsimp only
    split
    · exact Or.inr (Or.inr rfl)
    · exact Or.inr (Or.inl rfl)
  · exact (congrFun hq.reg .r10).trans hslot
  · show 0x5100 ≤ (d.reg .rsp).toNat ∧ (d.reg .rsp).toNat ≤ 0x10000
    rw [show d.reg .rsp = t.cpu.reg .rsp from congrFun hq.reg .rsp]
    exact hstack

/-- The store. -/
theorem Inner.approve (hslot : t.cpu.reg .r10 = a)
    (hlow : b = 0x1000#64 → t.cpu.reg .rbx = b) :
    Inner a b (approve_allocate4 t) := by
  have hreg : (approve_allocate4 t).cpu.reg .rbx
      = t.cpu.reg .rbx + 0x1000#64 := rfl
  refine .stored (Or.inl rfl) ?_ ?_
  · rw [hreg]
    refine congrArg (· + 0x1000#64) ?_
    show (t.cpu.mem.write64 (t.cpu.reg .r10) (t.cpu.reg .rbx)).read64 a = _
    rw [hslot]
    exact Mem.read64_write64_self _ _ _
  · intro hb
    rw [hreg, hlow hb, hb]
    decide

theorem Inner.step (h : Inner a b t) (hpc : t.pc ≠ .returned) :
    Inner a b (step L zf t) := by
  unfold BootLoader.ThirdStage.step
  cases h with
  | searching hlabel hslot hstack hlow =>
      rcases hlabel with hl | hl | hl
      · rw [hl]
        exact Inner.allocate4 hslot hstack fun hb => (hlow hb).1
      · rw [hl]
        exact Inner.adjust hslot hstack fun hb => (hlow hb).2 hl
      · rw [hl]
        exact Inner.approve hslot fun hb => (hlow hb).1
  | stored hlabel hentry hlow =>
      rw [hlabel.resolve_right hpc]
      exact .stored (Or.inr rfl) hentry hlow

/-- Up to the return. -/
theorem Inner.run (h : Inner a b t) (z : Nat → Bool) : ∀ n : Nat,
    (∀ k < n, (Run.run (BootLoader.ThirdStage.step L) z t k).pc ≠ .returned) →
    Inner a b (Run.run (BootLoader.ThirdStage.step L) z t n) := by
  intro n
  induction n with
  | zero => exact fun _ => h
  | succ n ih =>
      intro hno
      exact (ih fun k hk => hno k (by omega)).step (hno n (Nat.lt_succ_self n))

/-- Page 0 is not walked again idly. -/
theorem not_walks_idle (h : Held m₀ s) {x : BitVec 64 × BitVec 64}
    (hx : x ∈ s.frames) (hzero : x.1 = 0#64) : ¬ WalksIdle L s x.1 := by
  intro hidle
  obtain ⟨i, hi⟩ := List.getElem?_of_mem hx
  obtain ⟨hd, hpc, hbefore⟩ := h.walk_again (L := L) hi fun _ => false
  have hframe := (h.frame_zero hx).2 hzero
  rw [if_pos hframe] at hpc
  obtain ⟨n, ⟨hback, hfirst⟩, hrbx, -, hkept⟩ := hidle fun _ => false
  -- the call is not back before `allocate4`
  have hn : ∃ k, n = 4 + k := by
    refine ⟨n - 4, ?_⟩
    have hge : ¬ n < 4 := fun hlt => hbefore n hlt hback
    omega
  obtain ⟨k, rfl⟩ := hn
  have hslot : slotAddr (s.lst 3) i = slotAddr (s.lst 3) (i / span 4) := by
    rw [show i / span 4 = i from Nat.div_one i]
  have hstart : Inner (slotAddr (s.lst 3) i) (s.cpu.reg .rbx)
      (Run.run (step L) (fun _ => false) (s.calls x.1) 4) := by
    refine .searching (Or.inl hpc) ?_ ?_ fun _ => ⟨hd.keep .rbx (by simp), ?_⟩
    · rw [hslot]
      exact hd.cursors.slot 4 rfl (by omega) (by omega)
    · unfold StackOk
      rw [hd.keep .rsp (by simp)]
      exact h.core.stack
    · rw [hpc]
      exact Label.noConfusion
  have hend := hstart.run (L := L) (fun _ => false) k fun j hj => by
    rw [← Run.run_add (step L) (fun _ => false) (s.calls x.1) 4 j]
    exact hfirst (4 + j) (by omega)
  rw [← Run.run_add (step L) (fun _ => false) (s.calls x.1) 4 k] at hend
  have hentry : (Run.run (step L) (fun _ => false) (s.calls x.1)
      (4 + k)).cpu.mem.read64 (slotAddr (s.lst 3) i) = 0#64 := by
    have htable := getD_mem (h.leaf_table (List.getElem?_eq_some_iff.1 hi).1)
    have hsame := hkept _ (List.mem_cons_of_mem _ (List.mem_map.2
      ⟨_, mem_lst_num (k := .l3).1 htable, rfl⟩)) (i % 512)
      (Nat.mod_lt i (by omega))
    exact hsame.trans ((h.leaf hi).2.trans hframe)
  cases hend with
  | searching hlabel _ _ _ =>
      rw [hback] at hlabel
      rcases hlabel with hl | hl | hl
      · cases hl
      · cases hl
      · cases hl
  | stored _ hstored hlow =>
      rw [hentry, hrbx] at hstored
      have hb : s.cpu.reg .rbx = 0x1000#64 := hstored.symm
      have h2 := hlow hb
      rw [hrbx, hb] at h2
      exact absurd h2 (by decide)

/-- A second walk of a page leaves tables and allocators alone exactly
where the page is not page 0. -/
theorem page_walk_idle_iff (hs : StackOk c) (hr : Reached L c s)
    (hv : v ∈ s.frames.map Prod.fst) : WalksIdle L s v ↔ v ≠ 0#64 := by
  have h := Reached.held hs hr
  obtain ⟨x, hx, rfl⟩ := List.mem_map.1 hv
  constructor
  · exact fun hidle hzero => not_walks_idle h hx hzero hidle
  · exact fun hne => walks_idle h hx hne

-- =============================================================== a sample

/-- Pages 0 and 1 in a finished run. -/
theorem walked_wideMap : ∃ s, Reached L (checkCpu wideMap 0#64) s
    ∧ 0#64 ∈ s.frames.map Prod.fst ∧ 0x1000#64 ∈ s.frames.map Prod.fst := by
  have hs := stackOk_checkCpu wideMap 0#64
  obtain ⟨n, hdone, hr⟩ := done_wideMap (L := L) fun _ => false
  have h := Reached.held hs hr
  have hlen : (bigRun L (checkCpu wideMap 0#64) (fun _ => false)
      n).frames.length = 0x140000 := by
    rw [length_frames]
    exact (h.alloc.counts.done_length hdone).2
  refine ⟨_, hr, ?_, ?_⟩
  · have hget := List.getElem?_eq_getElem (l := (bigRun L
      (checkCpu wideMap 0#64) (fun _ => false) n).frames) (i := 0) (by omega)
    refine List.mem_map.2 ⟨_, List.mem_of_getElem? hget, ?_⟩
    exact BitVec.eq_of_toNat_eq (h.frame_page hget)
  · have hget := List.getElem?_eq_getElem (l := (bigRun L
      (checkCpu wideMap 0#64) (fun _ => false) n).frames) (i := 1) (by omega)
    refine List.mem_map.2 ⟨_, List.mem_of_getElem? hget, ?_⟩
    exact BitVec.eq_of_toNat_eq (h.frame_page hget)

theorem page_walk_idle_iff_wideMap : ∃ s,
    Reached assembledLayout (checkCpu wideMap 0#64) s
      ∧ (WalksIdle assembledLayout s 0x1000#64 ↔ 0x1000#64 ≠ 0#64) := by
  obtain ⟨s, hr, -, h1⟩ := walked_wideMap (L := assembledLayout)
  exact ⟨s, hr, page_walk_idle_iff (stackOk_checkCpu wideMap 0#64) hr h1⟩

/-- On 1 TiB of usable memory a second walk of page 0 shows. -/
theorem page_zero_walks_again : ¬ ∀ (L : Layout) (c : Cpu) (s : Boot)
    (v : BitVec 64), StackOk c → Reached L c s →
    v ∈ s.frames.map Prod.fst → WalksIdle L s v := by
  intro hall
  have hs := stackOk_checkCpu wideMap 0#64
  obtain ⟨s, hr, h0, -⟩ := walked_wideMap (L := assembledLayout)
  obtain ⟨x, hx, hzero⟩ := List.mem_map.1 h0
  refine not_walks_idle (L := assembledLayout) (Reached.held hs hr) hx hzero ?_
  rw [hzero]
  exact hall _ _ s _ hs hr h0

end BootLoader.ThirdStage
