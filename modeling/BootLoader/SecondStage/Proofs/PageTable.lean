/-
The page tables of the second stage map the first two megabytes to
themselves, and nothing else.

The four tables lie one after the other from 1000h, so they are one table
of 2048 entries, `pageTables`: the first entries of the first three lead to
the next, and the fourth fills up one entry a round. The string store and
every `mov` is a flat write there, and `Filled` says what the routine has
done so far: the entries written, and no byte outside the tables changed.
What the walk makes of the finished entries is arithmetic on the address
(`walk_pageTables`).

Nothing is asked of the stack: even where it lies in the tables, it is
written before they are.
-/
import BootLoader.Lib.Paging
import BootLoader.SecondStage.PageTable

namespace BootLoader.SecondStage

open FlatMemory Segment Paging RealMode Pc

variable {ω : Type _} {c d : Pc ω} {f : Nat → BitVec 64}

-- ========================================================== the entries

/-- The entries with `k` pages mapped. -/
def pageTables (k : Nat) (i : Nat) : BitVec 64 :=
  if i = 0 then 0x2003#64
  else if i = 512 then 0x3003#64
  else if i = 1024 then 0x4003#64
  else if 1536 ≤ i ∧ i < 1536 + k then BitVec.ofNat 64 (4096 * (i - 1536) + 3)
  else 0#64

/-- An entry that is not the first of its table is empty, above the last
level. -/
theorem pageTables_empty {k i : Nat} (hi : i < 1536) (h : i % 512 ≠ 0) :
    pageTables k i = 0#64 := by
  unfold pageTables
  rw [if_neg (by omega), if_neg (by omega), if_neg (by omega),
    if_neg (by omega)]

theorem pageTables_page {k i : Nat} (hi : i < k) :
    pageTables k (1536 + i) = BitVec.ofNat 64 (4096 * i + 3) := by
  unfold pageTables
  rw [if_neg (by omega), if_neg (by omega), if_neg (by omega),
    if_pos (by omega), Nat.add_sub_cancel_left]

/-- One page more. -/
theorem pageTables_succ (k i : Nat) : pageTables (k + 1) i
    = if i = 1536 + k then BitVec.ofNat 64 (4096 * k + 3)
      else pageTables k i := by
  by_cases hi : i = 1536 + k
  · rw [hi, pageTables_page (Nat.lt_succ_self k), if_pos rfl]
  · rw [if_neg hi]
    unfold pageTables
    have hcond : (1536 ≤ i ∧ i < 1536 + (k + 1))
        ↔ (1536 ≤ i ∧ i < 1536 + k) := by omega
    simp only [hcond]

/-- The last level: the page the entry names is the page of `v`. -/
theorem walk_page {m : Mem} {v base : BitVec 64} (hv : v.toNat < 0x200000)
    (he : m.read64 (base + 8#64 * levelIndex v 0)
      = pageTables 512 (1536 + v.toNat / 2 ^ (12 + 9 * 0) % 512)) :
    walkFrom m v 1 base = .mapped v := by
  have hidx : v.toNat / 2 ^ (12 + 9 * 0) % 512 = v.toNat / 4096 := by
    show v.toNat / 4096 % 512 = _
    omega
  rw [hidx, pageTables_page (by omega)] at he
  have hentry : (BitVec.ofNat 64 (4096 * (v.toNat / 4096) + 3)).toNat
      = 4096 * (v.toNat / 4096) + 3 := by
    rw [BitVec.toNat_ofNat]
    omega
  obtain ⟨hp, hw, hbase⟩ := tagged_entry
    (p := BitVec.ofNat 64 (4096 * (v.toNat / 4096) + 3)) (by omega) (by omega)
  rw [walkFrom_through he hp hw, hbase]
  refine congrArg Translation.mapped (BitVec.eq_of_toNat_eq ?_)
  have hthree : (3#64).toNat = 3 := rfl
  rw [BitVec.toNat_add, BitVec.toNat_sub, pageOffset_toNat, hentry, hthree]
  omega

/-- An upper level, away from index 0. -/
theorem walk_empty {m : Mem} {v base : BitVec 64} {s l k : Nat}
    (he : m.read64 (base + 8#64 * levelIndex v l) = pageTables k (s + v.toNat
      / 2 ^ (12 + 9 * l) % 512))
    (hs : s + 512 ≤ 1536) (hs0 : s % 512 = 0)
    (hidx : v.toNat / 2 ^ (12 + 9 * l) % 512 ≠ 0) :
    walkFrom m v (l + 1) base = .notPresent := by
  refine walkFrom_absent ?_
  rw [he, pageTables_empty (by omega) (by omega)]
  decide

/-- The walk through the finished tables. -/
theorem walk_pageTables {m : Mem} (h : Table m 0x1000#64 2048 (pageTables 512))
    {v : BitVec 64} (hv : v.toNat < 2 ^ 48) :
    walk m 0x1000#64 v
      = if v.toNat < 0x200000 then .mapped v else .notPresent := by
  have hroot : tableBase 0x1000#64 = 0x1000#64 + BitVec.ofNat 64 (8 * 0) := by
    decide
  have h3 := h.entry (s := 0) (by omega) v 3
  have h2 := h.entry (s := 512) (by omega) v 2
  have h1 := h.entry (s := 1024) (by omega) v 1
  have h0 := h.entry (s := 1536) (by omega) v 0
  have hlevels : v.toNat / 2 ^ (12 + 9 * 3) % 512 = v.toNat / 549755813888 % 512
      ∧ v.toNat / 2 ^ (12 + 9 * 2) % 512 = v.toNat / 1073741824 % 512
      ∧ v.toNat / 2 ^ (12 + 9 * 1) % 512 = v.toNat / 2097152 % 512 :=
    ⟨rfl, rfl, rfl⟩
  obtain ⟨hl3, hl2, hl1⟩ := hlevels
  unfold walk
  rw [hroot]
  -- the three upper levels go through index 0 only
  by_cases hi3 : v.toNat / 2 ^ (12 + 9 * 3) % 512 = 0
  · rw [walkFrom_through (e := 0x2003#64) (by rw [h3, hi3]; rfl) rfl rfl,
      show tableBase 0x2003#64 = 0x1000#64 + BitVec.ofNat 64 (8 * 512) by
        decide]
    by_cases hi2 : v.toNat / 2 ^ (12 + 9 * 2) % 512 = 0
    · rw [walkFrom_through (e := 0x3003#64) (by rw [h2, hi2]; rfl) rfl rfl,
        show tableBase 0x3003#64 = 0x1000#64 + BitVec.ofNat 64 (8 * 1024) by
          decide]
      by_cases hi1 : v.toNat / 2 ^ (12 + 9 * 1) % 512 = 0
      · rw [walkFrom_through (e := 0x4003#64) (by rw [h1, hi1]; rfl) rfl rfl,
          show tableBase 0x4003#64 = 0x1000#64 + BitVec.ofNat 64 (8 * 1536) by
            decide]
        have hlow : v.toNat < 0x200000 := by omega
        rw [walk_page hlow h0, if_pos hlow]
      · rw [walk_empty h1 (by omega) rfl hi1, if_neg (by omega)]
    · rw [walk_empty h2 (by omega) rfl hi2, if_neg (by omega)]
  · rw [walk_empty h3 (by omega) rfl hi3, if_neg (by omega)]

-- ======================================================== the writes

/-- The routine at slot `j` of the tables, with the entries `f` so far:
nothing outside the tables has changed since `c`. -/
structure Filled (c : Pc ω) (f : Nat → BitVec 64) (j : Nat) (d : Pc ω) :
    Prop where
  es : d.seg .es = 0#16
  di : d.reg .di = BitVec.ofNat 16 (0x1000 + 8 * j)
  table : Table d.mem 0x1000#64 2048 f
  out : ∀ b : BitVec 64, b.toNat < 0x1000 ∨ 0x5000 ≤ b.toNat →
    d.mem b = c.mem b

namespace Filled

variable {j : Nat}

theorem congr {g : Nat → BitVec 64} (h : Filled c f j d)
    (hg : ∀ i < 2048, g i = f i) : Filled c g j d :=
  ⟨h.es, h.di, h.table.congr hg, h.out⟩

theorem setWide (h : Filled c f j d) (v : BitVec 32) :
    Filled c f j (d.setWide .ax v) :=
  ⟨h.es, h.di, h.table, h.out⟩

/-- `add di, 8 * k`. -/
theorem move (h : Filled c f j d) (k : Nat) :
    Filled c f (j + k) (d.set .di (d.reg .di + BitVec.ofNat 16 (8 * k))) := by
  refine ⟨h.es, ?_, h.table, h.out⟩
  show d.reg .di + _ = _
  rw [h.di, ← BitVec.ofNat_add]
  congr 1
  omega

/-- `mov [es:di], eax`, at an empty entry. -/
theorem put (h : Filled c f j d) (hj : j < 2048) (hz : f j = 0#64) :
    Filled c (fun i => if i = j then (d.wide .ax).setWidth 64 else f i) j
      (d.put32 .es (d.reg .di) (d.wide .ax)) := by
  have hdi : (d.reg .di).toNat = 0x1000 + 8 * j := by
    rw [h.di, BitVec.toNat_ofNat]
    omega
  have haddr : linear (0#16) (d.reg .di)
      = 0x1000#64 + BitVec.ofNat 64 (8 * j) := by
    apply BitVec.eq_of_toNat_eq
    rw [linear_toNat, hdi, BitVec.toNat_add]
    simp only [BitVec.toNat_ofNat]
    omega
  have hmem : (d.put32 .es (d.reg .di) (d.wide .ax)).mem
      = d.mem.write32 (0x1000#64 + BitVec.ofNat 64 (8 * j)) (d.wide .ax) := by
    rw [put32_mem, h.es, ← haddr]
    exact store_eq_write (n := 4) _ _ _ _ (by omega)
  refine ⟨h.es, h.di, ?_, fun b hb => ?_⟩
  · rw [hmem]
    exact h.table.write32 (by decide) hj hz _
  · rw [hmem]
    refine (Mem.write_apply_of_out (n := 4) _ _ ?_ ?_).trans (h.out b hb)
    · simp only [BitVec.toNat_add, BitVec.toNat_ofNat]
      omega
    · simp only [BitVec.toNat_add, BitVec.toNat_ofNat]
      omega

/-- An entry that leads to the page after its table. -/
theorem link (h : Filled c f j d) (hj : j < 2048) (hz : f j = 0#64)
    {e : BitVec 32} (he : (BitVec.ofNat 16 (0x1000 + 8 * j)
      + MEM_PAGE_4K).setWidth 32 ||| PAGE_PRESENT_WRITE = e) :
    Filled c (fun i => if i = j then e.setWidth 64 else f i) j
      (link_next d) := by
  obtain ⟨s, hs⟩ : ∃ s, (d.setWide .ax ((d.reg .di
      + MEM_PAGE_4K).setWidth 32)).setWide .ax ((d.setWide .ax ((d.reg .di
        + MEM_PAGE_4K).setWidth 32)).wide .ax ||| PAGE_PRESENT_WRITE) = s :=
    ⟨_, rfl⟩
  have hfilled : Filled c f j s := hs ▸ (h.setWide _).setWide _
  have hax : s.wide .ax = e := by
    rw [← hs, wide_setWide, wide_setWide, h.di]
    exact he
  have hrun : link_next d = s.put32 .es (s.reg .di) (s.wide .ax) := by
    rw [← hs]
    rfl
  rw [hrun, ← hax]
  exact hfilled.put hj hz

end Filled

-- ====================================================== the routine

/-- After `k` stores of zero. -/
structure Cleared (c : Pc ω) (k : Nat) (d : Pc ω) : Prop where
  es : d.seg .es = 0#16
  di : d.reg .di = BitVec.ofNat 16 (0x1000 + 4 * k)
  ax : d.wide .ax = 0#32
  mem : ∀ b : BitVec 64, 0x1000 ≤ b.toNat → b.toNat < 0x1000 + 4 * k →
    d.mem b = 0#8
  out : ∀ b : BitVec 64, b.toNat < 0x1000 ∨ 0x1000 + 4 * k ≤ b.toNat →
    d.mem b = c.mem b

theorem Cleared.stosd {k : Nat} (h : Cleared c k d) (hk : k < 0x1000) :
    Cleared c (k + 1) (stosd d) := by
  have hdi : (d.reg .di).toNat = 0x1000 + 4 * k := by
    rw [h.di, BitVec.toNat_ofNat]
    omega
  have hmem : (SecondStage.stosd d).mem
      = d.mem.write (linear 0#16 (d.reg .di)) 4 0#32 := by
    show store d.mem (d.seg .es) (d.reg .di) 4 (d.wide .ax) = _
    rw [h.es, h.ax]
    exact store_eq_write (n := 4) _ _ _ _ (by omega)
  have haddr : (linear 0#16 (d.reg .di)).toNat = 0x1000 + 4 * k := by
    rw [linear_toNat, hdi]
    show 16 * 0 + _ = _
    omega
  refine ⟨h.es, ?_, ?_, fun b h1 h2 => ?_, fun b hb => ?_⟩
  · show d.reg .di + BitVec.ofNat 16 4 = _
    rw [h.di, ← BitVec.ofNat_add]
    rfl
  · exact (wide_eq rfl rfl).trans h.ax
  · rw [hmem]
    by_cases hnew : 0x1000 + 4 * k ≤ b.toNat
    · exact Mem.write_zero (n := 4) _ (by omega) (by omega) (by omega)
    · rw [Mem.write_apply_of_out (n := 4) _ _ (by omega) (by omega)]
      exact h.mem b h1 (by omega)
  · rw [hmem, Mem.write_apply_of_out (n := 4) _ _ (by omega) (by omega)]
    exact h.out b (by omega)

/-- The string store clears the four tables. -/
theorem rep_stosd_spec (hes : c.seg .es = 0#16) (hdi : c.reg .di = 0x1000#16)
    (hax : c.wide .ax = 0#32) (hcx : c.reg .cx = 0x1000#16) :
    Filled c (fun _ => 0#64) 0
      ((rep_stosd c).setWide .di PAGE_TABLE_BASE_OFFSET) := by
  have hstart : Cleared c 0 c := ⟨hes, hdi, hax,
    fun b h1 h2 => absurd h1 (by omega), fun _ _ => rfl⟩
  have hend : Cleared c 0x1000 (Loop.times stosd (c.reg .cx).toNat c) := by
    rw [hcx]
    exact Loop.times_counted (Cleared c) (fun k s hk hs => hs.stosd hk) hstart
  refine ⟨hend.es, rfl, ?_, hend.out⟩
  exact Table.zero (by decide) fun b h1 h2 => hend.mem b h1 h2

theorem pte_slt {k : Nat} (hk : k ≤ 512) :
    (BitVec.ofNat 32 (4096 * k + 3)).slt 0x200000#32 = decide (k < 512) := by
  have hn : (BitVec.ofNat 32 (4096 * k + 3)).toNat = 4096 * k + 3 := by
    rw [BitVec.toNat_ofNat]
    omega
  have hbound : (0x200000#32).toInt = 0x200000 := by decide
  rw [BitVec.slt_eq_decide, hbound, BitVec.toInt_eq_toNat_cond, hn,
    if_pos (by omega), decide_eq_decide]
  omega

/-- After `k` rounds of the loop. -/
structure Filling (c : Pc ω) (k : Nat) (d : Pc ω) : Prop where
  filled : Filled c (pageTables k) (1536 + k) d
  ax : d.wide .ax = BitVec.ofNat 32 (4096 * k + 3)

theorem Filling.round {k : Nat} (h : Filling c k d) (hk : k < 512) :
    Filling c (k + 1) (pte_round d) := by
  have hempty : pageTables k (1536 + k) = 0#64 := by
    unfold pageTables
    rw [if_neg (by omega), if_neg (by omega), if_neg (by omega),
      if_neg (by omega)]
  have hput := ((h.filled.put (by omega) hempty).setWide
    (d.wide .ax + MEM_PAGE_4K.setWidth 32)).move 1
  refine ⟨Filled.congr hput fun i _ => ?_, ?_⟩
  · rw [pageTables_succ, h.ax]
    by_cases hi : i = 1536 + k
    · rw [if_pos hi, if_pos hi]
      apply BitVec.eq_of_toNat_eq
      simp only [BitVec.toNat_setWidth, BitVec.toNat_ofNat]
      omega
    · rw [if_neg hi, if_neg hi]
  · have hwide : (pte_round d).wide .ax
        = d.wide .ax + MEM_PAGE_4K.setWidth 32 :=
      wide_setWide (d.put32 .es (d.reg .di) (d.wide .ax)) .ax _
    have hpage : MEM_PAGE_4K.setWidth 32 = BitVec.ofNat 32 4096 := by decide
    rw [hwide, h.ax, hpage, ← BitVec.ofNat_add]
    rfl

/-- The loop fills the last table. -/
theorem pte_loop_spec {fuel : Nat} (hfuel : 512 ≤ fuel)
    (h : Filled c (pageTables 0) 1536 d) (hax : d.wide .ax = 0x3#32) :
    ∃ e, pte_loop fuel d = .ok e ∧ Filled c (pageTables 512) 2048 e := by
  obtain ⟨e, he, hend⟩ : ∃ e, pte_loop fuel d = .ok e
      ∧ Filling c 512 e := by
    refine Loop.attempt_counted (Filling c) (by decide) ?_ ?_ ?_ hfuel
      ⟨h, hax⟩
    · exact fun k s hk hs => ⟨pte_round s, rfl, hs.round hk⟩
    · intro k s _ hk hs
      rw [hs.ax, pte_slt (Nat.le_of_lt hk)]
      exact decide_eq_true hk
    · intro s hs
      rw [hs.ax, pte_slt (Nat.le_refl 512)]
      rfl
  exact ⟨e, he, hend.filled⟩

/-- The routine between the string store and the loop. -/
def linked (d : Pc ω) : Pc ω :=
  let d := link_next d
  let d := d.set .di (d.reg .di + MEM_PAGE_4K)
  let d := link_next d
  let d := d.set .di (d.reg .di + MEM_PAGE_4K)
  let d := link_next d
  let d := d.set .di (d.reg .di + MEM_PAGE_4K)
  d.setWide .ax PAGE_PRESENT_WRITE

/-- The first entries of the three upper tables. -/
theorem linked_spec (h : Filled c (fun _ => 0#64) 0 d) :
    Filled c (pageTables 0) 1536 (linked d) := by
  have h1 := (h.link (by decide) rfl (e := 0x2003#32) (by decide)).move 512
  have h2 := (h1.link (by decide) rfl (e := 0x3003#32) (by decide)).move 512
  have h3 := ((h2.link (by decide) rfl (e := 0x4003#32)
    (by decide)).move 512).setWide PAGE_PRESENT_WRITE
  refine Filled.congr h3 fun i _ => ?_
  unfold pageTables
  by_cases hi0 : i = 0
  · rw [hi0]
    rfl
  · by_cases hi1 : i = 512
    · rw [hi1]
      rfl
    · by_cases hi2 : i = 1024
      · rw [hi2]
        rfl
      · simp only [hi0, hi1, hi2, if_false]
        exact if_neg (by omega)

/-- `build_page_table`, run to its end. -/
theorem build_page_table_spec {fuel : Nat} (hfuel : 512 ≤ fuel) (c : Pc ω) :
    ∃ d, build_page_table fuel c = .ok d
      ∧ Table d.mem 0x1000#64 2048 (pageTables 512)
      ∧ ∀ b : BitVec 64, b.toNat < 0x1000 ∨ 0x5000 ≤ b.toNat →
        d.mem b = c.pusha.mem b := by
  obtain ⟨t, ht⟩ : ∃ t, c.pusha.set .ax PAGE_TABLE_BASE_ADDRESS = t :=
    ⟨_, rfl⟩
  obtain ⟨s, hs⟩ : ∃ s, ((((t.setSeg .es (t.reg .ax)).setWide .ax
      0#32).setWide .di PAGE_TABLE_BASE_OFFSET).setWide .cx 0x1000#32).setWide
        .ax 0#32 = s := ⟨_, rfl⟩
  have hrun : build_page_table fuel c
      = (pte_loop fuel (linked ((rep_stosd s).setWide .di
          PAGE_TABLE_BASE_OFFSET)) >>= fun d => .ok d.popa.ret) := by
    rw [← hs, ← ht]
    rfl
  have hclear : Filled s (fun _ => 0#64) 0
      ((rep_stosd s).setWide .di PAGE_TABLE_BASE_OFFSET) := by
    refine rep_stosd_spec ?_ ?_ ?_ ?_
    · rw [← hs, ← ht]
      rfl
    · rw [← hs]
      rfl
    · rw [← hs]
      exact wide_setWide _ _ _
    · rw [← hs]
      rfl
  have hsmem : s.mem = c.pusha.mem := by
    rw [← hs, ← ht]
    rfl
  obtain ⟨e, he, hend⟩ := pte_loop_spec hfuel (linked_spec hclear)
    (wide_setWide _ _ _)
  refine ⟨e.popa.ret, ?_, hend.table, fun b hb => ?_⟩
  · rw [hrun, he]
    rfl
  · rw [← hsmem]
    exact hend.out b hb

/-- The identity map of the second stage: whatever was in memory, the walk
from CR3 = 1000h takes every address below 200000h to itself, present and
writable at every level, and stops at a clear present bit for every other
one; and outside the tables only the 16 bytes of stack below SP have
changed. -/
theorem build_page_table_identity {fuel : Nat} (hfuel : 512 ≤ fuel)
    (c : Pc ω) :
    ∃ d, build_page_table fuel c = .ok d
      ∧ (∀ v : BitVec 48, walk d.mem 0x1000#64 (v.setWidth 64)
        = if v.toNat < 0x200000 then .mapped (v.setWidth 64) else .notPresent)
      ∧ ∀ b : BitVec 64, b.toNat < 0x1000 ∨ 0x5000 ≤ b.toNat →
        ¬ Under (c.seg .ss) (c.reg .sp) 16 b → d.mem b = c.mem b := by
  obtain ⟨d, hd, htable, hout⟩ := build_page_table_spec hfuel c
  refine ⟨d, hd, fun v => ?_, fun b hb hunder => ?_⟩
  · have hv : (v.setWidth 64).toNat = v.toNat := by
      have hlt := v.isLt
      rw [BitVec.toNat_setWidth]
      omega
    rw [walk_pageTables htable (by rw [hv]; exact v.isLt), hv]
  · exact (hout b hb).trans (c.pusha_mem hunder)

/-- A machine with every byte of memory set, and its stack at B000h. -/
def tablePc : Pc Unit where
  reg := fun r => if r = .sp then 0xB000#16 else 0xFFFF#16
  high := fun _ => 0xFFFF#16
  seg := fun _ => 0#16
  carry := false
  eflags := 0#32
  ip := 0#16
  mem := fun _ => 0xFF#8
  loads := []
  issued := []
  bios := ()

theorem build_page_table_identity_sample :
    ∃ d, build_page_table 512 tablePc = .ok d
      ∧ (∀ v : BitVec 48, walk d.mem 0x1000#64 (v.setWidth 64)
        = if v.toNat < 0x200000 then .mapped (v.setWidth 64) else .notPresent)
      ∧ ∀ b : BitVec 64, b.toNat < 0x1000 ∨ 0x5000 ≤ b.toNat →
        ¬ Under 0#16 0xB000#16 16 b → d.mem b = 0xFF#8 :=
  build_page_table_identity (Nat.le_refl 512) tablePc

end BootLoader.SecondStage
