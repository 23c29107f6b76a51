/-
The page tables as the hardware reads them.

The code stores a table's pointer with the two flag bits in it, and then
walks through that pointer as it is: the table it fills starts three bytes
into the page it cleared. The hardware takes bits 51:12 of the entry and
looks at the start of the page. So below the root the two read different
bytes, and page 0 shows it at once: the PML4 entry is present, and the
first byte of the page behind it was cleared and never written again
(`Core.hole`). The walk of address 0 stops there, at every return from
`page_walk`.

The pointer has to be a physical address for this, below 2^52. The first
table is the one that counts, and it lies at 0x101000 or where the region
check said yes (`FirstTable`).
-/
import BootLoader.Lib.Paging
import BootLoader.ThirdStage.Proofs.SoftwareTables

namespace BootLoader.ThirdStage

open FlatMemory RadixTables Words

/-- The hardware finds every page walked so far at the frame chosen for
it, present and writable at every level. -/
def HardwareAgrees (s : Boot) : Prop :=
  ∀ x ∈ s.frames, Paging.walk s.cpu.mem 0x100000#64 x.1 = .mapped x.2

-- ======================================================= the first table

namespace Alloc

variable {U : Nat → Bool} {zf : Bool} {a : Alloc}

/-- Where the first table is, or will be. -/
structure FirstTable (U : Nat → Bool) (a : Alloc) : Prop where
  before : a.tables = [] → a.ptr = 0x101000
    ∨ (∃ k, a.pc = .adjust_then_call k)
    ∨ ((∃ k, a.pc = .approve_allocate k) ∧ U a.ptr = true)
  stored : ∀ x ∈ a.tables, x.1 = .l1 → x.2 = 0x101003 ∨ U (x.2 - 3) = true

theorem firstTable_init : FirstTable U init where
  before := fun _ => Or.inl rfl
  stored := fun _ hx => by cases hx

/-- A step outside the searches, with nothing handed out. -/
theorem FirstTable.keep {b : Alloc} (h : FirstTable U a)
    (hpc : ∀ k, a.pc ≠ .adjust_then_call k ∧ a.pc ≠ .approve_allocate k)
    (htab : b.tables = a.tables) (hptr : b.ptr = a.ptr) :
    FirstTable U b where
  before := by
    rw [htab, hptr]
    intro hnil
    rcases h.before hnil with hstart | ⟨k, hk⟩ | ⟨⟨k, hk⟩, -⟩
    · exact Or.inl hstart
    · exact absurd hk (hpc k).1
    · exact absurd hk (hpc k).2
  stored := by
    rw [htab]
    exact h.stored

theorem FirstTable.adjust (h : FirstTable U a) (k : Level) :
    FirstTable U (a.adjust U k) where
  before := by
    intro _
    by_cases hu : U (a.ptr + 0x1000) = true
    · exact Or.inr (Or.inr ⟨⟨k, if_pos hu⟩, hu⟩)
    · exact Or.inr (Or.inl ⟨k, if_neg hu⟩)
  stored := h.stored

theorem FirstTable.approve (h : FirstTable U a) (hc : Counts a)
    (ht : TablesUp a) {k : Level} (hpc : a.pc = .approve_allocate k) :
    FirstTable U (a.approve k) where
  before := by
    intro hnil
    simp [Alloc.approve] at hnil
  stored := by
    intro x hx hl
    rcases List.mem_append.1 hx with hx | hx
    · exact h.stored x hx hl
    · obtain rfl := List.mem_singleton.1 hx
      obtain rfl : k = .l1 := hl
      have hnil := hc.tables_nil hpc
      have hres := ht.residue
      rw [if_pos hnil] at hres
      have htag : tag a.ptr = a.ptr + 3 := by
        unfold tag
        omega
      show tag a.ptr = 0x101003 ∨ U (tag a.ptr - 3) = true
      rw [htag, Nat.add_sub_cancel]
      rcases h.before hnil with hstart | ⟨j, hj⟩ | ⟨-, hu⟩
      · exact Or.inl (by omega)
      · rw [hpc] at hj
        cases hj
      · exact Or.inr hu

theorem FirstTable.step (h : FirstTable U a) (hi : Inv U a) :
    FirstTable U (a.step U zf) := by
  unfold Alloc.step
  cases hpc : a.pc with
  | adjust_then_call k => exact h.adjust k
  | approve_allocate k => exact h.approve hi.counts hi.tables hpc
  | page_walk => exact h.keep (by simp [hpc]) rfl rfl
  | allocate k => cases k <;> exact h.keep (by simp [hpc]) rfl rfl
  | skip k => cases k <;> exact h.keep (by simp [hpc]) rfl rfl
  | allocate4 => exact h.keep (by simp [hpc]) rfl rfl
  | adjust_then_call4 => exact h.keep (by simp [hpc]) rfl rfl
  | approve_allocate4 => exact h.keep (by simp [hpc]) rfl rfl
  | skip4 => exact h.keep (by simp [hpc]) rfl rfl
  | returned => exact h.keep (by simp [hpc]) rfl rfl
  | done => exact h

theorem Reached.firstTable (h : Alloc.Reached U a) : FirstTable U a := by
  refine Run.Reaches.invariant_of_reached firstTable_init ?_ h
  intro b zf hr hb _
  exact hb.step (Reached.inv hr)

end Alloc

-- ====================================================== the walk of page 0

variable {m₀ : Mem} {L : Layout} {s : Boot} {c : Cpu}

/-- Bit `i` of the first byte of a quadword. -/
theorem getLsbD_read64 (m : Mem) (a : BitVec 64) {i : Nat} (hi : i < 8) :
    (m.read64 a).getLsbD i = (m a).getLsbD i := by
  have hread := Mem.getLsbD_read m 8 a i (by omega)
  rw [Nat.div_eq_of_lt hi, Nat.mod_eq_of_lt hi] at hread
  rw [show a + BitVec.ofNat 64 0 = a from BitVec.add_zero a] at hread
  exact hread

/-- Once the first table exists, at a physical address, the hardware's
walk of address 0 stops at it. -/
theorem Held.walk_zero (h : Held m₀ s) {p : BitVec 64}
    (hp : (Level.l1, p) ∈ s.tables) (hphys : p.toNat < 2 ^ 52) :
    Paging.walk s.cpu.mem 0x100000#64 0#64 = .notPresent := by
  have hup := h.alloc.tables
  have hres : p.toNat % 0x1000 = 3 := (hup.page _ (mem_abs_tables hp)).1
  obtain ⟨hpresent, hwritable, hbase⟩ := Paging.tagged_entry hres hphys
  have hmem : p ∈ s.lst 1 := mem_lst_num (k := .l1).2 hp
  -- it is the only one of its level, so the root's first entry
  have hone : (s.lst 1).length ≤ 1 := by
    have hlen := h.length_tables .l1
    have hcount : (s.lst 1).length = _ := hlen
    have hpage := h.alloc.counts.page
    have hle : s.abs.page ≤ 0x140000 := by
      unfold Alloc.pageCount at hpage
      split at hpage <;> omega
    rw [hcount]
    split
    · rename_i hprog
      have hnd : s.pc ≠ .done := by
        intro hd
        rw [hd] at hprog
        exact absurd hprog (by decide)
      have := h.page_lt hnd
      show s.abs.page / 0x8000000 + 1 ≤ 1
      omega
    · show (s.abs.page + 0x8000000 - 1) / 0x8000000 ≤ 1
      omega
  have hlst : s.lst 1 = [p] := by
    obtain ⟨q, hq⟩ : ∃ q, s.lst 1 = [q] := by
      have hpos := List.length_pos_of_mem hmem
      exact List.length_eq_one_iff.1 (by omega)
    rw [hq] at hmem
    rw [hq, List.mem_singleton.1 hmem]
  have hroot : s.cpu.mem.read64 0x100000#64 = p := by
    have hlink := h.core.forest.linked 0 (by omega) 0 (by
      show 0 < 512 * 1 - 0
      omega)
    rw [hlst] at hlink
    exact hlink
  obtain ⟨-, hhole⟩ := h.core.hole p hmem
  have hzero : ∀ l, 8#64 * Paging.levelIndex 0#64 l = 0#64 := by
    intro l
    have hidx : Paging.levelIndex 0#64 l = 0#64 := by
      apply BitVec.eq_of_toNat_eq
      rw [Paging.levelIndex_toNat]
      simp
    rw [hidx]
    rfl
  have hcr3 : Paging.tableBase 0x100000#64 = 0x100000#64 := by decide
  unfold Paging.walk
  rw [hcr3, Paging.walkFrom_through (e := p) ?_ hpresent hwritable, hbase]
  · refine Paging.walkFrom_absent ?_
    rw [hzero, BitVec.add_zero]
    unfold Paging.present
    rw [getLsbD_read64 _ _ (by omega), hhole]
    rfl
  · rw [hzero, BitVec.add_zero]
    exact hroot

/-- With a map of physical addresses it stops at every return. -/
theorem Reached.walk_zero (hs : StackOk c) (h : Reached L c s)
    (hpc : s.pc = .returned)
    (hphys : ∀ a, usable c.mem a = true → a.toNat < 2 ^ 52) :
    Paging.walk s.cpu.mem 0x100000#64 0#64 = .notPresent := by
  have hheld := Reached.held hs h
  obtain ⟨p, hp⟩ : ∃ p, p ∈ s.lst 1 := by
    refine List.exists_mem_of_length_pos ?_
    have hlen := hheld.length_tables .l1
    rw [hpc, if_pos (by decide)] at hlen
    have hlen' : (s.lst 1).length = s.abs.page / 0x8000000 + 1 := hlen
    omega
  have htab : (Level.l1, p) ∈ s.tables := mem_lst_num.1 hp
  refine hheld.walk_zero htab ?_
  have habs := mem_abs_tables htab
  have hlow : 0x101003 ≤ p.toNat := (hheld.alloc.tables.page _ habs).2.1
  have hres : p.toNat % 0x1000 = 3 := (hheld.alloc.tables.page _ habs).1
  rcases (Reached.abs hs h).firstTable.stored _ habs rfl with heq | hu
  · change p.toNat = 0x101003 at heq
    omega
  · have hsmall := hphys _ hu
    rw [BitVec.toNat_ofNat] at hsmall
    have hlt := p.isLt
    change (p.toNat - 3) % 2 ^ 64 < 2 ^ 52 at hsmall
    omega

/-- Page 0 is among the pages walked. -/
theorem Reached.frame_zero (hs : StackOk c) (h : Reached L c s)
    (hpc : s.pc = .returned) : ∃ x ∈ s.frames, x.1 = 0#64 := by
  have hheld := Reached.held hs h
  have hlen : 0 < s.frames.length := by
    rw [length_frames, hheld.alloc.counts.frames, show s.abs.pc = _ from hpc]
    exact Nat.succ_pos _
  have hget := List.getElem?_eq_getElem hlen
  refine ⟨s.frames[0], List.getElem_mem hlen, ?_⟩
  apply BitVec.eq_of_toNat_eq
  exact hheld.frame_page hget

-- ============================================================ the result

/-- The hardware never agrees: at every return from `page_walk`, on every
map of physical addresses, some page walked has a hardware walk that does
not end at its frame. -/
theorem hardware_disagrees (hs : StackOk c) (h : Reached L c s)
    (hpc : s.pc = .returned)
    (hphys : ∀ a, usable c.mem a = true → a.toNat < 2 ^ 52) :
    ¬ HardwareAgrees s := by
  intro hagree
  obtain ⟨x, hx, hzero⟩ := h.frame_zero hs hpc
  have hwalk := hagree x hx
  rw [hzero, h.walk_zero hs hpc hphys] at hwalk
  cases hwalk

/-- The wide map lists physical addresses. -/
theorem usable_wideMap {a : BitVec 64}
    (h : usable (mapMem wideMap) a = true) : a.toNat ≤ 0x10000000000 := by
  obtain ⟨k, hk, hhit, htype, -⟩ := usable_iff.1 h
  rcases Nat.eq_zero_or_pos k with rfl | hpos
  · rw [regionAt_mapMem wideMap (by decide) (by decide),
      hits_iff] at hhit
    change (0 + 2 ^ 63) % 2 ^ 64 ≤ (a.toNat + 2 ^ 63) % 2 ^ 64
      ∧ (a.toNat + 2 ^ 63) % 2 ^ 64
        ≤ (0x10000000000 % 2 ^ 64 + 2 ^ 63) % 2 ^ 64 at hhit
    have := a.isLt
    omega
  · rw [regionAt_mapMem_past wideMap hpos (by omega)] at htype
    cases htype

/-- The instance on the wide map. -/
theorem hardware_disagrees_wideMap : ∃ s,
    Reached assembledLayout (checkCpu wideMap 0#64) s ∧ s.pc = .returned
      ∧ ¬ HardwareAgrees s := by
  obtain ⟨s, hr, hpc, -⟩ := returned_wideMap
  refine ⟨s, hr, hpc,
    hardware_disagrees (stackOk_checkCpu wideMap 0#64) hr hpc ?_⟩
  intro a ha
  exact Nat.lt_of_le_of_lt (usable_wideMap ha) (by omega)

/-- On 1 TiB of usable memory the run comes to returns at which the walk
of address 0 ends as not present. -/
theorem hardware_walk_fails : ¬ ∀ (L : Layout) (c : Cpu) (s : Boot),
    StackOk c → Reached L c s → s.pc = .returned → HardwareAgrees s := by
  intro h
  have hs := stackOk_checkCpu wideMap 0#64
  obtain ⟨s, hr, hpc, -⟩ := returned_wideMap
  obtain ⟨x, hx, hzero⟩ := hr.frame_zero hs hpc
  have hwalk := h _ _ s hs hr hpc x hx
  rw [hzero, hr.walk_zero hs hpc fun a ha =>
    Nat.lt_of_le_of_lt (usable_wideMap ha) (by omega)] at hwalk
  cases hwalk

end BootLoader.ThirdStage
