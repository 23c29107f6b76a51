/-
The page tables as the code itself reads them.

`page_walk` follows pointers with their flag bits and all: `leafSlotOf`
does the same from the root. At every return from it the tables stand
apart, each page walked so far has a leaf slot of its own with its frame
in it, the frames rise with the pages, and whatever the run does later
leaves those slots and their contents alone.

All of it is read off the tree of `Proofs/Invariant.lean`: leaf `i` is
slot `i` of the lowest tables, and the run only ever appends to the lists
the tree is made of (`step_grows`).
-/
import BootLoader.ThirdStage.Proofs.Termination

namespace BootLoader.ThirdStage

open FlatMemory RadixTables Words

-- ============================================================= the lookup

/-- The leaf slot of `v`, following pointers the way `page_walk` does. -/
def leafSlotOf (m : Mem) (v : BitVec 64) : Option (BitVec 64) :=
  leafSlot m 0x100000#64 (pathDigits (v.toNat / 0x1000))

/-- The leaf value of `v`. -/
def leafOf (m : Mem) (v : BitVec 64) : Option (BitVec 64) :=
  (leafSlotOf m v).map m.read64

/-- What holds of the tables at a return from `page_walk`. -/
structure SoftTables (L : Layout) (s : Boot) : Prop where
  apart : (0x100000#64 :: s.tables.map Prod.snd).Pairwise Apart
  walked : s.frames.map (fun x => x.1.toNat)
    = (List.range ((s.cpu.reg .r8).toNat / 0x1000 + 1)).map (0x1000 * ·)
  leaf : ∀ x ∈ s.frames, leafOf s.cpu.mem x.1 = some x.2
  own : ∀ x ∈ s.frames, ∀ v : BitVec 64, v.toNat < 0x140000000 →
    v.toNat / 0x1000 ≠ x.1.toNat / 0x1000 →
    ∀ a b, leafSlotOf s.cpu.mem x.1 = some a →
      leafSlotOf s.cpu.mem v = some b →
      a.toNat + 8 ≤ b.toNat ∨ b.toNat + 8 ≤ a.toNat
  rising : s.frames.Pairwise fun x y =>
    x.1.toNat < y.1.toNat ∧ x.2.toNat < y.2.toNat
  low : ∀ x ∈ s.frames, x.1.toNat ≤ 0x200000 → x.2 = x.1
  high : ∀ x ∈ s.frames, 0x200000 < x.2.toNat →
    (loop_over_mem_regions L (s.cpu.set .r14 x.2)).mem L.flag = 1#8

/-- What is mapped in `s` is mapped in the same way in `t`. -/
def LeavesKept (s t : Boot) : Prop :=
  ∀ x ∈ s.frames, leafSlotOf t.cpu.mem x.1 = leafSlotOf s.cpu.mem x.1
    ∧ leafOf t.cpu.mem x.1 = leafOf s.cpu.mem x.1

variable {m₀ : Mem} {L : Layout} {zf : Bool} {s t : Boot} {c : Cpu}

-- ========================================================== the run grows

/-- Only approvals add to the history. -/
theorem step_same (L : Layout) (zf : Bool) {s : Boot}
    (hpc : ∀ k, s.pc ≠ .approve_allocate k) (hpc4 : s.pc ≠ .approve_allocate4) :
    (step L zf s).tables = s.tables ∧ (step L zf s).frames = s.frames := by
  have hsearch : ∀ r l l', (adjust_then_call L r l l' s).tables = s.tables
      ∧ (adjust_then_call L r l l' s).frames = s.frames := by
    intro r l l'
    unfold adjust_then_call
    exact ⟨rfl, rfl⟩
  unfold step
  cases h : s.pc with
  | page_walk => exact ⟨rfl, rfl⟩
  | allocate k => cases k <;> exact ⟨rfl, rfl⟩
  | adjust_then_call k => cases k <;> exact hsearch _ _ _
  | approve_allocate k => exact absurd h (hpc k)
  | skip k => cases k <;> exact ⟨rfl, rfl⟩
  | allocate4 => exact ⟨rfl, rfl⟩
  | adjust_then_call4 => exact hsearch _ _ _
  | approve_allocate4 => exact absurd h hpc4
  | skip4 => exact ⟨rfl, rfl⟩
  | returned =>
      show (loop_construct_page_table s).tables = s.tables
        ∧ (loop_construct_page_table s).frames = s.frames
      unfold loop_construct_page_table
      dsimp only
      split <;> exact ⟨rfl, rfl⟩
  | done => exact ⟨rfl, rfl⟩

/-- A step appends to the history. -/
theorem step_grows (L : Layout) (zf : Bool) (s : Boot) :
    s.tables <+: (step L zf s).tables
      ∧ s.frames <+: (step L zf s).frames := by
  by_cases hpc : ∃ k, s.pc = .approve_allocate k
  · obtain ⟨k, hk⟩ := hpc
    have hstep : step L zf s = approve_allocate k s := by
      unfold step
      rw [hk]
      cases k <;> rfl
    rw [hstep]
    unfold approve_allocate
    exact ⟨List.prefix_append _ _, List.prefix_refl _⟩
  · by_cases hpc4 : s.pc = .approve_allocate4
    · have hstep : step L zf s = approve_allocate4 s := by
        unfold step
        rw [hpc4]
      rw [hstep]
      unfold approve_allocate4
      exact ⟨List.prefix_refl _, List.prefix_append _ _⟩
    · obtain ⟨htab, hfr⟩ := step_same L zf (fun k hk => hpc ⟨k, hk⟩) hpc4
      rw [htab, hfr]
      exact ⟨List.prefix_refl _, List.prefix_refl _⟩

/-- So does a run. -/
theorem reaches_grows {ok : Boot → Prop}
    (h : Run.Reaches (step L) ok s t) :
    s.tables <+: t.tables ∧ s.frames <+: t.frames := by
  refine Run.Reaches.invariant (I := fun t =>
    s.tables <+: t.tables ∧ s.frames <+: t.frames)
    ⟨List.prefix_refl _, List.prefix_refl _⟩ ?_ h
  intro u zf hu _
  obtain ⟨htab, hfr⟩ := step_grows L zf u
  exact ⟨hu.1.trans htab, hu.2.trans hfr⟩

/-- Slots of a level stay where they are as tables are added. -/
theorem slotAddr_prefix {ps qs : List (BitVec 64)} (h : ps <+: qs) {i : Nat}
    (hi : i / 512 < ps.length) : slotAddr qs i = slotAddr ps i := by
  obtain ⟨rs, rfl⟩ := h
  unfold slotAddr
  rw [List.getD_append _ _ _ _ hi]

-- ============================================================== one leaf

/-- Frame `i` was stored for page `i`. -/
theorem Held.frame_page (h : Held m₀ s) {i : Nat} {x : BitVec 64 × BitVec 64}
    (hx : s.frames[i]? = some x) : x.1.toNat = 0x1000 * i := by
  have hnum := congrArg (·[i]?) h.alloc.frames.numbered
  have hlt : i < s.abs.frames.length := by
    rw [← length_frames]
    exact (List.getElem?_eq_some_iff.1 hx).1
  have habs : s.abs.frames[i]? = some (x.1.toNat, x.2.toNat) := by
    unfold Boot.abs
    rw [List.getElem?_map, hx]
    rfl
  simp only [List.getElem?_map, habs, List.getElem?_range hlt,
    Option.map_some, Option.some.injEq] at hnum
  exact hnum

/-- Its lowest table exists. -/
theorem Held.leaf_table (h : Held m₀ s) {i : Nat}
    (hi : i < s.frames.length) : i / 512 < (s.lst 3).length := by
  have hroom := h.core.forest.room 3 (by omega)
  have hlen : (s.lst 4).length = s.frames.length := List.length_map ..
  rw [hlen] at hroom
  exact Forest.table_mem (Nat.lt_of_lt_of_le hi hroom)

/-- Page `i` reaches slot `i` of the lowest tables, and finds frame `i`
there. -/
theorem Held.leaf (h : Held m₀ s) {i : Nat} {x : BitVec 64 × BitVec 64}
    (hx : s.frames[i]? = some x) :
    leafSlotOf s.cpu.mem x.1 = some (slotAddr (s.lst 3) i)
      ∧ s.cpu.mem.read64 (slotAddr (s.lst 3) i) = x.2 := by
  have hi := (List.getElem?_eq_some_iff.1 hx).1
  have htable := h.leaf_table hi
  constructor
  · unfold leafSlotOf
    rw [h.frame_page hx, Nat.mul_div_cancel_left i (by omega)]
    exact h.core.forest.leafSlot_eq (by omega) rfl htable
  · have hlink := h.core.forest.linked 3 (by omega) i (by
      show i < 512 * (s.lst 3).length - 0
      omega)
    have hget : (s.frames.map Prod.snd)[i]? = some x.2 := by
      rw [List.getElem?_map, hx]
      rfl
    rw [hlink]
    show (s.frames.map Prod.snd).getD i 0 = x.2
    rw [List.getD_eq_getElem?_getD, hget, Option.getD_some]

/-- A page below 0x140000000 that reaches a slot at all reaches the slot
of its number. -/
theorem Held.leaf_some (h : Held m₀ s) {v b : BitVec 64}
    (hv : v.toNat < 0x140000000) (hb : leafSlotOf s.cpu.mem v = some b) :
    v.toNat / 0x1000 < capacity slack s.lst 3
      ∧ b = slotAddr (s.lst 3) (v.toNat / 0x1000) := by
  obtain ⟨hlt, rfl⟩ := h.core.forest.leafSlot_some rfl
    (by show v.toNat / 0x1000 / 0x8000000 < 512 * 1 - 0; omega)
    (fun h1 => by
      show v.toNat / 0x1000 / 0x40000 < 512 * (s.lst 1).length - 1
      omega)
    (fun h2 => by
      show v.toNat / 0x1000 / 512 < 512 * (s.lst 2).length - 0
      omega) hb
  refine ⟨?_, rfl⟩
  show v.toNat / 0x1000 < 512 * (s.lst 3).length - 0
  omega

/-- When the frame is to be stored, R10 is where the lookup leads. -/
theorem Held.cursor_leaf (h : Held m₀ s) (hpc : s.pc = .approve_allocate4) :
    leafSlotOf s.cpu.mem (s.cpu.reg .r8) = some (s.cpu.reg .r10) := by
  have hslot : s.cpu.reg .r10 = slotAddr (s.lst 3) (s.abs.page / span 4) :=
    h.cursors.slot 4 (by rw [hpc]; rfl) (by omega) (by omega)
  have hin : s.abs.page / span 4 < capacity slack s.lst 3 :=
    h.slot_in (by simp [hpc]) (l := 4) (by omega) (by omega)
      (by rw [hpc]; exact Nat.le_refl 4)
  have hpage : s.abs.page / span 4 = (s.cpu.reg .r8).toNat / 0x1000 :=
    Nat.div_one _
  rw [hpage] at hslot hin
  rw [hslot]
  exact h.core.forest.leafSlot_eq (by omega) rfl (Forest.table_mem hin)

-- ========================================================== at a return

/-- The tables' pages are apart. -/
theorem Held.tables_apart (h : Held m₀ s) :
    (0x100000#64 :: s.tables.map Prod.snd).Pairwise Apart := by
  have hup := h.alloc.tables
  have hbase : (0x100000#64).toNat = 0x100000 := toNat_lit (by omega)
  refine List.Pairwise.cons ?_ ?_
  · intro p hp
    obtain ⟨x, hx, rfl⟩ := List.mem_map.1 hp
    have hpage : 0x101003 ≤ x.2.toNat :=
      (hup.page _ (mem_abs_tables (k := x.1) hx)).2.1
    refine Or.inl ?_
    omega
  · have hrise : s.abs.tables.Pairwise fun x y => x.2 + 0x1000 ≤ y.2 :=
      hup.rising
    unfold Boot.abs at hrise
    rw [List.pairwise_map] at hrise
    exact List.pairwise_map.2 (hrise.imp fun hxy => Or.inl hxy)

/-- Earlier pages come first, and so do their frames. -/
theorem Held.frames_rising (h : Held m₀ s) : s.frames.Pairwise fun x y =>
    x.1.toNat < y.1.toNat ∧ x.2.toNat < y.2.toNat := by
  have hrise : s.abs.frames.Pairwise fun x y => x.2 + 0x1000 ≤ y.2 :=
    h.alloc.frames.rising
  unfold Boot.abs at hrise
  rw [List.pairwise_map] at hrise
  rw [List.pairwise_iff_getElem] at hrise ⊢
  intro i j hi hj hij
  have hi' := h.frame_page (List.getElem?_eq_getElem hi)
  have hj' := h.frame_page (List.getElem?_eq_getElem hj)
  have hd : s.frames[i].2.toNat + 0x1000 ≤ s.frames[j].2.toNat :=
    hrise i j hi hj hij
  omega

/-- The clauses of `SoftTables`, from the invariant. -/
theorem Held.softTables (h : Held m₀ s) (hpc : s.pc = .returned) :
    SoftTables L s := by
  have hplaced : ∀ x ∈ s.frames,
      Alloc.Placed (accepts m₀) (x.1.toNat, x.2.toNat) := fun x hx =>
    h.alloc.frames.placed _ (List.mem_map.2 ⟨x, hx, rfl⟩)
  refine ⟨h.tables_apart, ?_, ?_, ?_, h.frames_rising, ?_, ?_⟩
  · have hnum := h.alloc.frames.numbered
    have hmap : s.abs.frames.map Prod.fst
        = s.frames.map (fun x => x.1.toNat) := by
      unfold Boot.abs
      rw [List.map_map]
      rfl
    rw [hmap, h.alloc.counts.frames, show s.abs.pc = _ from hpc] at hnum
    exact hnum
  · intro x hx
    obtain ⟨i, hi⟩ := List.mem_iff_getElem?.1 hx
    obtain ⟨hslot, hread⟩ := h.leaf hi
    unfold leafOf
    rw [hslot, Option.map_some, hread]
  · intro x hx v hv hne a b ha hb
    obtain ⟨i, hi⟩ := List.mem_iff_getElem?.1 hx
    obtain ⟨hslot, -⟩ := h.leaf hi
    have hpage := h.frame_page hi
    rw [ha, Option.some.injEq] at hslot
    obtain ⟨hcap, rfl⟩ := h.leaf_some hv hb
    rw [hslot]
    have htable := h.leaf_table (List.getElem?_eq_some_iff.1 hi).1
    refine h.core.forest.slot_disjoint (by omega) (by omega) ?_ hcap
      (Or.inr (by omega))
    show i < 512 * (s.lst 3).length - 0
    omega
  · intro x hx hle
    have hp := hplaced x hx
    unfold Alloc.Placed at hp
    rw [if_pos hle] at hp
    exact BitVec.eq_of_toNat_eq hp
  · intro x hx hgt
    have hp := hplaced x hx
    unfold Alloc.Placed at hp
    have hstack : StackOk (s.cpu.set .r14 x.2) := h.core.stack
    rw [flag_eq_one_iff hstack, Cpu.set_mem, Cpu.set_reg_self,
      usable_congr h.core.map, ← accepts_toNat]
    by_cases hle : x.1.toNat ≤ 0x200000
    · rw [if_pos hle] at hp
      change x.2.toNat = x.1.toNat at hp
      omega
    · rw [if_neg hle] at hp
      exact hp.2

/-- Later states keep the leaves of earlier ones. -/
theorem Held.leavesKept (h : Held m₀ s) (h' : Held m₀ t)
    (hgrow : s.tables <+: t.tables ∧ s.frames <+: t.frames) :
    LeavesKept s t := by
  intro x hx
  obtain ⟨i, hi⟩ := List.mem_iff_getElem?.1 hx
  have hlt := (List.getElem?_eq_some_iff.1 hi).1
  have hi' : t.frames[i]? = some x := by
    obtain ⟨rest, hrest⟩ := hgrow.2
    rw [← hrest, List.getElem?_append_left hlt, hi]
  obtain ⟨hslot, hread⟩ := h.leaf hi
  obtain ⟨hslot', hread'⟩ := h'.leaf hi'
  have hlist : s.lst 3 <+: t.lst 3 :=
    ((hgrow.1.filter _).map _)
  have haddr := slotAddr_prefix hlist (h.leaf_table hlt)
  refine ⟨?_, ?_⟩
  · rw [hslot, hslot', haddr]
  · unfold leafOf
    rw [hslot, hslot', Option.map_some, Option.map_some, hread, hread']

-- ============================================================ the result

/-- The software page tables: at every return from `page_walk` the tables
are apart and every page walked so far owns a leaf slot that holds its
frame, the frames rise, are the pages themselves up to 0x200000 and
accepted addresses above; and no state reached later has touched a leaf. -/
theorem software_tables (hs : StackOk c) (h : Reached L c s)
    (hpc : s.pc = .returned) :
    SoftTables L s
      ∧ ∀ t, Run.Reaches (step L) Bounded s t → LeavesKept s t := by
  have hheld := Reached.held hs h
  refine ⟨hheld.softTables hpc, ?_⟩
  intro t ht
  exact hheld.leavesKept (Reached.held hs (h.trans ht)) (reaches_grows ht)

/-- The run ends by way of a return. -/
theorem Alloc.step_done {U : Nat → Bool} {a : Alloc}
    (h : (a.step U zf).pc = .done) : a.pc = .returned ∨ a.pc = .done := by
  have hif : ∀ (b : Prop) [Decidable b] (l l' : Label), l ≠ .done →
      l' ≠ .done → (if b then l else l') ≠ .done := by
    intro b _ l l' h1 h2
    split
    · exact h1
    · exact h2
  unfold Alloc.step at h
  cases hpc : a.pc with
  | returned => exact Or.inl rfl
  | done => exact Or.inr rfl
  | page_walk =>
      rw [hpc] at h
      exact absurd h (hif _ _ _ Label.noConfusion Label.noConfusion)
  | allocate k =>
      rw [hpc] at h
      cases k <;>
        exact absurd h (hif _ _ _ Label.noConfusion Label.noConfusion)
  | adjust_then_call k =>
      rw [hpc] at h
      exact absurd h (hif _ _ _ Label.noConfusion Label.noConfusion)
  | approve_allocate k =>
      rw [hpc] at h
      cases h
  | skip k =>
      rw [hpc] at h
      cases k with
      | l3 => cases h
      | _ => exact absurd h (hif _ _ _ Label.noConfusion Label.noConfusion)
  | allocate4 =>
      rw [hpc] at h
      exact absurd h (hif _ _ _ Label.noConfusion Label.noConfusion)
  | adjust_then_call4 =>
      rw [hpc] at h
      exact absurd h (hif _ _ _ Label.noConfusion Label.noConfusion)
  | approve_allocate4 =>
      rw [hpc] at h
      cases h
  | skip4 =>
      rw [hpc] at h
      cases h

/-- A run that is done has returned from its last page. -/
theorem Reached.returned_of_done (hs : StackOk c) (h : Reached L c s)
    (hpc : s.pc = .done) : ∃ t, Reached L c t ∧ t.pc = .returned
      ∧ t.frames = s.frames := by
  refine Run.Reaches.invariant_of_reached (I := fun s => s.pc = .done →
    ∃ t, Reached L c t ∧ t.pc = .returned ∧ t.frames = s.frames) ?_ ?_ h hpc
  · intro hstart
    cases hstart
  · intro u zf hr ih hb hdone
    have hok : StepOk c.mem L zf u := step_ok (Reached.held hs hr) hb
    have habs : (u.abs.step (accepts c.mem) zf).pc = .done := by
      rw [← hok.sim]
      exact hdone
    have hlast : u.pc = .returned ∨ u.pc = .done := Alloc.step_done habs
    rcases hlast with hret | hdone'
    · exact ⟨u, hr, hret,
        (step_same L zf (by simp [hret]) (by simp [hret])).2.symm⟩
    · obtain ⟨t, ht, hpc, hfr⟩ := ih hdone'
      refine ⟨t, ht, hpc, ?_⟩
      rw [(step_same L zf (by simp [hdone']) (by simp [hdone'])).2]
      exact hfr

/-- On the wide map there are such returns. -/
theorem returned_wideMap : ∃ s,
    Reached assembledLayout (checkCpu wideMap 0#64) s ∧ s.pc = .returned
      ∧ s.frames.length = 0x140000 := by
  obtain ⟨n, hdone, hr⟩ := done_wideMap (L := assembledLayout)
    fun _ => false
  have hs := stackOk_checkCpu wideMap 0#64
  obtain ⟨t, ht, hpc, hfr⟩ := hr.returned_of_done hs hdone
  refine ⟨t, ht, hpc, ?_⟩
  have hlen := congrArg List.length
    (frames_done (Reached.held hs hr) hdone).1
  rw [List.length_map, List.length_map, List.length_range] at hlen
  rw [hfr, hlen]

/-- The instance there. -/
theorem software_tables_wideMap : ∃ s, SoftTables assembledLayout s
    ∧ ∀ t, Run.Reaches (step assembledLayout) Bounded s t →
      LeavesKept s t := by
  obtain ⟨s, hr, hpc, -⟩ := returned_wideMap
  exact ⟨s, software_tables (stackOk_checkCpu wideMap 0#64) hr hpc⟩

end BootLoader.ThirdStage
