/-
Invariants of the two allocators, on the abstract model.

# Three invariants

- `Counts`: how many tables of each level and how many frames there are,
  as a function of the page and the label. A level's tables are handed
  out at the multiples of its span, so "the table of this page exists" is
  one division.
- `Tables`: the table pages stand one after the other from 0x101000, and
  the pointer keeps the flag bits of the last one handed out.
- `Frames`: frame `i` serves page `i`; the first 513 are the pages
  themselves, the later ones passed the region check; they rise.

`Tables` leans on `Counts` (the first table is the only one of its
level); `Frames` leans on nothing but the page's number of frames.
-/
import Mathlib.Data.List.Basic
import BootLoader.ThirdStage.Allocator

namespace BootLoader.ThirdStage

/-- The level's place below the root. -/
def Level.num : Level → Nat
  | .l1 => 1
  | .l2 => 2
  | .l3 => 3

/-- Levels whose table for the current page exists for sure. -/
def Label.progress : Label → Nat
  | .page_walk | .done => 0
  | .allocate k | .adjust_then_call k | .approve_allocate k => k.num - 1
  | .skip k => k.num
  | _ => 3

/-- The label stands inside the allocation of level `k`. -/
def Label.allocates (k : Level) : Label → Prop
  | .allocate j | .adjust_then_call j | .approve_allocate j => j = k
  | _ => False

/-- The page's frame has been stored. -/
def Label.stored : Label → Nat
  | .skip4 | .returned => 1
  | _ => 0

namespace Alloc

variable {U : Nat → Bool} {zf : Bool} {a : Alloc} {k j : Level}

/-- Tables of level `k` handed out. -/
def count (a : Alloc) (k : Level) : Nat :=
  (a.tables.filter fun x => x.1 = k).length

-- ================================================================ counts

/-- How far the run is, in tables and frames. -/
structure Counts (a : Alloc) : Prop where
  page : if a.pc = .done then a.page = pageCount else a.page < pageCount
  count : ∀ k, a.count k = if k.num ≤ a.pc.progress then a.page / k.span + 1
    else (a.page + k.span - 1) / k.span
  pending : ∀ k, a.pc.allocates k → a.page % k.span = 0
  frames : a.frames.length = a.page + a.pc.stored

theorem counts_init : Counts init where
  page := by decide
  count := by intro k; cases k <;> decide
  pending := by intro k hk; cases hk
  frames := by decide

/-- A step that only moves the label, to one with as much progress. -/
theorem Counts.relabel {b : Alloc} (h : Counts a) (hnd : a.pc ≠ .done)
    (hnd' : b.pc ≠ .done) (hpage : b.page = a.page)
    (htab : b.tables = a.tables) (hfr : b.frames = a.frames)
    (hprog : b.pc.progress = a.pc.progress) (hst : b.pc.stored = a.pc.stored)
    (hpend : ∀ k, b.pc.allocates k → a.page % k.span = 0) : Counts b where
  page := by
    have hp := h.page
    rw [if_neg hnd] at hp
    rw [if_neg hnd', hpage]
    exact hp
  count := by
    intro k
    have hc : b.count k = a.count k := by
      unfold Alloc.count
      rw [htab]
    rw [hc, hprog, hpage]
    exact h.count k
  pending := by
    rw [hpage]
    exact hpend
  frames := by
    rw [hfr, hpage, hst]
    exact h.frames

theorem count_append (a : Alloc) (k : Level) (x : Nat) (j : Level) :
    ((a.tables ++ [(k, x)]).filter fun y => y.1 = j).length
      = a.count j + if k = j then 1 else 0 := by
  rw [List.filter_append, List.length_append]
  unfold Alloc.count
  by_cases h : k = j <;> simp [h]

/-- Entering level `k` with all levels above it done. -/
theorem Counts.enter (h : Counts a) (hnd : a.pc ≠ .done)
    (hprog : a.pc.progress = k.num - 1) (hst : a.pc.stored = 0) :
    Counts (a.enter k) := by
  by_cases hn : a.needs k
  · -- the page is the first of its span
    have hpc : (a.enter k).pc = .allocate k := if_pos hn
    refine h.relabel hnd ?_ rfl rfl rfl ?_ ?_ ?_
    · rw [hpc]
      exact Label.noConfusion
    · rw [hpc, hprog]
      rfl
    · rw [hpc, hst]
      rfl
    · intro j hj
      rw [hpc] at hj
      obtain rfl : k = j := hj
      exact hn
  · -- the table is there already: rounding up is one more
    have hpc : (a.enter k).pc = .skip k := if_neg hn
    have hp := h.page
    rw [if_neg hnd] at hp
    refine ⟨?_, ?_, ?_, ?_⟩
    · rw [hpc, if_neg Label.noConfusion]
      exact hp
    · intro j
      have hj := h.count j
      have hc : (a.enter k).count j = a.count j := rfl
      rw [hc, hj, hpc, hprog]
      show _ = if j.num ≤ k.num then a.page / j.span + 1
        else (a.page + j.span - 1) / j.span
      unfold needs at hn
      cases j <;> cases k <;>
        simp only [Level.num, Level.span, Nat.reduceLeDiff, Nat.reduceSub,
          if_true, if_false] at hn ⊢ <;> omega
    · intro j hj
      rw [hpc] at hj
      exact hj.elim
    · rw [hpc]
      have hf := h.frames
      rw [hst] at hf
      exact hf

/-- Handing out a table of level `k`. -/
theorem Counts.approve (h : Counts a) (hpc : a.pc = .approve_allocate k) :
    Counts (a.approve k) where
  page := by
    have hp := h.page
    rw [hpc, if_neg Label.noConfusion] at hp
    exact hp
  count := by
    intro j
    have hj := h.count j
    have hpend := h.pending k (by rw [hpc]; rfl)
    have hc : (a.approve k).count j = a.count j + if k = j then 1 else 0 :=
      count_append a k (tag a.ptr) j
    rw [hc, hj, hpc]
    show (if j.num ≤ k.num - 1 then a.page / j.span + 1
        else (a.page + j.span - 1) / j.span) + _
      = if j.num ≤ k.num then a.page / j.span + 1
        else (a.page + j.span - 1) / j.span
    cases j <;> cases k <;>
      simp only [Level.num, Level.span, Nat.reduceLeDiff, Nat.reduceSub,
        reduceCtorEq, if_true, if_false] at hpend ⊢ <;> omega
  pending := fun _ hj => hj.elim
  frames := by
    have hf := h.frames
    rw [hpc] at hf
    exact hf

/-- On to the next page. -/
theorem Counts.next (h : Counts a) (hpc : a.pc = .returned) :
    Counts a.next := by
  have hp := h.page
  rw [hpc, if_neg Label.noConfusion] at hp
  have hprog : a.next.pc.progress = 0 ∧ a.next.pc.stored = 0
      ∧ ∀ k, ¬ a.next.pc.allocates k := by
    unfold Alloc.next
    split <;> exact ⟨rfl, rfl, fun _ hk => hk⟩
  refine ⟨?_, ?_, ?_, ?_⟩
  · show if (if a.page + 1 < pageCount then Label.page_walk else .done) = .done
      then a.page + 1 = pageCount else a.page + 1 < pageCount
    by_cases hlt : a.page + 1 < pageCount
    · rw [if_pos hlt, if_neg Label.noConfusion]
      exact hlt
    · rw [if_neg hlt, if_pos rfl]
      omega
  · intro k
    have hk := h.count k
    rw [hpc] at hk
    have hc : a.next.count k = a.count k := rfl
    rw [hc, hk, hprog.1]
    show (if k.num ≤ 3 then a.page / k.span + 1
        else (a.page + k.span - 1) / k.span)
      = if k.num ≤ 0 then (a.page + 1) / k.span + 1
        else (a.page + 1 + k.span - 1) / k.span
    cases k <;> simp only [Level.num, Level.span, Nat.reduceLeDiff, if_true,
      if_false] <;> omega
  · exact fun k hk => (hprog.2.2 k hk).elim
  · have hf := h.frames
    rw [hpc] at hf
    rw [hprog.2.1]
    exact hf

/-- To a label of the same kind, inside the allocation of level `k`. -/
theorem Counts.search {b : Alloc} (h : Counts a) (hnd : a.pc ≠ .done)
    (hk : a.pc.allocates k) (hk' : b.pc.allocates k)
    (hpage : b.page = a.page) (htab : b.tables = a.tables)
    (hfr : b.frames = a.frames) : Counts b := by
  have hpend := h.pending k hk
  have hpc : ∀ l : Label, l.allocates k →
      l ≠ .done ∧ l.progress = k.num - 1 ∧ l.stored = 0
        ∧ ∀ j, l.allocates j → j = k := by
    intro l hl
    cases l <;> first | exact hl.elim | skip
    all_goals
      obtain rfl := hl
      exact ⟨Label.noConfusion, rfl, rfl, fun _ hj => hj.symm⟩
  obtain ⟨-, h1, h2, -⟩ := hpc _ hk
  obtain ⟨hnd', h3, h4, h5⟩ := hpc _ hk'
  refine h.relabel hnd hnd' hpage htab hfr (h3.trans h1.symm)
    (h4.trans h2.symm) ?_
  intro j hj
  rw [h5 j hj]
  exact hpend

/-- To a label past the tables, before the frame is stored. -/
theorem Counts.late {b : Alloc} (h : Counts a)
    (hpc : a.pc ∈ [.skip .l3, .allocate4, .adjust_then_call4])
    (hpc' : b.pc ∈ [.allocate4, .adjust_then_call4, .approve_allocate4])
    (hpage : b.page = a.page) (htab : b.tables = a.tables)
    (hfr : b.frames = a.frames) : Counts b := by
  have hl : ∀ l : Label, l ∈ [.skip .l3, .allocate4, .adjust_then_call4,
      .approve_allocate4] → l ≠ .done ∧ l.progress = 3 ∧ l.stored = 0
        ∧ ∀ j, ¬ l.allocates j := by
    intro l hl
    simp only [List.mem_cons, List.not_mem_nil, or_false] at hl
    rcases hl with rfl | rfl | rfl | rfl <;>
      exact ⟨Label.noConfusion, rfl, rfl, fun _ hj => hj⟩
  obtain ⟨hnd, h1, h2, -⟩ := hl a.pc (by simp_all; tauto)
  obtain ⟨hnd', h3, h4, h5⟩ := hl b.pc (by simp_all)
  exact h.relabel hnd hnd' hpage htab hfr (h3.trans h1.symm)
    (h4.trans h2.symm) (fun j hj => (h5 j hj).elim)

theorem Counts.step (h : Counts a) : Counts (a.step U zf) := by
  unfold Alloc.step
  cases hpc : a.pc with
  | page_walk => exact h.enter (by simp [hpc]) (by rw [hpc]; rfl) (by rw [hpc]; rfl)
  | allocate k =>
      have hs : ∀ yes, Counts (a.choose yes k) := fun yes =>
        h.search (by simp [hpc]) (k := k) (by rw [hpc]; rfl)
          (by cases yes <;> rfl) rfl rfl rfl
      cases k <;> exact hs _
  | adjust_then_call k =>
      show Counts (a.adjust U k)
      refine h.search (by simp [hpc]) (k := k) (by rw [hpc]; rfl) ?_ rfl rfl rfl
      unfold Alloc.adjust
      split <;> rfl
  | approve_allocate k => exact h.approve hpc
  | skip k =>
      cases k with
      | l1 => exact h.enter (by simp [hpc]) (by rw [hpc]; rfl) (by rw [hpc]; rfl)
      | l2 => exact h.enter (by simp [hpc]) (by rw [hpc]; rfl) (by rw [hpc]; rfl)
      | l3 => exact h.late (by simp [hpc]) (by simp) rfl rfl rfl
  | allocate4 =>
      show Counts a.chooseFrame
      refine h.late (by simp [hpc]) ?_ rfl rfl rfl
      unfold Alloc.chooseFrame
      split <;> simp
  | adjust_then_call4 =>
      show Counts (a.adjustFrame U)
      refine h.late (by simp [hpc]) ?_ rfl rfl rfl
      unfold Alloc.adjustFrame
      split <;> simp
  | approve_allocate4 =>
      have hp := h.page
      have hc := h.count
      have hf := h.frames
      rw [hpc] at hp hc hf
      refine ⟨hp, hc, fun _ hj => hj.elim, ?_⟩
      show (a.frames ++ [_]).length = a.page + 1
      rw [List.length_append, hf]
      rfl
  | skip4 =>
      refine h.relabel (by simp [hpc]) Label.noConfusion rfl rfl rfl ?_ ?_
        (fun _ hj => hj.elim)
      · rw [hpc]
        rfl
      · rw [hpc]
        rfl
  | returned => exact h.next hpc
  | done => exact h

/-- The first table handed out is the first of its level, and the only
one. -/
theorem Counts.tables_nil (h : Counts a) (hpc : a.pc = .approve_allocate .l1) :
    a.tables = [] := by
  have hp := h.page
  rw [hpc, if_neg Label.noConfusion] at hp
  have hpend : a.page % 0x8000000 = 0 := h.pending .l1 (by rw [hpc]; rfl)
  have hzero : a.page = 0 := by
    unfold pageCount at hp
    omega
  have hcount : ∀ k, a.count k = 0 := by
    intro k
    rw [h.count k, hpc, hzero]
    cases k <;> rfl
  rw [List.eq_nil_iff_forall_not_mem]
  intro x hx
  have hnil := List.length_eq_zero_iff.1 (hcount x.1)
  have hin : x ∈ a.tables.filter fun y => y.1 = x.1 :=
    List.mem_filter.2 ⟨hx, by simp⟩
  rw [hnil] at hin
  cases hin

-- ================================================================ tables

/-- The table pages: one above the other, each with the flag bits in its
address, and the pointer past the last. -/
structure TablesUp (a : Alloc) : Prop where
  residue : a.ptr % 0x1000 = if a.tables = [] then 0 else 3
  start : 0x101000 ≤ a.ptr
  page : ∀ x ∈ a.tables,
    x.2 % 0x1000 = 3 ∧ 0x101003 ≤ x.2 ∧ x.2 + 0x1000 ≤ a.ptr
  rising : a.tables.Pairwise fun x y => x.2 + 0x1000 ≤ y.2
  first : ∀ x ∈ a.tables, x.1 = .l1 → ∀ y ∈ a.tables, x.2 ≤ y.2

theorem tablesUp_init : TablesUp init where
  residue := by decide
  start := by decide
  page := fun _ hx => by cases hx
  rising := List.Pairwise.nil
  first := fun _ hx => by cases hx

/-- `or x, 3` on a pointer. -/
theorem TablesUp.tag_ptr (h : TablesUp a) :
    tag a.ptr = a.ptr + (3 - a.ptr % 0x1000) ∧ tag a.ptr % 0x1000 = 3 := by
  have hr := h.residue
  unfold tag
  split at hr <;> omega

/-- The same tables, and a pointer some pages on. -/
theorem TablesUp.move {b : Alloc} (h : TablesUp a) (htab : b.tables = a.tables)
    {d : Nat} (hptr : b.ptr = a.ptr + 0x1000 * d) : TablesUp b where
  residue := by
    have hr := h.residue
    rw [htab, ← hr, hptr]
    omega
  start := by
    have := h.start
    omega
  page := by
    intro x hx
    rw [htab] at hx
    obtain ⟨h1, h2, h3⟩ := h.page x hx
    exact ⟨h1, h2, by omega⟩
  rising := by
    rw [htab]
    exact h.rising
  first := by
    rw [htab]
    exact h.first

theorem TablesUp.approve (h : TablesUp a) (hc : Counts a)
    (hpc : a.pc = .approve_allocate k) : TablesUp (a.approve k) := by
  obtain ⟨htag, hres⟩ := h.tag_ptr
  have hstart := h.start
  have hr := h.residue
  have hptr : (a.approve k).ptr = tag a.ptr + 0x1000 := rfl
  have htab : (a.approve k).tables = a.tables ++ [(k, tag a.ptr)] := rfl
  refine ⟨?_, ?_, ?_, ?_, ?_⟩
  · rw [hptr, htab, if_neg (by simp)]
    omega
  · rw [hptr]
    omega
  · intro x hx
    rw [htab] at hx
    rw [hptr]
    rcases List.mem_append.1 hx with hx | hx
    · obtain ⟨h1, h2, h3⟩ := h.page x hx
      exact ⟨h1, h2, by omega⟩
    · obtain rfl := List.mem_singleton.1 hx
      show tag a.ptr % 0x1000 = 3 ∧ 0x101003 ≤ tag a.ptr
        ∧ tag a.ptr + 0x1000 ≤ tag a.ptr + 0x1000
      refine ⟨hres, ?_, Nat.le_refl _⟩
      omega
  · rw [htab, List.pairwise_append]
    refine ⟨h.rising, List.pairwise_singleton _ _, ?_⟩
    intro x hx y hy
    obtain rfl := List.mem_singleton.1 hy
    have := (h.page x hx).2.2
    show x.2 + 0x1000 ≤ tag a.ptr
    omega
  · rw [htab]
    intro x hx hl y hy
    rcases List.mem_append.1 hx with hx | hx
    · rcases List.mem_append.1 hy with hy | hy
      · exact h.first x hx hl y hy
      · obtain rfl := List.mem_singleton.1 hy
        have := (h.page x hx).2.2
        show x.2 ≤ tag a.ptr
        omega
    · -- a root's child: no table stands before it
      obtain rfl := List.mem_singleton.1 hx
      obtain rfl : k = .l1 := hl
      rw [hc.tables_nil hpc, List.nil_append] at hy
      obtain rfl := List.mem_singleton.1 hy
      exact Nat.le_refl _

theorem TablesUp.step (h : TablesUp a) (hc : Counts a) :
    TablesUp (a.step U zf) := by
  have hsame : ∀ b : Alloc, b.tables = a.tables → b.ptr = a.ptr →
      TablesUp b := fun b htab hptr => h.move htab (d := 0) hptr
  unfold Alloc.step
  cases hpc : a.pc with
  | page_walk => exact hsame _ rfl rfl
  | allocate k => cases k <;> exact hsame _ rfl rfl
  | adjust_then_call k => exact h.move rfl (d := 1) rfl
  | approve_allocate k => exact h.approve hc hpc
  | skip k => cases k <;> exact hsame _ rfl rfl
  | allocate4 => exact hsame _ rfl rfl
  | adjust_then_call4 => exact hsame _ rfl rfl
  | approve_allocate4 => exact hsame _ rfl rfl
  | skip4 => exact hsame _ rfl rfl
  | returned => exact hsame _ rfl rfl
  | done => exact h

-- ================================================================ frames

/-- Frame `x.2` suits page `x.1`: the page itself up to 0x200000, and
from there on an address the region check accepts. -/
def Placed (U : Nat → Bool) (x : Nat × Nat) : Prop :=
  if x.1 ≤ 0x200000 then x.2 = x.1 else 0x200000 < x.2 ∧ U x.2 = true

/-- The data frames: one for each page in turn, rising below the
pointer. -/
structure FramesUp (U : Nat → Bool) (a : Alloc) : Prop where
  numbered : a.frames.map Prod.fst
    = (List.range a.frames.length).map (0x1000 * ·)
  placed : ∀ x ∈ a.frames, Placed U x
  below : ∀ x ∈ a.frames, x.2 + 0x1000 ≤ a.data
  rising : a.frames.Pairwise fun x y => x.2 + 0x1000 ≤ y.2
  aligned : a.data % 0x1000 = 0
  early : a.frames.length ≤ 513 → a.pc ≠ .adjust_then_call4 →
    a.pc ≠ .approve_allocate4 → a.data = 0x1000 * a.frames.length
  late : 513 ≤ a.frames.length → 0x201000 ≤ a.data
  searching : a.pc = .adjust_then_call4 → 513 ≤ a.frames.length
  approved : a.pc = .approve_allocate4 →
    if a.frames.length ≤ 512 then a.data = 0x1000 * a.frames.length
    else U a.data = true

theorem framesUp_init : FramesUp U init where
  numbered := rfl
  placed := fun _ hx => by cases hx
  below := fun _ hx => by cases hx
  rising := List.Pairwise.nil
  aligned := rfl
  early := fun _ _ _ => rfl
  late := fun h => by simp [init] at h
  searching := fun h => by cases h
  approved := fun h => by cases h

/-- The same frames and pointer, at a label outside the frame search. -/
theorem FramesUp.relabel {b : Alloc} (h : FramesUp U a)
    (hfr : b.frames = a.frames) (hdata : b.data = a.data)
    (hpc : a.pc ≠ .adjust_then_call4 ∧ a.pc ≠ .approve_allocate4)
    (hpc' : b.pc ≠ .adjust_then_call4 ∧ b.pc ≠ .approve_allocate4) :
    FramesUp U b where
  numbered := by rw [hfr]; exact h.numbered
  placed := by rw [hfr]; exact h.placed
  below := by rw [hfr, hdata]; exact h.below
  rising := by rw [hfr]; exact h.rising
  aligned := by rw [hdata]; exact h.aligned
  early := by
    rw [hfr, hdata]
    exact fun hlen _ _ => h.early hlen hpc.1 hpc.2
  late := by rw [hfr, hdata]; exact h.late
  searching := fun hs => absurd hs hpc'.1
  approved := fun hs => absurd hs hpc'.2

theorem FramesUp.chooseFrame (h : FramesUp U a) (hpc : a.pc = .allocate4) :
    FramesUp U a.chooseFrame := by
  have hearly := fun hlen => h.early hlen (by simp [hpc]) (by simp [hpc])
  have hlate := h.late
  refine ⟨h.numbered, h.placed, h.below, h.rising, h.aligned, ?_, h.late, ?_,
    ?_⟩
  · exact fun hlen _ _ => hearly hlen
  · intro hs
    show 513 ≤ a.frames.length
    by_cases hd : a.data ≤ 0x200000
    · have hpc' : a.chooseFrame.pc = .approve_allocate4 := if_pos hd
      rw [hpc'] at hs
      cases hs
    · by_contra hlt
      have := hearly (by omega)
      omega
  · intro hs
    show if a.frames.length ≤ 512 then a.data = 0x1000 * a.frames.length
      else _
    by_cases hd : a.data ≤ 0x200000
    · rw [if_pos (by omega)]
      exact hearly (by omega)
    · have hpc' : a.chooseFrame.pc = .adjust_then_call4 := if_neg hd
      rw [hpc'] at hs
      cases hs

theorem FramesUp.adjustFrame (h : FramesUp U a)
    (hpc : a.pc = .adjust_then_call4) : FramesUp U (a.adjustFrame U) := by
  have hlen := h.searching hpc
  have hlate := h.late hlen
  refine ⟨h.numbered, h.placed, ?_, h.rising, ?_, ?_, ?_, fun _ => hlen, ?_⟩
  · intro x hx
    have := h.below x hx
    show x.2 + 0x1000 ≤ a.data + 0x1000
    omega
  · have := h.aligned
    show (a.data + 0x1000) % 0x1000 = 0
    omega
  · intro _ h1 h2
    by_cases hu : U (a.data + 0x1000) = true
    · exact absurd (if_pos hu) h2
    · exact absurd (if_neg hu) h1
  · intro _
    show 0x201000 ≤ a.data + 0x1000
    omega
  · intro hs
    have hlen' : ¬ a.frames.length ≤ 512 := by omega
    show if a.frames.length ≤ 512 then _ else U (a.data + 0x1000) = true
    rw [if_neg hlen']
    by_contra hu
    have hpc' : (a.adjustFrame U).pc = .adjust_then_call4 := if_neg hu
    rw [hpc'] at hs
    cases hs

theorem FramesUp.approveFrame (h : FramesUp U a) (hc : Counts a)
    (hpc : a.pc = .approve_allocate4) : FramesUp U a.approveFrame := by
  have hlen : a.frames.length = a.page := by
    rw [hc.frames, hpc]
    rfl
  have happ := h.approved hpc
  have hal := h.aligned
  have hlate := h.late
  have hfr : a.approveFrame.frames
      = a.frames ++ [(0x1000 * a.page, a.data)] := rfl
  have hdata : a.approveFrame.data = a.data + 0x1000 := rfl
  refine ⟨?_, ?_, ?_, ?_, ?_, ?_, ?_, Label.noConfusion, Label.noConfusion⟩
  · rw [hfr, List.map_append, h.numbered, List.length_append,
      List.length_singleton, List.range_succ, List.map_append, hlen]
    rfl
  · rw [hfr]
    intro x hx
    rcases List.mem_append.1 hx with hx | hx
    · exact h.placed x hx
    · obtain rfl := List.mem_singleton.1 hx
      show if 0x1000 * a.page ≤ 0x200000 then a.data = 0x1000 * a.page
        else 0x200000 < a.data ∧ U a.data = true
      by_cases hle : 0x1000 * a.page ≤ 0x200000
      · rw [if_pos (by omega), hlen] at happ
        rw [if_pos hle]
        exact happ
      · rw [if_neg (by omega)] at happ
        rw [if_neg hle]
        have := hlate (by omega)
        exact ⟨by omega, happ⟩
  · rw [hfr, hdata]
    intro x hx
    rcases List.mem_append.1 hx with hx | hx
    · have := h.below x hx
      omega
    · obtain rfl := List.mem_singleton.1 hx
      exact Nat.le_refl _
  · rw [hfr, List.pairwise_append]
    refine ⟨h.rising, List.pairwise_singleton _ _, ?_⟩
    intro x hx y hy
    obtain rfl := List.mem_singleton.1 hy
    exact h.below x hx
  · rw [hdata]
    omega
  · rw [hfr, hdata, List.length_append, List.length_singleton]
    intro hle _ _
    rw [if_pos (by omega)] at happ
    omega
  · rw [hfr, hdata, List.length_append, List.length_singleton]
    intro hge
    by_cases h512 : a.frames.length ≤ 512
    · rw [if_pos h512] at happ
      omega
    · have := hlate (by omega)
      omega

theorem FramesUp.step (h : FramesUp U a) (hc : Counts a) :
    FramesUp U (a.step U zf) := by
  unfold Alloc.step
  cases hpc : a.pc with
  | page_walk =>
      refine h.relabel rfl rfl (by simp [hpc]) ?_
      show (a.enter .l1).pc ≠ _ ∧ (a.enter .l1).pc ≠ _
      unfold Alloc.enter
      split <;> simp
  | allocate k =>
      have hs : ∀ yes, FramesUp U (a.choose yes k) := fun yes =>
        h.relabel rfl rfl (by simp [hpc]) (by cases yes <;> simp [choose])
      cases k <;> exact hs _
  | adjust_then_call k =>
      refine h.relabel rfl rfl (by simp [hpc]) ?_
      show (a.adjust U k).pc ≠ _ ∧ (a.adjust U k).pc ≠ _
      unfold Alloc.adjust
      split <;> simp
  | approve_allocate k =>
      exact h.relabel rfl rfl (by simp [hpc]) (by simp [approve])
  | skip k =>
      have hs : ∀ j, FramesUp U (a.enter j) := fun j =>
        h.relabel rfl rfl (by simp [hpc]) (by
          unfold Alloc.enter
          split <;> simp)
      cases k with
      | l1 => exact hs .l2
      | l2 => exact hs .l3
      | l3 => exact h.relabel rfl rfl (by simp [hpc]) (by simp)
  | allocate4 => exact h.chooseFrame hpc
  | adjust_then_call4 => exact h.adjustFrame hpc
  | approve_allocate4 => exact h.approveFrame hc hpc
  | skip4 => exact h.relabel rfl rfl (by simp [hpc]) (by simp)
  | returned =>
      refine h.relabel rfl rfl (by simp [hpc]) ?_
      show a.next.pc ≠ _ ∧ a.next.pc ≠ _
      unfold Alloc.next
      split <;> simp
  | done => exact h

-- ==================================================== the three together

/-- The allocators' invariant. -/
structure Inv (U : Nat → Bool) (a : Alloc) : Prop where
  counts : Counts a
  tables : TablesUp a
  frames : FramesUp U a

theorem inv_init : Inv U init := ⟨counts_init, tablesUp_init, framesUp_init⟩

theorem Inv.step (h : Inv U a) : Inv U (a.step U zf) :=
  ⟨h.counts.step, h.tables.step h.counts, h.frames.step h.counts⟩

end Alloc

end BootLoader.ThirdStage
