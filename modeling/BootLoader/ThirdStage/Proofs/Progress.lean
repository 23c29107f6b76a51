/-
When the allocators find all they need, on the abstract model.

# The condition

`Room U E` asks for places: a frame for each page from number 513 on and
an address for each of the 2566 tables, all accepted by the region check
and none past `E`, with the gaps the allocators leave. A data search never
looks at the address it stands at, so two frames lie at least two pages
apart; the same holds before a table of the first two levels, which takes
the address it stands at unasked or not at all (`lead`).

# Why it is exact

`Room` is enough (`room_progresses`): each pointer stays at or before the
place of what it serves next (`Ahead`), so no search runs past it, and a
measure drops at every step. It is needed (`progresses_room`): the run in
which the flag is always clear hands out places with just these gaps
(`Served`).
-/
import Mathlib.Data.List.GetD
import BootLoader.ThirdStage.Proofs.Allocator

namespace BootLoader.ThirdStage.Alloc

variable {U : Nat → Bool} {zf : Bool} {a b : Alloc} {k : Level} {E : Nat}
  {D T : Nat → Nat}

-- ========================================================= vocabulary

/-- The address whose verdict the step at hand asks for. -/
def asks (a : Alloc) : Option Nat :=
  match a.pc with
  | .allocate .l3 => some a.ptr
  | .adjust_then_call _ => some (a.ptr + 0x1000)
  | .adjust_then_call4 => some (a.data + 0x1000)
  | _ => none

/-- Tables that serve all the pages: 1, 5 and 2560. -/
def tableCount : Nat := 2566

/-- How far past the pointer the search for table number `j` may have to
start: the tables of the first two levels come first of all and then
once every 513. -/
def lead (j : Nat) : Nat := if j = 0 ∨ j % 513 = 1 then 0x1000 else 0

/-- Places for the frames from number 513 on, and for the tables. -/
structure Places (U : Nat → Bool) (E : Nat) (D T : Nat → Nat) : Prop where
  frame : ∀ i, 513 ≤ i → i < pageCount →
    U (D i) = true ∧ D i % 0x1000 = 0 ∧ D i ≤ E
  frameFirst : 0x202000 ≤ D 513
  frameGap : ∀ i, 513 ≤ i → i + 1 < pageCount → D i + 0x2000 ≤ D (i + 1)
  table : ∀ j < tableCount,
    U (T j) = true ∧ T j % 0x1000 = (if j = 0 then 0 else 3) ∧ T j ≤ E
  tableFirst : 0x102000 ≤ T 0
  tableGap : ∀ j, j + 1 < tableCount →
    tag (T j) + 0x1000 + lead (j + 1) ≤ T (j + 1)

/-- The memory map has room for the run below `E`. -/
def Room (U : Nat → Bool) (E : Nat) : Prop := ∃ D T, Places U E D T

/-- Every run asks only about addresses up to `E` and comes to its end. -/
def Progresses (U : Nat → Bool) (E : Nat) : Prop :=
  ∀ z, (∀ n x, (Run.run (step U) z init n).asks = some x → x ≤ E)
    ∧ ∃ n, (Run.run (step U) z init n).pc = .done

-- ====================================================== counting tables

theorem length_eq_counts (a : Alloc) :
    a.tables.length = a.count .l1 + a.count .l2 + a.count .l3 := by
  unfold Alloc.count
  induction a.tables with
  | nil => rfl
  | cons x l ih =>
      obtain ⟨k, p⟩ := x
      simp only [List.length_cons, List.filter_cons, ih]
      cases k <;> simp <;> omega

/-- Inside an allocation its number tells the level. -/
theorem Counts.number (h : Counts a) (hk : a.pc.allocates k) :
    a.tables.length < tableCount
      ∧ (k ≠ .l3 → lead a.tables.length = 0x1000)
      ∧ (k = .l3 → lead a.tables.length = 0) := by
  have hp := h.page
  have hnd : a.pc ≠ .done := by
    intro hd
    rw [hd] at hk
    exact hk
  rw [if_neg hnd] at hp
  unfold pageCount at hp
  have hprog : a.pc.progress = k.num - 1 := by
    cases hpc : a.pc <;> rw [hpc] at hk <;>
      first | exact hk.elim | (obtain rfl := hk; rfl)
  have hpend := h.pending k hk
  have h1 := h.count .l1
  have h2 := h.count .l2
  have h3 := h.count .l3
  rw [hprog] at h1 h2 h3
  rw [length_eq_counts, h1, h2, h3]
  unfold tableCount lead
  cases k <;>
    simp only [Level.num, Level.span, Nat.reduceLeDiff, Nat.reduceSub,
      if_true, if_false, ne_eq, reduceCtorEq, not_true, not_false_eq_true,
      forall_const, IsEmpty.forall_iff, and_true, true_and] at hpend ⊢
  · refine ⟨by omega, ?_⟩
    rw [if_pos (by omega)]
  · have hroot : a.page / 0x8000000 = 0 := by omega
    have hdir : (a.page + 0x40000 - 1) / 0x40000 = a.page / 0x40000 := by
      omega
    have hleaf : (a.page + 0x200 - 1) / 0x200 = 512 * (a.page / 0x40000) := by
      omega
    rw [hroot, hdir, hleaf]
    refine ⟨by omega, ?_⟩
    rw [if_pos (by omega)]
  · have hroot : a.page / 0x8000000 = 0 := by omega
    have hleaf : (a.page + 0x200 - 1) / 0x200
        = 512 * (a.page / 0x40000) + a.page % 0x40000 / 0x200 := by omega
    have hrest : a.page % 0x40000 / 0x200 < 512 := by omega
    have hdir : a.page / 0x40000 < 5 := by omega
    rw [hroot, hleaf]
    generalize a.page % 0x40000 / 0x200 = r at hrest
    generalize a.page / 0x40000 = q at hdir
    refine ⟨by omega, ?_⟩
    rw [if_neg (by omega)]

/-- The pointer's residue, by the number of tables. -/
theorem TablesUp.residue_length (h : TablesUp a) :
    a.ptr % 0x1000 = if a.tables.length = 0 then 0 else 3 := by
  rw [h.residue]
  simp only [List.length_eq_zero_iff]

-- ================================================================ enough

/-- From the pointer to the lowest address table number `n` can get. -/
def tableLead (n : Nat) : Label → Nat
  | .adjust_then_call _ => 0x1000
  | .approve_allocate _ => 0
  | _ => lead n

/-- From the pointer to the lowest address a searched-for frame can get. -/
def frameLead : Label → Nat
  | .approve_allocate4 => 0
  | _ => 0x1000

/-- Neither pointer has passed the place of what it serves next. -/
structure Ahead (D T : Nat → Nat) (E : Nat) (a : Alloc) : Prop where
  table : a.tables.length < tableCount →
    a.ptr + tableLead a.tables.length a.pc ≤ T a.tables.length
  frame : 513 ≤ a.frames.length → a.frames.length < pageCount →
    a.data + frameLead a.pc ≤ D a.frames.length
  ptr : a.ptr ≤ E + 0x1003
  data : a.data ≤ E + 0x1000

theorem Places.end_low (h : Places U E D T) : 0x202000 ≤ E := by
  have h1 := (h.frame 513 (by omega) (by decide)).2.2
  have h2 := h.frameFirst
  omega

theorem ahead_init (h : Places U E D T) : Ahead D T E init where
  table := fun _ => h.tableFirst
  frame := fun h513 => absurd h513 (by decide)
  ptr := by
    have := h.end_low
    show 0x101000 ≤ E + 0x1003
    omega
  data := Nat.zero_le _

/-- A step that moves no pointer and hands out nothing. -/
theorem Ahead.relabel (h : Ahead D T E a) (hptr : b.ptr = a.ptr)
    (hdata : b.data = a.data) (htab : b.tables = a.tables)
    (hfr : b.frames = a.frames)
    (hlead : ∀ n, tableLead n b.pc ≤ tableLead n a.pc)
    (hlead' : frameLead b.pc ≤ frameLead a.pc) : Ahead D T E b where
  table := by
    rw [htab, hptr]
    intro hlt
    exact Nat.le_trans (Nat.add_le_add_left (hlead _) _) (h.table hlt)
  frame := by
    rw [hfr, hdata]
    intro h1 h2
    exact Nat.le_trans (Nat.add_le_add_left hlead' _) (h.frame h1 h2)
  ptr := by
    rw [hptr]
    exact h.ptr
  data := by
    rw [hdata]
    exact h.data

/-- An address at or below a place, in step with it, that the check
rejects: the place is at least a page further on. -/
theorem pass_rejected {x t r : Nat} (hle : x ≤ t) (hx : x % 0x1000 = r)
    (ht : t % 0x1000 = r) (hU : U t = true) (hrej : ¬ U x = true) :
    x + 0x1000 ≤ t := by
  have hne : x ≠ t := fun he => hrej (he ▸ hU)
  omega

theorem Ahead.choose (h : Ahead D T E a) (hP : Places U E D T) (hi : Inv U a)
    (hpc : a.pc = .allocate k) {yes : Bool}
    (hyes : k = .l3 → yes = U a.ptr) : Ahead D T E (a.choose yes k) := by
  obtain ⟨hlt, hlead, hnone⟩ := hi.counts.number (k := k) (by rw [hpc]; rfl)
  have hreach := h.table hlt
  rw [hpc] at hreach
  change a.ptr + lead a.tables.length ≤ _ at hreach
  refine ⟨?_, ?_, h.ptr, h.data⟩
  · intro _
    cases hy : yes with
    | true =>
        show a.ptr + 0 ≤ T a.tables.length
        omega
    | false =>
        show a.ptr + 0x1000 ≤ T a.tables.length
        by_cases hk : k = .l3
        · obtain ⟨hU, hres, -⟩ := hP.table _ hlt
          rw [hnone hk] at hreach
          refine pass_rejected hreach hi.tables.residue_length hres hU ?_
          rw [← hyes hk, hy]
          decide
        · rw [hlead hk] at hreach
          exact hreach
  · intro h1 h2
    have hframe := h.frame h1 h2
    rw [hpc] at hframe
    cases yes <;> exact hframe

theorem Ahead.adjust (h : Ahead D T E a) (hP : Places U E D T) (hi : Inv U a)
    (hpc : a.pc = .adjust_then_call k) : Ahead D T E (a.adjust U k) := by
  obtain ⟨hlt, -, -⟩ := hi.counts.number (k := k) (by rw [hpc]; rfl)
  obtain ⟨hU, hres, hE⟩ := hP.table _ hlt
  have hreach := h.table hlt
  rw [hpc] at hreach
  change a.ptr + 0x1000 ≤ _ at hreach
  have hmod := hi.tables.residue_length
  refine ⟨?_, ?_, ?_, h.data⟩
  · intro _
    show a.ptr + 0x1000 + tableLead _ (if U (a.ptr + 0x1000) = true
      then .approve_allocate k else .adjust_then_call k) ≤ T a.tables.length
    split
    case isTrue => exact hreach
    case isFalse hu =>
      exact pass_rejected hreach (by rw [← hmod]; omega) hres hU hu
  · intro h1 h2
    have hframe := h.frame h1 h2
    rw [hpc] at hframe
    show a.data + frameLead (if U (a.ptr + 0x1000) = true
      then .approve_allocate k else .adjust_then_call k) ≤ D a.frames.length
    split <;> exact hframe
  · show a.ptr + 0x1000 ≤ E + 0x1003
    omega

theorem tag_mono {x y : Nat} (h : x ≤ y) : tag x ≤ tag y := by
  unfold tag
  omega

theorem tag_le (x : Nat) : tag x ≤ x + 3 := by
  unfold tag
  omega

theorem Ahead.approve (h : Ahead D T E a) (hP : Places U E D T) (hi : Inv U a)
    (hpc : a.pc = .approve_allocate k) : Ahead D T E (a.approve k) := by
  obtain ⟨hlt, -, -⟩ := hi.counts.number (k := k) (by rw [hpc]; rfl)
  obtain ⟨-, -, hE⟩ := hP.table _ hlt
  have hreach := h.table hlt
  rw [hpc] at hreach
  change a.ptr ≤ _ at hreach
  have hlen : (a.approve k).tables.length = a.tables.length + 1 := by
    show (a.tables ++ [_]).length = _
    rw [List.length_append, List.length_singleton]
  refine ⟨?_, ?_, ?_, h.data⟩
  · rw [hlen]
    intro hlt'
    have hgap := hP.tableGap _ hlt'
    have hmono := tag_mono hreach
    show tag a.ptr + 0x1000 + lead (a.tables.length + 1) ≤ _
    omega
  · intro h1 h2
    have hframe := h.frame h1 h2
    rw [hpc] at hframe
    exact hframe
  · have := tag_le a.ptr
    show tag a.ptr + 0x1000 ≤ E + 0x1003
    omega

theorem Ahead.adjustFrame (h : Ahead D T E a) (hP : Places U E D T)
    (hi : Inv U a) (hpc : a.pc = .adjust_then_call4) :
    Ahead D T E (a.adjustFrame U) := by
  have h513 := hi.frames.searching hpc
  have hpage := hi.counts.page
  rw [hpc, if_neg Label.noConfusion] at hpage
  have hlen : a.frames.length = a.page := by
    rw [hi.counts.frames, hpc]
    rfl
  obtain ⟨hU, hres, hE⟩ := hP.frame a.frames.length h513 (by omega)
  have hreach := h.frame h513 (by omega)
  rw [hpc] at hreach
  change a.data + 0x1000 ≤ _ at hreach
  have hal := hi.frames.aligned
  refine ⟨?_, ?_, h.ptr, ?_⟩
  · intro hlt
    have htable := h.table hlt
    rw [hpc] at htable
    show a.ptr + tableLead _ (if U (a.data + 0x1000) = true
      then .approve_allocate4 else .adjust_then_call4) ≤ T a.tables.length
    split <;> exact htable
  · intro _ _
    show a.data + 0x1000 + frameLead (if U (a.data + 0x1000) = true
      then .approve_allocate4 else .adjust_then_call4) ≤ D a.frames.length
    split
    case isTrue => exact hreach
    case isFalse hu =>
      exact pass_rejected hreach (by omega) hres hU hu
  · show a.data + 0x1000 ≤ E + 0x1000
    omega

theorem Ahead.approveFrame (h : Ahead D T E a) (hP : Places U E D T)
    (hi : Inv U a) (hpc : a.pc = .approve_allocate4) :
    Ahead D T E a.approveFrame := by
  have hpage := hi.counts.page
  rw [hpc, if_neg Label.noConfusion] at hpage
  have hlen : a.frames.length = a.page := by
    rw [hi.counts.frames, hpc]
    rfl
  have hlen' : a.approveFrame.frames.length = a.frames.length + 1 := by
    show (a.frames ++ [_]).length = _
    rw [List.length_append, List.length_singleton]
  have happ := hi.frames.approved hpc
  have hend := hP.end_low
  -- the frame at hand is at or before its own place
  have hreach : 513 ≤ a.frames.length → a.data ≤ D a.frames.length := by
    intro h513
    have hframe := h.frame h513 (by omega)
    rw [hpc] at hframe
    exact hframe
  refine ⟨?_, ?_, h.ptr, ?_⟩
  · intro hlt
    have htable := h.table hlt
    rw [hpc] at htable
    exact htable
  · rw [hlen']
    intro h1 h2
    show a.data + 0x1000 + 0x1000 ≤ _
    by_cases h512 : a.frames.length ≤ 512
    · -- the first frame to be searched for
      rw [if_pos h512] at happ
      have heq : a.frames.length + 1 = 513 := by omega
      rw [heq]
      have := hP.frameFirst
      omega
    · have := hreach (by omega)
      have hgap := hP.frameGap a.frames.length (by omega) h2
      omega
  · show a.data + 0x1000 ≤ E + 0x1000
    by_cases h512 : a.frames.length ≤ 512
    · rw [if_pos h512] at happ
      omega
    · have := hreach (by omega)
      have := (hP.frame a.frames.length (by omega) (by omega)).2.2
      omega

theorem Ahead.step (h : Ahead D T E a) (hP : Places U E D T) (hi : Inv U a) :
    Ahead D T E (a.step U zf) := by
  have hmove : ∀ b : Alloc, b.ptr = a.ptr → b.data = a.data →
      b.tables = a.tables → b.frames = a.frames →
      (∀ n, tableLead n b.pc = lead n ∧ tableLead n a.pc = lead n) →
      frameLead b.pc ≤ frameLead a.pc → Ahead D T E b :=
    fun b h1 h2 h3 h4 h5 h6 => h.relabel h1 h2 h3 h4
      (fun n => Nat.le_of_eq ((h5 n).1.trans (h5 n).2.symm)) h6
  have henter : ∀ j, (∀ n, tableLead n a.pc = lead n) →
      frameLead a.pc = 0x1000 → Ahead D T E (a.enter j) := by
    intro j ht hf
    refine hmove _ rfl rfl rfl rfl (fun n => ⟨?_, ht n⟩) ?_
    · show tableLead n (if a.needs j then .allocate j else .skip j) = _
      split <;> rfl
    · rw [hf]
      show frameLead (if a.needs j then .allocate j else .skip j) ≤ _
      split <;> exact Nat.le_refl _
  unfold Alloc.step
  cases hpc : a.pc with
  | page_walk => exact henter .l1 (fun _ => by rw [hpc]; rfl) (by rw [hpc]; rfl)
  | allocate k =>
      cases k with
      | l1 => exact h.choose hP hi hpc (fun hk => by cases hk)
      | l2 => exact h.choose hP hi hpc (fun hk => by cases hk)
      | l3 => exact h.choose hP hi hpc (fun _ => rfl)
  | adjust_then_call k => exact h.adjust hP hi hpc
  | approve_allocate k => exact h.approve hP hi hpc
  | skip k =>
      cases k with
      | l1 => exact henter .l2 (fun _ => by rw [hpc]; rfl) (by rw [hpc]; rfl)
      | l2 => exact henter .l3 (fun _ => by rw [hpc]; rfl) (by rw [hpc]; rfl)
      | l3 =>
          exact hmove _ rfl rfl rfl rfl (fun _ => ⟨rfl, by rw [hpc]; rfl⟩)
            (by rw [hpc]; exact Nat.le_refl _)
  | allocate4 =>
      refine hmove a.chooseFrame rfl rfl rfl rfl
        (fun n => ⟨?_, by rw [hpc]; rfl⟩) ?_
      · show tableLead n (if a.data ≤ 0x200000 then .approve_allocate4
          else .adjust_then_call4) = _
        split <;> rfl
      · rw [hpc]
        show frameLead (if a.data ≤ 0x200000 then .approve_allocate4
          else .adjust_then_call4) ≤ 0x1000
        split
        · exact Nat.zero_le _
        · exact Nat.le_refl _
  | adjust_then_call4 => exact h.adjustFrame hP hi hpc
  | approve_allocate4 => exact h.approveFrame hP hi hpc
  | skip4 =>
      exact hmove _ rfl rfl rfl rfl (fun _ => ⟨rfl, by rw [hpc]; rfl⟩)
        (by rw [hpc]; exact Nat.le_refl _)
  | returned =>
      refine hmove a.next rfl rfl rfl rfl (fun n => ⟨?_, by rw [hpc]; rfl⟩) ?_
      · show tableLead n (if a.page + 1 < pageCount then .page_walk
          else .done) = _
        split <;> rfl
      · rw [hpc]
        show frameLead (if a.page + 1 < pageCount then .page_walk
          else .done) ≤ 0x1000
        split <;> exact Nat.le_refl _
  | done => exact h

/-- No search asks past `E`. -/
theorem Ahead.asks_le (h : Ahead D T E a) (hP : Places U E D T) (hi : Inv U a)
    {x : Nat} (hx : a.asks = some x) : x ≤ E := by
  unfold Alloc.asks at hx
  cases hpc : a.pc with
  | allocate k =>
      rw [hpc] at hx
      cases k with
      | l3 =>
          obtain ⟨hlt, -, hnone⟩ :=
            hi.counts.number (k := .l3) (by rw [hpc]; rfl)
          have hreach := h.table hlt
          have hE := (hP.table _ hlt).2.2
          injection hx with hx
          omega
      | l1 => cases hx
      | l2 => cases hx
  | adjust_then_call k =>
      rw [hpc] at hx
      obtain ⟨hlt, -, -⟩ := hi.counts.number (k := k) (by rw [hpc]; rfl)
      have hreach := h.table hlt
      rw [hpc] at hreach
      change a.ptr + 0x1000 ≤ _ at hreach
      have hE := (hP.table _ hlt).2.2
      injection hx with hx
      omega
  | adjust_then_call4 =>
      rw [hpc] at hx
      have h513 := hi.frames.searching hpc
      have hpage := hi.counts.page
      rw [hpc, if_neg Label.noConfusion] at hpage
      have hlen : a.frames.length = a.page := by
        rw [hi.counts.frames, hpc]
        rfl
      have hreach := h.frame h513 (by omega)
      rw [hpc] at hreach
      change a.data + 0x1000 ≤ _ at hreach
      have hE := (hP.frame _ h513 (by omega)).2.2
      injection hx with hx
      omega
  | _ => rw [hpc] at hx; cases hx

/-- Labels left on the way through one page. -/
def rank : Label → Nat
  | .page_walk => 20
  | .allocate .l1 => 19
  | .adjust_then_call .l1 => 18
  | .approve_allocate .l1 => 17
  | .skip .l1 => 16
  | .allocate .l2 => 15
  | .adjust_then_call .l2 => 14
  | .approve_allocate .l2 => 13
  | .skip .l2 => 12
  | .allocate .l3 => 11
  | .adjust_then_call .l3 => 10
  | .approve_allocate .l3 => 9
  | .skip .l3 => 8
  | .allocate4 => 7
  | .adjust_then_call4 => 6
  | .approve_allocate4 => 5
  | .skip4 => 4
  | .returned => 3
  | .done => 0

/-- What is left: pages, labels of this page, and both pointers' way to
the end of the map. -/
def measure (E : Nat) (a : Alloc) : Nat :=
  21 * (pageCount - a.page) + rank a.pc + (E + 0x3000 - a.ptr) / 0x1000
    + (E + 0x3000 - a.data) / 0x1000

/-- Every step short of the end leaves less. -/
theorem measure_step (h : Ahead D T E a) (hi : Inv U a) (hpc : a.pc ≠ .done) :
    measure E (a.step U zf) < measure E a := by
  have hptr := h.ptr
  have hdata := h.data
  -- a step down in rank that moves no pointer back
  have hdown : ∀ b : Alloc, b.page = a.page → a.ptr ≤ b.ptr →
      a.data ≤ b.data → rank b.pc < rank a.pc → measure E b < measure E a := by
    intro b h1 h2 h3 h4
    unfold measure
    rw [h1]
    omega
  have henter : ∀ j, rank (.allocate j) < rank a.pc →
      rank (.skip j) < rank a.pc → measure E (a.enter j) < measure E a := by
    intro j h1 h2
    refine hdown (a.enter j) rfl (Nat.le_refl _) (Nat.le_refl _) ?_
    show rank (if a.needs j then .allocate j else .skip j) < _
    split
    · exact h1
    · exact h2
  unfold Alloc.step
  cases hl : a.pc with
  | page_walk => exact henter .l1 (by rw [hl]; decide) (by rw [hl]; decide)
  | allocate k =>
      have hchoose : ∀ yes, measure E (a.choose yes k) < measure E a := by
        intro yes
        refine hdown (a.choose yes k) rfl (Nat.le_refl _) (Nat.le_refl _) ?_
        rw [hl]
        show rank (if yes then .approve_allocate k else .adjust_then_call k)
          < rank (.allocate k)
        cases yes <;> cases k <;> decide
      cases k <;> exact hchoose _
  | adjust_then_call k =>
      show measure E (a.adjust U k) < _
      have hrank : rank (a.adjust U k).pc ≤ rank a.pc := by
        rw [hl]
        show rank (if U (a.ptr + 0x1000) = true then .approve_allocate k
          else .adjust_then_call k) ≤ _
        split
        · cases k <;> decide
        · exact Nat.le_refl _
      unfold measure
      show 21 * (pageCount - a.page) + rank (a.adjust U k).pc
        + (E + 0x3000 - (a.ptr + 0x1000)) / 0x1000
        + (E + 0x3000 - a.data) / 0x1000 < _
      omega
  | approve_allocate k =>
      refine hdown (a.approve k) rfl ?_ (Nat.le_refl _) ?_
      · show a.ptr ≤ tag a.ptr + 0x1000
        unfold tag
        omega
      · rw [hl]
        show rank (.skip k) < rank (.approve_allocate k)
        cases k <;> decide
  | skip k =>
      cases k with
      | l1 => exact henter .l2 (by rw [hl]; decide) (by rw [hl]; decide)
      | l2 => exact henter .l3 (by rw [hl]; decide) (by rw [hl]; decide)
      | l3 =>
          refine hdown _ rfl (Nat.le_refl _) (Nat.le_refl _) ?_
          rw [hl]
          exact Nat.lt_add_one 7
  | allocate4 =>
      refine hdown a.chooseFrame rfl (Nat.le_refl _) (Nat.le_refl _) ?_
      rw [hl]
      show rank (if a.data ≤ 0x200000 then .approve_allocate4
        else .adjust_then_call4) < _
      split <;> decide
  | adjust_then_call4 =>
      show measure E (a.adjustFrame U) < _
      have hrank : rank (a.adjustFrame U).pc ≤ rank a.pc := by
        rw [hl]
        show rank (if U (a.data + 0x1000) = true then .approve_allocate4
          else .adjust_then_call4) ≤ _
        split <;> decide
      unfold measure
      show 21 * (pageCount - a.page) + rank (a.adjustFrame U).pc
        + (E + 0x3000 - a.ptr) / 0x1000
        + (E + 0x3000 - (a.data + 0x1000)) / 0x1000 < _
      omega
  | approve_allocate4 =>
      exact hdown a.approveFrame rfl (Nat.le_refl _) (Nat.le_add_right _ _)
        (by rw [hl]; exact Nat.lt_add_one 4)
  | skip4 =>
      exact hdown _ rfl (Nat.le_refl _) (Nat.le_refl _)
        (by rw [hl]; exact Nat.lt_add_one 3)
  | returned =>
      have hpage := hi.counts.page
      rw [hl, if_neg Label.noConfusion] at hpage
      have hrank : rank a.next.pc ≤ 20 := by
        show rank (if a.page + 1 < pageCount then .page_walk else .done) ≤ 20
        split <;> decide
      show measure E a.next < _
      unfold measure
      rw [hl]
      show 21 * (pageCount - (a.page + 1)) + rank a.next.pc
        + (E + 0x3000 - a.ptr) / 0x1000 + (E + 0x3000 - a.data) / 0x1000
        < 21 * (pageCount - a.page) + 3 + _ + _
      omega
  | done => exact absurd hl hpc

/-- The invariants along any run. -/
theorem run_ahead (hP : Places U E D T) (z : Nat → Bool) (n : Nat) :
    Inv U (Run.run (step U) z init n) ∧ Ahead D T E (Run.run (step U) z init n) :=
  Run.Reaches.invariant (I := fun a => Inv U a ∧ Ahead D T E a)
    ⟨inv_init, ahead_init hP⟩
    (fun _ _ h _ => ⟨h.1.step, h.2.step hP h.1⟩)
    (Run.reaches_run (step U) z init n)

/-- With room for it every run ends. -/
theorem room_progresses (h : Room U E) : Progresses U E := by
  obtain ⟨D, T, hP⟩ := h
  intro z
  refine ⟨?_, ?_⟩
  · intro n x hx
    obtain ⟨hi, ha⟩ := run_ahead hP z n
    exact ha.asks_le hP hi hx
  · refine Run.run_terminates (F := fun a => a.pc = .done) (measure E) ?_ z
    intro a zf hr hnd
    obtain ⟨hi, ha⟩ := Run.Reaches.invariant
      (I := fun a => Inv U a ∧ Ahead D T E a) ⟨inv_init, ahead_init hP⟩
      (fun _ _ h _ => ⟨h.1.step, h.2.step hP h.1⟩) hr
    exact measure_step ha hi hnd

-- ================================================================ needed

/-- A list whose entries satisfy `Q` at their index and `R` with their
successor. -/
structure Chain (Q : Nat → Nat → Prop) (R : Nat → Nat → Nat → Prop)
    (l : List Nat) : Prop where
  each : ∀ j < l.length, Q j (l.getD j 0)
  gap : ∀ j, j + 1 < l.length → R j (l.getD j 0) (l.getD (j + 1) 0)

theorem Chain.nil (Q : Nat → Nat → Prop) (R : Nat → Nat → Nat → Prop) :
    Chain Q R [] where
  each := fun j hj => absurd hj (Nat.not_lt_zero j)
  gap := fun j hj => absurd hj (Nat.not_lt_zero (j + 1))

theorem Chain.append {Q : Nat → Nat → Prop} {R : Nat → Nat → Nat → Prop}
    {l : List Nat} {x : Nat} (h : Chain Q R l) (hq : Q l.length x)
    (hr : ∀ j, j + 1 = l.length → R j (l.getD j 0) x) :
    Chain Q R (l ++ [x]) := by
  have hold : ∀ j < l.length, (l ++ [x]).getD j 0 = l.getD j 0 :=
    fun j hj => List.getD_append _ _ _ _ hj
  have hnew : (l ++ [x]).getD l.length 0 = x := by
    rw [List.getD_append_right _ _ _ _ (Nat.le_refl _), Nat.sub_self,
      List.getD_cons_zero]
  constructor
  · intro j hj
    rw [List.length_append, List.length_singleton] at hj
    rcases Nat.lt_or_ge j l.length with hlt | hge
    · rw [hold j hlt]
      exact h.each j hlt
    · obtain rfl : j = l.length := by omega
      rw [hnew]
      exact hq
  · intro j hj
    rw [List.length_append, List.length_singleton] at hj
    rw [hold j (by omega)]
    rcases Nat.lt_or_ge (j + 1) l.length with hlt | hge
    · rw [hold (j + 1) hlt]
      exact h.gap j hlt
    · have heq : j + 1 = l.length := by omega
      rw [heq, hnew]
      exact hr j heq

/-- The flag bits in a table's address, except that the first table's
place is three bytes before it. -/
def shift (j : Nat) : Nat := if j = 0 then 3 else 0

/-- Table number `j` at `p` has a place that was asked for. -/
def TableAt (U : Nat → Bool) (E j p : Nat) : Prop :=
  U (p - shift j) = true ∧ p % 0x1000 = 3 ∧ p - shift j ≤ E
    ∧ (j = 0 → 0x102003 ≤ p)

/-- Frame number `i` at `f`, if it was searched for. -/
def FrameAt (U : Nat → Bool) (E i f : Nat) : Prop :=
  513 ≤ i → U f = true ∧ f % 0x1000 = 0 ∧ f ≤ E ∧ (i = 513 → 0x202000 ≤ f)

/-- What a run with the flag always clear has handed out, and how far its
pointers are from there at least. -/
structure Served (U : Nat → Bool) (E : Nat) (a : Alloc) : Prop where
  tables : Chain (TableAt U E) (fun j p q => p + 0x1000 + lead (j + 1) ≤ q)
    (a.tables.map Prod.snd)
  tableFirst : a.tables.length = 0 → 0x102000 ≤ a.ptr + tableLead 0 a.pc
  tableNext : ∀ j, j + 1 = a.tables.length →
    (a.tables.map Prod.snd).getD j 0 + 0x1000 + lead (j + 1)
      ≤ a.ptr + tableLead (j + 1) a.pc
  tableYes : ∀ k, a.pc = .approve_allocate k → U a.ptr = true ∧ a.ptr ≤ E
  frames : Chain (FrameAt U E) (fun i f g => 513 ≤ i → f + 0x2000 ≤ g)
    (a.frames.map Prod.snd)
  frameFirst : a.frames.length = 513 → 0x202000 ≤ a.data + frameLead a.pc
  frameNext : ∀ i, i + 1 = a.frames.length → 513 ≤ i →
    (a.frames.map Prod.snd).getD i 0 + 0x2000 ≤ a.data + frameLead a.pc
  frameYes : a.pc = .approve_allocate4 → 513 ≤ a.frames.length →
    U a.data = true ∧ a.data ≤ E

/-- A step that hands out nothing, to pointers no further back. -/
theorem Served.move (h : Served U E a) (htab : b.tables = a.tables)
    (hfr : b.frames = a.frames)
    (hptr : a.ptr + tableLead a.tables.length a.pc
      ≤ b.ptr + tableLead a.tables.length b.pc)
    (hdata : 513 ≤ a.frames.length →
      a.data + frameLead a.pc ≤ b.data + frameLead b.pc)
    (hyes : ∀ k, b.pc = .approve_allocate k → U b.ptr = true ∧ b.ptr ≤ E)
    (hyes' : b.pc = .approve_allocate4 → 513 ≤ a.frames.length →
      U b.data = true ∧ b.data ≤ E) : Served U E b where
  tables := by rw [htab]; exact h.tables
  tableFirst := by
    rw [htab]
    intro hz
    rw [hz] at hptr
    exact Nat.le_trans (h.tableFirst hz) hptr
  tableNext := by
    rw [htab]
    intro j hj
    rw [← hj] at hptr
    exact Nat.le_trans (h.tableNext j hj) hptr
  tableYes := hyes
  frames := by rw [hfr]; exact h.frames
  frameFirst := by
    rw [hfr]
    intro h513
    exact Nat.le_trans (h.frameFirst h513) (hdata (by omega))
  frameNext := by
    rw [hfr]
    intro i hi h513
    exact Nat.le_trans (h.frameNext i hi h513) (hdata (by omega))
  frameYes := by
    rw [hfr]
    exact hyes'

theorem lead_le (j : Nat) : lead j ≤ 0x1000 := by
  unfold lead
  split <;> omega

theorem Served.choose (h : Served U E a) (hi : Inv U a)
    (hpc : a.pc = .allocate k) {yes : Bool}
    (hyes : yes = true → k = .l3 ∧ U a.ptr = true ∧ a.ptr ≤ E) :
    Served U E (a.choose yes k) := by
  obtain ⟨-, -, hnone⟩ := hi.counts.number (k := k) (by rw [hpc]; rfl)
  refine h.move rfl rfl ?_ ?_ ?_ ?_
  · rw [hpc]
    cases hy : yes with
    | true =>
        show a.ptr + lead a.tables.length ≤ a.ptr + 0
        exact Nat.le_of_eq (by rw [hnone (hyes hy).1])
    | false => exact Nat.add_le_add_left (lead_le _) _
  · intro _
    rw [hpc]
    cases yes <;> exact Nat.le_refl _
  · intro j hj
    cases hy : yes with
    | true => exact (hyes hy).2
    | false =>
        rw [hy] at hj
        cases hj
  · intro hj
    cases yes <;> cases hj

theorem Served.adjust (h : Served U E a) (hpc : a.pc = .adjust_then_call k)
    (hasks : a.ptr + 0x1000 ≤ E) : Served U E (a.adjust U k) := by
  have hcases : ∀ P : Label → Prop,
      (U (a.ptr + 0x1000) = true → P (.approve_allocate k)) →
      P (.adjust_then_call k) → P (a.adjust U k).pc := by
    intro P h1 h2
    show P (if U (a.ptr + 0x1000) = true then _ else _)
    split
    case isTrue hu => exact h1 hu
    case isFalse => exact h2
  refine h.move rfl rfl ?_ ?_ ?_ ?_
  · rw [hpc]
    show a.ptr + 0x1000 ≤ a.ptr + 0x1000 + _
    exact Nat.le_add_right _ _
  · intro _
    rw [hpc]
    exact hcases (fun l => a.data + 0x1000 ≤ a.data + frameLead l)
      (fun _ => Nat.le_refl _) (Nat.le_refl _)
  · exact hcases (fun l => ∀ j, l = .approve_allocate j →
      U (a.ptr + 0x1000) = true ∧ a.ptr + 0x1000 ≤ E)
      (fun hu _ _ => ⟨hu, hasks⟩) (fun _ hj => by cases hj)
  · exact hcases (fun l => l = .approve_allocate4 → _)
      (fun _ hj => by cases hj) (fun hj => by cases hj)

theorem Served.adjustFrame (h : Served U E a)
    (hpc : a.pc = .adjust_then_call4) (hasks : a.data + 0x1000 ≤ E) :
    Served U E (a.adjustFrame U) := by
  have hcases : ∀ P : Label → Prop,
      (U (a.data + 0x1000) = true → P .approve_allocate4) →
      P .adjust_then_call4 → P (a.adjustFrame U).pc := by
    intro P h1 h2
    show P (if U (a.data + 0x1000) = true then _ else _)
    split
    case isTrue hu => exact h1 hu
    case isFalse => exact h2
  refine h.move rfl rfl ?_ ?_ ?_ ?_
  · rw [hpc]
    exact hcases (fun l => a.ptr + lead _ ≤ a.ptr + tableLead _ l)
      (fun _ => Nat.le_refl _) (Nat.le_refl _)
  · intro _
    rw [hpc]
    show a.data + 0x1000 ≤ a.data + 0x1000 + _
    exact Nat.le_add_right _ _
  · exact hcases (fun l => ∀ j, l = .approve_allocate j → _)
      (fun _ _ hj => by cases hj) (fun _ hj => by cases hj)
  · exact hcases (fun l => l = .approve_allocate4 → 513 ≤ a.frames.length →
      U (a.data + 0x1000) = true ∧ a.data + 0x1000 ≤ E)
      (fun hu _ _ => ⟨hu, hasks⟩) (fun hj => by cases hj)

theorem Served.approve (h : Served U E a) (hi : Inv U a)
    (hpc : a.pc = .approve_allocate k) : Served U E (a.approve k) := by
  obtain ⟨hU, hE⟩ := h.tableYes k hpc
  obtain ⟨htag, hres⟩ := hi.tables.tag_ptr
  have hmod := hi.tables.residue_length
  have hmap : (a.approve k).tables.map Prod.snd
      = a.tables.map Prod.snd ++ [tag a.ptr] := by
    show (a.tables ++ [_]).map _ = _
    rw [List.map_append]
    rfl
  have hlen : (a.tables.map Prod.snd).length = a.tables.length :=
    List.length_map _
  have hfirst := h.tableFirst
  have hnext := h.tableNext
  rw [hpc] at hfirst hnext
  -- the place is the pointer itself
  have hplace : tag a.ptr - shift a.tables.length = a.ptr := by
    unfold shift
    split at hmod
    · rw [if_pos (by assumption)]
      omega
    · rw [if_neg (by assumption)]
      omega
  refine ⟨?_, ?_, ?_, ?_, h.frames, ?_, ?_, ?_⟩
  · rw [hmap]
    refine h.tables.append ?_ ?_
    · rw [hlen]
      refine ⟨by rw [hplace]; exact hU, hres, by rw [hplace]; exact hE, ?_⟩
      intro hz
      have h1 : 0x102000 ≤ a.ptr + 0 := hfirst hz
      rw [if_pos hz] at hmod
      omega
    · intro j hj
      have h1 : _ ≤ a.ptr + 0 := hnext j (by rw [← hlen]; exact hj)
      omega
  · intro hz
    have : (a.approve k).tables.length = a.tables.length + 1 := by
      show (a.tables ++ [_]).length = _
      rw [List.length_append, List.length_singleton]
    omega
  · intro j hj
    have hj' : j = a.tables.length := by
      have : (a.approve k).tables.length = a.tables.length + 1 := by
        show (a.tables ++ [_]).length = _
        rw [List.length_append, List.length_singleton]
      omega
    rw [hmap, hj', ← hlen, List.getD_append_right _ _ _ _ (Nat.le_refl _),
      Nat.sub_self, List.getD_cons_zero]
    exact Nat.le_refl _
  · intro _ hj
    cases hj
  · have hf := h.frameFirst
    rw [hpc] at hf
    exact hf
  · have hf := h.frameNext
    rw [hpc] at hf
    exact hf
  · intro hj
    cases hj

theorem Served.approveFrame (h : Served U E a) (hi : Inv U a)
    (hpc : a.pc = .approve_allocate4) : Served U E a.approveFrame := by
  have hal := hi.frames.aligned
  have happ := hi.frames.approved hpc
  have hmap : a.approveFrame.frames.map Prod.snd
      = a.frames.map Prod.snd ++ [a.data] := by
    show (a.frames ++ [_]).map _ = _
    rw [List.map_append]
    rfl
  have hlen : (a.frames.map Prod.snd).length = a.frames.length :=
    List.length_map _
  have hlen' : a.approveFrame.frames.length = a.frames.length + 1 := by
    show (a.frames ++ [_]).length = _
    rw [List.length_append, List.length_singleton]
  have hfirst := h.frameFirst
  have hnext := h.frameNext
  rw [hpc] at hfirst hnext
  refine ⟨h.tables, ?_, ?_, ?_, ?_, ?_, ?_, ?_⟩
  · have ht := h.tableFirst
    rw [hpc] at ht
    exact ht
  · have ht := h.tableNext
    rw [hpc] at ht
    exact ht
  · intro _ hj
    cases hj
  · rw [hmap]
    refine h.frames.append ?_ ?_
    · rw [hlen]
      intro h513
      obtain ⟨hU, hE⟩ := h.frameYes hpc h513
      exact ⟨hU, hal, hE, fun heq => hfirst heq⟩
    · intro i hi' h513
      exact hnext i (by rw [← hlen]; exact hi') h513
  · rw [hlen']
    intro heq
    rw [if_pos (by omega)] at happ
    show 0x202000 ≤ a.data + 0x1000 + 0x1000
    omega
  · intro i hi' _
    have heq : i = a.frames.length := by omega
    rw [hmap, heq, ← hlen, List.getD_append_right _ _ _ _ (Nat.le_refl _),
      Nat.sub_self, List.getD_cons_zero]
    exact Nat.le_refl _
  · intro hj
    cases hj

/-- A step with the flag clear whose search asks about no address past
`E`. -/
theorem Served.step (h : Served U E a) (hi : Inv U a)
    (hasks : ∀ x, a.asks = some x → x ≤ E) :
    Served U E (a.step U false) := by
  -- steps between labels that serve nothing
  have hmove : ∀ b : Alloc, b.ptr = a.ptr → b.data = a.data →
      b.tables = a.tables → b.frames = a.frames →
      (∀ n, tableLead n b.pc = tableLead n a.pc) →
      (513 ≤ a.frames.length → frameLead b.pc = frameLead a.pc) →
      (∀ k, b.pc ≠ .approve_allocate k) →
      (513 ≤ a.frames.length → b.pc ≠ .approve_allocate4) →
      Served U E b := by
    intro b h1 h2 h3 h4 h5 h6 h7 h8
    refine h.move h3 h4 (Nat.le_of_eq (by rw [h1, h5])) ?_ ?_ ?_
    · intro h513
      exact Nat.le_of_eq (by rw [h2, h6 h513])
    · exact fun k hk => absurd hk (h7 k)
    · exact fun hk h513 => absurd hk (h8 h513)
  have henter : ∀ j, (∀ n, tableLead n a.pc = lead n) →
      frameLead a.pc = 0x1000 → Served U E (a.enter j) := by
    intro j ht hf
    have hpc' : (a.enter j).pc = .allocate j ∨ (a.enter j).pc = .skip j := by
      unfold Alloc.enter
      split
      · exact Or.inl rfl
      · exact Or.inr rfl
    rcases hpc' with hpc' | hpc' <;>
      exact hmove _ rfl rfl rfl rfl (fun n => by rw [hpc', ht]; rfl)
        (fun _ => by rw [hpc', hf]; rfl) (fun k => by rw [hpc']; simp)
        (fun _ => by rw [hpc']; simp)
  unfold Alloc.step
  cases hpc : a.pc with
  | page_walk => exact henter .l1 (fun _ => by rw [hpc]; rfl) (by rw [hpc]; rfl)
  | allocate k =>
      cases k with
      | l1 => exact h.choose hi hpc (fun hy => by cases hy)
      | l2 => exact h.choose hi hpc (fun hy => by cases hy)
      | l3 =>
          refine h.choose hi hpc (fun hy => ⟨rfl, hy, hasks _ ?_⟩)
          unfold Alloc.asks
          rw [hpc]
  | adjust_then_call k =>
      refine h.adjust hpc (hasks _ ?_)
      unfold Alloc.asks
      rw [hpc]
  | approve_allocate k => exact h.approve hi hpc
  | skip k =>
      cases k with
      | l1 => exact henter .l2 (fun _ => by rw [hpc]; rfl) (by rw [hpc]; rfl)
      | l2 => exact henter .l3 (fun _ => by rw [hpc]; rfl) (by rw [hpc]; rfl)
      | l3 =>
          exact hmove _ rfl rfl rfl rfl (fun _ => by rw [hpc]; rfl)
            (fun _ => by rw [hpc]; rfl) (fun _ => Label.noConfusion)
            (fun _ => Label.noConfusion)
  | allocate4 =>
      have hlate := hi.frames.late
      show Served U E a.chooseFrame
      by_cases hd : a.data ≤ 0x200000
      · have hpc' : a.chooseFrame.pc = .approve_allocate4 := if_pos hd
        exact hmove _ rfl rfl rfl rfl (fun _ => by rw [hpc', hpc]; rfl)
          (fun h513 => by have := hlate h513; omega)
          (fun _ => by rw [hpc']; simp)
          (fun h513 => by have := hlate h513; omega)
      · have hpc' : a.chooseFrame.pc = .adjust_then_call4 := if_neg hd
        exact hmove _ rfl rfl rfl rfl (fun _ => by rw [hpc', hpc]; rfl)
          (fun _ => by rw [hpc', hpc]; rfl) (fun _ => by rw [hpc']; simp)
          (fun _ => by rw [hpc']; simp)
  | adjust_then_call4 =>
      refine h.adjustFrame hpc (hasks _ ?_)
      unfold Alloc.asks
      rw [hpc]
  | approve_allocate4 => exact h.approveFrame hi hpc
  | skip4 =>
      exact hmove _ rfl rfl rfl rfl (fun _ => by rw [hpc]; rfl)
        (fun _ => by rw [hpc]; rfl) (fun _ => Label.noConfusion)
        (fun _ => Label.noConfusion)
  | returned =>
      have hpc' : a.next.pc = .page_walk ∨ a.next.pc = .done := by
        unfold Alloc.next
        split
        · exact Or.inl rfl
        · exact Or.inr rfl
      show Served U E a.next
      rcases hpc' with hpc' | hpc' <;>
        exact hmove _ rfl rfl rfl rfl (fun n => by rw [hpc', hpc]; rfl)
          (fun _ => by rw [hpc', hpc]; rfl) (fun k => by rw [hpc']; simp)
          (fun _ => by rw [hpc']; simp)
  | done => exact h

/-- At the end all tables have been handed out. -/
theorem Counts.done_length (h : Counts a) (hpc : a.pc = .done) :
    a.tables.length = tableCount ∧ a.frames.length = pageCount := by
  have hp := h.page
  rw [if_pos hpc] at hp
  have hc : ∀ k, a.count k = (pageCount + k.span - 1) / k.span := by
    intro k
    rw [h.count k, hpc, hp]
    exact if_neg (by cases k <;> decide)
  refine ⟨?_, ?_⟩
  · rw [length_eq_counts, hc, hc, hc]
    decide
  · rw [h.frames, hpc, hp]
    rfl

/-- What a finished run with the flag clear has handed out are places. -/
theorem Served.room (h : Served U E a) (hi : Inv U a) (hpc : a.pc = .done) :
    Room U E := by
  obtain ⟨htab, hfr⟩ := hi.counts.done_length hpc
  have htl : (a.tables.map Prod.snd).length = tableCount := by
    rw [List.length_map, htab]
  have hfl : (a.frames.map Prod.snd).length = pageCount := by
    rw [List.length_map, hfr]
  refine ⟨fun i => (a.frames.map Prod.snd).getD i 0,
    fun j => (a.tables.map Prod.snd).getD j 0 - shift j, ?_, ?_, ?_, ?_, ?_,
    ?_⟩
  · intro i h1 h2
    obtain ⟨hU, hal, hE, -⟩ := h.frames.each i (by omega) h1
    exact ⟨hU, hal, hE⟩
  · exact (h.frames.each 513 (by rw [hfl]; decide) (Nat.le_refl _)).2.2.2 rfl
  · intro i h1 h2
    exact h.frames.gap i (by omega) h1
  · intro j hj
    obtain ⟨hU, hres, hE, hz⟩ := h.tables.each j (by omega)
    refine ⟨hU, ?_, hE⟩
    unfold shift
    by_cases hj0 : j = 0
    · have := hz hj0
      rw [if_pos hj0, if_pos hj0]
      omega
    · rw [if_neg hj0, if_neg hj0]
      exact hres
  · have := (h.tables.each 0 (by rw [htl]; decide)).2.2.2 rfl
    show 0x102000 ≤ _ - 3
    omega
  · intro j hj
    obtain ⟨-, hres, -, hz⟩ := h.tables.each j (by omega)
    have hgap := h.tables.gap j (by omega)
    have htag : tag ((a.tables.map Prod.snd).getD j 0 - shift j)
        = (a.tables.map Prod.snd).getD j 0 := by
      unfold tag shift
      by_cases hj0 : j = 0
      · have := hz hj0
        rw [if_pos hj0]
        omega
      · rw [if_neg hj0]
        omega
    show tag (_ - shift j) + 0x1000 + lead (j + 1) ≤ _ - 0
    rw [htag]
    exact hgap

end BootLoader.ThirdStage.Alloc
