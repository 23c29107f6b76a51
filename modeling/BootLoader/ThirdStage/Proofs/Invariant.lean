/-
What holds at every label of the big page table run, on the machine.

# The invariant

`Held` ties the machine to its history. The tables the run has stored
form a tree in memory (`Forest`, with the lists of `Boot.lst`), all of it
below the table pointer RCX; the memory map is as it was; and the index
registers R13 to R10 hold, level by level, the address of the page's
entry where the walk has been and its bare index where it has not
(`Cursors`).

A table pointer keeps its flag bits, and the walk adds indices to it as it
is. So a table is the 4096 bytes from its pointer, three bytes past the
page that was cleared for it. The pages behind the first one line up,
because RCX keeps the three bytes too; the first, cleared at an aligned
RCX, has a last slot that hangs out of its cleared page (`slack`), which
no page below 0x140000000 uses, and a first byte before its first slot
that nobody writes (`Core.hole`).
-/
import BootLoader.Lib.RadixTables
import BootLoader.ThirdStage.Proofs.Allocator
import BootLoader.ThirdStage.Proofs.ClearPage
import BootLoader.ThirdStage.Proofs.MemRegions
import BootLoader.ThirdStage.Proofs.VideoFrame

namespace BootLoader.ThirdStage

open FlatMemory RadixTables Words

-- ================================================================ levels

/-- Virtual pages that one slot of depth `l` stands for. -/
def span : Nat → Nat
  | 1 => 0x8000000
  | 2 => 0x40000
  | 3 => 0x200
  | _ => 1

/-- The register that leads to the slot of depth `l`. -/
def slotReg : Nat → Reg
  | 1 => .r13
  | 2 => .r12
  | 3 => .r11
  | _ => .r10

/-- The depth whose register the label works on. -/
def Label.cursor : Label → Nat
  | .page_walk => 0
  | .allocate k | .adjust_then_call k | .approve_allocate k | .skip k => k.num
  | .allocate4 | .adjust_then_call4 | .approve_allocate4 => 4
  | _ => 5

/-- Slots the tree does not account for: one at the end of the first
table. -/
def slack (k : Nat) : Nat := if k = 1 then 1 else 0

/-- The tables allocation `k` has stored. -/
def Boot.tablesOf (s : Boot) (k : Level) : List (BitVec 64) :=
  (s.tables.filter fun x => x.1 = k).map Prod.snd

/-- The tree of the run: the root, the three levels of tables, the
frames. -/
def Boot.lst (s : Boot) : Nat → List (BitVec 64)
  | 0 => [0x100000#64]
  | 1 => s.tablesOf .l1
  | 2 => s.tablesOf .l2
  | 3 => s.tablesOf .l3
  | 4 => s.frames.map Prod.snd
  | _ => []

-- ============================================================= invariants

/-- The memory side: stack, memory map and tree. -/
structure Core (m₀ : Mem) (lst : Nat → List (BitVec 64)) (c : Cpu) : Prop where
  stack : StackOk c
  map : Mem.AgreeOn m₀ c.mem 0x20000 0xB0000
  forest : Forest c.mem 4 slack lst 0x100000 (c.reg .rcx).toNat
  hole : ∀ p ∈ lst 1, 0x101003 ≤ p.toNat ∧ c.mem (p - 3#64) = 0

/-- The register side: at depth `cur` an address, below it indices. -/
structure Cursors (lst : Nat → List (BitVec 64)) (page cur : Nat)
    (reg : Reg → BitVec 64) : Prop where
  slot : ∀ l, l = cur → 1 ≤ l → l ≤ 4 →
    reg (slotReg l) = slotAddr (lst (l - 1)) (page / span l)
  rest : ∀ l, 0 < cur → cur < l → l ≤ 4 →
    reg (slotReg l) = BitVec.ofNat 64 (page / span l % 512)

/-- The invariant. -/
structure Held (m₀ : Mem) (s : Boot) : Prop where
  core : Core m₀ s.lst s.cpu
  cursors : Cursors s.lst s.abs.page s.pc.cursor s.cpu.reg
  aligned : (s.cpu.reg .r8).toNat % 0x1000 = 0
  root : s.pc ≠ .page_walk → s.cpu.reg .r15 = 0x100000#64
  alloc : Alloc.Inv (accepts m₀) s.abs

/-- The memory a step from `s` may touch: low memory, the entry of the
page at some depth, and at an approval the page at RCX. -/
def Touches (s : Boot) (x : Access) : Prop :=
  x.Below 0x100000
    ∨ (∃ l, 1 ≤ l ∧ l ≤ 4
        ∧ s.abs.page / span l < capacity slack s.lst (l - 1)
        ∧ x.addr = slotAddr (s.lst (l - 1)) (s.abs.page / span l)
        ∧ x.size = 8)
    ∨ (∃ k, s.pc = .approve_allocate k
        ∧ (s.cpu.reg .rcx).toNat ≤ x.addr.toNat
        ∧ x.addr.toNat + x.size ≤ (s.cpu.reg .rcx).toNat + 0x1000)

/-- What one step keeps and does. -/
structure StepOk (m₀ : Mem) (L : Layout) (zf : Bool) (s : Boot) : Prop where
  held : Held m₀ (step L zf s)
  sim : (step L zf s).abs = s.abs.step (accepts m₀) zf
  log : ∀ x ∈ (step L zf s).cpu.log, x ∈ s.cpu.log ∨ Touches s x

variable {m₀ : Mem} {L : Layout} {zf : Bool} {s t : Boot} {c d : Cpu}
  {lst : Nat → List (BitVec 64)} {page cur : Nat} {k : Level}

-- ========================================================= list lemmas

theorem lst_num (s : Boot) (k : Level) : s.lst k.num = s.tablesOf k := by
  cases k <;> rfl

/-- The tree's lists are as long as the allocators' counts. -/
theorem length_lst (s : Boot) (k : Level) :
    (s.lst k.num).length = s.abs.count k := by
  rw [lst_num]
  unfold Boot.tablesOf Alloc.count Boot.abs
  rw [List.length_map, List.filter_map, List.length_map]
  rfl

theorem length_frames (s : Boot) : s.frames.length = s.abs.frames.length := by
  unfold Boot.abs
  rw [List.length_map]

/-- A stored table, seen from the tree. -/
theorem mem_lst_num {p : BitVec 64} :
    p ∈ s.lst k.num ↔ (k, p) ∈ s.tables := by
  rw [lst_num]
  unfold Boot.tablesOf
  rw [List.mem_map]
  constructor
  · rintro ⟨⟨j, q⟩, hq, rfl⟩
    obtain ⟨hin, hj⟩ := List.mem_filter.1 hq
    obtain rfl : j = k := by simpa using hj
    exact hin
  · intro hp
    exact ⟨(k, p), List.mem_filter.2 ⟨hp, by simp⟩, rfl⟩

/-- A stored table, seen from the allocators. -/
theorem mem_abs_tables {p : BitVec 64} (hp : (k, p) ∈ s.tables) :
    (k, p.toNat) ∈ s.abs.tables :=
  List.mem_map.2 ⟨(k, p), hp, rfl⟩

/-- The tree after a table is stored. -/
theorem lst_table {p : BitVec 64} (htab : t.tables = s.tables ++ [(k, p)])
    (hfr : t.frames = s.frames) : t.lst = grow s.lst k.num p := by
  have hof : ∀ j, t.tablesOf j
      = if j = k then s.tablesOf j ++ [p] else s.tablesOf j := by
    intro j
    unfold Boot.tablesOf
    rw [htab, List.filter_append, List.map_append]
    by_cases hj : j = k
    · subst hj
      simp
    · rw [if_neg hj]
      simp [Ne.symm hj]
  funext n
  match n with
  | 0 => cases k <;> rfl
  | 1 => show t.tablesOf .l1 = _; rw [hof]; cases k <;> rfl
  | 2 => show t.tablesOf .l2 = _; rw [hof]; cases k <;> rfl
  | 3 => show t.tablesOf .l3 = _; rw [hof]; cases k <;> rfl
  | 4 => show t.frames.map _ = _; rw [hfr]; cases k <;> rfl
  | n + 5 => cases k <;> rfl

/-- The tree after a frame is stored. -/
theorem lst_frame {v f : BitVec 64} (htab : t.tables = s.tables)
    (hfr : t.frames = s.frames ++ [(v, f)]) : t.lst = grow s.lst 4 f := by
  have hof : ∀ j, t.tablesOf j = s.tablesOf j := by
    intro j
    unfold Boot.tablesOf
    rw [htab]
  funext n
  match n with
  | 0 => rfl
  | 1 => exact hof .l1
  | 2 => exact hof .l2
  | 3 => exact hof .l3
  | 4 =>
      show t.frames.map _ = s.frames.map _ ++ [f]
      rw [hfr, List.map_append]
      rfl
  | n + 5 => rfl

theorem lst_same (htab : t.tables = s.tables) (hfr : t.frames = s.frames) :
    t.lst = s.lst := by
  have hof : ∀ j, t.tablesOf j = s.tablesOf j := by
    intro j
    unfold Boot.tablesOf
    rw [htab]
  funext n
  match n with
  | 0 => rfl
  | 1 => exact hof .l1
  | 2 => exact hof .l2
  | 3 => exact hof .l3
  | 4 => exact congrArg (List.map _) hfr
  | n + 5 => rfl

-- =============================================================== frames

/-- The memory side survives work below 0x100000 outside the map, and a
pointer that moves up. -/
theorem Core.frame (h : Core m₀ lst c) (hsp : d.reg .rsp = c.reg .rsp)
    (hmap : Mem.AgreeOn c.mem d.mem 0x20000 0xB0000)
    (hhigh : Mem.AgreeOn c.mem d.mem 0x100000 (2 ^ 64))
    (hptr : (c.reg .rcx).toNat ≤ (d.reg .rcx).toNat) : Core m₀ lst d where
  stack := by
    unfold StackOk
    rw [hsp]
    exact h.stack
  map := h.map.trans hmap
  forest := by
    have htop := h.forest.top
    exact (h.forest.frame (hhigh.mono (Nat.le_refl _) htop)).widen hptr
      (by omega)
  hole := by
    intro p hp
    obtain ⟨hlo, hz⟩ := h.hole p hp
    have hsub : (p - 3#64).toNat = p.toNat - 3 := by
      simp only [BitVec.toNat_sub, BitVec.toNat_ofNat]
      omega
    refine ⟨hlo, ?_⟩
    rw [hhigh (p - 3#64) (by omega) (p - 3#64).isLt]
    exact hz

theorem Core.congr (h : Core m₀ lst c) (hsp : d.reg .rsp = c.reg .rsp)
    (hmem : d.mem = c.mem) (hptr : d.reg .rcx = c.reg .rcx) :
    Core m₀ lst d := by
  refine h.frame hsp ?_ ?_ (Nat.le_of_eq (by rw [hptr]))
  · rw [hmem]
    exact Mem.AgreeOn.refl _ _ _
  · rw [hmem]
    exact Mem.AgreeOn.refl _ _ _

theorem Cursors.congr {reg reg' : Reg → BitVec 64}
    (h : Cursors lst page cur reg)
    (hreg : ∀ l, reg' (slotReg l) = reg (slotReg l)) :
    Cursors lst page cur reg' where
  slot := by
    intro l
    rw [hreg]
    exact h.slot l
  rest := by
    intro l
    rw [hreg]
    exact h.rest l

-- ================================================ what the tree says here

/-- The page in hand is one of those to map. -/
theorem Held.page_lt (h : Held m₀ s) (hpc : s.pc ≠ .done) :
    s.abs.page < 0x140000 := by
  have hp := h.alloc.counts.page
  rw [if_neg (show s.abs.pc ≠ .done from hpc)] at hp
  exact hp

/-- How many tables of level `k` there are. -/
theorem Held.length_tables (h : Held m₀ s) (k : Level) :
    (s.lst k.num).length = if k.num ≤ s.pc.progress
      then s.abs.page / k.span + 1 else (s.abs.page + k.span - 1) / k.span :=
  (length_lst s k).trans (h.alloc.counts.count k)

/-- With the tables above depth `l` in place, the page's slot there is
one the tree accounts for. -/
theorem Held.slot_in (h : Held m₀ s) (hpc : s.pc ≠ .done) {l : Nat}
    (hl : 1 ≤ l) (hl' : l ≤ 4) (hprog : l ≤ s.pc.progress + 1) :
    s.abs.page / span l < capacity slack s.lst (l - 1) := by
  have hp := h.page_lt hpc
  unfold capacity
  match l, hl, hl' with
  | 1, _, _ =>
      show s.abs.page / 0x8000000 < 512 * 1 - 0
      omega
  | 2, _, _ =>
      have h1 := h.length_tables .l1
      rw [if_pos (by show 1 ≤ _; omega)] at h1
      show s.abs.page / 0x40000 < 512 * (s.lst 1).length - 1
      have h1' : (s.lst 1).length = s.abs.page / 0x8000000 + 1 := h1
      omega
  | 3, _, _ =>
      have h1 := h.length_tables .l2
      rw [if_pos (by show 2 ≤ _; omega)] at h1
      show s.abs.page / 0x200 < 512 * (s.lst 2).length - 0
      have h1' : (s.lst 2).length = s.abs.page / 0x40000 + 1 := h1
      omega
  | 4, _, _ =>
      have h1 := h.length_tables .l3
      rw [if_pos (by show 3 ≤ _; omega)] at h1
      show s.abs.page / 1 < 512 * (s.lst 3).length - 0
      have h1' : (s.lst 3).length = s.abs.page / 0x200 + 1 := h1
      omega

/-- The slot's content at a level of tables: null exactly when the page
needs a new table. -/
theorem Held.read_null (h : Held m₀ s) (hpc : s.pc ≠ .done)
    (hprog : s.pc.progress + 1 = k.num) :
    s.cpu.mem.read64 (slotAddr (s.lst (k.num - 1)) (s.abs.page / span k.num))
        = 0#64 ↔ s.abs.needs k := by
  have hk : 1 ≤ k.num ∧ k.num ≤ 3 := by cases k <;> decide
  have hin := h.slot_in hpc (l := k.num) hk.1 (by omega) (by omega)
  have hlink := h.core.forest.linked (k.num - 1) (by omega) _ hin
  have hnum : k.num - 1 + 1 = k.num := by omega
  rw [hnum] at hlink
  rw [hlink]
  have hlen := h.length_tables k
  rw [if_neg (by omega)] at hlen
  have hspan : span k.num = k.span := by cases k <;> rfl
  have hpos : 0 < k.span := by cases k <;> decide
  unfold Alloc.needs
  constructor
  · intro hz
    by_contra hne
    -- the slot is in use, and a table's address is not null
    have hlt : s.abs.page / span k.num < (s.lst k.num).length := by
      rw [hlen, hspan]
      cases k <;> simp only [Level.span] at hne ⊢ <;> omega
    have := h.core.forest.low k.num (by omega) _ (getD_mem hlt)
    have hz' : (s.lst k.num).getD (s.abs.page / span k.num) 0 = 0#64 := hz
    rw [hz'] at this
    simp at this
  · intro hz
    refine List.getD_eq_default _ _ ?_
    rw [hlen, hspan]
    cases k <;> simp only [Level.span] at hz ⊢ <;> omega

/-- The page's leaf slot is still empty. -/
theorem Held.read_leaf (h : Held m₀ s) (hpc : s.pc ≠ .done)
    (hprog : s.pc.progress = 3) (hst : s.pc.stored = 0) :
    s.cpu.mem.read64 (slotAddr (s.lst 3) s.abs.page) = 0#64 := by
  have hin := h.slot_in hpc (l := 4) (by omega) (by omega) (by omega)
  have hspan : s.abs.page / span 4 = s.abs.page := Nat.div_one _
  rw [hspan] at hin
  rw [h.core.forest.linked 3 (by omega) _ hin]
  refine List.getD_eq_default _ _ ?_
  show (s.frames.map Prod.snd).length ≤ _
  rw [List.length_map, length_frames, h.alloc.counts.frames]
  show s.abs.page + s.pc.stored ≤ _
  rw [hst]
  exact Nat.le_refl _

end BootLoader.ThirdStage
