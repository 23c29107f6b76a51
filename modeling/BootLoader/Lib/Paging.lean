/-
The x86-64 four-level page walk, as the hardware performs it on a flat
physical memory.

Each level picks the entry at nine bits of the virtual address, in the
table whose base is bits 51:12 of the entry above (of CR3 at the top).
The walk goes on through an entry whose present bit is set and, for a
write access, whose writable bit is set; below the last level it adds the
page offset. Only 4 KiB pages: the page-size bit is not consulted.
-/
import BootLoader.Lib.Memory

namespace Paging

open FlatMemory

/-- What a walk for a write access ends in. -/
inductive Translation
  | mapped (physical : BitVec 64)
  | notPresent
  | readOnly
  deriving DecidableEq, Repr

/-- Bit 0 of an entry. -/
def present (e : BitVec 64) : Bool := e.getLsbD 0

/-- Bit 1 of an entry. -/
def writable (e : BitVec 64) : Bool := e.getLsbD 1

/-- Bits 51:12 of an entry, as an address. -/
def tableBase (e : BitVec 64) : BitVec 64 := e &&& 0x000FFFFFFFFFF000#64

/-- The nine bits of `v` that index level `l` (0 is the lowest). -/
def levelIndex (v : BitVec 64) (l : Nat) : BitVec 64 :=
  (v >>> (12 + 9 * l)) &&& 0x1FF#64

/-- The byte offset of `v` in its page. -/
def pageOffset (v : BitVec 64) : BitVec 64 := v &&& 0xFFF#64

/-- The walk through the `l` lowest levels, from the table at `base`. -/
def walkFrom (m : Mem) (v : BitVec 64) : Nat → BitVec 64 → Translation
  | 0, base => .mapped (base + pageOffset v)
  | l + 1, base =>
      let e := m.read64 (base + 8#64 * levelIndex v l)
      if present e then
        if writable e then walkFrom m v l (tableBase e) else .readOnly
      else .notPresent

/-- The four-level walk from `cr3`. -/
def walk (m : Mem) (cr3 v : BitVec 64) : Translation :=
  walkFrom m v 4 (tableBase cr3)

-- ============================================================ the fields

theorem levelIndex_toNat (v : BitVec 64) (l : Nat) :
    (levelIndex v l).toNat = v.toNat / 2 ^ (12 + 9 * l) % 512 := by
  unfold levelIndex
  rw [BitVec.toNat_and, BitVec.toNat_ushiftRight, Nat.shiftRight_eq_div_pow]
  exact Nat.and_two_pow_sub_one_eq_mod _ 9

theorem pageOffset_toNat (v : BitVec 64) :
    (pageOffset v).toNat = v.toNat % 4096 := by
  unfold pageOffset
  rw [BitVec.toNat_and]
  exact Nat.and_two_pow_sub_one_eq_mod _ 12

/-- Below 2^52 the base of an entry is the entry less its low twelve
bits. -/
theorem tableBase_toNat {e : BitVec 64} (he : e.toNat < 2 ^ 52) :
    (tableBase e).toNat = e.toNat / 4096 * 4096 := by
  have hsplit : tableBase e = (e >>> 12 <<< 12) := by
    apply BitVec.eq_of_getLsbD_eq
    intro i hi
    have hmask : (0x000FFFFFFFFFF000#64).getLsbD i
        = (decide (12 ≤ i) && decide (i < 52)) := by
      revert i
      decide
    unfold tableBase
    rw [BitVec.getLsbD_and, hmask, BitVec.getLsbD_shiftLeft,
      BitVec.getLsbD_ushiftRight]
    by_cases h12 : i < 12
    · simp [h12, Nat.not_le.mpr h12]
    · have hback : 12 + (i - 12) = i := by omega
      by_cases h52 : i < 52
      · simp [h12, h52, hback, hi]
        omega
      · have hz : e.getLsbD i = false := by
          rw [BitVec.getLsbD, Nat.testBit_lt_two_pow]
          exact Nat.lt_of_lt_of_le he (Nat.pow_le_pow_right (by omega)
            (by omega))
        simp [hz, hback]
  rw [hsplit, BitVec.toNat_shiftLeft, BitVec.toNat_ushiftRight,
    Nat.shiftRight_eq_div_pow, Nat.shiftLeft_eq]
  omega

-- ============================================================== the walk

/-- One level, through an entry with both bits set. -/
theorem walkFrom_through {m : Mem} {v base e : BitVec 64} {l : Nat}
    (he : m.read64 (base + 8#64 * levelIndex v l) = e)
    (hp : present e = true) (hw : writable e = true) :
    walkFrom m v (l + 1) base = walkFrom m v l (tableBase e) := by
  simp only [walkFrom, he, hp, hw, if_true]

/-- One level, stopped by a clear present bit. -/
theorem walkFrom_absent {m : Mem} {v base : BitVec 64} {l : Nat}
    (hp : present (m.read64 (base + 8#64 * levelIndex v l)) = false) :
    walkFrom m v (l + 1) base = .notPresent := by
  simp only [walkFrom, hp, Bool.false_eq_true, if_false]

/-- An address with the two flag bits in it: present, writable, and the
page it leads to. -/
theorem tagged_entry {p : BitVec 64} (hres : p.toNat % 0x1000 = 3)
    (hphys : p.toNat < 2 ^ 52) :
    present p = true ∧ writable p = true ∧ tableBase p = p - 3#64 := by
  refine ⟨?_, ?_, ?_⟩
  · unfold present
    rw [BitVec.getLsbD, Nat.testBit_zero]
    exact decide_eq_true (by omega)
  · unfold writable
    rw [BitVec.getLsbD, Nat.testBit_succ, Nat.testBit_zero]
    exact decide_eq_true (by omega)
  · apply BitVec.eq_of_toNat_eq
    rw [tableBase_toNat hphys]
    simp only [BitVec.toNat_sub, BitVec.toNat_ofNat]
    omega

-- ================================================== tables in memory

/-- The quadwords from `base` upwards are `f 0`, `f 1`, ..., `f (n - 1)`. -/
def Table (m : Mem) (base : BitVec 64) (n : Nat) (f : Nat → BitVec 64) :
    Prop :=
  ∀ i < n, m.read64 (base + BitVec.ofNat 64 (8 * i)) = f i

namespace Table

variable {m m' : Mem} {base : BitVec 64} {n j : Nat} {f g : Nat → BitVec 64}

theorem congr (h : Table m base n f) (hg : ∀ i < n, g i = f i) :
    Table m base n g :=
  fun i hi => (h i hi).trans (hg i hi).symm

/-- Cleared memory is a table of zeros. -/
theorem zero (hn : base.toNat + 8 * n ≤ 2 ^ 64)
    (h : ∀ b : BitVec 64, base.toNat ≤ b.toNat →
      b.toNat < base.toNat + 8 * n → m b = 0#8) :
    Table m base n fun _ => 0#64 := by
  intro i hi
  refine Mem.read64_eq_zero fun k hk => h _ ?_ ?_
  · simp only [BitVec.toNat_add, BitVec.toNat_ofNat]
    omega
  · simp only [BitVec.toNat_add, BitVec.toNat_ofNat]
    omega

/-- The low half of an empty slot, written. -/
theorem write32 (h : Table m base n f) (hn : base.toNat + 8 * n ≤ 2 ^ 64)
    (hj : j < n) (hz : f j = 0#64) (v : BitVec 32) :
    Table (m.write32 (base + BitVec.ofNat 64 (8 * j)) v) base n
      fun i => if i = j then v.setWidth 64 else f i := by
  intro i hi
  have haddr : ∀ k < n, (base + BitVec.ofNat 64 (8 * k)).toNat
      = base.toNat + 8 * k := by
    intro k hk
    simp only [BitVec.toNat_add, BitVec.toNat_ofNat]
    omega
  have hbi := haddr i hi
  have hbj := haddr j hj
  by_cases hij : i = j
  · subst hij
    refine Eq.trans ?_ (if_pos rfl).symm
    exact Mem.read64_write32 m (by omega) ((h i hi).trans hz) v
  · refine Eq.trans ?_ (if_neg hij).symm
    refine Eq.trans ?_ (h i hi)
    exact Mem.read_write_of_disjoint (n := 4) (k := 8) m v (by omega)
      (by omega) (by omega)

/-- The entry a level of the walk reads, in a table of 512 that starts at
slot `s`. -/
theorem entry (h : Table m base n f) {s : Nat} (hs : s + 512 ≤ n)
    (v : BitVec 64) (l : Nat) :
    m.read64 (base + BitVec.ofNat 64 (8 * s) + 8#64 * levelIndex v l)
      = f (s + v.toNat / 2 ^ (12 + 9 * l) % 512) := by
  have hidx := levelIndex_toNat v l
  have haddr : base + BitVec.ofNat 64 (8 * s) + 8#64 * levelIndex v l
      = base + BitVec.ofNat 64 (8 * (s + v.toNat / 2 ^ (12 + 9 * l) % 512)) := by
    rw [← hidx]
    apply BitVec.eq_of_toNat_eq
    simp only [BitVec.toNat_add, BitVec.toNat_mul, BitVec.toNat_ofNat]
    omega
  rw [haddr]
  exact h _ (by omega)

end Table

end Paging
