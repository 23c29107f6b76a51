/-
Flat byte-addressed memory over a 64-bit address space, with
little-endian reads and writes of any width.

# The two views

A memory is a function from addresses to bytes; addresses wrap like the
registers that hold them. Everything a caller proves goes through one of
two views:

- the bit view (`getLsbD_read`): bit `i` of an `n`-byte read is bit
  `i % 8` of byte `i / 8`, which settles read-after-write;
- the interval view (`read_write_of_disjoint`, `read_congr_of_range`):
  for ranges that do not wrap, disjointness and agreement are plain
  inequalities on `toNat`, so frame facts are closed by `omega`.
-/
import Mathlib.Algebra.Group.Nat.Defs
import Mathlib.Tactic.Common

namespace FlatMemory

/-- Byte-addressed memory: one byte at each 64-bit address. -/
abbrev Mem := BitVec 64 → BitVec 8

namespace Mem

-- ================================================== reads and writes

/-- The `n` bytes from `a` upwards as one little-endian number. -/
def read (m : Mem) (a : BitVec 64) : (n : Nat) → BitVec (8 * n)
  | 0 => 0#0
  | n + 1 => read m (a + 1#64) n ++ m a

/-- Store the low `n` bytes of `v` at `a`, lowest byte first. -/
def write (m : Mem) (a : BitVec 64) (n : Nat) (v : BitVec (8 * n)) : Mem :=
  fun b =>
    let d := (b - a).toNat
    if d < n then v.extractLsb' (8 * d) 8 else m b

/-- The 16-bit word at `a`. -/
def read16 (m : Mem) (a : BitVec 64) : BitVec 16 := read m a 2

/-- The 32-bit doubleword at `a`. -/
def read32 (m : Mem) (a : BitVec 64) : BitVec 32 := read m a 4

/-- The 64-bit quadword at `a`. -/
def read64 (m : Mem) (a : BitVec 64) : BitVec 64 := read m a 8

/-- Store one byte. -/
def write8 (m : Mem) (a : BitVec 64) (v : BitVec 8) : Mem := write m a 1 v

/-- Store a 16-bit word. -/
def write16 (m : Mem) (a : BitVec 64) (v : BitVec 16) : Mem := write m a 2 v

/-- Store a 32-bit doubleword. -/
def write32 (m : Mem) (a : BitVec 64) (v : BitVec 32) : Mem := write m a 4 v

/-- Store a 64-bit quadword. -/
def write64 (m : Mem) (a : BitVec 64) (v : BitVec 64) : Mem := write m a 8 v

/-- Two memories hold the same bytes on `[lo, hi)`. -/
def AgreeOn (m m' : Mem) (lo hi : Nat) : Prop :=
  ∀ b : BitVec 64, lo ≤ b.toNat → b.toNat < hi → m' b = m b

theorem AgreeOn.refl (m : Mem) (lo hi : Nat) : AgreeOn m m lo hi :=
  fun _ _ _ => rfl

theorem AgreeOn.trans {m m' m'' : Mem} {lo hi : Nat}
    (h : AgreeOn m m' lo hi) (h' : AgreeOn m' m'' lo hi) :
    AgreeOn m m'' lo hi :=
  fun b hlo hhi => (h' b hlo hhi).trans (h b hlo hhi)

theorem AgreeOn.mono {m m' : Mem} {lo hi lo' hi' : Nat}
    (h : AgreeOn m m' lo hi) (hlo : lo ≤ lo') (hhi : hi' ≤ hi) :
    AgreeOn m m' lo' hi' :=
  fun b h1 h2 => h b (by omega) (by omega)

-- ====================================================== the bit view

/-- Bit `i` of a read is bit `i % 8` of byte `i / 8`. -/
theorem getLsbD_read (m : Mem) :
    ∀ (n : Nat) (a : BitVec 64) (i : Nat), i < 8 * n →
      (m.read a n).getLsbD i
        = (m (a + BitVec.ofNat 64 (i / 8))).getLsbD (i % 8) := by
  intro n
  induction n with
  | zero => intro a i hi; omega
  | succ n ih =>
      intro a i hi
      show (m.read (a + 1#64) n ++ m a).getLsbD i = _
      rw [BitVec.getLsbD_append]
      split
      next hlt =>
        have hq : i / 8 = 0 := by omega
        have hr : i % 8 = i := by omega
        rw [hq, hr, BitVec.add_zero]
      next hge =>
        rw [ih (a + 1#64) (i - 8) (by omega)]
        have hq : i / 8 = (i - 8) / 8 + 1 := by omega
        have hr : i % 8 = (i - 8) % 8 := by omega
        have haddr : a + 1#64 + BitVec.ofNat 64 ((i - 8) / 8)
            = a + BitVec.ofNat 64 (i / 8) := by
          rw [hq]
          apply BitVec.eq_of_toNat_eq
          simp only [BitVec.toNat_add, BitVec.toNat_ofNat]
          omega
        rw [haddr, hr]

/-- Byte `k` of a read. -/
theorem extractLsb'_read (m : Mem) (a : BitVec 64) {n k : Nat} (hk : k < n) :
    (m.read a n).extractLsb' (8 * k) 8 = m (a + BitVec.ofNat 64 k) := by
  apply BitVec.eq_of_getLsbD_eq
  intro i hi
  have hq : (8 * k + i) / 8 = k := by omega
  have hr : (8 * k + i) % 8 = i := by omega
  rw [BitVec.getLsbD_extractLsb', getLsbD_read m n a _ (by omega), hq, hr,
    decide_eq_true hi, Bool.true_and]

/-- A read inside another. -/
theorem read_part (m : Mem) (a : BitVec 64) {n k j : Nat} (hj : k + j ≤ n) :
    m.read (a + BitVec.ofNat 64 k) j
      = (m.read a n).extractLsb' (8 * k) (8 * j) := by
  apply BitVec.eq_of_getLsbD_eq
  intro i hi
  have haddr : a + BitVec.ofNat 64 k + BitVec.ofNat 64 (i / 8)
      = a + BitVec.ofNat 64 ((8 * k + i) / 8) := by
    rw [show (8 * k + i) / 8 = k + i / 8 by omega, BitVec.ofNat_add,
      BitVec.add_assoc]
  rw [BitVec.getLsbD_extractLsb', getLsbD_read m j _ i hi,
    getLsbD_read m n a _ (by omega), haddr,
    show (8 * k + i) % 8 = i % 8 by omega, decide_eq_true hi, Bool.true_and]

/-- The low word of a quadword. -/
theorem read16_of_read64 (m : Mem) (a : BitVec 64) :
    m.read16 a = (m.read64 a).extractLsb' 0 16 := by
  have hpart := read_part m a (n := 8) (k := 0) (j := 2) (by omega)
  rwa [BitVec.add_zero] at hpart

/-- A read depends only on the bytes it covers. -/
theorem read_congr {m m' : Mem} {a : BitVec 64} {n : Nat}
    (h : ∀ k < n, m' (a + BitVec.ofNat 64 k) = m (a + BitVec.ofNat 64 k)) :
    m'.read a n = m.read a n := by
  apply BitVec.eq_of_getLsbD_eq
  intro i hi
  rw [getLsbD_read m' n a i hi, getLsbD_read m n a i hi, h (i / 8) (by omega)]

/-- A read of cleared bytes is zero. -/
theorem read_eq_zero {m : Mem} {a : BitVec 64} {n : Nat}
    (h : ∀ k < n, m (a + BitVec.ofNat 64 k) = 0) : m.read a n = 0 := by
  apply BitVec.eq_of_getLsbD_eq
  intro i hi
  rw [getLsbD_read m n a i hi, h (i / 8) (by omega)]
  simp

/-- The byte a write leaves `k` places past its address. -/
theorem write_apply_add (m : Mem) (a : BitVec 64) {n : Nat}
    (v : BitVec (8 * n)) {k : Nat} (hk : k < n) (hn : n ≤ 2 ^ 64) :
    m.write a n v (a + BitVec.ofNat 64 k) = v.extractLsb' (8 * k) 8 := by
  have hd : (a + BitVec.ofNat 64 k - a).toNat = k := by
    simp only [BitVec.toNat_sub, BitVec.toNat_add, BitVec.toNat_ofNat]
    omega
  simp only [write, hd, if_pos hk]

/-- What was written is read back. -/
theorem read_write_self (m : Mem) (a : BitVec 64) {n : Nat}
    (v : BitVec (8 * n)) (hn : n ≤ 2 ^ 64) : (m.write a n v).read a n = v := by
  apply BitVec.eq_of_getLsbD_eq
  intro i hi
  rw [getLsbD_read _ n a i hi, write_apply_add m a v (by omega) hn,
    BitVec.getLsbD_extractLsb']
  have hi8 : i % 8 < 8 := by omega
  have hsum : 8 * (i / 8) + i % 8 = i := by omega
  simp [hi8, hsum]

/-- A byte written is there. -/
theorem write8_self (m : Mem) (a : BitVec 64) (v : BitVec 8) :
    m.write8 a v a = v := by
  have hbyte := write_apply_add (n := 1) m a v (k := 0) (by omega) (by omega)
  rw [BitVec.add_zero] at hbyte
  exact hbyte.trans BitVec.extractLsb'_eq_self

/-- Writing what is there changes nothing. -/
theorem write_read_self (m : Mem) (a : BitVec 64) (n : Nat) :
    m.write a n (m.read a n) = m := by
  funext b
  have hb : a + BitVec.ofNat 64 (b - a).toNat = b := by
    apply BitVec.eq_of_toNat_eq
    simp only [BitVec.toNat_add, BitVec.toNat_sub, BitVec.toNat_ofNat]
    omega
  unfold write
  dsimp only
  split
  · rw [extractLsb'_read m a (by assumption), hb]
  · rfl

/-- The same of one byte. -/
theorem write8_of_eq {m : Mem} {a : BitVec 64} {v : BitVec 8} (h : m a = v) :
    m.write8 a v = m := by
  funext b
  unfold write8 write
  dsimp only
  split
  · have hb : b = a := by
      apply BitVec.eq_of_toNat_eq
      have hlt : (b - a).toNat < 1 := by assumption
      simp only [BitVec.toNat_sub] at hlt
      omega
    have hd : (b - a).toNat = 0 := by omega
    rw [hd, hb, h]
    exact BitVec.extractLsb'_eq_self
  · rfl

-- ================================================= the interval view

/-- A write leaves every byte outside its range alone. -/
theorem write_apply_of_out (m : Mem) {a b : BitVec 64} {n : Nat}
    (v : BitVec (8 * n)) (hn : a.toNat + n ≤ 2 ^ 64)
    (hout : b.toNat < a.toNat ∨ a.toNat + n ≤ b.toNat) :
    m.write a n v b = m b := by
  have hd : ¬ (b - a).toNat < n := by
    simp only [BitVec.toNat_sub]
    omega
  simp only [write, if_neg hd]

/-- Agreement on a range that holds the bytes carries over to reads. -/
theorem read_congr_of_range {m m' : Mem} {a : BitVec 64} {n lo hi : Nat}
    (h : AgreeOn m m' lo hi) (hn : a.toNat + n ≤ 2 ^ 64)
    (hlo : lo ≤ a.toNat) (hhi : a.toNat + n ≤ hi) :
    m'.read a n = m.read a n := by
  apply read_congr
  intro k hk
  have haddr : (a + BitVec.ofNat 64 k).toNat = a.toNat + k := by
    simp only [BitVec.toNat_add, BitVec.toNat_ofNat]
    omega
  exact h _ (by omega) (by omega)

/-- Agreement on the very bytes of a read. -/
theorem read_congr_bytes {m m' : Mem} {a : BitVec 64} {n : Nat}
    (hn : a.toNat + n ≤ 2 ^ 64)
    (h : ∀ b : BitVec 64, a.toNat ≤ b.toNat → b.toNat < a.toNat + n →
      m' b = m b) : m'.read a n = m.read a n :=
  read_congr_of_range h hn (Nat.le_refl _) (Nat.le_refl _)

/-- A write does not disturb a disjoint read. -/
theorem read_write_of_disjoint (m : Mem) {a b : BitVec 64} {n k : Nat}
    (v : BitVec (8 * n)) (hn : a.toNat + n ≤ 2 ^ 64)
    (hk : b.toNat + k ≤ 2 ^ 64)
    (hdis : b.toNat + k ≤ a.toNat ∨ a.toNat + n ≤ b.toNat) :
    (m.write a n v).read b k = m.read b k := by
  have hag : AgreeOn m (m.write a n v) b.toNat (b.toNat + k) :=
    fun c h1 h2 => write_apply_of_out m v hn (by omega)
  exact read_congr_of_range hag hk (Nat.le_refl _) (Nat.le_refl _)

/-- A byte after a write, from the byte before. -/
theorem write_congr {m m' : Mem} {a b : BitVec 64} {n : Nat}
    (v : BitVec (8 * n)) (h : m' b = m b) :
    m'.write a n v b = m.write a n v b := by
  simp only [write, h]

/-- A write agrees with what was there on any range clear of it. -/
theorem agreeOn_write (m : Mem) {a : BitVec 64} {n lo hi : Nat}
    (v : BitVec (8 * n)) (hn : a.toNat + n ≤ 2 ^ 64)
    (hdis : hi ≤ a.toNat ∨ a.toNat + n ≤ lo) :
    AgreeOn m (m.write a n v) lo hi :=
  fun _ h1 h2 => write_apply_of_out m v hn (by omega)

-- ====================================================== quadwords

theorem read64_write64_self (m : Mem) (a v : BitVec 64) :
    (m.write64 a v).read64 a = v :=
  @read_write_self m a 8 v (by omega)

theorem read64_write64_of_disjoint (m : Mem) {a b : BitVec 64}
    (v : BitVec 64) (ha : a.toNat + 8 ≤ 2 ^ 64) (hb : b.toNat + 8 ≤ 2 ^ 64)
    (hdis : b.toNat + 8 ≤ a.toNat ∨ a.toNat + 8 ≤ b.toNat) :
    (m.write64 a v).read64 b = m.read64 b :=
  @read_write_of_disjoint m a b 8 8 v ha hb hdis

theorem read64_congr_of_range {m m' : Mem} {a : BitVec 64} {lo hi : Nat}
    (h : AgreeOn m m' lo hi) (ha : a.toNat + 8 ≤ 2 ^ 64)
    (hlo : lo ≤ a.toNat) (hhi : a.toNat + 8 ≤ hi) :
    m'.read64 a = m.read64 a :=
  @read_congr_of_range m m' a 8 lo hi h ha hlo hhi

theorem agreeOn_write64 (m : Mem) {a : BitVec 64} {lo hi : Nat}
    (v : BitVec 64) (ha : a.toNat + 8 ≤ 2 ^ 64)
    (hdis : hi ≤ a.toNat ∨ a.toNat + 8 ≤ lo) :
    AgreeOn m (m.write64 a v) lo hi :=
  @agreeOn_write m a 8 lo hi v ha hdis

/-- One byte of a cleared range. -/
theorem write_zero (m : Mem) {a b : BitVec 64} {n : Nat}
    (hn : a.toNat + n ≤ 2 ^ 64) (h : a.toNat ≤ b.toNat)
    (h' : b.toNat < a.toNat + n) : m.write a n 0 b = 0 := by
  have hb : b = a + BitVec.ofNat 64 (b.toNat - a.toNat) := by
    apply BitVec.eq_of_toNat_eq
    simp only [BitVec.toNat_add, BitVec.toNat_ofNat]
    omega
  have hz := write_apply_add m a (0 : BitVec (8 * n))
    (k := b.toNat - a.toNat) (by omega) (by omega)
  rw [← hb] at hz
  rw [hz]
  apply BitVec.eq_of_getLsbD_eq
  intro i _
  rw [BitVec.getLsbD_extractLsb']
  show (_ && (0#(8 * n)).getLsbD _) = (0#8).getLsbD i
  rw [BitVec.getLsbD_zero, BitVec.getLsbD_zero, Bool.and_false]

/-- One byte of a cleared quadword. -/
theorem write64_zero (m : Mem) {a b : BitVec 64}
    (ha : a.toNat + 8 ≤ 2 ^ 64) (h : a.toNat ≤ b.toNat)
    (h' : b.toNat < a.toNat + 8) : m.write64 a 0#64 b = 0 :=
  write_zero (n := 8) m ha h h'

theorem read64_eq_zero {m : Mem} {a : BitVec 64}
    (h : ∀ k < 8, m (a + BitVec.ofNat 64 k) = 0) : m.read64 a = 0 :=
  @read_eq_zero m a 8 h

/-- The low half of a zero quadword, written. -/
theorem read64_write32 (m : Mem) {a : BitVec 64} (ha : a.toNat + 8 ≤ 2 ^ 64)
    (hz : m.read64 a = 0#64) (v : BitVec 32) :
    (m.write32 a v).read64 a = v.setWidth 64 := by
  apply BitVec.eq_of_getLsbD_eq
  intro i hi
  rw [read64, getLsbD_read _ 8 _ i (by omega), BitVec.getLsbD_setWidth]
  by_cases hlow : i < 32
  · have hbyte := write_apply_add (n := 4) m a v (k := i / 8) (by omega)
      (by omega)
    have hsum : 8 * (i / 8) + i % 8 = i := by omega
    have hi8 : i % 8 < 8 := by omega
    rw [write32, hbyte, BitVec.getLsbD_extractLsb', hsum]
    simp [hi, hi8]
  · have hout : m.write32 a v (a + BitVec.ofNat 64 (i / 8))
        = m (a + BitVec.ofNat 64 (i / 8)) := by
      refine write_apply_of_out (n := 4) m v (by omega) (Or.inr ?_)
      rw [BitVec.toNat_add, BitVec.toNat_ofNat]
      omega
    have hbit := congrArg (fun x => BitVec.getLsbD x i) hz
    simp only [read64, getLsbD_read _ 8 _ i (show i < 8 * 8 by omega),
      BitVec.getLsbD_zero] at hbit
    rw [hout, hbit, BitVec.getLsbD_of_ge v i (by omega), Bool.and_false]

end Mem

end FlatMemory
