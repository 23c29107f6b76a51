/-
A downward stack of quadwords in a flat memory, wherever it lies.

Everything is said by distance from the stack pointer, so nothing here
asks that the stack stay clear of address zero: a stack that wraps holds
its quadwords as well as any other.

# The two predicates

`Holds m p vs` lists the quadwords from `p` upwards; a push is a cons on
that list (`Holds.push`) and a pop takes its head. `Same m m' p n` says
that the `n` bytes from `p` upwards did not change, which is what a callee
owes its caller (`Holds.congr`). `Under p n b` says that `b` is one of the
`n` bytes below `p`, the ones pushes overwrite.
-/
import BootLoader.Lib.Memory

namespace FlatMemory.Mem

variable {m m' m'' : Mem} {p a b : BitVec 64} {n k : Nat}

-- ================================================= writes, by distance

/-- A write leaves every byte alone that is not within its distance. -/
theorem write_apply_of_far (m : Mem) (v : BitVec (8 * n))
    (h : n ≤ (b - a).toNat) : m.write a n v b = m b := by
  have hd : ¬ (b - a).toNat < n := by omega
  simp only [write, if_neg hd]

/-- A read past the end of a write, and short of wrapping back into it. -/
theorem read_write_of_far (m : Mem) (v : BitVec (8 * n))
    (h : n ≤ (b - a).toNat) (hk : (b - a).toNat + k ≤ 2 ^ 64) :
    (m.write a n v).read b k = m.read b k := by
  apply read_congr
  intro i hi
  apply write_apply_of_far
  have hd : (b + BitVec.ofNat 64 i - a).toNat = (b - a).toNat + i := by
    simp only [BitVec.toNat_sub, BitVec.toNat_add, BitVec.toNat_ofNat] at *
    omega
  omega

/-- Two ranges at offsets from one address, apart from each other. -/
theorem read_write_off (m : Mem) (a : BitVec 64) {i j : Nat}
    (v : BitVec (8 * n)) (h : i + n ≤ j ∨ j + k ≤ i) (hi : i + n < 2 ^ 63)
    (hj : j + k < 2 ^ 63) :
    (m.write (a + BitVec.ofNat 64 i) n v).read (a + BitVec.ofNat 64 j) k
      = m.read (a + BitVec.ofNat 64 j) k := by
  rcases Nat.eq_zero_or_pos k with rfl | hk
  · rfl
  have hd : (a + BitVec.ofNat 64 j - (a + BitVec.ofNat 64 i)).toNat
      = (j + (2 ^ 64 - i)) % 2 ^ 64 := by
    simp only [BitVec.toNat_sub, BitVec.toNat_add, BitVec.toNat_ofNat]
    omega
  refine read_write_of_far m v ?_ ?_
  · rw [hd]
    omega
  · rw [hd]
    omega

theorem write_off (m : Mem) (a : BitVec 64) {i j : Nat}
    (v : BitVec (8 * n)) (h : i + n ≤ j ∨ j < i) (hi : i + n < 2 ^ 63)
    (hj : j < 2 ^ 63) :
    m.write (a + BitVec.ofNat 64 i) n v (a + BitVec.ofNat 64 j)
      = m (a + BitVec.ofNat 64 j) := by
  apply write_apply_of_far
  simp only [BitVec.toNat_sub, BitVec.toNat_add, BitVec.toNat_ofNat]
  omega

-- ===================================================== unchanged bytes

/-- The `n` bytes from `p` upwards are the same. -/
def Same (m m' : Mem) (p : BitVec 64) (n : Nat) : Prop :=
  ∀ k < n, m' (p + BitVec.ofNat 64 k) = m (p + BitVec.ofNat 64 k)

theorem Same.refl (m : Mem) (p : BitVec 64) (n : Nat) : Same m m p n :=
  fun _ _ => rfl

theorem Same.trans (h : Same m m' p n) (h' : Same m' m'' p n) :
    Same m m'' p n :=
  fun k hk => (h' k hk).trans (h k hk)

theorem Same.mono (h : Same m m' p n) (hk : k ≤ n) : Same m m' p k :=
  fun i hi => h i (by omega)

/-- `b` is one of the `n` bytes below `p`. -/
def Under (p : BitVec 64) (n : Nat) (b : BitVec 64) : Prop :=
  (p - 1#64 - b).toNat < n

theorem Under.mono (h : Under p n b) (hn : n ≤ k) : Under p k b :=
  Nat.lt_of_lt_of_le h hn

/-- What lies under a lower stack pointer, seen from the higher one. -/
theorem Under.of_sub {j : Nat} (h : Under (p - BitVec.ofNat 64 j) n b) :
    Under p (n + j) b := by
  unfold Under at *
  have hd : p - 1#64 - b
      = p - BitVec.ofNat 64 j - 1#64 - b + BitVec.ofNat 64 j := by
    apply BitVec.eq_of_toNat_eq
    simp only [BitVec.toNat_sub, BitVec.toNat_add, BitVec.toNat_ofNat]
    omega
  rw [hd, BitVec.toNat_add, BitVec.toNat_ofNat]
  have hmod := Nat.mod_le j (2 ^ 64)
  exact Nat.lt_of_le_of_lt (Nat.mod_le _ _) (by omega)

theorem Under.of_push (h : Under (p - 8#64) n b) : Under p (n + 8) b :=
  of_sub h

/-- The bytes under a stack pointer that does not wrap. -/
theorem under_iff (h : n ≤ p.toNat) :
    Under p n b ↔ p.toNat - n ≤ b.toNat ∧ b.toNat < p.toNat := by
  unfold Under
  simp only [BitVec.toNat_sub, BitVec.toNat_ofNat]
  omega

/-- The bytes from `p` upwards are not under it. -/
theorem not_under (hk : k + n < 2 ^ 64) :
    ¬ Under p n (p + BitVec.ofNat 64 k) := by
  unfold Under
  have hd : (p - 1#64 - (p + BitVec.ofNat 64 k)).toNat = 2 ^ 64 - 1 - k := by
    simp only [BitVec.toNat_sub, BitVec.toNat_add, BitVec.toNat_ofNat]
    omega
  omega

/-- The bytes a lower stack pointer has above it are under the higher
one. -/
theorem under_add {j : Nat} (hk : k < j) :
    Under p j (p - BitVec.ofNat 64 j + BitVec.ofNat 64 k) := by
  unfold Under
  simp only [BitVec.toNat_sub, BitVec.toNat_add, BitVec.toNat_ofNat]
  omega

/-- A push writes under the stack pointer only. -/
theorem write64_push (m : Mem) (v : BitVec 64) (h : ¬ Under p 8 b) :
    m.write64 (p - 8#64) v b = m b := by
  refine @write_apply_of_far (p - 8#64) b 8 m v ?_
  unfold Under at h
  have hd : b - (p - 8#64) = 7#64 - (p - 1#64 - b) := by
    apply BitVec.eq_of_toNat_eq
    simp only [BitVec.toNat_sub, BitVec.toNat_ofNat]
    omega
  rw [hd, BitVec.toNat_sub, BitVec.toNat_ofNat]
  omega

-- ========================================================= the contents

/-- The quadwords from `p` upwards. -/
def Holds (m : Mem) : BitVec 64 → List (BitVec 64) → Prop
  | _, [] => True
  | p, v :: vs => m.read64 p = v ∧ Holds m (p + 8#64) vs

/-- The contents depend only on the bytes they occupy. -/
theorem Holds.congr {vs : List (BitVec 64)} (h : Holds m p vs)
    (hs : Same m m' p (8 * vs.length)) : Holds m' p vs := by
  induction vs generalizing p with
  | nil => trivial
  | cons v vs ih =>
      rw [List.length_cons] at hs
      obtain ⟨hv, hvs⟩ := h
      refine ⟨?_, ih hvs ?_⟩
      · have hread : m'.read64 p = m.read64 p :=
          @read_congr m m' p 8 fun k hk => hs k (by omega)
        rw [hread, hv]
      · intro k hk
        have hstep : p + 8#64 + BitVec.ofNat 64 k
            = p + BitVec.ofNat 64 (k + 8) := by
          apply BitVec.eq_of_toNat_eq
          simp only [BitVec.toNat_add, BitVec.toNat_ofNat]
          omega
        rw [hstep]
        exact hs (k + 8) (by omega)

/-- A push is a cons. -/
theorem Holds.push {vs : List (BitVec 64)} (h : Holds m p vs)
    (hlen : 8 * vs.length + 8 < 2 ^ 64) (v : BitVec 64) :
    Holds (m.write64 (p - 8#64) v) (p - 8#64) (v :: vs) := by
  refine ⟨read64_write64_self m _ v, ?_⟩
  rw [BitVec.sub_add_cancel]
  refine h.congr fun k hk => ?_
  exact write64_push m v (not_under (by omega))

/-- The upper part of the contents. -/
theorem Holds.tail {vs ws : List (BitVec 64)} (h : Holds m p (vs ++ ws)) :
    Holds m (p + BitVec.ofNat 64 (8 * vs.length)) ws := by
  induction vs generalizing p with
  | nil =>
      rw [List.length_nil, Nat.mul_zero, BitVec.add_zero]
      exact h
  | cons v vs ih =>
      have hstep : p + BitVec.ofNat 64 (8 * (v :: vs).length)
          = p + 8#64 + BitVec.ofNat 64 (8 * vs.length) := by
        apply BitVec.eq_of_toNat_eq
        simp only [List.length_cons, BitVec.toNat_add, BitVec.toNat_ofNat]
        omega
      rw [hstep]
      exact ih h.2

end FlatMemory.Mem
