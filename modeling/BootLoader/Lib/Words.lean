/-
64-bit words as numbers: the few facts that turn signed comparisons, bit
fields cut out by shifts, and low-bit flags into arithmetic `omega` can
finish.
-/
import Mathlib.Algebra.Group.Nat.Defs
import Mathlib.Tactic.Common

namespace Words

/-- A small literal is its own value. -/
theorem toNat_lit {n : Nat} (h : n < 2 ^ 64) : (BitVec.ofNat 64 n).toNat = n := by
  rw [BitVec.toNat_ofNat]
  exact Nat.mod_eq_of_lt h

/-- Adding a literal that does not overflow. -/
theorem toNat_add_lit {x : BitVec 64} {n : Nat}
    (h : x.toNat + n < 2 ^ 64) : (x + BitVec.ofNat 64 n).toNat = x.toNat + n := by
  simp only [BitVec.toNat_add, BitVec.toNat_ofNat]
  omega

/-- The signed comparison of two words below 2^63. -/
theorem slt_of_small {x y : BitVec 64} (hx : x.toNat < 2 ^ 63)
    (hy : y.toNat < 2 ^ 63) : x.slt y = decide (x.toNat < y.toNat) := by
  rw [BitVec.slt_eq_decide, BitVec.toInt_eq_toNat_cond,
    BitVec.toInt_eq_toNat_cond, if_pos (by omega), if_pos (by omega)]
  simp

/-- The signed comparison of a small word with a small literal. -/
theorem slt_lit {x : BitVec 64} {n : Nat} (hx : x.toNat < 2 ^ 63)
    (hn : n < 2 ^ 63) : x.slt (BitVec.ofNat 64 n) = decide (x.toNat < n) := by
  have h := toNat_lit (n := n) (by omega)
  rw [slt_of_small hx (by omega), h]

/-- The bits a left and a right shift cut out. -/
theorem toNat_cut {w : Nat} (x : BitVec w) {a b : Nat} (ha : a ≤ b)
    (hb : b ≤ w) :
    ((x <<< a) >>> b).toNat = x.toNat / 2 ^ (b - a) % 2 ^ (w - b) := by
  have hsplit : (2 : Nat) ^ b = 2 ^ (b - a) * 2 ^ a := by
    rw [← Nat.pow_add]
    congr 1
    omega
  have hword : (2 : Nat) ^ w = 2 ^ b * 2 ^ (w - b) := by
    rw [← Nat.pow_add]
    congr 1
    omega
  rw [BitVec.toNat_ushiftRight, BitVec.toNat_shiftLeft,
    Nat.shiftRight_eq_div_pow, Nat.shiftLeft_eq, hword,
    Nat.mod_mul_right_div_self, hsplit,
    Nat.mul_div_mul_right _ _ (Nat.two_pow_pos a)]

/-- The nine highest bits of what a left shift leaves. -/
theorem toNat_field (x : BitVec 64) {a : Nat} (ha : a ≤ 55) :
    ((x <<< a) >>> 55).toNat = x.toNat / 2 ^ (55 - a) % 512 :=
  toNat_cut x ha (by omega)

/-- Setting the two low bits of a word that has both or neither. -/
theorem toNat_or_three {x : BitVec 64} (h : x.toNat % 4 = 0 ∨ x.toNat % 4 = 3) :
    (x ||| 3#64).toNat = x.toNat / 4 * 4 + 3 := by
  have hsplit : ∀ r : Nat, r < 4 → x.toNat / 4 * 4 + r = 2 ^ 2 * (x.toNat / 4) ||| r := by
    intro r hr
    rw [← Nat.two_pow_add_eq_or_of_lt (show r < 2 ^ 2 by omega)]
    omega
  have hx : x.toNat = 2 ^ 2 * (x.toNat / 4) ||| x.toNat % 4 := by
    rw [← hsplit _ (Nat.mod_lt _ (by omega))]
    omega
  rw [BitVec.toNat_or, hx, Nat.or_assoc]
  rw [← hx, hsplit 3 (by omega)]
  rcases h with h | h <;> rw [h] <;> rfl

/-- A word with its low 16 bits replaced. -/
theorem toNat_merge16 (x : BitVec 64) (v : BitVec 16) :
    (x.extractLsb' 16 48 ++ v : BitVec 64).toNat
      = x.toNat / 65536 % 2 ^ 48 * 65536 + v.toNat := by
  have hx : (x.extractLsb' 16 48).toNat = x.toNat / 65536 % 2 ^ 48 := by
    rw [BitVec.extractLsb'_toNat, Nat.shiftRight_eq_div_pow]
  have hor : (x.extractLsb' 16 48).toNat <<< 16 ||| v.toNat
      = (x.extractLsb' 16 48).toNat <<< 16 + v.toNat :=
    (Nat.shiftLeft_add_eq_or_of_lt v.isLt _).symm
  rw [BitVec.toNat_append, hor, hx, Nat.shiftLeft_eq]

/-- The low half of a doubleword extended. -/
theorem low32_zeroExtend (v : BitVec 32) :
    (v.setWidth 64).extractLsb' 0 32 = v := by
  apply BitVec.eq_of_toNat_eq
  have hv := v.isLt
  simp only [BitVec.extractLsb'_toNat, BitVec.toNat_setWidth,
    Nat.shiftRight_zero]
  omega

/-- The low word of a doubleword extended. -/
theorem low16_zeroExtend (v : BitVec 32) :
    (v.setWidth 64).extractLsb' 0 16 = v.extractLsb' 0 16 := by
  apply BitVec.eq_of_toNat_eq
  have hv := v.isLt
  simp only [BitVec.extractLsb'_toNat, BitVec.toNat_setWidth,
    Nat.shiftRight_zero]
  omega

end Words
