/-
Drive geometries: sectors by their number and by cylinder, head and sector.

A sector's number counts sectors along a track, tracks along a cylinder
and then cylinders, with the sector of an address counted from 1. Numbers
and the addresses that are valid on the drive are in bijection
(`number_address`, `address_number`), so an address with the right number
is the only one (`eq_address`).
-/
import Mathlib.Algebra.Group.Nat.Defs
import Mathlib.Tactic.Common

/-- Heads of a cylinder and sectors of a track. -/
structure Geometry where
  heads : Nat
  sectors : Nat
  heads_pos : 0 < heads
  sectors_pos : 0 < sectors

namespace Geometry

structure Address where
  cylinder : Nat
  head : Nat
  sector : Nat

variable (g : Geometry)

/-- The drive has this head and this sector. -/
structure Valid (a : Address) : Prop where
  head : a.head < g.heads
  low : 1 ≤ a.sector
  high : a.sector ≤ g.sectors

def number (a : Address) : Nat :=
  (a.cylinder * g.heads + a.head) * g.sectors + a.sector - 1

def address (n : Nat) : Address where
  cylinder := n / g.sectors / g.heads
  head := n / g.sectors % g.heads
  sector := n % g.sectors + 1

theorem valid_address (n : Nat) : g.Valid (g.address n) where
  head := Nat.mod_lt _ g.heads_pos
  low := Nat.succ_pos _
  high := Nat.mod_lt _ g.sectors_pos

theorem number_address (n : Nat) : g.number (g.address n) = n := by
  have htrack : n / g.sectors / g.heads * g.heads + n / g.sectors % g.heads
      = n / g.sectors := Nat.div_add_mod' _ _
  show (n / g.sectors / g.heads * g.heads + n / g.sectors % g.heads)
    * g.sectors + (n % g.sectors + 1) - 1 = n
  rw [htrack, ← Nat.add_assoc, Nat.add_sub_cancel]
  exact Nat.div_add_mod' _ _

theorem address_number {a : Address} (h : g.Valid a) :
    g.address (g.number a) = a := by
  obtain ⟨hhead, hlow, hhigh⟩ := h
  obtain ⟨c, hd, s⟩ := a
  obtain ⟨s, rfl⟩ : ∃ s', s = s' + 1 := ⟨s - 1, by
    have hs : 1 ≤ s := hlow
    omega⟩
  have hs : s < g.sectors := hhigh
  have hnum : g.number ⟨c, hd, s + 1⟩
      = s + g.sectors * (c * g.heads + hd) := by
    show (c * g.heads + hd) * g.sectors + (s + 1) - 1 = _
    rw [← Nat.add_assoc, Nat.add_sub_cancel, Nat.add_comm, Nat.mul_comm]
  have htrack : (s + g.sectors * (c * g.heads + hd)) / g.sectors
      = hd + g.heads * c := by
    rw [Nat.add_mul_div_left _ _ g.sectors_pos, Nat.div_eq_of_lt hs,
      Nat.zero_add, Nat.add_comm, Nat.mul_comm]
  have hh : hd < g.heads := hhead
  unfold address
  rw [hnum, htrack, Nat.add_mul_div_left _ _ g.heads_pos, Nat.div_eq_of_lt hh,
    Nat.zero_add, Nat.add_mul_mod_self_left, Nat.mod_eq_of_lt hh,
    Nat.add_mul_mod_self_left, Nat.mod_eq_of_lt hs]

/-- The address with a number is the only one. -/
theorem eq_address {a : Address} {n : Nat} :
    (g.Valid a ∧ g.number a = n) ↔ a = g.address n := by
  constructor
  · rintro ⟨hvalid, rfl⟩
    exact (g.address_number hvalid).symm
  · rintro rfl
    exact ⟨g.valid_address n, g.number_address n⟩

end Geometry
