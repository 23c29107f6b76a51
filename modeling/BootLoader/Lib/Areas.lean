/-
Areas of memory carved one after another.

`Carved lo as hi` says that the areas `as` follow each other without a gap
from `lo` to `hi`, as a running address hands them out. Areas carved share
no byte (`Carved.disjoint`), and an area can itself be carved into slots of
one size (`carved_slots`).
-/
import Mathlib.Algebra.Group.Nat.Defs
import Mathlib.Tactic.Common

-- ================================================================= the areas

/-- The addresses from `base` up to `base + size`. -/
structure Area where
  base : Nat
  size : Nat

namespace Area

def Has (a : Area) (n : Nat) : Prop := a.base ≤ n ∧ n < a.base + a.size

/-- No address is in both. -/
def Disjoint (a b : Area) : Prop := ∀ n, ¬ (a.Has n ∧ b.Has n)

/-- The areas fill `[lo, hi)`, each starting where the one before ends. -/
inductive Carved : Nat → List Area → Nat → Prop
  | nil {lo hi : Nat} : lo = hi → Carved lo [] hi
  | cons {a : Area} {as : List Area} {lo hi : Nat} : a.base = lo →
      Carved (lo + a.size) as hi → Carved lo (a :: as) hi

variable {a b : Area} {as : List Area} {lo hi : Nat}

/-- An area given by its base and size, and a carving from its end on. -/
theorem Carved.put {base size : Nat} (hbase : base = lo)
    (hrest : Carved (lo + size) as hi) : Carved lo (⟨base, size⟩ :: as) hi :=
  .cons hbase hrest

/-- The carving ends at or after its start. -/
theorem Carved.le (h : Carved lo as hi) : lo ≤ hi := by
  induction h with
  | nil h => exact Nat.le_of_eq h
  | cons _ _ ih => exact Nat.le_trans (Nat.le_add_right _ _) ih

/-- Every area lies in `[lo, hi)`. -/
theorem Carved.within (h : Carved lo as hi) :
    ∀ a ∈ as, lo ≤ a.base ∧ a.base + a.size ≤ hi := by
  induction h with
  | nil _ => exact fun a ha => absurd ha List.not_mem_nil
  | cons hbase hrest ih =>
      intro a ha
      rcases List.mem_cons.1 ha with rfl | ha
      · have hle := hrest.le
        omega
      · have hin := ih a ha
        omega

/-- Areas one after the other share nothing. -/
theorem disjoint_of_le (h : a.base + a.size ≤ b.base) : a.Disjoint b := by
  rintro n ⟨⟨-, ha⟩, ⟨hb, -⟩⟩
  omega

/-- Any two areas of a carving share nothing. -/
theorem Carved.disjoint (h : Carved lo as hi) : as.Pairwise Disjoint := by
  induction h with
  | nil _ => exact List.Pairwise.nil
  | cons hbase hrest ih =>
      refine List.Pairwise.cons (fun a ha => ?_) ih
      have hin := hrest.within a ha
      exact disjoint_of_le (by omega)

/-- A carving up to where another starts, and that one. -/
theorem Carved.append {bs : List Area} {mid : Nat} (h : Carved lo as mid)
    (h' : Carved mid bs hi) : Carved lo (as ++ bs) hi := by
  induction h with
  | nil h => exact h ▸ h'
  | cons hbase _ ih => exact .cons hbase (ih h')

-- ================================================================= the slots

/-- `n` slots of `size` bytes from `lo` on. -/
def slots (lo size n : Nat) : List Area :=
  (List.range n).map fun i => ⟨lo + size * i, size⟩

/-- The slots carve the area they fill. -/
theorem carved_slots (lo size n : Nat) :
    Carved lo (slots lo size n) (lo + size * n) := by
  induction n with
  | zero => exact .nil rfl
  | succ n ih =>
      unfold slots
      rw [List.range_succ, List.map_append, Nat.mul_succ, ← Nat.add_assoc]
      exact ih.append (.cons rfl (.nil rfl))

end Area
