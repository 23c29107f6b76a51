/-
A ring of slots between a producer and a consumer.

# Positions

The ring has `N` slots. The slot `n` places past the consumer's position
`cur` is `slot N cur n`; within one round of the ring places and slots
determine each other (`slot_inj`, `exists_slot`).

# Who has what

The producer owns the slots from its position up to but excluding the
limit the consumer set (`Owns`), none when the two are equal
(`exists_owns_iff`). The slots it has filled are marked, `d` of them from
the consumer's position on (`Marked`); filling one more and taking one out
keep that shape.
-/
import Mathlib.Algebra.Group.Nat.Defs
import Mathlib.Tactic.Common

namespace Ring

variable {N cur d e n m head tail : Nat}

-- ============================================================= positions

/-- The slot `n` places past `cur`. -/
def slot (N cur n : Nat) : Nat := (cur + n) % N

theorem slot_lt (hN : 0 < N) (cur n : Nat) : slot N cur n < N :=
  Nat.mod_lt _ hN

theorem slot_zero (hcur : cur < N) : slot N cur 0 = cur :=
  Nat.mod_eq_of_lt hcur

theorem slot_succ (N cur n : Nat) :
    slot N cur (n + 1) = (slot N cur n + 1) % N := by
  unfold slot
  rw [Nat.mod_add_mod, Nat.add_assoc]

/-- Once round the ring. -/
theorem slot_full (hcur : cur < N) : slot N cur N = cur := by
  unfold slot
  rw [Nat.add_mod_right, Nat.mod_eq_of_lt hcur]

/-- Places counted from the next slot. -/
theorem slot_next (N cur n : Nat) :
    slot N ((cur + 1) % N) n = slot N cur (n + 1) := by
  unfold slot
  rw [Nat.mod_add_mod]
  congr 1
  omega

/-- A place within the round, with the one wrap. -/
theorem slot_eq (hcur : cur < N) (hn : n ≤ N) :
    slot N cur n = if cur + n < N then cur + n else cur + n - N := by
  unfold slot
  split
  next hlt => exact Nat.mod_eq_of_lt hlt
  next hge =>
    rw [Nat.mod_eq_sub_mod (by omega)]
    exact Nat.mod_eq_of_lt (by omega)

theorem slot_inj (hcur : cur < N) (hn : n < N) (hm : m < N)
    (h : slot N cur n = slot N cur m) : n = m := by
  rw [slot_eq hcur (by omega), slot_eq hcur (by omega)] at h
  split at h
  · split at h <;> omega
  · split at h <;> omega

/-- Every slot is some places past `cur`. -/
theorem exists_slot (hcur : cur < N) {i : Nat} (hi : i < N) :
    ∃ n < N, slot N cur n = i := by
  rcases Nat.lt_or_ge i cur with hlt | hge
  · refine ⟨i + N - cur, by omega, ?_⟩
    rw [slot_eq hcur (by omega), if_neg (by omega)]
    omega
  · refine ⟨i - cur, by omega, ?_⟩
    rw [slot_eq hcur (by omega), if_pos (by omega)]
    omega

/-- Two places past `cur` are one slot when they are a round apart. -/
theorem slot_eq_iff (hcur : cur < N) (hd : d ≤ e) (he : e ≤ N) :
    slot N cur d = slot N cur e ↔ e = d ∨ e = d + N := by
  rw [slot_eq hcur (by omega), slot_eq hcur he]
  split
  · split <;> omega
  · split <;> omega

-- ============================================================== ownership

/-- How many slots there are from `head` up to `tail`. -/
def gap (N head tail : Nat) : Nat := (tail + N - head) % N

/-- The producer at `head` may fill slot `i`, with the limit at `tail`. -/
def Owns (N head tail i : Nat) : Prop :=
  i < N ∧ gap N head i < gap N head tail

theorem gap_self (N head : Nat) : gap N head head = 0 := by
  unfold gap
  rw [Nat.add_sub_cancel_left]
  exact Nat.mod_self N

theorem gap_pos (hh : head < N) (ht : tail < N) (hne : head ≠ tail) :
    0 < gap N head tail := by
  unfold gap
  rcases Nat.lt_or_ge tail head with hlt | hge
  · rw [Nat.mod_eq_of_lt (by omega)]
    omega
  · rw [Nat.mod_eq_sub_mod (by omega), Nat.mod_eq_of_lt (by omega)]
    omega

theorem owns_head_iff (hh : head < N) (ht : tail < N) :
    Owns N head tail head ↔ head ≠ tail := by
  refine ⟨?_, fun hne => ⟨hh, ?_⟩⟩
  · rintro ⟨-, hlt⟩ rfl
    exact Nat.lt_irrefl _ hlt
  · rw [gap_self]
    exact gap_pos hh ht hne

/-- The producer owns a slot unless it is at the limit. -/
theorem exists_owns_iff (hh : head < N) (ht : tail < N) :
    (∃ i, Owns N head tail i) ↔ head ≠ tail := by
  refine ⟨?_, fun hne => ⟨head, (owns_head_iff hh ht).2 hne⟩⟩
  rintro ⟨i, -, hlt⟩ rfl
  rw [gap_self] at hlt
  exact Nat.not_lt_zero _ hlt

-- ================================================================ marking

/-- The marked slots are the `d` from `cur` on. -/
def Marked (N cur d : Nat) (mark : Nat → Bool) : Prop :=
  ∀ n < N, mark (slot N cur n) = decide (n < d)

variable {mark mark' : Nat → Bool}

/-- The slot past the marked ones is marked too. -/
theorem Marked.fill (hcur : cur < N) (h : Marked N cur d mark) (hd : d < N)
    (hself : mark' (slot N cur d) = true)
    (hrest : ∀ i < N, i ≠ slot N cur d → mark' i = mark i) :
    Marked N cur (d + 1) mark' := by
  intro n hn
  by_cases heq : n = d
  · subst heq
    rw [hself, decide_eq_true (by omega)]
  · have hslot : slot N cur n ≠ slot N cur d :=
      fun hs => heq (slot_inj hcur hn hd hs)
    rw [hrest _ (slot_lt (by omega) _ _) hslot, h n hn]
    exact decide_eq_decide.2 (by omega)

/-- The consumer takes the slot at its position and moves on. -/
theorem Marked.take (hcur : cur < N) (h : Marked N cur (d + 1) mark)
    (hself : mark' cur = false)
    (hrest : ∀ i < N, i ≠ cur → mark' i = mark i) (hd : d < N) :
    Marked N ((cur + 1) % N) d mark' := by
  intro n hn
  rw [slot_next]
  by_cases hlast : n + 1 = N
  · -- the slot just taken, a round further on
    have hslot : slot N cur (n + 1) = cur := by
      rw [hlast, slot_eq hcur (Nat.le_refl _), if_neg (by omega)]
      omega
    rw [hslot, hself, decide_eq_false (by omega)]
  · have hslot : slot N cur (n + 1) ≠ cur := by
      rw [slot_eq hcur (by omega)]
      split <;> omega
    rw [hrest _ (slot_lt (by omega) _ _) hslot, h (n + 1) (by omega)]
    exact decide_eq_decide.2 (by omega)

/-- The mark at the consumer's position. -/
theorem Marked.first (hcur : cur < N) (h : Marked N cur d mark) :
    mark cur = decide (0 < d) := by
  have hfirst := h 0 (by omega)
  rw [slot_zero hcur] at hfirst
  exact hfirst

/-- No slot is marked when the count is zero, and only then. -/
theorem Marked.none_iff (hcur : cur < N) (h : Marked N cur d mark) :
    (∀ i < N, mark i = false) ↔ d = 0 := by
  constructor
  · intro hnone
    have hfirst := h.first hcur
    rw [hnone cur hcur] at hfirst
    have hpos := of_decide_eq_false hfirst.symm
    omega
  · rintro rfl i hi
    obtain ⟨n, hn, rfl⟩ := exists_slot hcur hi
    rw [h n hn, decide_eq_false (Nat.not_lt_zero n)]

end Ring
