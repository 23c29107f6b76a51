/-
A text screen that is typed on cell after cell and rolls up a line when
it is full.

# The tape

What such a screen shows is a window on a tape: the screen as it was, then
everything typed, then blanks. Rolling moves the window one line down the
tape and writes nothing, so after any number of cells the screen is known
in closed form (`typed_cell`), the number of rolls included (`rolls`).

The cell that finds the screen full is the one an implementation can lose
on the way: `carried` is what becomes of it, the identity on a screen that
keeps what it is given.
-/
import Mathlib.Data.List.Induction
import Mathlib.Logic.Function.Basic
import Mathlib.Tactic.Common

namespace Terminal

variable {α : Type _}

/-- The contents of the cells, by position, and the position of the next
one. -/
structure Screen (α : Type _) where
  cell : Nat → α
  next : Nat

/-- The measures of a screen, what rolls in, and what becomes of the cell
that makes it roll. -/
structure Format (α : Type _) where
  cols : Nat
  rows : Nat
  blank : α
  carried : α → α
  cols_pos : 0 < cols
  rows_pos : 0 < rows

namespace Format

variable (F : Format α)

def size : Nat := F.rows * F.cols

/-- A line up, with a blank last line. -/
def roll (f : Nat → α) : Nat → α :=
  fun p => if p + F.cols < F.size then f (p + F.cols) else F.blank

/-- One cell typed, at the start of the last line when the screen was
full. -/
def type (s : Screen α) (a : α) : Screen α :=
  if s.next = F.size then
    ⟨Function.update (F.roll s.cell) (F.size - F.cols) (F.carried a),
      F.size - F.cols + 1⟩
  else ⟨Function.update s.cell s.next a, s.next + 1⟩

def typed (s : Screen α) (as : List α) : Screen α := as.foldl F.type s

theorem typed_append (s : Screen α) (as bs : List α) :
    F.typed s (as ++ bs) = F.typed (F.typed s as) bs :=
  List.foldl_append

-- =============================================================== the tape

/-- The rolls it takes to get `t` cells of tape past. -/
def rolls (t : Nat) : Nat := (t - F.size + F.cols - 1) / F.cols

/-- What stays on the tape of a cell typed at `q`. -/
def kept (q : Nat) (a : α) : α :=
  if F.size ≤ q ∧ (q - F.size) % F.cols = 0 then F.carried a else a

/-- The screen `s` up to its next position, then the cells typed, then
what is left of the screen, then blanks. -/
def tape (s : Screen α) (as : List α) (q : Nat) : α :=
  if q < s.next then s.cell q
  else match as[q - s.next]? with
    | some a => F.kept q a
    | none => if q < F.size then s.cell q else F.blank

theorem cols_le_size : F.cols ≤ F.size :=
  Nat.le_mul_of_pos_left _ F.rows_pos

/-- The rolls in terms of what has gone by. -/
theorem rolls_eq_iff {t r : Nat} : F.rolls t = r ↔
    F.cols * r ≤ t - F.size + F.cols - 1
      ∧ t - F.size + F.cols - 1 < F.cols * r + F.cols := by
  unfold rolls
  rw [Nat.div_eq_iff F.cols_pos, Nat.mul_comm r]
  have hcols := F.cols_pos
  omega

theorem rolls_bounds (t : Nat) :
    F.cols * F.rolls t ≤ t - F.size + F.cols - 1
      ∧ t - F.size + F.cols - 1 < F.cols * F.rolls t + F.cols :=
  F.rolls_eq_iff.1 rfl

/-- Nothing rolls while there is room. -/
theorem rolls_of_le {t : Nat} (h : t ≤ F.size) : F.rolls t = 0 := by
  have hcols := F.cols_pos
  rw [F.rolls_eq_iff, Nat.mul_zero]
  omega

/-- A full screen rolls for the next cell. -/
theorem rolls_full {t : Nat} (h : t = F.size + F.cols * F.rolls t) :
    F.rolls (t + 1) = F.rolls t + 1 := by
  have hcols := F.cols_pos
  rw [F.rolls_eq_iff, Nat.mul_succ]
  omega

/-- A screen with room does not. -/
theorem rolls_room {t : Nat} (h : t < F.size + F.cols * F.rolls t) :
    F.rolls (t + 1) = F.rolls t := by
  have hcols := F.cols_pos
  obtain ⟨hlo, hhi⟩ := F.rolls_bounds t
  rw [F.rolls_eq_iff]
  omega

-- ============================================================= the window

theorem tape_nil {s : Screen α} {q : Nat} (h : q < F.size) :
    F.tape s [] q = s.cell q := by
  unfold tape
  rw [List.getElem?_nil]
  split
  · rfl
  · rfl

/-- The tape where the last cell was typed. -/
theorem tape_append_self (s : Screen α) (as : List α) (a : α) :
    F.tape s (as ++ [a]) (s.next + as.length)
      = F.kept (s.next + as.length) a := by
  unfold tape
  rw [if_neg (by omega), Nat.add_sub_cancel_left, List.getElem?_concat_length]

/-- Nowhere else does a cell show. -/
theorem tape_append_of_ne {s : Screen α} {as : List α} {a : α} {q : Nat}
    (h : q ≠ s.next + as.length) :
    F.tape s (as ++ [a]) q = F.tape s as q := by
  unfold tape
  by_cases hq : q < s.next
  · rw [if_pos hq, if_pos hq]
  · rw [if_neg hq, if_neg hq]
    rcases Nat.lt_or_ge (q - s.next) as.length with hlt | hge
    · rw [List.getElem?_append_left hlt]
    · rw [List.getElem?_eq_none hge, List.getElem?_eq_none (by
        rw [List.length_append, List.length_singleton]
        omega)]

/-- Past what was typed and past the first screen it is blank. -/
theorem tape_blank {s : Screen α} {as : List α} {q : Nat}
    (h : s.next + as.length ≤ q) (hsize : F.size ≤ q) :
    F.tape s as q = F.blank := by
  unfold tape
  rw [if_neg (by omega), List.getElem?_eq_none (by omega)]
  exact if_neg (by omega)

/-- A cell typed with room on the screen stays. -/
theorem kept_room {t : Nat} (a : α) (h : t < F.size + F.cols * F.rolls t) :
    F.kept t a = a := by
  refine if_neg ?_
  rintro ⟨hle, hmod⟩
  obtain ⟨m, hm⟩ := Nat.dvd_of_mod_eq_zero hmod
  obtain ⟨hlo, hhi⟩ := F.rolls_bounds t
  -- a whole number of lines past the first screen, and yet no full line
  have h1 : F.rolls t ≤ m := by
    refine Nat.le_of_lt_succ (Nat.lt_of_mul_lt_mul_left (a := F.cols) ?_)
    have hcols := F.cols_pos
    rw [Nat.mul_succ]
    omega
  have h2 := Nat.mul_le_mul_left F.cols h1
  omega

/-- A cell that made the screen roll is carried. -/
theorem kept_full {t : Nat} (a : α) (h : t = F.size + F.cols * F.rolls t) :
    F.kept t a = F.carried a := by
  refine if_pos ⟨by omega, ?_⟩
  rw [show t - F.size = F.cols * F.rolls t by omega]
  exact Nat.mul_mod_right _ _

/-- After any cells, the screen is the window on the tape that the rolls
have brought it to. -/
theorem typed_window (s : Screen α) (hs : s.next ≤ F.size) (as : List α) :
    (F.typed s as).next + F.cols * F.rolls (s.next + as.length)
        = s.next + as.length
      ∧ (F.typed s as).next ≤ F.size
      ∧ ∀ p < F.size, (F.typed s as).cell p
        = F.tape s as (p + F.cols * F.rolls (s.next + as.length)) := by
  have hsize := F.cols_le_size
  have hcols := F.cols_pos
  induction as using List.reverseRecOn with
  | nil =>
      have hzero : F.rolls (s.next + ([] : List α).length) = 0 :=
        F.rolls_of_le hs
      rw [hzero, Nat.mul_zero]
      exact ⟨rfl, hs, fun p hp => (F.tape_nil hp).symm⟩
  | append_singleton as a ih =>
      obtain ⟨hnext, hle, hcell⟩ := ih
      rw [F.typed_append, List.length_append, List.length_singleton,
        ← Nat.add_assoc]
      generalize F.typed s as = u at hnext hle hcell
      show (F.type u a).next + _ = _ ∧ (F.type u a).next ≤ _ ∧
        ∀ p < F.size, (F.type u a).cell p = _
      unfold type
      by_cases hfull : u.next = F.size
      · -- the line typed on is a new one
        have hr := F.rolls_full (t := s.next + as.length) (by omega)
        have hkept := F.kept_full a (t := s.next + as.length) (by omega)
        rw [if_pos hfull, hr, Nat.mul_succ]
        generalize F.cols * F.rolls (s.next + as.length) = m at *
        refine ⟨?_, ?_, ?_⟩
        · show F.size - F.cols + 1 + _ = _
          omega
        · show F.size - F.cols + 1 ≤ _
          omega
        · intro p hp
          show Function.update (F.roll u.cell) (F.size - F.cols)
            (F.carried a) p = _
          by_cases hend : p = F.size - F.cols
          · rw [hend, Function.update_self, ← hkept,
              ← F.tape_append_self s as a]
            congr 1
            omega
          · rw [Function.update_of_ne hend,
              F.tape_append_of_ne (by omega)]
            unfold roll
            split
            next hlt =>
              rw [hcell _ hlt]
              congr 1
              omega
            next hge =>
              exact (F.tape_blank (by omega) (by omega)).symm
      · have hr := F.rolls_room (t := s.next + as.length) (by omega)
        have hkept := F.kept_room a (t := s.next + as.length) (by omega)
        rw [if_neg hfull, hr]
        generalize F.cols * F.rolls (s.next + as.length) = m at *
        refine ⟨?_, ?_, ?_⟩
        · show u.next + 1 + _ = _
          omega
        · show u.next + 1 ≤ _
          omega
        · intro p hp
          show Function.update u.cell u.next a p = _
          by_cases hend : p = u.next
          · rw [hend, Function.update_self, hnext, F.tape_append_self, hkept]
          · rw [Function.update_of_ne hend, F.tape_append_of_ne (by omega)]
            exact hcell p hp

theorem typed_next (s : Screen α) (hs : s.next ≤ F.size) (as : List α) :
    (F.typed s as).next + F.cols * F.rolls (s.next + as.length)
      = s.next + as.length :=
  (F.typed_window s hs as).1

theorem typed_next_le (s : Screen α) (hs : s.next ≤ F.size) (as : List α) :
    (F.typed s as).next ≤ F.size :=
  (F.typed_window s hs as).2.1

theorem typed_cell (s : Screen α) (hs : s.next ≤ F.size) (as : List α)
    {p : Nat} (hp : p < F.size) : (F.typed s as).cell p
      = F.tape s as (p + F.cols * F.rolls (s.next + as.length)) :=
  (F.typed_window s hs as).2.2 p hp

/-- Every line of the tape past the first screen starts with a carried
cell. -/
theorem tape_line {s : Screen α} (hs : s.next ≤ F.size) {as : List α}
    {q : Nat} (hq : F.size ≤ q) (hline : (q - F.size) % F.cols = 0)
    (hlen : q - s.next < as.length) :
    F.tape s as q = F.carried as[q - s.next] := by
  unfold tape kept
  rw [if_neg (by omega), List.getElem?_eq_getElem hlen]
  exact if_pos ⟨hq, hline⟩

/-- Once it has rolled, the last line starts with a carried cell. -/
theorem typed_line_start (s : Screen α) (hs : s.next ≤ F.size)
    (as : List α) (h : F.size < s.next + as.length) :
    ∃ (i : Nat) (hi : i < as.length),
      s.next + i = F.size - F.cols + F.cols * F.rolls (s.next + as.length)
        ∧ (F.typed s as).cell (F.size - F.cols) = F.carried as[i] := by
  have hsize := F.cols_le_size
  have hcols := F.cols_pos
  obtain ⟨hlo, hhi⟩ := F.rolls_bounds (s.next + as.length)
  have hcell := F.typed_cell s hs as (p := F.size - F.cols) (by omega)
  obtain ⟨r, hr⟩ : ∃ r, F.rolls (s.next + as.length) = r + 1 := by
    refine Nat.exists_eq_succ_of_ne_zero fun hzero => ?_
    rw [hzero, Nat.mul_zero] at hhi
    omega
  -- it stands a whole number of lines past the first screen
  have hmul : F.cols * F.rolls (s.next + as.length) = F.cols * r + F.cols := by
    rw [hr, Nat.mul_succ]
  have hline : (F.size - F.cols + F.cols * F.rolls (s.next + as.length)
      - F.size) % F.cols = 0 := by
    rw [hmul, show F.size - F.cols + (F.cols * r + F.cols) - F.size
      = F.cols * r by omega]
    exact Nat.mul_mod_right _ _
  generalize F.cols * F.rolls (s.next + as.length) = m at *
  refine ⟨F.size - F.cols + m - s.next, by omega, by omega, ?_⟩
  rw [hcell]
  exact F.tape_line hs (by omega) hline (by omega)

/-- While there is room, what is typed stands from the start on and the
rest is untouched. -/
theorem typed_cell_room (s : Screen α) (as : List α)
    (h : s.next + as.length ≤ F.size) {p : Nat} (hp : p < F.size) :
    (F.typed s as).cell p
      = if q : s.next ≤ p ∧ p - s.next < as.length then
          as.get ⟨p - s.next, q.2⟩ else s.cell p := by
  rw [F.typed_cell s (by omega) as hp, F.rolls_of_le h, Nat.mul_zero,
    Nat.add_zero]
  unfold tape kept
  split
  next hlt => rw [dif_neg (by omega)]
  next hge =>
    split
    next a ha =>
      rw [List.getElem?_eq_some_iff] at ha
      obtain ⟨hlen, ha⟩ := ha
      rw [dif_pos ⟨by omega, hlen⟩, if_neg (by omega)]
      exact ha.symm
    next hnone =>
      rw [List.getElem?_eq_none_iff] at hnone
      rw [dif_neg (by omega)]

end Format

end Terminal
