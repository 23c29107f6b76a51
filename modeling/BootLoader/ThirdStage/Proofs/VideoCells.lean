/-
What printing does to the screen, cell by cell.

# The terminal

The text buffer is 25 lines of 80 cells, a character and its attribute
each, so the print loop is the terminal of `Lib.Terminal` at these
measures (`Shows.print_char`), with two things of its own:

- the scroll copies through RAX, and 0xB8F00 ends in a zero byte, so the
  character that made the screen roll is written as a NUL (`coded`);
- `clear_last_line` blanks the line past the last one too (`Screenful`
  keeps account of these 160 bytes).

Everything else is untouched until the cursor is stored.
-/
import BootLoader.Lib.Terminal
import BootLoader.ThirdStage.Proofs.Screen

namespace BootLoader.ThirdStage

open FlatMemory Words

variable {L : Layout} {c d : Cpu} {m m₀ : Mem} {past : Bool}

-- ============================================================== the cells

/-- A character and its attribute. -/
abbrev Cell := BitVec 8 × BitVec 8

/-- The cell at position `p`, 80 to a line. -/
def cellAt (m : Mem) (p : Nat) : Cell :=
  (m (BitVec.ofNat 64 (0xB8000 + 2 * p)),
    m (BitVec.ofNat 64 (0xB8000 + 2 * p + 1)))

/-- A character as `cont_printing` writes it. -/
def inked (ch : BitVec 8) : Cell := (ch, 0x1F#8)

/-- The buffer as a terminal. -/
def terminal (carried : Cell → Cell) : Terminal.Format Cell where
  cols := 80
  rows := 25
  blank := (0x20#8, 0#8)
  carried := carried
  cols_pos := by decide
  rows_pos := by decide

/-- As the code has it: a NUL for the character that makes it scroll. -/
def coded : Terminal.Format Cell := terminal fun _ => inked 0#8

theorem terminal_size (f : Cell → Cell) : (terminal f).size = 2000 := by
  simp only [Terminal.Format.size, terminal]

theorem coded_size : coded.size = 2000 := terminal_size _

theorem coded_cols : coded.cols = 80 := rfl

theorem cellAt_congr {m' : Mem} {p : Nat} (hp : p < 2080)
    (h : ∀ b : BitVec 64, 0xB8000 + 2 * p ≤ b.toNat →
      b.toNat < 0xB8000 + 2 * p + 2 → m' b = m b) :
    cellAt m' p = cellAt m p := by
  have h1 := toNat_lit (n := 0xB8000 + 2 * p) (by omega)
  have h2 := toNat_lit (n := 0xB8000 + 2 * p + 1) (by omega)
  unfold cellAt
  rw [h _ (by omega) (by omega), h _ (by omega) (by omega)]

/-- The bytes of a cell, from the address of either. -/
theorem eq_of_cellAt {m' : Mem} {p : Nat} (hp : p < 2080)
    (h : cellAt m' p = cellAt m p) {b : BitVec 64}
    (hlo : 0xB8000 + 2 * p ≤ b.toNat) (hhi : b.toNat < 0xB8000 + 2 * p + 2) :
    m' b = m b := by
  obtain ⟨h1, h2⟩ := Prod.mk.inj h
  rcases Nat.lt_or_ge b.toNat (0xB8000 + 2 * p + 1) with hlt | hge
  · have hb : b = BitVec.ofNat 64 (0xB8000 + 2 * p) := by
      apply BitVec.eq_of_toNat_eq
      rw [toNat_lit (by omega)]
      omega
    rw [hb, h1]
  · have hb : b = BitVec.ofNat 64 (0xB8000 + 2 * p + 1) := by
      apply BitVec.eq_of_toNat_eq
      rw [toNat_lit (by omega)]
      omega
    rw [hb, h2]

/-- The two stores of a cell. -/
theorem cellAt_put {a : BitVec 64} {p q : Nat} {v w : BitVec 8}
    (ha : a.toNat = 0xB8000 + 2 * p) (hp : p < 2080) (hq : q < 2080) :
    cellAt ((m.write8 a v).write8 (a + 1#64) w) q
      = if q = p then (v, w) else cellAt m q := by
  have ha1 : (a + 1#64).toNat = 0xB8000 + 2 * p + 1 := by
    rw [toNat_add_lit (by omega), ha]
  by_cases hqp : q = p
  · have hlo : BitVec.ofNat 64 (0xB8000 + 2 * p) = a := by
      apply BitVec.eq_of_toNat_eq
      rw [toNat_lit (by omega), ha]
    have hhi : BitVec.ofNat 64 (0xB8000 + 2 * p + 1) = a + 1#64 := by
      apply BitVec.eq_of_toNat_eq
      rw [toNat_lit (by omega), ha1]
    rw [if_pos hqp, hqp]
    unfold cellAt
    have hchar : (m.write8 a v).write8 (a + 1#64) w a = m.write8 a v a := by
      refine Mem.write_apply_of_out (n := 1) _ _ ?_ ?_ <;> omega
    rw [hlo, hhi, Mem.write8_self, hchar, Mem.write8_self]
  · rw [if_neg hqp]
    refine cellAt_congr hq fun b hlo hhi => ?_
    have h1 : m.write8 a v b = m b := by
      refine Mem.write_apply_of_out (n := 1) _ _ ?_ ?_ <;> omega
    rw [← h1]
    refine Mem.write_apply_of_out (n := 1) _ _ ?_ ?_ <;> omega

-- ============================================================= the scroll

/-- What `clear_last_line` leaves at `b`. -/
def blankByte (b : BitVec 64) : BitVec 8 :=
  if b.toNat % 2 = 0 then 0x20#8 else 0#8

/-- `copy_up` moves 24 lines up one. -/
theorem copy_up_bytes (hax : c.reg .rax = 0xB8000#64)
    (hbx : c.reg .rbx = 0xB80A0#64) (hdx : c.reg .rdx = 0#64) :
    (copy_up c).reg .rax = 0xB8F00#64
      ∧ ∀ b : BitVec 64, (copy_up c).mem b
        = if 0xB8000 ≤ b.toNat ∧ b.toNat < 0xB8F00 then c.mem (b + 0xA0#64)
          else c.mem b := by
  have hrun : CopyUp c 0x1E0 (copy_up c) ∧ ∀ b : BitVec 64, (copy_up c).mem b
      = if 0xB8000 ≤ b.toNat ∧ b.toNat < 0xB8000 + 8 * 0x1E0 then
          c.mem (b + 0xA0#64) else c.mem b := by
    unfold copy_up
    refine Loop.doWhile_counted (fun k d => CopyUp c k d ∧ ∀ b : BitVec 64,
      d.mem b = if 0xB8000 ≤ b.toNat ∧ b.toNat < 0xB8000 + 8 * k then
        c.mem (b + 0xA0#64) else c.mem b) (by omega) ?_ ?_ ?_
      (Nat.le_refl _) ?_
    · rintro k d hk ⟨hcopy, hmem⟩
      refine ⟨hcopy.round hk, fun b => ?_⟩
      obtain ⟨-, hdax, hdbx, -⟩ := hcopy
      have hround : (copy_up_round d).mem
          = d.mem.write64 (d.reg .rax) (d.mem.read64 (d.reg .rbx)) := rfl
      rw [hround]
      by_cases hin : (d.reg .rax).toNat ≤ b.toNat
          ∧ b.toNat < (d.reg .rax).toNat + 8
      · -- a byte of this round's quadword, read a line further down
        obtain ⟨i, hi, rfl⟩ : ∃ i, i < 8
            ∧ b = d.reg .rax + BitVec.ofNat 64 i := by
          refine ⟨b.toNat - (d.reg .rax).toNat, by omega, ?_⟩
          apply BitVec.eq_of_toNat_eq
          rw [toNat_add_lit (by omega)]
          omega
        have hto : (d.reg .rax + BitVec.ofNat 64 i).toNat
            = (d.reg .rax).toNat + i := toNat_add_lit (by omega)
        have hfrom : d.reg .rbx + BitVec.ofNat 64 i
            = d.reg .rax + BitVec.ofNat 64 i + 0xA0#64 := by
          apply BitVec.eq_of_toNat_eq
          rw [toNat_add_lit (by omega), toNat_add_lit (by omega), hto]
          omega
        have hfrom' : (d.reg .rax + BitVec.ofNat 64 i + 0xA0#64).toNat
            = (d.reg .rax).toNat + i + 0xA0 := by
          rw [toNat_add_lit (by omega), hto]
        rw [if_pos (by omega)]
        refine ((Mem.write_apply_add (n := 8) _ _ _ hi (by omega)).trans
          (Mem.extractLsb'_read _ _ (n := 8) hi)).trans ?_
        rw [hfrom, hmem, if_neg (by omega)]
      · refine (Mem.write_apply_of_out (n := 8) _ _ (by omega)
          (by omega)).trans ?_
        rw [hmem]
        by_cases hdone : 0xB8000 ≤ b.toNat ∧ b.toNat < 0xB8000 + 8 * k
        · rw [if_pos hdone, if_pos (by omega)]
        · rw [if_neg hdone, if_neg (by omega)]
    · rintro k d - hk ⟨hcopy, -⟩
      have hddx := hcopy.2.2.2
      rw [slt_lit (by omega) (by omega), hddx]
      exact decide_eq_true hk
    · rintro d ⟨hcopy, -⟩
      have hddx := hcopy.2.2.2
      rw [slt_lit (by omega) (by omega), hddx]
      rfl
    · refine ⟨⟨LowWork.refl c, by rw [hax]; rfl, by rw [hbx]; rfl,
        by rw [hdx]; rfl⟩, fun b => (if_neg ?_).symm⟩
      omega
  exact ⟨BitVec.eq_of_toNat_eq hrun.1.2.1, hrun.2⟩

/-- What a round of `clear_last_line` writes. -/
theorem clear_round_bytes {k : Nat} (_ : k < 0xA0)
    (hbx : (d.reg .rbx).toNat = 0xB8F00 + 2 * k) (b : BitVec 64) :
    (clear_last_line_round d).mem b
      = if 0xB8F00 + 2 * k ≤ b.toNat ∧ b.toNat < 0xB8F00 + 2 * k + 2 then
          blankByte b else d.mem b := by
  have hnext : (d.reg .rbx + 1#64).toNat = 0xB8F00 + 2 * k + 1 := by
    rw [toNat_add_lit (by omega), hbx]
  have hround : (clear_last_line_round d).mem
      = (d.mem.write8 (d.reg .rbx) 0x20#8).write8 (d.reg .rbx + 1#64) 0#8 :=
    rfl
  rw [hround]
  unfold blankByte
  by_cases heven : b = d.reg .rbx
  · rw [heven, if_pos (by omega), if_pos (by omega)]
    refine (Mem.write_apply_of_out (n := 1) _ _ (by omega)
      (by omega)).trans ?_
    exact Mem.write8_self _ _ _
  by_cases hodd : b = d.reg .rbx + 1#64
  · rw [hodd, if_pos (by omega), if_neg (by omega)]
    exact Mem.write8_self _ _ _
  · have h1 : b.toNat ≠ (d.reg .rbx).toNat :=
      fun h => heven (BitVec.eq_of_toNat_eq h)
    have h2 : b.toNat ≠ (d.reg .rbx + 1#64).toNat :=
      fun h => hodd (BitVec.eq_of_toNat_eq h)
    rw [if_neg (by omega)]
    exact (Mem.write_apply_of_out (n := 1) _ _ (by omega) (by omega)).trans
      (Mem.write_apply_of_out (n := 1) _ _ (by omega) (by omega))

/-- The state of `clear_last_line` after `k` rounds. -/
def Blanked (c : Cpu) (k : Nat) (d : Cpu) : Prop :=
  ClearLine c k d ∧ ∀ b : BitVec 64, d.mem b
    = if 0xB8F00 ≤ b.toNat ∧ b.toNat < 0xB8F00 + 2 * k then blankByte b
      else c.mem b

theorem Blanked.round {k : Nat} (hk : k < 0xA0) (h : Blanked c k d) :
    Blanked c (k + 1) (clear_last_line_round d) := by
  obtain ⟨hclear, hmem⟩ := h
  refine ⟨hclear.round hk, fun b => ?_⟩
  rw [clear_round_bytes hk hclear.2.1, hmem]
  by_cases hnew : 0xB8F00 + 2 * k ≤ b.toNat ∧ b.toNat < 0xB8F00 + 2 * k + 2
  · rw [if_pos hnew, if_pos (by omega)]
  · rw [if_neg hnew]
    by_cases hold : 0xB8F00 ≤ b.toNat ∧ b.toNat < 0xB8F00 + 2 * k
    · rw [if_pos hold, if_pos (by omega)]
    · rw [if_neg hold, if_neg (by omega)]

theorem Blanked.start (hbx : c.reg .rbx = 0xB8F00#64)
    (hdx : c.reg .rdx = 0#64) : Blanked c 0 c := by
  refine ⟨⟨LowWork.refl c, by rw [hbx]; rfl, by rw [hdx]; rfl⟩, fun b => ?_⟩
  exact (if_neg (by omega)).symm

/-- The test after 0xA0 rounds. -/
theorem Blanked.stop (h : Blanked c 0xA0 d) :
    (d.reg .rdx != 0xA0#64) = false := by
  have heq : d.reg .rdx = 0xA0#64 := BitVec.eq_of_toNat_eq h.1.2.2
  rw [heq]
  rfl

/-- And before. -/
theorem Blanked.go {k : Nat} (hk : k < 0xA0) (h : Blanked c k d) :
    (d.reg .rdx != 0xA0#64) = true := by
  refine bne_iff_ne.2 fun heq => ?_
  have hdx := h.1.2.2
  rw [heq, toNat_lit (by omega)] at hdx
  omega

/-- `clear_last_line` blanks two lines. -/
theorem clear_last_line_bytes (hbx : c.reg .rbx = 0xB8F00#64)
    (hdx : c.reg .rdx = 0#64) : Blanked c 0xA0 (clear_last_line c) := by
  unfold clear_last_line
  exact Loop.doWhile_counted (Blanked c) (by omega)
    (fun k d hk h => h.round hk) (fun k d _ hk h => h.go hk)
    (fun d h => h.stop) (Nat.le_refl _) (Blanked.start hbx hdx)

/-- The memory after a scroll. -/
def scrolledByte (m : Mem) (b : BitVec 64) : BitVec 8 :=
  if 0xB8000 ≤ b.toNat ∧ b.toNat < 0xB8F00 then m (b + 0xA0#64)
  else if 0xB8F00 ≤ b.toNat ∧ b.toNat < 0xB9040 then blankByte b
  else m b

theorem scroll_bytes (c : Cpu) : (scroll c).reg .rax = 0xB8F00#64
    ∧ (scroll c).reg .rbx = 0xB8F00#64
    ∧ ∀ b : BitVec 64, (scroll c).mem b = scrolledByte c.mem b := by
  obtain ⟨hax, hup⟩ := copy_up_bytes
    (c := ((c.set .rbx 0xB80A0#64).set .rax 0xB8000#64).set .rdx 0#64)
    rfl rfl rfl
  have hscroll : scroll c = (clear_last_line (((copy_up (((c.set .rbx
      0xB80A0#64).set .rax 0xB8000#64).set .rdx 0#64)).set .rdx 0#64).set
        .rbx 0xB8F00#64)).set .rbx 0xB8F00#64 := rfl
  rw [hscroll]
  generalize copy_up (((c.set .rbx 0xB80A0#64).set .rax 0xB8000#64).set .rdx
    0#64) = u at hax hup ⊢
  have hclear := clear_last_line_bytes
    (c := (u.set .rdx 0#64).set .rbx 0xB8F00#64) rfl rfl
  have hreg : (clear_last_line ((u.set .rdx 0#64).set .rbx 0xB8F00#64)).reg
      .rax = u.reg .rax := by
    unfold clear_last_line
    refine Loop.doWhile_preserves
      (P := fun e : Cpu => e.reg .rax = u.reg .rax) ?_ _ ?_
    · intro e he
      rw [← he]
      simp only [clear_last_line_round, Cpu.set_reg, Cpu.store8_reg,
        reduceCtorEq, if_false]
    · simp only [Cpu.set_reg, reduceCtorEq, if_false]
  refine ⟨?_, Cpu.set_reg_self _ _ _, fun b => ?_⟩
  · rw [Cpu.set_reg_of_ne (by decide), hreg, hax]
  rw [Cpu.set_mem, hclear.2 b]
  show (if _ then _ else u.mem b) = _
  rw [hup]
  unfold scrolledByte
  show (if _ then _ else if _ then c.mem (b + 0xA0#64) else c.mem b) = _
  by_cases hrow : 0xB8000 ≤ b.toNat ∧ b.toNat < 0xB8F00
  · rw [if_neg (by omega), if_pos hrow, if_pos hrow]
  · rw [if_neg hrow, if_neg hrow]

theorem scrolledByte_row {b : BitVec 64}
    (h : 0xB8000 ≤ b.toNat ∧ b.toNat < 0xB8F00) :
    scrolledByte m b = m (b + 0xA0#64) := if_pos h

theorem scrolledByte_blank {b : BitVec 64}
    (h : 0xB8F00 ≤ b.toNat ∧ b.toNat < 0xB9040) :
    scrolledByte m b = blankByte b :=
  (if_neg (by omega)).trans (if_pos h)

theorem scrolledByte_out {b : BitVec 64}
    (h : b.toNat < 0xB8000 ∨ 0xB9040 ≤ b.toNat) :
    scrolledByte m b = m b :=
  (if_neg (by omega)).trans (if_neg (by omega))

/-- The cells after a scroll: lines up one, the last one blank. -/
theorem scrolled_cell {p : Nat} (hp : p < 2000)
    (h : ∀ b : BitVec 64, m b = scrolledByte m₀ b) :
    cellAt m p = coded.roll (cellAt m₀) p := by
  have h1 := toNat_lit (n := 0xB8000 + 2 * p) (by omega)
  have h2 := toNat_lit (n := 0xB8000 + 2 * p + 1) (by omega)
  unfold Terminal.Format.roll
  rw [coded_size, coded_cols]
  unfold cellAt
  rw [h, h]
  rcases Nat.lt_or_ge (p + 80) 2000 with hlt | hge
  · -- a line further down
    rw [scrolledByte_row (by omega), scrolledByte_row (by omega), if_pos hlt,
      ← BitVec.ofNat_add, ← BitVec.ofNat_add,
      show 0xB8000 + 2 * p + 1 + 0xA0 = 0xB8000 + 2 * (p + 80) + 1 by omega,
      show 0xB8000 + 2 * p + 0xA0 = 0xB8000 + 2 * (p + 80) by omega]
  · rw [scrolledByte_blank (by omega), scrolledByte_blank (by omega),
      if_neg (by omega)]
    have hchar : blankByte (BitVec.ofNat 64 (0xB8000 + 2 * p)) = 0x20#8 :=
      if_pos (by omega)
    have hattr : blankByte (BitVec.ofNat 64 (0xB8000 + 2 * p + 1)) = 0#8 :=
      if_neg (by omega)
    rw [hchar, hattr]
    rfl

-- ======================================================== the print loop

/-- `m` has the cells `f` on the screen, the line past it blank or as in
`m₀`, and the bytes of `m₀` everywhere else. -/
structure Screenful (m₀ : Mem) (f : Nat → Cell) (past : Bool) (m : Mem) :
    Prop where
  cells : ∀ p < 2000, cellAt m p = f p
  margin : ∀ b : BitVec 64, 0xB8FA0 ≤ b.toNat → b.toNat < 0xB9040 →
    m b = if past then blankByte b else m₀ b
  frame : ∀ b : BitVec 64, b.toNat < 0xB8000 ∨ 0xB9040 ≤ b.toNat →
    m b = m₀ b

theorem Screenful.refl (m : Mem) : Screenful m (cellAt m) false m :=
  ⟨fun _ _ => rfl, fun _ _ _ => rfl, fun _ _ => rfl⟩

/-- A cell written on the screen. -/
theorem Screenful.put {f : Nat → Cell} (h : Screenful m₀ f past m)
    {a : BitVec 64} {p : Nat} {v w : BitVec 8}
    (ha : a.toNat = 0xB8000 + 2 * p) (hp : p < 2000) :
    Screenful m₀ (Function.update f p (v, w)) past
      ((m.write8 a v).write8 (a + 1#64) w) := by
  have ha1 : (a + 1#64).toNat = 0xB8000 + 2 * p + 1 := by
    rw [toNat_add_lit (by omega), ha]
  have hout : ∀ b : BitVec 64, b.toNat < 0xB8000 ∨ 0xB8FA0 ≤ b.toNat →
      ((m.write8 a v).write8 (a + 1#64) w) b = m b := by
    intro b hb
    exact (Mem.write_apply_of_out (n := 1) _ _ (by omega) (by omega)).trans
      (Mem.write_apply_of_out (n := 1) _ _ (by omega) (by omega))
  refine ⟨?_, ?_, ?_⟩
  · intro q hq
    rw [cellAt_put ha (by omega) (by omega), Function.update_apply,
      h.cells q hq]
  · intro b hlo hhi
    rw [hout b (by omega), h.margin b hlo hhi]
  · intro b hb
    rw [hout b (by omega), h.frame b hb]

/-- A scroll of the screen. -/
theorem Screenful.scroll {f : Nat → Cell} (h : Screenful m₀ f past d.mem) :
    Screenful m₀ (coded.roll f) true (ThirdStage.scroll d).mem := by
  obtain ⟨-, -, hmem⟩ := scroll_bytes d
  refine ⟨?_, ?_, ?_⟩
  · intro p hp
    rw [scrolled_cell hp hmem]
    unfold Terminal.Format.roll
    split
    next hlt => exact h.cells _ hlt
    next => rfl
  · intro b hlo hhi
    rw [hmem b, if_pos rfl]
    exact scrolledByte_blank (by omega)
  · intro b hb
    rw [hmem b, scrolledByte_out hb]
    exact h.frame b hb

/-- The screen of `d` is `s`, with the pointer at its next cell. -/
structure Shows (m₀ : Mem) (s : Terminal.Screen Cell) (past : Bool)
    (d : Cpu) : Prop where
  screen : Screenful m₀ s.cell past d.mem
  next : s.next ≤ 2000
  rbx : (d.reg .rbx).toNat = 0xB8000 + 2 * s.next

/-- A cell at the pointer, with room for it. -/
theorem Shows.put {s : Terminal.Screen Cell} {e : Cpu} {v : BitVec 8}
    (h : Shows m₀ s past d) (hroom : s.next < 2000)
    (hmem : e.mem = (d.mem.write8 (d.reg .rbx) v).write8
      (d.reg .rbx + 1#64) 0x1F#8)
    (hrbx : e.reg .rbx = d.reg .rbx + 1#64 + 1#64) :
    Shows m₀ (coded.type s (inked v)) past e := by
  have hbx := h.rbx
  have htype : coded.type s (inked v)
      = ⟨Function.update s.cell s.next (inked v), s.next + 1⟩ :=
    if_neg (by rw [coded_size]; omega)
  rw [htype]
  refine ⟨?_, hroom, ?_⟩
  · rw [hmem]
    exact h.screen.put hbx hroom
  · show (e.reg .rbx).toNat = 0xB8000 + 2 * (s.next + 1)
    rw [hrbx, toNat_add_lit (by rw [toNat_add_lit (by omega)]; omega),
      toNat_add_lit (by omega)]
    omega

theorem Shows.cont_printing {s : Terminal.Screen Cell}
    (h : Shows m₀ s past d) (hroom : s.next < 2000) :
    Shows m₀ (coded.type s (inked (d.low8 .rax))) past
      (ThirdStage.cont_printing d) :=
  h.put hroom rfl rfl

/-- A cell after a scroll: whatever was to be written, it is the low byte
of the copy pointer. -/
theorem Shows.scroll_printing {f : Nat → Cell}
    (h : Screenful m₀ f past d.mem) (a : Cell) :
    Shows m₀ (coded.type ⟨f, 2000⟩ a) true
      (ThirdStage.cont_printing (scroll d)) := by
  obtain ⟨hax, hbx, -⟩ := scroll_bytes d
  have hal : (scroll d).low8 .rax = 0#8 := by
    unfold Cpu.low8
    rw [hax]
    decide
  have hrolled : Shows m₀ ⟨coded.roll f, 1920⟩ true (scroll d) := by
    refine ⟨h.scroll, ?_, ?_⟩
    · show 1920 ≤ 2000
      omega
    · rw [hbx]
      rfl
  have hput := hrolled.cont_printing (by show 1920 < 2000; omega)
  rw [hal] at hput
  exact hput

/-- One character of the print loop. -/
def print_char (ch : BitVec 8) (c : Cpu) : Cpu :=
  let c := lodsb ch c
  let c := if c.reg .rbx = 0xB8FA0#64 then scroll c else c
  cont_printing c

theorem video_print_loop_cons {ch : BitVec 8} (h13 : ch ≠ 13#8)
    (h0 : ch ≠ 0#8) (rest : List (BitVec 8)) (c : Cpu) :
    video_print_loop L (ch :: rest) c
      = video_print_loop L rest (print_char ch c) := by
  rw [video_print_loop]
  simp only [lodsb_al]
  rw [if_neg h13, if_neg h0]
  rfl

theorem lodsb_mem (ch : BitVec 8) (c : Cpu) : (lodsb ch c).mem = c.mem := rfl

/-- A character of the loop is a cell typed. -/
theorem Shows.print_char {s : Terminal.Screen Cell} (h : Shows m₀ s past d)
    (ch : BitVec 8) :
    Shows m₀ (coded.type s (inked ch)) (past || decide (s.next = 2000))
      (ThirdStage.print_char ch d) := by
  have hnext := h.next
  have hbx := h.rbx
  have hlbx : (lodsb ch d).reg .rbx = d.reg .rbx := rfl
  unfold ThirdStage.print_char
  by_cases hend : s.next = 2000
  · have hrbx : (lodsb ch d).reg .rbx = 0xB8FA0#64 := by
      apply BitVec.eq_of_toNat_eq
      rw [hlbx, hbx, hend]
      rfl
    simp only [if_pos hrbx]
    rw [decide_eq_true hend, Bool.or_true]
    obtain ⟨f, next⟩ := s
    have hscreen : Screenful m₀ f past (lodsb ch d).mem := h.screen
    cases (hend : next = 2000)
    exact Shows.scroll_printing hscreen (inked ch)
  · have hrbx : (lodsb ch d).reg .rbx ≠ 0xB8FA0#64 := by
      intro heq
      rw [← hlbx, heq, toNat_lit (by omega)] at hbx
      omega
    simp only [if_neg hrbx]
    rw [decide_eq_false hend, Bool.or_false]
    have hl : Shows m₀ s past (lodsb ch d) := ⟨h.screen, hnext, hbx⟩
    have hput := hl.cont_printing (by omega)
    rw [lodsb_al] at hput
    exact hput

/-- What the print loop leaves of the other registers. -/
theorem print_char_reg {r : Reg} (hax : r ≠ .rax) (hbx : r ≠ .rbx)
    (hcx : r ≠ .rcx) (hdx : r ≠ .rdx) (hsi : r ≠ .rsi) (h8 : r ≠ .r8)
    (ch : BitVec 8) (c : Cpu) : (print_char ch c).reg r = c.reg r := by
  have hcont : ∀ d : Cpu, (cont_printing d).reg r = d.reg r := by
    intro d
    simp only [cont_printing, Cpu.set_reg_of_ne hbx, Cpu.set_reg_of_ne hcx,
      Cpu.store8_reg]
  unfold print_char
  rw [hcont]
  split
  · rw [scroll_reg hax hbx hdx h8, lodsb_reg ch c hax hsi]
  · exact lodsb_reg ch c hax hsi

/-- RSI is a character on, and RCX two bytes. -/
theorem print_char_counts (ch : BitVec 8) (c : Cpu) :
    (print_char ch c).reg .rsi = c.reg .rsi + 1#64
      ∧ (print_char ch c).reg .rcx = c.reg .rcx + 2#64 := by
  have hsi : ∀ d : Cpu, (cont_printing d).reg .rsi = d.reg .rsi :=
    fun _ => rfl
  have hcx : ∀ d : Cpu, (cont_printing d).reg .rcx = d.reg .rcx + 2#64 := by
    intro d
    show d.reg .rcx + 1#64 + 1#64 = _
    rw [BitVec.add_assoc]
    rfl
  unfold print_char
  rw [hsi, hcx]
  split
  · rw [scroll_reg (by decide) (by decide) (by decide) (by decide),
      scroll_reg (by decide) (by decide) (by decide) (by decide)]
    exact ⟨rfl, rfl⟩
  · exact ⟨rfl, rfl⟩

/-- The characters of a text. -/
def print_text (text : List (BitVec 8)) (c : Cpu) : Cpu :=
  text.foldl (fun c ch => print_char ch c) c

/-- Any text is that many cells typed; the margin is blank once it has
scrolled. -/
theorem Shows.print_text (text : List (BitVec 8)) :
    ∀ {s : Terminal.Screen Cell} {past : Bool} {d : Cpu},
      Shows m₀ s past d →
      Shows m₀ (coded.typed s (text.map inked))
        (past || decide (2000 < s.next + text.length))
        (ThirdStage.print_text text d) := by
  induction text with
  | nil =>
      intro s past d h
      have hnext := h.next
      rw [List.length_nil, Nat.add_zero, decide_eq_false (by omega),
        Bool.or_false]
      exact h
  | cons ch text ih =>
      intro s past d h
      have hrest := ih (h.print_char ch)
      have hnext := h.next
      have hpast : (past || decide (s.next = 2000)
            || decide (2000 < (coded.type s (inked ch)).next + text.length))
          = (past || decide (2000 < s.next + (ch :: text).length)) := by
        rw [Bool.or_assoc, List.length_cons]
        congr 1
        unfold Terminal.Format.type
        rw [coded_size]
        by_cases hend : s.next = 2000
        · rw [decide_eq_true hend, Bool.true_or, decide_eq_true (by omega)]
        · rw [decide_eq_false hend, Bool.false_or, if_neg hend]
          congr 1
          show (2000 < s.next + 1 + text.length) = _
          rw [Nat.add_assoc, Nat.add_comm 1]
      rw [hpast] at hrest
      exact hrest

/-- RSP, RSI and RCX after a text. -/
theorem print_text_reg (text : List (BitVec 8)) : ∀ c : Cpu,
    (print_text text c).reg .rsp = c.reg .rsp
      ∧ (print_text text c).reg .rsi
        = c.reg .rsi + BitVec.ofNat 64 text.length
      ∧ (print_text text c).reg .rcx
        = c.reg .rcx + BitVec.ofNat 64 (2 * text.length) := by
  induction text with
  | nil =>
      intro c
      exact ⟨rfl, (BitVec.add_zero _).symm, (BitVec.add_zero _).symm⟩
  | cons ch text ih =>
      intro c
      obtain ⟨hsp, hsi, hcx⟩ := ih (print_char ch c)
      obtain ⟨hsi', hcx'⟩ := print_char_counts ch c
      show (print_text text (print_char ch c)).reg .rsp = _ ∧
        (print_text text (print_char ch c)).reg .rsi = _ ∧
        (print_text text (print_char ch c)).reg .rcx = _
      rw [hsp, hsi, hcx, hsi', hcx', List.length_cons, BitVec.add_assoc,
        BitVec.add_assoc, ← BitVec.ofNat_add, ← BitVec.ofNat_add]
      refine ⟨print_char_reg (by decide) (by decide) (by decide) (by decide)
        (by decide) (by decide) ch c, ?_, ?_⟩
      · rw [Nat.add_comm 1]
      · rw [Nat.mul_succ, Nat.add_comm 2]

/-- The print loop over a text and what follows it. -/
theorem video_print_loop_append (text : List (BitVec 8))
    (hplain : ∀ ch ∈ text, ch ≠ 13#8 ∧ ch ≠ 0#8) (rest : List (BitVec 8)) :
    ∀ c : Cpu, video_print_loop L (text ++ rest) c
      = video_print_loop L rest (print_text text c) := by
  induction text with
  | nil => exact fun _ => rfl
  | cons ch text ih =>
      intro c
      obtain ⟨h13, h0⟩ := hplain ch List.mem_cons_self
      rw [List.cons_append, video_print_loop_cons h13 h0,
        ih fun ch' h' => hplain ch' (List.mem_cons_of_mem _ h')]
      rfl

/-- The screen and the cursor of `c`. -/
def screenOf (sl : Nat) (m : Mem) : Terminal.Screen Cell :=
  ⟨cellAt m, sl / 2⟩

/-- Saving the registers does not touch the screen. -/
theorem pushaq_cells (hs : StackOk c) {p : Nat} (hp : p < 2080) :
    cellAt c.pushaq.mem p = cellAt c.mem p := by
  obtain ⟨hlo, hhi⟩ := hs
  obtain ⟨-, -, hmem, -⟩ := Cpu.pushaq_spec (c := c) (by omega)
  exact cellAt_congr hp fun b hb _ => hmem b (Or.inr (by omega))

/-- The loop starts on the screen as it is. -/
theorem Shows.print_start (hs : StackOk c) {sl : Nat}
    (hsl : (c.mem.read16 L.start_location).toNat = sl) (heven : sl % 2 = 0)
    (hle : sl ≤ 0xFA0) :
    Shows c.pushaq.mem (screenOf sl c.mem) false
      (ThirdStage.print_start L c) := by
  obtain ⟨-, hbx, -⟩ := print_start_spec (L := L) hs hsl hle
  refine ⟨⟨?_, fun _ _ _ => rfl, fun _ _ => rfl⟩, ?_, ?_⟩
  · exact fun p hp => pushaq_cells hs (by omega)
  · show sl / 2 ≤ 2000
    omega
  · rw [hbx]
    show 0xB8000 + sl = 0xB8000 + 2 * (sl / 2)
    omega

/-- The cursor as the terminator computes it, after `n` cells from
`sl`. -/
def storedCursor (sl n : Nat) (newline : Bool) : BitVec 16 :=
  BitVec.ofNat 16 (if newline then (sl + 160) / 160 * 160 else sl + 2 * n)

/-- What a terminator does: the cursor cell, and nothing else. -/
theorem terminator_mem {term : BitVec 8} {newline : Bool} {e : Cpu}
    {sl n : Nat} (hterm : term = if newline then 13#8 else 0#8)
    (hsl : (e.mem.read16 L.start_location).toNat = sl) (hle : sl ≤ 0xFA0)
    (hcx : e.reg .rcx = BitVec.ofNat 64 (2 * n)) :
    (video_print_loop L [term] e).mem
        = e.mem.write16 L.start_location (storedCursor sl n newline)
      ∧ (video_print_loop L [term] e).reg .rsp = e.reg .rsp := by
  have hlrsp : (lodsb term e).reg .rsp = e.reg .rsp :=
    lodsb_reg _ e (by decide) (by decide)
  have hlcx : (lodsb term e).reg .rcx = e.reg .rcx :=
    lodsb_reg _ e (by decide) (by decide)
  simp only [video_print_loop, lodsb_al]
  unfold storedCursor
  cases newline with
  | true =>
      rw [if_pos rfl] at hterm ⊢
      rw [if_pos hterm]
      refine ⟨?_, (out_video_print_loop_rsp _).trans hlrsp⟩
      rw [out_video_print_loop_mem (by rw [lodsb_mem, hsl]; exact hle),
        lodsb_mem, hsl]
  | false =>
      rw [if_neg Bool.false_ne_true] at hterm ⊢
      rw [if_neg (by rw [hterm]; decide), if_pos hterm]
      refine ⟨?_, (out_video_print_loop1_rsp _).trans hlrsp⟩
      rw [out_video_print_loop1_mem, lodsb_mem]
      congr 1
      apply BitVec.eq_of_toNat_eq
      unfold Cpu.low16
      rw [hlcx, hcx, BitVec.toNat_add, hsl, BitVec.extractLsb'_toNat,
        BitVec.toNat_ofNat, BitVec.toNat_ofNat, Nat.shiftRight_zero]
      omega

/-- Storing the cursor does not show. -/
theorem cursor_cells {v : BitVec 16} {p : Nat} (hp : p < 2080) :
    cellAt (m.write16 L.start_location v) p = cellAt m p := by
  have hin := L.start_location_in
  unfold imageEnd at hin
  refine cellAt_congr hp fun b hb _ => ?_
  exact Mem.write_apply_of_out (n := 2) _ _ (by omega) (Or.inr (by omega))

/-- A call's last steps: after work on the screen the cursor is stored and
the registers are back. -/
theorem finish_print (hs : StackOk c) {f : Nat → Cell} {e g : Cpu}
    {v : BitVec 16} (he : Screenful c.pushaq.mem f past e.mem)
    (hmem : g.mem = e.mem.write16 L.start_location v)
    (hrsp : g.reg .rsp = c.pushaq.reg .rsp) :
    g.popaq.mem = e.mem.write16 L.start_location v
      ∧ g.popaq.reg = c.reg := by
  obtain ⟨hlo, hhi⟩ := hs
  have hin := L.start_location_in
  unfold imageEnd at hin
  refine ⟨by rw [Cpu.popaq_mem, hmem], ?_⟩
  refine (Cpu.popaq_spec (c := c) (by omega) hrsp ?_).1
  intro b _ hb
  rw [hmem]
  refine (Mem.write_apply_of_out (n := 2) _ _ (by omega)
    (Or.inl (by omega))).trans ?_
  exact he.frame b (Or.inl (by omega))

/-- The cursor cell is not on the screen. -/
theorem Screenful.cursor {f : Nat → Cell} (hs : StackOk c)
    (h : Screenful c.pushaq.mem f past m) :
    m.read16 L.start_location = c.mem.read16 L.start_location := by
  have hin := L.start_location_in
  unfold imageEnd at hin
  rw [← pushaq_cursor hs]
  refine @Mem.read_congr_bytes c.pushaq.mem m L.start_location 2 (by omega)
    fun b _ hb => ?_
  exact h.frame b (Or.inl (by omega))

/-- `video_print`, from any even place on the screen: the text is typed,
the cursor is stored, the registers are back. -/
theorem video_print_typed (hs : StackOk c) (s : PrintString) {sl : Nat}
    (hsl : (c.mem.read16 L.start_location).toNat = sl) (heven : sl % 2 = 0)
    (hle : sl ≤ 0xFA0) :
    ∃ m, Screenful c.pushaq.mem
        (coded.typed (screenOf sl c.mem) (s.text.map inked)).cell
        (decide (2000 < sl / 2 + s.text.length)) m
      ∧ (video_print L s.bytes c).mem = m.write16 L.start_location
        (storedCursor sl s.text.length s.newline)
      ∧ (video_print L s.bytes c).reg = c.reg := by
  have hstart := Shows.print_start (L := L) hs hsl heven hle
  obtain ⟨hon, -, hcx⟩ := print_start_spec (L := L) hs hsl hle
  have htext := hstart.print_text s.text
  obtain ⟨hrsp, -, hcount⟩ := print_text_reg s.text (print_start L c)
  rw [Bool.false_or] at htext
  have hloop := video_print_loop_append (L := L) s.text s.plain
    [s.terminator] (print_start L c)
  obtain ⟨e, he⟩ : ∃ e, print_text s.text (print_start L c) = e := ⟨_, rfl⟩
  rw [he] at htext hrsp hcount hloop
  have hesl : (e.mem.read16 L.start_location).toNat = sl := by
    rw [htext.screen.cursor hs, hsl]
  have hecx : e.reg .rcx = BitVec.ofNat 64 (2 * s.text.length) := by
    rw [hcount, hcx, ← BitVec.ofNat_add, Nat.mul_zero, Nat.zero_add]
  have hterm : s.terminator = if s.newline then 13#8 else 0#8 := rfl
  obtain ⟨hmem, hersp⟩ := terminator_mem (L := L) hterm hesl hle hecx
  rw [← hloop] at hmem hersp
  have heq : video_print L s.bytes c
      = (video_print_loop L (s.text ++ [s.terminator])
        (print_start L c)).popaq := video_print_eq L s.bytes c
  rw [heq]
  exact ⟨e.mem, htext.screen, finish_print hs htext.screen hmem
    (hersp.trans (hrsp.trans hon.rsp))⟩

/-- The text stands in consecutive cells from `sl`. -/
def TextAt (m : Mem) (sl : Nat) (text : List (BitVec 8)) : Prop :=
  ∀ (i : Nat) (h : i < text.length), cellAt m (sl / 2 + i) = inked text[i]

end BootLoader.ThirdStage
