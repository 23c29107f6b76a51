/-
What a scroll loses.

A terminal that keeps what it is given puts the character it scrolled for
at the start of the new line (`intended`). This one puts a NUL there: the
character waits in AL while RAX copies the screen (`coded`). And the two
loops of the scroll count different units, a quadword and a cell, the
second one against the bytes of a line, so a line past the screen is
blanked as well. The first happens in every scroll, whatever the screen,
the string and the cursor are (`scroll_loses`).
-/
import BootLoader.ThirdStage.Proofs.VideoCells

namespace BootLoader.ThirdStage

open FlatMemory

variable {L : Layout} {c : Cpu} {s : PrintString} {sl : Nat}

/-- The terminal as it is meant: the character is written on the new
line. -/
def intended : Terminal.Format Cell := terminal id

/-- The string reaches the end of the screen with a character to print. -/
def Overruns (sl : Nat) (s : PrintString) : Prop :=
  ∃ n < s.text.length, sl + 2 * n = 0xFA0

/-- The call ends with the screen the intended terminal shows, and no byte
changed but the buffer's, the cursor and the stack below RSP. -/
def ScrollsRight (L : Layout) (c : Cpu) (s : PrintString) (sl : Nat) :
    Prop :=
  let d := video_print L s.bytes c
  (∀ p < 2000, cellAt d.mem p
      = (intended.typed (screenOf sl c.mem) (s.text.map inked)).cell p)
    ∧ ∀ b : BitVec 64, b.toNat < 0xB8000 ∨ 0xB8FA0 ≤ b.toNat →
      b.toNat < (c.reg .rsp).toNat - 120 ∨ (c.reg .rsp).toNat ≤ b.toNat →
      b.toNat < L.start_location.toNat
        ∨ L.start_location.toNat + 2 ≤ b.toNat →
      d.mem b = c.mem b

/-- The first cell of the last line after a string that overruns, on
either terminal. -/
theorem line_start (f : Cell → Cell) (h : Overruns sl s) (m : Mem) :
    ∃ (i : Nat) (hi : i < s.text.length),
      sl / 2 + i = 1920 + 80 * coded.rolls (sl / 2 + s.text.length)
        ∧ ((terminal f).typed (screenOf sl m) (s.text.map inked)).cell 1920
          = f (inked s.text[i]) := by
  obtain ⟨n, hn, hend⟩ := h
  obtain ⟨i, hi, hline, hcell⟩ := (terminal f).typed_line_start
    (screenOf sl m) (by
      rw [terminal_size]
      show sl / 2 ≤ 2000
      omega) (s.text.map inked) (by
      rw [terminal_size, List.length_map]
      show 2000 < sl / 2 + s.text.length
      omega)
  rw [List.length_map] at hi hline
  rw [terminal_size] at hcell hline
  rw [List.getElem_map] at hcell
  exact ⟨i, hi, hline, hcell⟩

/-- What stands there: a NUL. -/
theorem overrun_nul (hs : StackOk c)
    (hsl : (c.mem.read16 L.start_location).toNat = sl) (h : Overruns sl s) :
    cellAt (video_print L s.bytes c).mem 1920 = inked 0#8 := by
  have h' := h
  obtain ⟨n, hn, hend⟩ := h'
  obtain ⟨m, hm, hmem, -⟩ := video_print_typed (L := L) hs s hsl
    (by omega) (by omega)
  obtain ⟨i, hi, -, hcell⟩ := line_start (fun _ => inked 0#8) h c.mem
  rw [hmem, cursor_cells (by omega), hm.cells 1920 (by omega)]
  exact hcell

/-- And the line past the screen is blank. -/
theorem overrun_margin (hs : StackOk c)
    (hsl : (c.mem.read16 L.start_location).toNat = sl) (h : Overruns sl s)
    {b : BitVec 64} (hlo : 0xB8FA0 ≤ b.toNat) (hhi : b.toNat < 0xB9040) :
    (video_print L s.bytes c).mem b = blankByte b := by
  obtain ⟨n, hn, hend⟩ := h
  have hin := L.start_location_in
  unfold imageEnd at hin
  obtain ⟨m, hm, hmem, -⟩ := video_print_typed (L := L) hs s hsl
    (by omega) (by omega)
  have hpast : decide (2000 < sl / 2 + s.text.length) = true :=
    decide_eq_true (by omega)
  rw [hpast] at hm
  rw [hmem]
  exact (Mem.write_apply_of_out (n := 2) _ _ (by omega)
    (Or.inr (by omega))).trans (hm.margin b hlo hhi)

/-- The intended terminal shows a character there. -/
theorem intended_not_nul (h : Overruns sl s) (m : Mem) :
    (intended.typed (screenOf sl m) (s.text.map inked)).cell 1920
      ≠ inked 0#8 := by
  obtain ⟨i, hi, -, hcell⟩ := line_start id h m
  intro hnul
  rw [intended, hcell] at hnul
  exact (s.plain s.text[i] (List.getElem_mem hi)).2 (Prod.mk.inj hnul).1

/-- No call that scrolls leaves the screen it should. -/
theorem scroll_loses (L : Layout) (c : Cpu) (s : PrintString) (sl : Nat)
    (hs : StackOk c) (hsl : (c.mem.read16 L.start_location).toNat = sl)
    (h : Overruns sl s) : ¬ ScrollsRight L c s sl := by
  rintro ⟨hcells, -⟩
  refine intended_not_nul h c.mem ?_
  rw [← hcells 1920 (by omega)]
  exact overrun_nul hs hsl h

/-- A letter more than a cleared screen holds. -/
theorem letters_overrun : Overruns 0 (letters 2001) := by
  refine ⟨2000, ?_, rfl⟩
  rw [show (letters 2001).text.length = 2001 from List.length_replicate]
  omega

theorem printCpu_stackOk : StackOk printCpu := by
  show 0x5100 ≤ (0xB000#64).toNat ∧ (0xB000#64).toNat ≤ 0x10000
  decide

theorem printCpu_start :
    (printCpu.mem.read16 assembledLayout.start_location).toNat = 0 := by
  rw [printCpu_cursor]
  rfl

theorem scroll_loses_sample :
    ¬ ScrollsRight assembledLayout printCpu (letters 2001) 0 :=
  scroll_loses assembledLayout printCpu (letters 2001) 0 printCpu_stackOk
    printCpu_start letters_overrun

/-- The letter that found the screen full is not on it. -/
theorem letter_lost : ¬ ∀ (L : Layout) (c : Cpu) (s : PrintString)
    (sl : Nat), StackOk c →
    (c.mem.read16 L.start_location).toNat = sl → Overruns sl s →
    ScrollsRight L c s sl := by
  intro h
  obtain ⟨hcells, -⟩ := h assembledLayout printCpu (letters 2001) 0
    printCpu_stackOk printCpu_start letters_overrun
  refine intended_not_nul letters_overrun printCpu.mem ?_
  rw [← hcells 1920 (by omega)]
  exact overrun_nul printCpu_stackOk printCpu_start letters_overrun

end BootLoader.ThirdStage
