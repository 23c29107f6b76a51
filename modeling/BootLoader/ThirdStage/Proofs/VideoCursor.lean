/-
Where `video_print` leaves the cursor.

# Two ways to compute it

After a 0 the cursor is moved by what was printed: it is the cell after
the last character. After a 13 it is computed from where the text began,
the next line of the start (`nextCursor`), where the text may by then have
run over one or more line ends.

# The condition

So the cursor follows the text exactly when the last character is on the
line of the first one, or the string ends in 0 (`follows_text_iff`).
Otherwise the next string starts on a line the text already stands on.
-/
import BootLoader.ThirdStage.Proofs.VideoCells

namespace BootLoader.ThirdStage

open FlatMemory

variable {L : Layout} {c : Cpu} {s t : PrintString} {sl : Nat}

-- ========================================================== the statement

/-- The cell of the last character, or the start of an empty text. -/
def lastCell (sl : Nat) (s : PrintString) : Nat :=
  sl + 2 * (s.text.length - 1)

/-- Where the next text belongs: after this one, or on the line below its
last character. -/
def cellAfter (sl : Nat) (s : PrintString) : Nat :=
  if s.newline then (lastCell sl s / 160 + 1) * 160
  else sl + 2 * s.text.length

/-- The cursor follows the text of `s`, and no string that fits on the
screen from there overwrites it. -/
def FollowsText (L : Layout) (c : Cpu) (s : PrintString) (sl : Nat) : Prop :=
  let d := video_print L s.bytes c
  TextAt d.mem sl s.text
    ∧ (d.mem.read16 L.start_location).toNat = cellAfter sl s
    ∧ ∀ (reg : Reg → BitVec 64) (t : PrintString),
      StackOk { d with reg := reg } →
      (d.mem.read16 L.start_location).toNat + 2 * t.text.length ≤ 0xFA0 →
      TextAt (video_print L t.bytes { d with reg := reg }).mem sl s.text

-- ========================================================= text that fits

/-- The cells after a string that fits. -/
theorem fitting_cell (hs : StackOk c) (s : PrintString)
    (hsl : (c.mem.read16 L.start_location).toNat = sl) (heven : sl % 2 = 0)
    (hroom : sl + 2 * s.text.length ≤ 0xFA0) {p : Nat} (hp : p < 2000) :
    cellAt (video_print L s.bytes c).mem p
      = if q : sl / 2 ≤ p ∧ p - sl / 2 < s.text.length then
          inked (s.text.get ⟨p - sl / 2, q.2⟩) else cellAt c.mem p := by
  obtain ⟨m, hm, hmem, -⟩ := video_print_typed (L := L) hs s hsl heven
    (by omega)
  rw [hmem, cursor_cells (by omega), hm.cells p hp,
    coded.typed_cell_room _ _ (by
      rw [coded_size, List.length_map]
      show sl / 2 + s.text.length ≤ 2000
      omega) (by rw [coded_size]; exact hp)]
  simp only [screenOf, List.length_map, List.get_eq_getElem,
    List.getElem_map]

/-- The text itself. -/
theorem fitting_text (hs : StackOk c) (s : PrintString)
    (hsl : (c.mem.read16 L.start_location).toNat = sl) (heven : sl % 2 = 0)
    (hroom : sl + 2 * s.text.length ≤ 0xFA0) :
    TextAt (video_print L s.bytes c).mem sl s.text := by
  intro i hi
  have hq : sl / 2 ≤ sl / 2 + i ∧ sl / 2 + i - sl / 2 < s.text.length := by
    omega
  rw [fitting_cell hs s hsl heven hroom (by omega), dif_pos hq,
    List.get_eq_getElem]
  congr 2
  exact Nat.add_sub_cancel_left _ _

/-- The cursor after a string that fits. -/
theorem fitting_cursor (hs : StackOk c) (s : PrintString)
    (hsl : (c.mem.read16 L.start_location).toNat = sl)
    (hroom : sl + 2 * s.text.length ≤ 0xFA0) :
    ((video_print L s.bytes c).mem.read16 L.start_location).toNat
      = nextCursor sl s :=
  (video_print_fits hs s hsl hroom).2

/-- A later string that starts past the text does not touch it. -/
theorem TextAt.keep {text : List (BitVec 8)} {cur : Nat}
    (h : TextAt c.mem sl text) (hs : StackOk c) (heven : sl % 2 = 0)
    (hcur : (c.mem.read16 L.start_location).toNat = cur)
    (hceven : cur % 2 = 0) (hafter : sl + 2 * text.length ≤ cur)
    (hroom : cur + 2 * t.text.length ≤ 0xFA0) :
    TextAt (video_print L t.bytes c).mem sl text := by
  intro i hi
  rw [fitting_cell hs t hcur hceven hroom (by omega), dif_neg (by omega)]
  exact h i hi

-- ============================================================= the result

/-- The cursor that is stored is the right one on the line of the start. -/
theorem nextCursor_eq_iff (sl : Nat) (s : PrintString) :
    nextCursor sl s = cellAfter sl s
      ↔ (s.newline = true → lastCell sl s / 160 = sl / 160) := by
  unfold nextCursor cellAfter
  by_cases hnl : s.newline = true
  · rw [if_pos hnl, if_pos hnl]
    constructor
    · intro h _
      omega
    · intro h
      rw [h hnl]
      omega
  · rw [if_neg hnl, if_neg hnl]
    exact ⟨fun _ h => absurd h hnl, fun _ => rfl⟩

/-- The cell after the text is past all of it. -/
theorem le_cellAfter (heven : sl % 2 = 0) (s : PrintString) :
    sl + 2 * s.text.length ≤ cellAfter sl s ∧ cellAfter sl s % 2 = 0 := by
  unfold cellAfter lastCell
  split <;> omega

/-- From any even cursor, a string that fits is followed by the cursor
exactly when it ends in 0 or its last character is on the line of its
first. -/
theorem follows_text_iff (L : Layout) (c : Cpu) (s : PrintString) (sl : Nat)
    (hs : StackOk c) (hsl : (c.mem.read16 L.start_location).toNat = sl)
    (heven : sl % 2 = 0) (hroom : sl + 2 * s.text.length ≤ 0xFA0) :
    FollowsText L c s sl
      ↔ (s.newline = true → lastCell sl s / 160 = sl / 160) := by
  have hcursor := fitting_cursor hs s hsl hroom
  rw [← nextCursor_eq_iff]
  unfold FollowsText
  dsimp only
  rw [hcursor]
  constructor
  · exact fun h => h.2.1
  · intro hnext
    obtain ⟨hafter, hceven⟩ := le_cellAfter heven s
    have htext := fitting_text hs s hsl heven hroom
    refine ⟨htext, hnext, ?_⟩
    intro reg t hstack hfits
    rw [hnext] at hfits hcursor
    exact TextAt.keep (c := { video_print L s.bytes c with reg := reg })
      htext hstack heven hcursor hceven hafter hfits

/-- The instance of a full line. -/
theorem follows_text_iff_sample :
    FollowsText assembledLayout printCpu (letters 80) 0 := by
  have hlen : (letters 80).text.length = 80 := List.length_replicate
  refine (follows_text_iff assembledLayout printCpu (letters 80) 0 ?_ ?_ rfl
    ?_).2 ?_
  · show 0x5100 ≤ (0xB000#64).toNat ∧ (0xB000#64).toNat ≤ 0x10000
    decide
  · rw [printCpu_cursor]
    rfl
  · rw [hlen]
    omega
  · intro _
    unfold lastCell
    rw [hlen]

/-- One letter over the end of the line: the cursor goes to the line the
letter is on. -/
theorem cursor_before_text : ¬ ∀ (L : Layout) (c : Cpu) (s : PrintString)
    (sl : Nat), StackOk c →
    (c.mem.read16 L.start_location).toNat = sl → sl % 2 = 0 →
    sl + 2 * s.text.length ≤ 0xFA0 → FollowsText L c s sl := by
  intro h
  have hlen : (letters 81).text.length = 81 := List.length_replicate
  have hs : StackOk printCpu := by
    show 0x5100 ≤ (0xB000#64).toNat ∧ (0xB000#64).toNat ≤ 0x10000
    decide
  have hsl : (printCpu.mem.read16 assembledLayout.start_location).toNat
      = 0 := by
    rw [printCpu_cursor]
    rfl
  have hroom : 0 + 2 * (letters 81).text.length ≤ 0xFA0 := by
    rw [hlen]
    omega
  obtain ⟨-, hcell, -⟩ := h assembledLayout printCpu (letters 81) 0 hs hsl
    rfl hroom
  rw [fitting_cursor hs (letters 81) hsl hroom] at hcell
  have hsame := (nextCursor_eq_iff 0 (letters 81)).1 hcell rfl
  unfold lastCell at hsame
  rw [hlen] at hsame
  omega

end BootLoader.ThirdStage
