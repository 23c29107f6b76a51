/-
`video_print` is quiet: it writes the text buffer's segment, the cursor
cell and the stack, and gives every register back.

The character pointer starts in 0xB0000..0xBFFFF whatever the cursor cell
holds (only its low 16 bits come from memory) and moves two bytes a
character, or jumps back into the buffer at a scroll; so a string of
moderate length never leaves the window below 0x100000.
-/
import BootLoader.Lib.Words
import BootLoader.ThirdStage.Video

namespace BootLoader.ThirdStage

open FlatMemory Words

variable {L : Layout} {c d : Cpu}

-- ========================================================= single stores

theorem LowWork.store8 (h : LowWork c d) {a : BitVec 64} {v : BitVec 8}
    (ha : 0xB0000 ≤ a.toNat ∧ a.toNat + 1 ≤ 0x100000) :
    LowWork c (d.store8 a v) :=
  h.store (n := 1) rfl rfl rfl (Or.inr ha)

theorem LowWork.store64 (h : LowWork c d) {a v : BitVec 64}
    (ha : 0xB0000 ≤ a.toNat ∧ a.toNat + 8 ≤ 0x100000) :
    LowWork c (d.store64 a v) :=
  h.store (n := 8) rfl rfl rfl (Or.inr ha)

/-- A store to the cursor cell. -/
theorem LowWork.store_cursor (h : LowWork c d) (v : BitVec 16) :
    LowWork c (d.store16 L.start_location v) := by
  have hin := L.start_location_in
  unfold imageEnd at hin
  exact h.store (n := 2) rfl rfl rfl (Or.inl (by omega))

/-- A read of the cursor cell. -/
theorem LowWork.read_cursor (h : LowWork c d) :
    LowWork c (d.reads L.start_location 2) := by
  have hin := L.start_location_in
  unfold imageEnd at hin
  exact h.reads (by omega)

-- ============================================================= the scroll

/-- What `copy_up` keeps: after `k` rounds both pointers have moved `k`
quadwords inside the buffer. -/
def CopyUp (c : Cpu) (k : Nat) (d : Cpu) : Prop :=
  LowWork c d ∧ (d.reg .rax).toNat = 0xB8000 + 8 * k
    ∧ (d.reg .rbx).toNat = 0xB80A0 + 8 * k ∧ (d.reg .rdx).toNat = k

theorem CopyUp.round {k : Nat} (hk : k < 0x1E0) (h : CopyUp c k d) :
    CopyUp c (k + 1) (copy_up_round d) := by
  obtain ⟨hw, hax, hbx, hdx⟩ := h
  refine ⟨?_, ?_, ?_, ?_⟩
  · unfold copy_up_round
    refine LowWork.set (LowWork.set (LowWork.set ?_ (by decide) _)
      (by decide) _) (by decide) _
    refine LowWork.store64 ?_ ?_
    · exact LowWork.set (hw.reads (by omega)) (by decide) _
    · show 0xB0000 ≤ (d.reg .rax).toNat ∧ (d.reg .rax).toNat + 8 ≤ 0x100000
      omega
  · show (d.reg .rax + 8#64).toNat = _
    rw [toNat_add_lit (by omega)]
    omega
  · show (d.reg .rbx + 8#64).toNat = _
    rw [toNat_add_lit (by omega)]
    omega
  · show (d.reg .rdx + 1#64).toNat = _
    rw [toNat_add_lit (by omega)]
    omega

theorem copy_up_lowWork (hax : c.reg .rax = 0xB8000#64)
    (hbx : c.reg .rbx = 0xB80A0#64) (hdx : c.reg .rdx = 0#64) :
    LowWork c (copy_up c) := by
  have h : CopyUp c 0x1E0 (copy_up c) := by
    unfold copy_up
    refine Loop.doWhile_counted (CopyUp c) (by omega) ?_ ?_ ?_
      (Nat.le_refl _) ?_
    · exact fun k d hk h => h.round hk
    · intro k d _ hk h
      have hdx := h.2.2.2
      rw [slt_lit (by omega) (by omega), hdx]
      exact decide_eq_true hk
    · intro d h
      have hdx := h.2.2.2
      rw [slt_lit (by omega) (by omega), hdx]
      rfl
    · exact ⟨LowWork.refl c, by rw [hax]; rfl, by rw [hbx]; rfl,
        by rw [hdx]; rfl⟩
  exact h.1

/-- What `clear_last_line` keeps: after `k` rounds the pointer has moved
`k` cells past the start of the last line. -/
def ClearLine (c : Cpu) (k : Nat) (d : Cpu) : Prop :=
  LowWork c d ∧ (d.reg .rbx).toNat = 0xB8F00 + 2 * k
    ∧ (d.reg .rdx).toNat = k

theorem ClearLine.round {k : Nat} (hk : k < 0xA0) (h : ClearLine c k d) :
    ClearLine c (k + 1) (clear_last_line_round d) := by
  obtain ⟨hw, hbx, hdx⟩ := h
  have hbx' : (d.reg .rbx + 1#64).toNat = 0xB8F00 + 2 * k + 1 := by
    rw [toNat_add_lit (by omega), hbx]
  refine ⟨?_, ?_, ?_⟩
  · unfold clear_last_line_round
    refine LowWork.set (LowWork.set ?_ (by decide) _) (by decide) _
    refine LowWork.store8 ?_ ?_
    · exact LowWork.set (hw.store8 (by omega)) (by decide) _
    · show 0xB0000 ≤ (d.reg .rbx + 1#64).toNat
        ∧ (d.reg .rbx + 1#64).toNat + 1 ≤ 0x100000
      omega
  · show (d.reg .rbx + 1#64 + 1#64).toNat = _
    rw [toNat_add_lit (by omega), hbx']
    omega
  · show (d.reg .rdx + 1#64).toNat = _
    rw [toNat_add_lit (by omega)]
    omega

theorem clear_last_line_lowWork (hbx : c.reg .rbx = 0xB8F00#64)
    (hdx : c.reg .rdx = 0#64) : LowWork c (clear_last_line c) := by
  have h : ClearLine c 0xA0 (clear_last_line c) := by
    unfold clear_last_line
    refine Loop.doWhile_counted (ClearLine c) (by omega) ?_ ?_ ?_
      (Nat.le_refl _) ?_
    · exact fun k d hk h => h.round hk
    · intro k d _ hk h
      refine bne_iff_ne.2 fun heq => ?_
      have hdx := h.2.2
      rw [heq] at hdx
      exact absurd hdx (by simp; omega)
    · intro d h
      have heq : d.reg .rdx = 0xA0#64 := BitVec.eq_of_toNat_eq h.2.2
      rw [heq]
      rfl
    · exact ⟨LowWork.refl c, by rw [hbx]; rfl, by rw [hdx]; rfl⟩
  exact h.1

/-- The scroll works on RAX, RBX, RDX and R8 only. -/
theorem scroll_reg {r : Reg} (hax : r ≠ .rax) (hbx : r ≠ .rbx)
    (hdx : r ≠ .rdx) (h8 : r ≠ .r8) : (scroll c).reg r = c.reg r := by
  have hcopy : ∀ d, d.reg r = c.reg r → (copy_up d).reg r = c.reg r := by
    intro d hd
    unfold copy_up
    refine Loop.doWhile_preserves (P := fun e : Cpu => e.reg r = c.reg r) ?_ _ hd
    intro e he
    simp only [copy_up_round, Cpu.set_reg_of_ne hax, Cpu.set_reg_of_ne hbx,
      Cpu.set_reg_of_ne hdx, Cpu.store64_reg, Cpu.load64_reg, if_neg h8, he]
  have hclear : ∀ d, d.reg r = c.reg r →
      (clear_last_line d).reg r = c.reg r := by
    intro d hd
    unfold clear_last_line
    refine Loop.doWhile_preserves (P := fun e : Cpu => e.reg r = c.reg r) ?_ _ hd
    intro e he
    simp only [clear_last_line_round, Cpu.set_reg_of_ne hbx,
      Cpu.set_reg_of_ne hdx, Cpu.store8_reg, he]
  unfold scroll
  rw [Cpu.set_reg_of_ne hbx]
  refine hclear _ ?_
  rw [Cpu.set_reg_of_ne hbx, Cpu.set_reg_of_ne hdx]
  refine hcopy _ ?_
  rw [Cpu.set_reg_of_ne hdx, Cpu.set_reg_of_ne hax, Cpu.set_reg_of_ne hbx]

theorem scroll_lowWork (h : LowWork c d) : LowWork c (scroll d) := by
  unfold scroll
  refine LowWork.set ?_ (by decide) _
  refine LowWork.trans ?_ (clear_last_line_lowWork rfl rfl)
  refine LowWork.set (LowWork.set ?_ (by decide) _) (by decide) _
  refine LowWork.trans ?_ (copy_up_lowWork rfl rfl rfl)
  exact LowWork.set (LowWork.set (LowWork.set h (by decide) _)
    (by decide) _) (by decide) _

-- ============================================================== printing

theorem cont_printing_lowWork (h : LowWork c d)
    (hlo : 0xB0000 ≤ (d.reg .rbx).toNat)
    (hhi : (d.reg .rbx).toNat + 2 ≤ 0x100000) :
    LowWork c (cont_printing d) := by
  have hbx : (d.reg .rbx + 1#64).toNat = (d.reg .rbx).toNat + 1 :=
    toNat_add_lit (by omega)
  unfold cont_printing
  refine LowWork.set (LowWork.set (LowWork.set ?_ (by decide) _)
    (by decide) _) (by decide) _
  refine LowWork.store8 ?_ ?_
  · exact LowWork.set (h.store8 (by omega)) (by decide) _
  · show 0xB0000 ≤ (d.reg .rbx + 1#64).toNat
      ∧ (d.reg .rbx + 1#64).toNat + 1 ≤ 0x100000
    omega

theorem out_video_print_loop_lowWork (h : LowWork c d) :
    LowWork c (out_video_print_loop L d) := by
  unfold out_video_print_loop
  refine LowWork.store_cursor ?_ _
  unfold Cpu.mul Cpu.div Cpu.setLow16
  refine LowWork.set (LowWork.set (LowWork.set (LowWork.set (LowWork.set
    (LowWork.set (LowWork.set (LowWork.set (LowWork.set ?_ ?_ _) ?_ _)
      ?_ _) ?_ _) ?_ _) ?_ _) ?_ _) ?_ _) ?_ _
  all_goals first | decide | skip
  exact (h.set (by decide) _).read_cursor

theorem out_video_print_loop1_lowWork (h : LowWork c d) :
    LowWork c (out_video_print_loop1 L d) := by
  unfold out_video_print_loop1
  refine LowWork.store_cursor ?_ _
  unfold Cpu.setLow16
  exact LowWork.set (LowWork.set h.read_cursor (by decide) _) (by decide) _

theorem lodsb_lowWork (h : LowWork c d) (ch : BitVec 8)
    (hsi : (d.reg .rsi).toNat + 1 ≤ 0x100000) :
    LowWork c (lodsb ch d) := by
  unfold lodsb Cpu.setLow8
  exact LowWork.set (LowWork.set (h.reads hsi) (by decide) _) (by decide) _

/-- The rule of the character loop: what its pieces keep, with the pointer
in the window below 0x100000, the loop keeps while there is room for the
rest of the string. -/
theorem video_print_loop_rule {I : Cpu → Prop}
    (hlodsb : ∀ d ch, I d → (d.reg .rsi).toNat + 1 ≤ 0x100000 →
      I (lodsb ch d))
    (hcont : ∀ d, I d → 0xB0000 ≤ (d.reg .rbx).toNat →
      (d.reg .rbx).toNat + 2 ≤ 0x100000 → I (cont_printing d))
    (hscroll : ∀ d, I d → I (scroll d))
    (hout : ∀ d, I d → I (out_video_print_loop L d))
    (hout1 : ∀ d, I d → I (out_video_print_loop1 L d))
    (str : List (BitVec 8)) :
    ∀ {d : Cpu}, I d → str.length ≤ 0x1000 →
      0xB0000 ≤ (d.reg .rbx).toNat →
      (d.reg .rbx).toNat + 2 * str.length ≤ 0x100000 →
      (d.reg .rsi).toNat + str.length ≤ 0x100000 →
      I (video_print_loop L str d) := by
  induction str with
  | nil =>
      intro d h _ _ _ _
      exact h
  | cons ch rest ih =>
      intro d h hlen hlo hhi hsi
      rw [List.length_cons] at hlen hhi hsi
      have hl := hlodsb d ch h (by omega)
      have hbx : (lodsb ch d).reg .rbx = d.reg .rbx := rfl
      have hsi' : ((lodsb ch d).reg .rsi).toNat = (d.reg .rsi).toNat + 1 := by
        show (d.reg .rsi + 1#64).toNat = _
        exact toNat_add_lit (by omega)
      -- two bytes on: what `cont_printing` does to the pointer
      have hnext : ∀ e : Cpu, (e.reg .rbx).toNat + 2 ≤ 0x100000 →
          ((cont_printing e).reg .rbx).toNat = (e.reg .rbx).toNat + 2 := by
        intro e he
        show (e.reg .rbx + 1#64 + 1#64).toNat = _
        have h1 : (e.reg .rbx + 1#64).toNat = (e.reg .rbx).toNat + 1 :=
          toNat_add_lit (by omega)
        rw [toNat_add_lit (by omega), h1]
      have hsi'' : ∀ e : Cpu, (cont_printing e).reg .rsi = e.reg .rsi :=
        fun _ => rfl
      simp only [video_print_loop]
      split
      · exact hout _ hl
      split
      · exact hout1 _ hl
      split
      · -- the end of the buffer: the pointer restarts on the last line
        have hrbx : ((scroll (lodsb ch d)).reg .rbx).toNat = 0xB8F00 := rfl
        have hrsi : (scroll (lodsb ch d)).reg .rsi = (lodsb ch d).reg .rsi :=
          scroll_reg (by decide) (by decide) (by decide) (by decide)
        refine ih (hcont _ (hscroll _ hl) (by omega) (by omega)) (by omega)
          ?_ ?_ ?_
        · rw [hnext _ (by omega)]
          omega
        · rw [hnext _ (by omega)]
          omega
        · rw [hsi'', hrsi]
          omega
      · refine ih (hcont _ hl (by rw [hbx]; omega) (by rw [hbx]; omega))
          (by omega) ?_ ?_ ?_
        · rw [hnext _ (by rw [hbx]; omega), hbx]
          omega
        · rw [hnext _ (by rw [hbx]; omega), hbx]
          omega
        · rw [hsi'']
          omega

/-- The character loop stays in low memory while its pointer has room
for the rest of the string. -/
theorem video_print_loop_lowWork (str : List (BitVec 8)) :
    ∀ {c d : Cpu}, LowWork c d → str.length ≤ 0x1000 →
      0xB0000 ≤ (d.reg .rbx).toNat →
      (d.reg .rbx).toNat + 2 * str.length ≤ 0x100000 →
      (d.reg .rsi).toNat + str.length ≤ 0x100000 →
      LowWork c (video_print_loop L str d) := by
  intro c d h
  exact video_print_loop_rule (I := LowWork c)
    (fun _ ch hd hsi => lodsb_lowWork hd ch hsi)
    (fun _ hd hlo hhi => cont_printing_lowWork hd hlo hhi)
    (fun _ hd => scroll_lowWork hd)
    (fun _ hd => out_video_print_loop_lowWork hd)
    (fun _ hd => out_video_print_loop1_lowWork hd) str h

/-- The pointer `video_print` starts with: bits 63:16 are those of
0xB8000, the rest comes from the cursor cell. -/
theorem start_pointer (p : Cpu) (a : BitVec 64) (w : BitVec 16) :
    (((((p.set .rbx 0xB8000#64).reads a 2).setLow16 .rbx w).set .rcx
      0#64).reg .rbx).toNat = 0xB0000 + w.toNat :=
  toNat_merge16 0xB8000#64 w

/-- `video_print` of a short string in low memory is quiet. -/
theorem video_print_quiet (hs : StackOk c) (str : List (BitVec 8))
    (hlen : str.length ≤ 0x1000)
    (hsi : (c.reg .rsi).toNat + str.length ≤ 0x100000) :
    Quiet c (video_print L str c) := by
  obtain ⟨hlo, hhi⟩ := hs
  obtain ⟨-, hpreg, -, -⟩ := Cpu.pushaq_spec (c := c) (by omega)
  have hrsi := hpreg .rsi (by decide)
  unfold video_print
  refine (quiet_of_lowWork ⟨hlo, hhi⟩ ?_).1
  generalize c.pushaq = p at hrsi ⊢
  refine video_print_loop_lowWork str ?_ hlen ?_ ?_ ?_
  · unfold Cpu.setLow16
    refine LowWork.set (LowWork.set ?_ (by decide) _) (by decide) _
    exact ((LowWork.refl _).set (by decide) _).read_cursor
  · rw [start_pointer]
    omega
  · rw [start_pointer]
    omega
  · show (p.reg .rsi).toNat + str.length ≤ 0x100000
    rw [hrsi]
    exact hsi

-- ================================================================ the image

/-- `d` has the bytes of `c` below the window, but for the cursor. -/
def ImageKept (L : Layout) (c d : Cpu) : Prop :=
  ∀ b : BitVec 64, b.toNat < 0xB0000 →
    b.toNat < L.start_location.toNat ∨ L.start_location.toNat + 2 ≤ b.toNat →
    d.mem b = c.mem b

theorem ImageKept.store8 (h : ImageKept L c d) {a : BitVec 64} {v : BitVec 8}
    (ha : 0xB0000 ≤ a.toNat) : ImageKept L c (d.store8 a v) := by
  intro b hlow hb
  rw [← h b hlow hb]
  exact Mem.write_apply_of_out (n := 1) _ _ (by omega) (by omega)

theorem ImageKept.store64 (h : ImageKept L c d) {a v : BitVec 64}
    (ha : 0xB0000 ≤ a.toNat) (ha' : a.toNat + 8 ≤ 0x100000) :
    ImageKept L c (d.store64 a v) := by
  intro b hlow hb
  rw [← h b hlow hb]
  exact Mem.write_apply_of_out (n := 8) _ _ (by omega) (by omega)

theorem ImageKept.store_cursor (h : ImageKept L c d) (v : BitVec 16) :
    ImageKept L c (d.store16 L.start_location v) := by
  have hin := L.start_location_in
  unfold imageEnd at hin
  intro b hlow hb
  rw [← h b hlow hb]
  exact Mem.write_apply_of_out (n := 2) _ _ (by omega) hb

theorem ImageKept.set (h : ImageKept L c d) (r : Reg) (v : BitVec 64) :
    ImageKept L c (d.set r v) := h

theorem cont_printing_image (h : ImageKept L c d)
    (hlo : 0xB0000 ≤ (d.reg .rbx).toNat)
    (hhi : (d.reg .rbx).toNat + 2 ≤ 0x100000) :
    ImageKept L c (cont_printing d) := by
  have hbx : (d.reg .rbx + 1#64).toNat = (d.reg .rbx).toNat + 1 :=
    toNat_add_lit (by omega)
  exact ImageKept.store8 (a := d.reg .rbx + 1#64)
    (d := (d.store8 (d.reg .rbx) (d.low8 .rax)).set .rbx
      (d.reg .rbx + 1#64)) (h.store8 hlo) (by omega)

theorem copy_up_image (h : ImageKept L c d) (hax : d.reg .rax = 0xB8000#64)
    (hbx : d.reg .rbx = 0xB80A0#64) (hdx : d.reg .rdx = 0#64) :
    ImageKept L c (copy_up d) := by
  have hrun : CopyUp d 0x1E0 (copy_up d) ∧ ImageKept L c (copy_up d) := by
    unfold copy_up
    refine Loop.doWhile_counted (fun k e => CopyUp d k e ∧ ImageKept L c e)
      (by omega) ?_ ?_ ?_ (Nat.le_refl _) ?_
    · rintro k e hk ⟨hcopy, hap⟩
      refine ⟨hcopy.round hk, ?_⟩
      obtain ⟨-, heax, -, -⟩ := hcopy
      have hto : ((e.load64 .r8 (e.reg .rbx)).reg .rax).toNat
          = 0xB8000 + 8 * k := heax
      exact ImageKept.store64 (d := e.load64 .r8 (e.reg .rbx)) hap
        (by omega) (by omega)
    · rintro k e - hk ⟨hcopy, -⟩
      have hdx := hcopy.2.2.2
      rw [slt_lit (by omega) (by omega), hdx]
      exact decide_eq_true hk
    · rintro e ⟨hcopy, -⟩
      have hdx := hcopy.2.2.2
      rw [slt_lit (by omega) (by omega), hdx]
      rfl
    · exact ⟨⟨LowWork.refl d, by rw [hax]; rfl, by rw [hbx]; rfl,
        by rw [hdx]; rfl⟩, h⟩
  exact hrun.2

theorem clear_last_line_image (h : ImageKept L c d)
    (hbx : d.reg .rbx = 0xB8F00#64) (hdx : d.reg .rdx = 0#64) :
    ImageKept L c (clear_last_line d) := by
  have hrun : ClearLine d 0xA0 (clear_last_line d)
      ∧ ImageKept L c (clear_last_line d) := by
    unfold clear_last_line
    refine Loop.doWhile_counted (fun k e => ClearLine d k e ∧ ImageKept L c e)
      (by omega) ?_ ?_ ?_ (Nat.le_refl _) ?_
    · rintro k e hk ⟨hclear, hap⟩
      refine ⟨hclear.round hk, ?_⟩
      have hbx := hclear.2.1
      have hbx' : (e.reg .rbx + 1#64).toNat = (e.reg .rbx).toNat + 1 :=
        toNat_add_lit (by omega)
      exact ImageKept.store8 (a := e.reg .rbx + 1#64)
        (d := (e.store8 (e.reg .rbx) 0x20#8).set .rbx (e.reg .rbx + 1#64))
        (hap.store8 (by omega)) (by omega)
    · rintro k e - hk ⟨hclear, -⟩
      refine bne_iff_ne.2 fun heq => ?_
      have hdx := hclear.2.2
      rw [heq] at hdx
      exact absurd hdx (by simp; omega)
    · rintro e ⟨hclear, -⟩
      have heq : e.reg .rdx = 0xA0#64 := BitVec.eq_of_toNat_eq hclear.2.2
      rw [heq]
      rfl
    · exact ⟨⟨LowWork.refl d, by rw [hbx]; rfl, by rw [hdx]; rfl⟩, h⟩
  exact hrun.2

theorem scroll_image (h : ImageKept L c d) : ImageKept L c (scroll d) := by
  unfold scroll
  refine ImageKept.set ?_ _ _
  refine clear_last_line_image (ImageKept.set (ImageKept.set ?_ _ _) _ _) rfl rfl
  exact copy_up_image (ImageKept.set (ImageKept.set (ImageKept.set h _ _) _ _) _ _)
    rfl rfl rfl

/-- `video_print` of a short string: below the window only the cursor and
the registers saved change. -/
theorem video_print_frame (hs : StackOk c) (str : List (BitVec 8))
    (hlen : str.length ≤ 0x1000)
    (hsi : (c.reg .rsi).toNat + str.length ≤ 0x100000) {b : BitVec 64}
    (hstack : b.toNat < (c.reg .rsp).toNat - 120
      ∨ (c.reg .rsp).toNat ≤ b.toNat) (hlow : b.toNat < 0xB0000)
    (hb : b.toNat < L.start_location.toNat
      ∨ L.start_location.toNat + 2 ≤ b.toNat) :
    (video_print L str c).mem b = c.mem b := by
  obtain ⟨hlo, hhi⟩ := hs
  obtain ⟨-, hpreg, hpmem, -⟩ := Cpu.pushaq_spec (c := c) (by omega)
  have hrsi := hpreg .rsi (by decide)
  have hstart := hpmem b hstack
  unfold video_print
  rw [Cpu.popaq_mem, ← hstart]
  generalize c.pushaq = p at hrsi ⊢
  refine video_print_loop_rule (I := ImageKept L p) (fun _ _ hd _ => hd)
    (fun _ hd hlo hhi => cont_printing_image hd hlo hhi)
    (fun _ hd => scroll_image hd)
    (fun _ hd => ImageKept.store_cursor (d := _) hd _)
    (fun _ hd => ImageKept.store_cursor (d := _) hd _)
    str ?_ hlen ?_ ?_ ?_ b hlow hb
  · exact fun _ _ _ => rfl
  · rw [start_pointer]
    omega
  · rw [start_pointer]
    omega
  · show (p.reg .rsi).toNat + str.length ≤ 0x100000
    rw [hrsi]
    exact hsi

end BootLoader.ThirdStage
