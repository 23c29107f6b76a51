/-
When `video_print` stays on the screen.

# What goes wrong at the end of it

The text buffer is [0xB8000, 0xB8FA0). A character printed with the
pointer at its end scrolls first, and `clear_last_line` counts 0xA0 rounds
of two bytes where a line has 0xA0 bytes, so it writes one line past the
buffer. A newline with the cursor at the end moves it on by a line, out of
the buffer.

# The condition

Neither happens in a call exactly when its text fits between the cursor
and the end of the buffer, with the cursor before the end if the call is
ended by a newline (`Fits`). The cursor is a function of what was printed
(`nextCursor`), so over a sequence of calls this is a condition on the
strings alone.
-/
import BootLoader.ThirdStage.Proofs.VideoFrame

namespace BootLoader.ThirdStage

open FlatMemory Words

variable {L : Layout} {c d e : Cpu} {ch : BitVec 8}

-- ============================================================= the strings

/-- A string as `video_print` takes it: text without either terminator,
then a newline or a zero. -/
structure PrintString where
  text : List (BitVec 8)
  newline : Bool
  plain : ∀ ch ∈ text, ch ≠ 13#8 ∧ ch ≠ 0#8

def PrintString.terminator (s : PrintString) : BitVec 8 :=
  if s.newline then 13#8 else 0#8

def PrintString.bytes (s : PrintString) : List (BitVec 8) :=
  s.text ++ [s.terminator]

/-- The cursor after a string that fits. -/
def nextCursor (sl : Nat) (s : PrintString) : Nat :=
  if s.newline then (sl + 160) / 160 * 160 else sl + 2 * s.text.length

/-- Every string of the sequence fits on the screen. -/
def Fits : Nat → List PrintString → Prop
  | _, [] => True
  | sl, s :: rest =>
      (sl + 2 * s.text.length ≤ 0xFA0 ∧ (s.newline → sl < 0xFA0))
        ∧ Fits (nextCursor sl s) rest

-- =========================================================== the accesses

/-- What the access writes to video memory is in the text buffer. -/
def InBuffer (x : Access) : Prop :=
  x.write = true → ∀ b : Nat, x.addr.toNat ≤ b → b < x.addr.toNat + x.size →
    0xA0000 ≤ b → b < 0xC0000 → 0xB8000 ≤ b ∧ b < 0xB8FA0

theorem inBuffer_read (a : BitVec 64) (n : Nat) : InBuffer ⟨false, a, n⟩ :=
  fun h => absurd h (by simp)

theorem inBuffer_of_below {x : Access} (h : x.Below 0xA0000) :
    InBuffer x := by
  intro _ b _ hb hlo _
  unfold Access.Below at h
  omega

/-- `d` is `c` after work on the text buffer. -/
structure OnScreen (c d : Cpu) : Prop where
  rsp : d.reg .rsp = c.reg .rsp
  low : Mem.AgreeOn c.mem d.mem 0 0xA0000
  log : ∀ x ∈ d.log, x ∈ c.log ∨ InBuffer x

theorem OnScreen.refl (c : Cpu) : OnScreen c c :=
  ⟨rfl, Mem.AgreeOn.refl _ _ _, fun _ hx => Or.inl hx⟩

theorem OnScreen.set (h : OnScreen c d) {r : Reg} (hr : r ≠ .rsp)
    (v : BitVec 64) : OnScreen c (d.set r v) :=
  ⟨(Cpu.set_reg_of_ne (Ne.symm hr)).trans h.rsp, h.low, h.log⟩

theorem OnScreen.reads (h : OnScreen c d) (a : BitVec 64) (n : Nat) :
    OnScreen c (d.reads a n) := by
  refine ⟨h.rsp, h.low, ?_⟩
  intro x hx
  rcases List.mem_cons.1 hx with rfl | hx
  · exact Or.inr (inBuffer_read a n)
  · exact h.log x hx

theorem OnScreen.store8 (h : OnScreen c d) {a : BitVec 64} {v : BitVec 8}
    (ha : 0xB8000 ≤ a.toNat ∧ a.toNat < 0xB8FA0) :
    OnScreen c (d.store8 a v) := by
  refine ⟨h.rsp, ?_, ?_⟩
  · exact h.low.trans (@Mem.agreeOn_write d.mem a 1 0 0xA0000 v (by omega)
      (by omega))
  · intro x hx
    have hx' : x ∈ (⟨true, a, 1⟩ : Access) :: d.log := hx
    rcases List.mem_cons.1 hx' with rfl | hx'
    · refine Or.inr fun _ b hlo hhi _ _ => ?_
      have hlo' : a.toNat ≤ b := hlo
      have hhi' : b < a.toNat + 1 := hhi
      omega
    · exact h.log x hx'

-- ====================================================== characters that fit

/-- One character before the end of the buffer. -/
theorem cont_printing_onScreen (h : OnScreen c d) {p : Nat}
    (hbx : (d.reg .rbx).toNat = 0xB8000 + p) (hp : p + 2 ≤ 0xFA0) :
    OnScreen c (cont_printing d)
      ∧ ((cont_printing d).reg .rbx).toNat = 0xB8000 + (p + 2)
      ∧ (cont_printing d).reg .rcx = d.reg .rcx + 1#64 + 1#64 := by
  have hnext : (d.reg .rbx + 1#64).toNat = 0xB8000 + p + 1 := by
    rw [toNat_add_lit (by omega), hbx]
  refine ⟨?_, ?_, rfl⟩
  · unfold cont_printing
    refine OnScreen.set (OnScreen.set (OnScreen.set ?_ (by decide) _)
      (by decide) _) (by decide) _
    refine OnScreen.store8 ?_ ?_
    · exact OnScreen.set (h.store8 (by omega)) (by decide) _
    · show 0xB8000 ≤ (d.reg .rbx + 1#64).toNat
        ∧ (d.reg .rbx + 1#64).toNat < 0xB8FA0
      omega
  · show (d.reg .rbx + 1#64 + 1#64).toNat = _
    rw [toNat_add_lit (by omega)]
    omega

theorem lodsb_onScreen (h : OnScreen c d) (ch : BitVec 8) :
    OnScreen c (lodsb ch d) := by
  unfold lodsb Cpu.setLow8
  exact OnScreen.set (OnScreen.set (h.reads _ _) (by decide) _) (by decide) _

theorem lodsb_al (ch : BitVec 8) (c : Cpu) : (lodsb ch c).low8 .rax = ch := by
  unfold lodsb Cpu.low8
  simp only [Cpu.set_reg, Cpu.setLow8_reg, reduceCtorEq, if_true, if_false]
  exact BitVec.extractLsb'_append_eq_right

theorem lodsb_reg (ch : BitVec 8) (c : Cpu) {r : Reg} (h1 : r ≠ .rax)
    (h2 : r ≠ .rsi) : (lodsb ch c).reg r = c.reg r := by
  unfold lodsb
  rw [Cpu.set_reg_of_ne h2, Cpu.setLow8_reg, if_neg h1]
  rfl

/-- A text that fits: after it the loop is at the terminator, with two for
each character in RCX, and has been on the screen only. -/
theorem video_print_loop_fits (term : BitVec 8) (text : List (BitVec 8)) :
    ∀ {d : Cpu} {p k : Nat}, OnScreen c d →
      (∀ ch ∈ text, ch ≠ 13#8 ∧ ch ≠ 0#8) →
      (d.reg .rbx).toNat = 0xB8000 + p → p + 2 * text.length ≤ 0xFA0 →
      d.reg .rcx = BitVec.ofNat 64 (2 * k) →
      ∃ e, OnScreen c e
        ∧ e.reg .rcx = BitVec.ofNat 64 (2 * (k + text.length))
        ∧ video_print_loop L (text ++ [term]) d
          = video_print_loop L [term] e := by
  induction text with
  | nil => exact fun hd _ _ _ hcx => ⟨_, hd, hcx, rfl⟩
  | cons ch text ih =>
      intro d p k hd hplain hbx hroom hcx
      rw [List.length_cons] at hroom
      obtain ⟨h13, h0⟩ := hplain ch List.mem_cons_self
      have hl := lodsb_onScreen hd ch
      have hlbx : (lodsb ch d).reg .rbx = d.reg .rbx :=
        lodsb_reg ch d (by decide) (by decide)
      have hlcx : (lodsb ch d).reg .rcx = d.reg .rcx :=
        lodsb_reg ch d (by decide) (by decide)
      have hend : (lodsb ch d).reg .rbx ≠ 0xB8FA0#64 := by
        intro heq
        rw [hlbx] at heq
        rw [heq, toNat_lit (by omega)] at hbx
        omega
      obtain ⟨hc, hcbx, hccx⟩ := cont_printing_onScreen hl (p := p)
        (by rw [hlbx, hbx]) (by omega)
      have hcount : (cont_printing (lodsb ch d)).reg .rcx
          = BitVec.ofNat 64 (2 * (k + 1)) := by
        rw [hccx, hlcx, hcx, BitVec.add_assoc, ← BitVec.ofNat_add,
          ← BitVec.ofNat_add]
        rfl
      obtain ⟨e, he, hecx, hloop⟩ := ih hc
        (fun ch' h' => hplain ch' (List.mem_cons_of_mem _ h')) hcbx (by omega)
        hcount
      refine ⟨e, he, ?_, ?_⟩
      · rw [hecx, List.length_cons, Nat.add_assoc, Nat.add_comm 1]
      · rw [← hloop, List.cons_append, video_print_loop]
        simp only [lodsb_al]
        rw [if_neg h13, if_neg h0, if_neg hend]

-- ============================================================ terminators

/-- What a newline stores in the cursor cell. -/
theorem out_video_print_loop_mem
    (hsl : (e.mem.read16 L.start_location).toNat ≤ 0xFA0) :
    (out_video_print_loop L e).mem = e.mem.write16 L.start_location
      (BitVec.ofNat 16
        (((e.mem.read16 L.start_location).toNat + 160) / 160 * 160)) := by
  unfold out_video_print_loop Cpu.div Cpu.mul
  simp only [Cpu.store16_mem, Cpu.set_mem, Cpu.setLow16_mem, Cpu.reads_mem,
    Cpu.low16, Cpu.set_reg, Cpu.setLow16_reg, Cpu.reads_reg, reduceCtorEq,
    if_true, if_false]
  generalize e.mem.read16 L.start_location = w at hsl ⊢
  -- AX is the cell, and the line added stays within 16 bits
  have hax : ((0#64).extractLsb' 16 48 ++ w : BitVec 64).toNat = w.toNat := by
    rw [toNat_merge16]
    simp
  have hline : (w + 160#16).toNat = w.toNat + 160 := by
    rw [BitVec.toNat_add, BitVec.toNat_ofNat]
    omega
  have hnext : (((0#64).extractLsb' 16 48 ++ w : BitVec 64).extractLsb' 16 48
      ++ (((0#64).extractLsb' 16 48 ++ w : BitVec 64).extractLsb' 0 16
        + 160#16) : BitVec 64).toNat = w.toNat + 160 := by
    rw [toNat_merge16, hax, BitVec.extractLsb'_append_eq_right, hline]
    omega
  rw [hnext, toNat_lit (n := 160) (by omega), toNat_lit (n := 0) (by omega),
    Nat.zero_mul, Nat.zero_add, toNat_lit (by omega)]
  congr 1
  apply BitVec.eq_of_toNat_eq
  rw [BitVec.extractLsb'_toNat, toNat_lit (by omega), BitVec.toNat_ofNat]
  rfl

/-- What a zero stores there. -/
theorem out_video_print_loop1_mem :
    (out_video_print_loop1 L e).mem = e.mem.write16 L.start_location
      (e.mem.read16 L.start_location + e.low16 .rcx) := by
  have hlow : ∀ (d : Cpu) (v : BitVec 16),
      (d.setLow16 .rax v).low16 .rax = v := by
    intro d v
    unfold Cpu.low16
    rw [Cpu.setLow16_reg, if_pos rfl]
    exact BitVec.extractLsb'_append_eq_right
  have hcx : ∀ (d : Cpu) (v : BitVec 16),
      (d.setLow16 .rax v).low16 .rcx = d.low16 .rcx := by
    intro d v
    unfold Cpu.low16
    rw [Cpu.setLow16_reg, if_neg (by decide)]
  unfold out_video_print_loop1
  rw [Cpu.store16_mem, hlow, hlow, hcx, Cpu.setLow16_mem, Cpu.setLow16_mem,
    Cpu.reads_mem]
  rfl

theorem out_video_print_loop_rsp (e : Cpu) :
    (out_video_print_loop L e).reg .rsp = e.reg .rsp := by
  unfold out_video_print_loop Cpu.div Cpu.mul
  simp only [Cpu.store16_reg, Cpu.set_reg, Cpu.setLow16_reg, Cpu.reads_reg,
    reduceCtorEq, if_false]

theorem out_video_print_loop1_rsp (e : Cpu) :
    (out_video_print_loop1 L e).reg .rsp = e.reg .rsp := by
  unfold out_video_print_loop1
  rw [Cpu.store16_reg, Cpu.setLow16_reg, if_neg (by decide),
    Cpu.setLow16_reg, if_neg (by decide), Cpu.reads_reg]

/-- A store to the cursor cell. -/
theorem OnScreen.store_cursor (h : OnScreen c d) {w : BitVec 16}
    (hrsp : e.reg .rsp = d.reg .rsp)
    (hmem : e.mem = d.mem.write16 L.start_location w)
    (hlog : ∀ x ∈ e.log, x ∈ d.log ∨ x.Below 0xA0000) :
    e.reg .rsp = c.reg .rsp
      ∧ Mem.AgreeOn c.mem e.mem 0 0x10000
      ∧ e.mem.read16 L.start_location = w
      ∧ ∀ x ∈ e.log, x ∈ c.log ∨ InBuffer x := by
  have hin := L.start_location_in
  unfold imageEnd at hin
  refine ⟨hrsp.trans h.rsp, ?_, ?_, ?_⟩
  · rw [hmem]
    exact (h.low.mono (by omega) (by omega)).trans
      (@Mem.agreeOn_write d.mem L.start_location 2 0 0x10000 w (by omega)
        (by omega))
  · rw [hmem]
    exact @Mem.read_write_self d.mem L.start_location 2 w (by omega)
  · intro x hx
    rcases hlog x hx with hx | hx
    · exact h.log x hx
    · exact Or.inr (inBuffer_of_below hx)

-- ========================================================= past the screen

/-- After `k` rounds of `clear_last_line`, the `k`th cell from the start
of the last line has been written. -/
structure LineWritten (k : Nat) (d : Cpu) : Prop where
  rbx : (d.reg .rbx).toNat = 0xB8F00 + 2 * k
  rdx : (d.reg .rdx).toNat = k
  log : 0 < k → ∃ x ∈ d.log, x.write = true ∧ x.size = 1
    ∧ x.addr.toNat + 1 = 0xB8F00 + 2 * k

theorem LineWritten.round {k : Nat} (hk : k < 0xA0) (h : LineWritten k d) :
    LineWritten (k + 1) (clear_last_line_round d) := by
  have hrbx := h.rbx
  have hrdx := h.rdx
  have hnext : (d.reg .rbx + 1#64).toNat = 0xB8F00 + 2 * k + 1 := by
    rw [toNat_add_lit (by omega), hrbx]
  refine ⟨?_, ?_, fun _ => ?_⟩
  · show (d.reg .rbx + 1#64 + 1#64).toNat = _
    rw [toNat_add_lit (by omega)]
    omega
  · show (d.reg .rdx + 1#64).toNat = _
    rw [toNat_add_lit (by omega)]
    omega
  · refine ⟨⟨true, d.reg .rbx + 1#64, 1⟩, List.mem_cons_self, rfl, rfl, ?_⟩
    show (d.reg .rbx + 1#64).toNat + 1 = _
    omega

/-- `clear_last_line` writes past the buffer. -/
theorem clear_last_line_past (hbx : c.reg .rbx = 0xB8F00#64)
    (hdx : c.reg .rdx = 0#64) :
    ∃ x ∈ (clear_last_line c).log, ¬ InBuffer x := by
  have h : LineWritten 0xA0 (clear_last_line c) := by
    unfold clear_last_line
    refine Loop.doWhile_counted LineWritten (by omega) ?_ ?_ ?_
      (Nat.le_refl _) ?_
    · exact fun k d hk h => h.round hk
    · intro k d _ hk h
      refine bne_iff_ne.2 fun heq => ?_
      have hdx := h.rdx
      rw [heq, toNat_lit (by omega)] at hdx
      omega
    · intro d h
      have heq : d.reg .rdx = 0xA0#64 := BitVec.eq_of_toNat_eq h.rdx
      rw [heq]
      rfl
    · exact ⟨by rw [hbx]; rfl, by rw [hdx]; rfl,
        fun h => absurd h (Nat.lt_irrefl 0)⟩
  obtain ⟨x, hx, hw, hsize, haddr⟩ := h.log (by omega)
  refine ⟨x, hx, fun hin => ?_⟩
  have hb := hin hw x.addr.toNat (Nat.le_refl _) (by omega) (by omega)
    (by omega)
  omega

/-- So does every scroll. -/
theorem scroll_past (d : Cpu) : ∃ x ∈ (scroll d).log, ¬ InBuffer x := by
  unfold scroll
  rw [Cpu.set_log]
  exact clear_last_line_past (Cpu.set_reg_self _ _ _)
    ((Cpu.set_reg_of_ne (by decide)).trans (Cpu.set_reg_self _ _ _))

/-- What the loop accessed stays in its history. -/
theorem mem_log_loop (str : List (BitVec 8)) {x : Access} :
    ∀ {d : Cpu}, x ∈ d.log → x ∈ (video_print_loop L str d).log := by
  have hcell : ∀ d : Cpu, x ∈ d.log → x ∈ (out_video_print_loop L d).log :=
    fun d hx => List.mem_cons_of_mem _ (List.mem_cons_of_mem _ hx)
  have hcell1 : ∀ d : Cpu, x ∈ d.log →
      x ∈ (out_video_print_loop1 L d).log :=
    fun d hx => List.mem_cons_of_mem _ (List.mem_cons_of_mem _ hx)
  have hcopy : ∀ d : Cpu, x ∈ d.log → x ∈ (copy_up d).log := by
    intro d hx
    refine Loop.doWhile_preserves (P := fun e : Cpu => x ∈ e.log) ?_ _ hx
    exact fun e he =>
      List.mem_cons_of_mem _ (List.mem_cons_of_mem _ he)
  have hclear : ∀ d : Cpu, x ∈ d.log → x ∈ (clear_last_line d).log := by
    intro d hx
    refine Loop.doWhile_preserves (P := fun e : Cpu => x ∈ e.log) ?_ _ hx
    exact fun e he =>
      List.mem_cons_of_mem _ (List.mem_cons_of_mem _ he)
  have hscroll : ∀ d : Cpu, x ∈ d.log → x ∈ (scroll d).log := by
    intro d hx
    unfold scroll
    rw [Cpu.set_log]
    refine hclear _ ?_
    rw [Cpu.set_log, Cpu.set_log]
    refine hcopy _ ?_
    rw [Cpu.set_log, Cpu.set_log, Cpu.set_log]
    exact hx
  have hcont : ∀ d : Cpu, x ∈ d.log → x ∈ (cont_printing d).log :=
    fun d hx => List.mem_cons_of_mem _ (List.mem_cons_of_mem _ hx)
  induction str with
  | nil => exact fun hx => hx
  | cons ch rest ih =>
      intro d hx
      have hl : x ∈ (lodsb ch d).log := List.mem_cons_of_mem _ hx
      simp only [video_print_loop]
      split
      · exact hcell _ hl
      split
      · exact hcell1 _ hl
      split
      · exact ih (hcont _ (hscroll _ hl))
      · exact ih (hcont _ hl)

/-- A text that reaches past the end of the buffer scrolls. -/
theorem video_print_loop_past (term : BitVec 8) (text : List (BitVec 8)) :
    ∀ {d : Cpu} {p : Nat}, (∀ ch ∈ text, ch ≠ 13#8 ∧ ch ≠ 0#8) →
      (d.reg .rbx).toNat = 0xB8000 + p → p % 2 = 0 → p ≤ 0xFA0 →
      0xFA0 < p + 2 * text.length →
      ∃ x ∈ (video_print_loop L (text ++ [term]) d).log, ¬ InBuffer x := by
  induction text with
  | nil =>
      intro d p _ _ _ hp hlong
      rw [List.length_nil] at hlong
      omega
  | cons ch text ih =>
      intro d p hplain hbx heven hp hlong
      rw [List.length_cons] at hlong
      obtain ⟨h13, h0⟩ := hplain ch List.mem_cons_self
      have hlbx : (lodsb ch d).reg .rbx = d.reg .rbx :=
        lodsb_reg ch d (by decide) (by decide)
      rw [List.cons_append, video_print_loop]
      simp only [lodsb_al]
      rw [if_neg h13, if_neg h0]
      by_cases hend : p = 0xFA0
      · -- the pointer is at the end: scroll, then go on
        have heq : (lodsb ch d).reg .rbx = 0xB8FA0#64 := by
          apply BitVec.eq_of_toNat_eq
          rw [hlbx, hbx, hend]
          rfl
        rw [if_pos heq]
        obtain ⟨x, hx, hbad⟩ := scroll_past (lodsb ch d)
        exact ⟨x, mem_log_loop _ (List.mem_cons_of_mem _
          (List.mem_cons_of_mem _ hx)), hbad⟩
      · have hne : (lodsb ch d).reg .rbx ≠ 0xB8FA0#64 := by
          intro heq
          rw [hlbx] at heq
          rw [heq, toNat_lit (by omega)] at hbx
          omega
        rw [if_neg hne]
        obtain ⟨-, hnext, -⟩ := cont_printing_onScreen
          (OnScreen.refl (lodsb ch d)) (p := p) (by rw [hlbx, hbx])
          (by omega)
        exact ih (fun ch' h' => hplain ch' (List.mem_cons_of_mem _ h')) hnext
          (by omega) (by omega) (by omega)

-- ================================================================ one call

/-- The character loop's start, from the saved registers. -/
def print_start (L : Layout) (c : Cpu) : Cpu :=
  ((((c.pushaq.set .rbx 0xB8000#64).reads L.start_location 2).setLow16 .rbx
    (((c.pushaq.set .rbx 0xB8000#64).low16 .rbx)
      + c.pushaq.mem.read16 L.start_location)).set .rcx 0#64)

theorem video_print_eq (L : Layout) (str : List (BitVec 8)) (c : Cpu) :
    video_print L str c = (video_print_loop L str (print_start L c)).popaq :=
  rfl

/-- The cursor cell is above the stack. -/
theorem pushaq_cursor (hs : StackOk c) :
    c.pushaq.mem.read16 L.start_location = c.mem.read16 L.start_location := by
  obtain ⟨hlo, hhi⟩ := hs
  have hin := L.start_location_in
  unfold imageEnd at hin
  obtain ⟨-, -, hmem, -⟩ := Cpu.pushaq_spec (c := c) (by omega)
  have hag : Mem.AgreeOn c.mem c.pushaq.mem 0x10000 0x20000 :=
    fun b hb _ => hmem b (Or.inr (by omega))
  exact @Mem.read_congr_of_range c.mem c.pushaq.mem L.start_location 2 0x10000
    0x20000 hag (by omega) (by omega) (by omega)

/-- The loop starts at the cursor. -/
theorem print_start_spec (hs : StackOk c) {sl : Nat}
    (hsl : (c.mem.read16 L.start_location).toNat = sl) (hle : sl ≤ 0xFA0) :
    OnScreen c.pushaq (print_start L c)
      ∧ ((print_start L c).reg .rbx).toNat = 0xB8000 + sl
      ∧ (print_start L c).reg .rcx = BitVec.ofNat 64 (2 * 0) := by
  refine ⟨?_, ?_, Cpu.set_reg_self _ _ _⟩
  · unfold print_start Cpu.setLow16
    refine OnScreen.set (OnScreen.set ?_ (by decide) _) (by decide) _
    exact ((OnScreen.refl _).set (by decide) _).reads _ _
  · have hbx : (c.pushaq.set .rbx 0xB8000#64).low16 .rbx = 0x8000#16 := by
      unfold Cpu.low16
      rw [Cpu.set_reg_self]
      decide
    unfold print_start
    rw [start_pointer, hbx, pushaq_cursor hs, BitVec.toNat_add, hsl,
      BitVec.toNat_ofNat]
    omega

/-- What a string that fits stores in the cursor cell. -/
theorem terminator_spec (s : PrintString) {sl : Nat} {p : Cpu}
    (h : OnScreen p e)
    (hsl : (e.mem.read16 L.start_location).toNat = sl)
    (hcx : e.reg .rcx = BitVec.ofNat 64 (2 * s.text.length))
    (hroom : sl + 2 * s.text.length ≤ 0xFA0) :
    ∃ f, video_print_loop L [s.terminator] e = f
      ∧ f.reg .rsp = p.reg .rsp ∧ Mem.AgreeOn p.mem f.mem 0 0x10000
      ∧ (f.mem.read16 L.start_location).toNat = nextCursor sl s
      ∧ ∀ x ∈ f.log, x ∈ p.log ∨ InBuffer x := by
  have hin := L.start_location_in
  unfold imageEnd at hin
  have hl := lodsb_onScreen h s.terminator
  have hlcx : (lodsb s.terminator e).reg .rcx = e.reg .rcx :=
    lodsb_reg _ e (by decide) (by decide)
  have hlsl : (lodsb s.terminator e).mem.read16 L.start_location
      = e.mem.read16 L.start_location := rfl
  refine ⟨_, rfl, ?_⟩
  have hcell : ∀ x : Access, x.addr = L.start_location → x.size = 2 →
      x.Below 0xA0000 := by
    intro x ha hsize
    unfold Access.Below
    rw [ha, hsize]
    omega
  have hlog : ∀ (f : Cpu) (x : Access),
      f.log = ⟨true, L.start_location, 2⟩ :: ⟨false, L.start_location, 2⟩
        :: (lodsb s.terminator e).log → x ∈ f.log →
      x ∈ (lodsb s.terminator e).log ∨ x.Below 0xA0000 := by
    intro f x hf hx
    rw [hf] at hx
    rcases List.mem_cons.1 hx with rfl | hx
    · exact Or.inr (hcell _ rfl rfl)
    · rcases List.mem_cons.1 hx with rfl | hx
      · exact Or.inr (hcell _ rfl rfl)
      · exact Or.inl hx
  simp only [video_print_loop, lodsb_al]
  unfold nextCursor
  by_cases hnl : s.newline = true
  · have hterm : s.terminator = 13#8 := if_pos hnl
    have hmem := out_video_print_loop_mem (L := L)
      (e := lodsb s.terminator e) (by rw [hlsl, hsl]; omega)
    obtain ⟨h1, h2, h3, h4⟩ := hl.store_cursor (out_video_print_loop_rsp _) hmem
      (fun x => hlog _ x rfl)
    rw [if_pos hterm, if_pos hnl]
    refine ⟨h1, h2, ?_, h4⟩
    rw [h3, hlsl, hsl, BitVec.toNat_ofNat]
    omega
  · have hterm : s.terminator = 0#8 := if_neg hnl
    have hmem := out_video_print_loop1_mem (L := L)
      (e := lodsb s.terminator e)
    obtain ⟨h1, h2, h3, h4⟩ := hl.store_cursor (out_video_print_loop1_rsp _) hmem
      (fun x => hlog _ x rfl)
    rw [if_neg (by rw [hterm]; decide), if_pos hterm, if_neg hnl]
    refine ⟨h1, h2, ?_, h4⟩
    rw [h3, hlsl]
    unfold Cpu.low16
    rw [hlcx, hcx, BitVec.toNat_add, hsl, BitVec.extractLsb'_toNat,
      toNat_lit (by omega), Nat.shiftRight_zero]
    omega

/-- A string that fits: written in the buffer, and the cursor moves as
`nextCursor` says. -/
theorem video_print_fits (hs : StackOk c) (s : PrintString) {sl : Nat}
    (hsl : (c.mem.read16 L.start_location).toNat = sl)
    (hroom : sl + 2 * s.text.length ≤ 0xFA0) :
    (∀ x ∈ (video_print L s.bytes c).log, x ∈ c.log ∨ InBuffer x)
      ∧ ((video_print L s.bytes c).mem.read16 L.start_location).toNat
        = nextCursor sl s := by
  have hs' := hs
  obtain ⟨hlo, hhi⟩ := hs'
  obtain ⟨hstart, hbx, hcx⟩ := print_start_spec (L := L) hs hsl (by omega)
  obtain ⟨e, he, hecx, hloop⟩ := video_print_loop_fits (L := L) s.terminator
    s.text hstart s.plain hbx (by omega) hcx
  have hin := L.start_location_in
  unfold imageEnd at hin
  have hesl : (e.mem.read16 L.start_location).toNat = sl := by
    rw [← hsl, ← pushaq_cursor hs]
    exact congrArg BitVec.toNat (@Mem.read_congr_of_range c.pushaq.mem e.mem
      L.start_location 2 0 0xA0000 he.low (by omega) (by omega) (by omega))
  obtain ⟨f, hf, hrsp, hlow, hcell, hlog⟩ := terminator_spec s he hesl
    (by rw [hecx, Nat.zero_add]) hroom
  obtain ⟨-, -, -, hplog⟩ := Cpu.pushaq_spec (c := c) (by omega)
  obtain ⟨-, hmem, hpop⟩ := Cpu.popaq_spec (c := c) (d := f) (by omega) hrsp
    (hlow.mono (by omega) (by omega))
  have heq : video_print L s.bytes c = f.popaq := by
    rw [video_print_eq, ← hf, ← hloop]
    rfl
  rw [heq]
  refine ⟨?_, by rw [hmem]; exact hcell⟩
  intro x hx
  have hbelow : x.Below (c.reg .rsp).toNat → InBuffer x := fun hb =>
    inBuffer_of_below (hb.mono (by omega))
  rcases hpop x hx with hx | hx
  · rcases hlog x hx with hx | hx
    · exact (hplog x hx).imp_right hbelow
    · exact Or.inr hx
  · exact Or.inr (hbelow hx)

/-- A string that does not fit is written past the buffer. -/
theorem video_print_past (hs : StackOk c) (s : PrintString) {sl : Nat}
    (hsl : (c.mem.read16 L.start_location).toNat = sl) (heven : sl % 2 = 0)
    (hle : sl ≤ 0xFA0) (hlong : 0xFA0 < sl + 2 * s.text.length) :
    ∃ x ∈ (video_print L s.bytes c).log, ¬ InBuffer x := by
  obtain ⟨-, hbx, -⟩ := print_start_spec (L := L) hs hsl hle
  obtain ⟨x, hx, hbad⟩ := video_print_loop_past (L := L) s.terminator s.text
    s.plain hbx heven hle hlong
  exact ⟨x, Cpu.mem_log_popaq hx, hbad⟩

-- ============================================================== sequences

/-- Calls from registers of their own, each with its history to itself:
every one writes in the buffer and leaves the cursor on the screen. -/
def Contained (L : Layout) : Cpu →
    List ((Reg → BitVec 64) × PrintString) → Prop
  | _, [] => True
  | c, x :: calls =>
      let d := video_print L x.2.bytes { c with reg := x.1, log := [] }
      ((∀ a ∈ d.log, InBuffer a)
        ∧ (d.mem.read16 L.start_location).toNat ≤ 0xFA0)
        ∧ Contained L d calls

/-- Every call is made on the kernel's stack. -/
def OnStack (calls : List ((Reg → BitVec 64) × PrintString)) : Prop :=
  ∀ x ∈ calls, 0x5100 ≤ (x.1 .rsp).toNat ∧ (x.1 .rsp).toNat ≤ 0x10000

/-- From any even cursor on the screen. -/
theorem contained_iff (calls : List ((Reg → BitVec 64) × PrintString)) :
    ∀ {c : Cpu} {sl : Nat}, OnStack calls →
      (c.mem.read16 L.start_location).toNat = sl → sl % 2 = 0 →
      sl ≤ 0xFA0 → (Contained L c calls ↔ Fits sl (calls.map Prod.snd)) := by
  induction calls with
  | nil => exact fun _ _ _ _ => Iff.rfl
  | cons x calls ih =>
      intro c sl hs hsl heven hle
      have hstack : StackOk { c with reg := x.1, log := [] } :=
        hs x List.mem_cons_self
      have hrest : OnStack calls := fun y hy =>
        hs y (List.mem_cons_of_mem _ hy)
      rw [List.map_cons]
      unfold Contained Fits
      by_cases hroom : sl + 2 * x.2.text.length ≤ 0xFA0
      · obtain ⟨hlog, hcell⟩ := video_print_fits (L := L) hstack x.2
          (c := { c with reg := x.1, log := [] }) hsl hroom
        have hin : ∀ a ∈ (video_print L x.2.bytes
            { c with reg := x.1, log := [] }).log, InBuffer a := by
          intro a ha
          exact (hlog a ha).resolve_left (by simp)
        have hnext : nextCursor sl x.2 ≤ 0xFA0
            ↔ (x.2.newline → sl < 0xFA0) := by
          unfold nextCursor
          by_cases hnl : x.2.newline = true
          · rw [if_pos hnl]
            exact ⟨fun h _ => by omega, fun h => by have := h hnl; omega⟩
          · rw [if_neg hnl]
            exact ⟨fun _ h => absurd h hnl, fun _ => hroom⟩
        have heven' : nextCursor sl x.2 % 2 = 0 := by
          unfold nextCursor
          split <;> omega
        simp only [hcell]
        constructor
        · rintro ⟨⟨-, hcur⟩, hlater⟩
          exact ⟨⟨hroom, hnext.1 hcur⟩, (ih hrest hcell heven' hcur).1 hlater⟩
        · rintro ⟨⟨-, hnl⟩, hlater⟩
          exact ⟨⟨hin, hnext.2 hnl⟩,
            (ih hrest hcell heven' (hnext.2 hnl)).2 hlater⟩
      · -- the first call past the screen
        obtain ⟨a, ha, hbad⟩ := video_print_past (L := L) hstack x.2 hsl heven
          hle (by omega)
        constructor
        · rintro ⟨⟨hin, -⟩, -⟩
          exact absurd (hin a ha) hbad
        · rintro ⟨⟨hfit, -⟩, -⟩
          exact absurd hfit hroom

-- ============================================================= the result

/-- From the cursor at zero, a sequence of calls stays on the screen
exactly when every string fits where it starts. -/
theorem screen_contained_iff (L : Layout) (c : Cpu)
    (calls : List ((Reg → BitVec 64) × PrintString)) (hs : OnStack calls)
    (hzero : c.mem.read16 L.start_location = 0#16) :
    Contained L c calls ↔ Fits 0 (calls.map Prod.snd) :=
  contained_iff calls hs (by rw [hzero]; rfl) rfl (Nat.zero_le _)

/-- A caller on the kernel's stack, with cleared memory. -/
def printCpu : Cpu := ⟨fun _ => 0xB000#64, fun _ => 0#8, []⟩

theorem printCpu_cursor :
    printCpu.mem.read16 assembledLayout.start_location = 0#16 :=
  @Mem.read_eq_zero printCpu.mem _ 2 fun _ _ => rfl

/-- `n` letters and a newline. -/
def letters (n : Nat) : PrintString where
  text := List.replicate n 65#8
  newline := true
  plain := by
    intro ch hch
    rw [List.eq_of_mem_replicate hch]
    decide

theorem onStack_sample (s : PrintString) :
    OnStack [(printCpu.reg, s)] := by
  intro x hx
  rw [List.mem_singleton.1 hx]
  show 0x5100 ≤ (0xB000#64).toNat ∧ (0xB000#64).toNat ≤ 0x10000
  decide

/-- What one string on an empty screen has room for. -/
theorem contained_one {s : PrintString}
    (h : Contained assembledLayout printCpu [(printCpu.reg, s)]) :
    s.text.length ≤ 2000 := by
  have hcursor : (printCpu.mem.read16
      assembledLayout.start_location).toNat = 0 := by
    rw [printCpu_cursor]
    rfl
  have hfits := (contained_iff [(printCpu.reg, s)] (onStack_sample s) hcursor
    rfl (Nat.zero_le _)).1 h
  have hroom : 0 + 2 * s.text.length ≤ 0xFA0 := hfits.1.1
  omega

/-- One string on an empty screen. -/
theorem fits_one {s : PrintString} (h : s.text.length ≤ 2000) :
    Fits 0 [s] := by
  have hroom : 0 + 2 * s.text.length ≤ 0xFA0 := by omega
  exact ⟨⟨hroom, fun _ => by omega⟩, trivial⟩

/-- The instance of a full screen. -/
theorem screen_contained_iff_sample :
    Contained assembledLayout printCpu [(printCpu.reg, letters 2000)] := by
  refine (screen_contained_iff assembledLayout printCpu _
    (onStack_sample _) printCpu_cursor).2 (fits_one ?_)
  exact Nat.le_of_eq List.length_replicate

/-- One letter more than the screen has room for. -/
theorem screen_not_contained : ¬ ∀ (L : Layout) (c : Cpu)
    (calls : List ((Reg → BitVec 64) × PrintString)), OnStack calls →
    c.mem.read16 L.start_location = 0#16 → Contained L c calls := by
  intro h
  have hall := contained_one (h assembledLayout printCpu
    [(printCpu.reg, letters 2001)] (onStack_sample _) printCpu_cursor)
  rw [show (letters 2001).text.length = 2001 from List.length_replicate] at hall
  omega

end BootLoader.ThirdStage
