/-
Printing what stands in memory: that it ends, and what it leaves alone.

A text that RSI points at is printed as the list of its bytes would be
(`video_print_at_eq`), since printing does not reach it. A number is
followed by the text its last digit points at, and that text ends too,
wherever the cursor was and whatever the digits are: the scroll behind the
digits puts a NUL on the screen, and low memory runs into the screen
(`video_print_hexa_returns`).

`Confined` is the frame of both: the stack pointer, and every byte from it
up to the screen but for the cursor.
-/
import BootLoader.ThirdStage.Ata
import BootLoader.ThirdStage.Proofs.VideoHexa

namespace BootLoader.ThirdStage

open FlatMemory Words

variable {L : Layout} {c d e : Cpu} {free free' : BitVec 64 → Prop}

-- =============================================================== the frame

/-- `d` is `c` after work on the bytes `free`, on the screen and below the
stack pointer. -/
structure Confined (free : BitVec 64 → Prop) (c d : Cpu) : Prop where
  rsp : d.reg .rsp = c.reg .rsp
  mem : ∀ b : BitVec 64, (c.reg .rsp).toNat ≤ b.toNat → b.toNat < 0xB0000 →
    ¬ free b → d.mem b = c.mem b

theorem Confined.refl (c : Cpu) : Confined free c c :=
  ⟨rfl, fun _ _ _ _ => rfl⟩

theorem Confined.trans (h : Confined free c d) (h' : Confined free d e) :
    Confined free c e := by
  refine ⟨h'.rsp.trans h.rsp, fun b hlo hhi hb => ?_⟩
  rw [h'.mem b (by rw [h.rsp]; exact hlo) hhi hb]
  exact h.mem b hlo hhi hb

theorem Confined.mono (h : Confined free c d) (hf : ∀ b, free b → free' b) :
    Confined free' c d :=
  ⟨h.rsp, fun b hlo hhi hb => h.mem b hlo hhi fun hfree => hb (hf b hfree)⟩

theorem Confined.set (h : Confined free c d) {r : Reg} (hr : r ≠ .rsp)
    (v : BitVec 64) : Confined free c (d.set r v) :=
  ⟨(Cpu.set_reg_of_ne (Ne.symm hr)).trans h.rsp, h.mem⟩

theorem Confined.reads (h : Confined free c d) (a : BitVec 64) (n : Nat) :
    Confined free c (d.reads a n) := ⟨h.rsp, h.mem⟩

/-- A store to free bytes. -/
theorem Confined.write (h : Confined free c d) {a : BitVec 64} {n : Nat}
    {v : BitVec (8 * n)} (hreg : e.reg .rsp = d.reg .rsp)
    (hmem : e.mem = d.mem.write a n v) (hn : a.toNat + n ≤ 2 ^ 64)
    (hfree : ∀ b : BitVec 64, a.toNat ≤ b.toNat → b.toNat < a.toNat + n →
      free b) : Confined free c e := by
  refine ⟨hreg.trans h.rsp, fun b hlo hhi hb => ?_⟩
  rw [hmem, ← h.mem b hlo hhi hb]
  refine Mem.write_apply_of_out _ _ hn ?_
  have hmiss : ¬ (a.toNat ≤ b.toNat ∧ b.toNat < a.toNat + n) :=
    fun hin => hb (hfree b hin.1 hin.2)
  omega

/-- A read of bytes that are not free. -/
theorem Confined.read (h : Confined free c d) {a : BitVec 64} {n : Nat}
    (hlo : (c.reg .rsp).toNat ≤ a.toNat) (hhi : a.toNat + n ≤ 0xB0000)
    (hfree : ∀ b : BitVec 64, a.toNat ≤ b.toNat → b.toNat < a.toNat + n →
      ¬ free b) : d.mem.read a n = c.mem.read a n := by
  refine Mem.read_congr_bytes (by omega) fun b hb hb' => ?_
  exact h.mem b (by omega) (by omega) (hfree b hb hb')

/-- A register save. -/
theorem pushaq_confined (hs : StackOk c) {b : BitVec 64}
    (hb : (c.reg .rsp).toNat ≤ b.toNat) : c.pushaq.mem b = c.mem b := by
  obtain ⟨hlo, hhi⟩ := hs
  obtain ⟨-, -, hmem, -⟩ := Cpu.pushaq_spec (c := c) (by omega)
  exact hmem b (Or.inr hb)

/-- A routine between a save and a restore of the registers. -/
theorem Confined.saved (hs : StackOk c)
    (hfree : ∀ b, free b → 0x10000 ≤ b.toNat)
    (h : Confined free c.pushaq d) :
    Confined free c d.popaq ∧ d.popaq.reg = c.reg := by
  have hs' := hs
  obtain ⟨hlo, hhi⟩ := hs'
  obtain ⟨hrsp, -⟩ := Cpu.pushaq_spec (c := c) (by omega)
  have hreg : d.popaq.reg = c.reg := by
    refine (Cpu.popaq_spec (c := c) (by omega) h.rsp ?_).1
    intro b hb hb'
    refine h.mem b (by omega) (by omega) fun hf => ?_
    have hplace := hfree b hf
    omega
  refine ⟨⟨by rw [hreg], fun b hb hb' hf => ?_⟩, hreg⟩
  rw [Cpu.popaq_mem, h.mem b (by omega) hb' hf]
  exact pushaq_confined hs hb

/-- The cursor's bytes. -/
def CursorByte (L : Layout) (b : BitVec 64) : Prop :=
  L.start_location.toNat ≤ b.toNat
    ∧ b.toNat < L.start_location.toNat + 2

theorem CursorByte.place {b : BitVec 64} (h : CursorByte L b) :
    0x10000 ≤ b.toNat := by
  have hin := L.start_location_in
  exact Nat.le_trans hin.1 h.1

-- ============================================================= listed texts

/-- `video_print` of a short text in low memory. -/
theorem video_print_confined (hs : StackOk c) (str : List (BitVec 8))
    (hlen : str.length ≤ 0x1000)
    (hsi : (c.reg .rsi).toNat + str.length ≤ 0x100000) :
    Confined (CursorByte L) c (video_print L str c)
      ∧ (video_print L str c).reg = c.reg := by
  have hreg := (video_print_quiet (L := L) hs str hlen hsi).reg
  refine ⟨⟨by rw [hreg], fun b hlo hhi hb => ?_⟩, hreg⟩
  unfold CursorByte at hb
  exact video_print_frame hs str hlen hsi (Or.inr hlo) hhi (by omega)

/-- A message of the program. -/
theorem print_confined (hs : StackOk c) (label : BitVec 64)
    (str : List (BitVec 8)) (hlabel : label.toNat + str.length ≤ 0x20000)
    (hlen : str.length ≤ 0x1000) :
    Confined (CursorByte L) c (print L label str c)
      ∧ ∀ r, r ≠ .rsi → (print L label str c).reg r = c.reg r := by
  have hs' : StackOk (c.set .rsi label) := hs
  have hsi : ((c.set .rsi label).reg .rsi).toNat + str.length
      ≤ 0x100000 := by
    rw [Cpu.set_reg_self]
    omega
  obtain ⟨hconf, hreg⟩ := video_print_confined (L := L) hs' str hlen hsi
  unfold print
  refine ⟨((Confined.refl c).set (by decide) label).trans hconf, fun r hr => ?_⟩
  rw [hreg]
  exact Cpu.set_reg_of_ne hr

-- ========================================================== texts in memory

/-- The bytes from `a` on are `str`, below the screen and not in the
cursor. -/
structure TextIn (L : Layout) (m : Mem) (a : Nat) (str : List (BitVec 8)) :
    Prop where
  below : a + str.length ≤ 0xB0000
  bytes : ∀ (i : Nat) (h : i < str.length),
    m (BitVec.ofNat 64 (a + i)) = str[i]
  apart : ∀ i < str.length, ¬ CursorByte L (BitVec.ofNat 64 (a + i))

theorem TextIn.tail {m : Mem} {a : Nat} {ch : BitVec 8}
    {str : List (BitVec 8)} (h : TextIn L m a (ch :: str)) :
    TextIn L m (a + 1) str := by
  have hlen : (ch :: str).length = str.length + 1 := rfl
  refine ⟨by have := h.below; omega, fun i hi => ?_, fun i hi => ?_⟩
  · have hnext := h.bytes (i + 1) (by omega)
    rw [List.getElem_cons_succ, ← Nat.add_assoc, Nat.add_right_comm] at hnext
    exact hnext
  · have hnext := h.apart (i + 1) (by omega)
    rw [← Nat.add_assoc, Nat.add_right_comm] at hnext
    exact hnext

/-- The first byte, after work on the screen. -/
theorem TextIn.head {p : Cpu} {a : Nat} {ch : BitVec 8}
    {str : List (BitVec 8)} (h : TextIn L p.mem a (ch :: str))
    (hd : ImageKept L p d) (hsi : d.reg .rsi = BitVec.ofNat 64 a) :
    d.mem (d.reg .rsi) = ch := by
  have hpos : 0 < (ch :: str).length := Nat.succ_pos _
  have hbelow := h.below
  have ha : (BitVec.ofNat 64 a).toNat = a := toNat_lit (by omega)
  have hfirst := h.bytes 0 hpos
  have hout := h.apart 0 hpos
  rw [Nat.add_zero] at hfirst hout
  unfold CursorByte at hout
  rw [hsi, hd _ (by omega) (by omega)]
  exact hfirst

/-- A character keeps the image, and moves the pointer to a cell that
leaves room for what is still to come. -/
theorem print_char_image {p : Cpu} (h : ImageKept L p d) (ch : BitVec 8)
    {n : Nat} (hn : n ≤ 0x1000) (hlo : 0xB0000 ≤ (d.reg .rbx).toNat)
    (hhi : (d.reg .rbx).toNat + 2 * (n + 1) ≤ 0x100000) :
    ImageKept L p (print_char ch d)
      ∧ 0xB0000 ≤ ((print_char ch d).reg .rbx).toNat
      ∧ ((print_char ch d).reg .rbx).toNat + 2 * n ≤ 0x100000 := by
  have hl : ImageKept L p (lodsb ch d) := h
  have hbx : (lodsb ch d).reg .rbx = d.reg .rbx := rfl
  have hnext : ∀ u : Cpu, (u.reg .rbx).toNat + 2 ≤ 0x100000 →
      ((cont_printing u).reg .rbx).toNat = (u.reg .rbx).toNat + 2 := by
    intro u hu
    show (u.reg .rbx + 1#64 + 1#64).toNat = _
    have h1 : (u.reg .rbx + 1#64).toNat = (u.reg .rbx).toNat + 1 :=
      toNat_add_lit (by omega)
    rw [toNat_add_lit (by omega), h1]
  rw [← hbx] at hlo hhi
  unfold print_char
  dsimp only
  split
  · -- the end of the screen: on with the last line
    have hscroll : ((scroll (lodsb ch d)).reg .rbx).toNat = 0xB8F00 := rfl
    have hon := hnext (scroll (lodsb ch d)) (by omega)
    exact ⟨cont_printing_image (scroll_image hl) (by omega) (by omega),
      by omega, by omega⟩
  · have hon := hnext (lodsb ch d) (by omega)
    exact ⟨cont_printing_image hl hlo (by omega), by omega, by omega⟩

/-- A text with a terminator is printed from memory as from a list. -/
theorem video_print_loop_at_eq {p : Cpu} (str : List (BitVec 8)) :
    ∀ {d : Cpu} {a fuel : Nat}, ImageKept L p d → TextIn L p.mem a str →
      0#8 ∈ str → d.reg .rsi = BitVec.ofNat 64 a → str.length ≤ 0x1000 →
      0xB0000 ≤ (d.reg .rbx).toNat →
      (d.reg .rbx).toNat + 2 * str.length ≤ 0x100000 →
      str.length ≤ fuel →
      video_print_loop_at L fuel d = some (video_print_loop L str d) := by
  induction str with
  | nil =>
      intro d a fuel _ _ hzero
      exact absurd hzero List.not_mem_nil
  | cons ch str ih =>
      intro d a fuel hd htext hzero hsi hlen hlo hhi hfuel
      obtain ⟨fuel, rfl⟩ : ∃ f, fuel = f + 1 := ⟨fuel - 1, by
        rw [List.length_cons] at hfuel
        omega⟩
      rw [List.length_cons] at hlen hhi hfuel
      have hch := htext.head hd hsi
      by_cases h13 : ch = 13#8
      · rw [video_print_loop_at, video_print_loop]
        simp only [hch, lodsb_al]
        rw [if_pos h13, if_pos h13]
      by_cases h0 : ch = 0#8
      · rw [video_print_loop_at, video_print_loop]
        simp only [hch, lodsb_al]
        rw [if_neg h13, if_pos h0, if_neg h13, if_pos h0]
      have hstep : video_print_loop_at L (fuel + 1) d
          = video_print_loop_at L fuel (print_char ch d) := by
        rw [video_print_loop_at]
        simp only [hch, lodsb_al]
        rw [if_neg h13, if_neg h0]
        rfl
      obtain ⟨himage, hlo', hhi'⟩ :=
        print_char_image hd ch (n := str.length) (by omega) hlo (by omega)
      have hsi' : (print_char ch d).reg .rsi = BitVec.ofNat 64 (a + 1) := by
        rw [(print_char_counts ch d).1, hsi, ← BitVec.ofNat_add]
      have hrest : 0#8 ∈ str := by
        rcases List.mem_cons.1 hzero with h | h
        · exact absurd h.symm h0
        · exact h
      rw [hstep, video_print_loop_cons h13 h0]
      exact ih himage htext.tail hrest hsi' (by omega) hlo' hhi' (by omega)

/-- So the call returns, as a call on the list of the bytes does. -/
theorem video_print_at_eq (hs : StackOk c) {str : List (BitVec 8)}
    (fuel : Nat) (htext : TextIn L c.mem (c.reg .rsi).toNat str)
    (hstack : (c.reg .rsp).toNat ≤ (c.reg .rsi).toNat) (hzero : 0#8 ∈ str)
    (hlen : str.length ≤ 0x1000) (hfuel : str.length ≤ fuel) :
    video_print_at L fuel c = some (video_print L str c) := by
  have hs' := hs
  obtain ⟨hlo, hhi⟩ := hs'
  have hkeep : TextIn L c.pushaq.mem (c.reg .rsi).toNat str := by
    refine ⟨htext.below, fun i hi => ?_, htext.apart⟩
    have hbelow := htext.below
    have hplace := toNat_lit (n := (c.reg .rsi).toNat + i) (by omega)
    rw [pushaq_confined hs (by omega)]
    exact htext.bytes i hi
  have hsi : (print_start L c).reg .rsi
      = BitVec.ofNat 64 (c.reg .rsi).toNat := by
    unfold print_start
    rw [Cpu.set_reg_of_ne (by decide), Cpu.setLow16_reg, if_neg (by decide),
      Cpu.reads_reg, Cpu.set_reg_of_ne (by decide),
      Cpu.pushaq_reg c (by decide), BitVec.ofNat_toNat, BitVec.setWidth_eq]
  obtain ⟨w, hbx⟩ : ∃ w : BitVec 16, ((print_start L c).reg .rbx).toNat
      = 0xB0000 + w.toNat := ⟨_, start_pointer _ _ _⟩
  have himage : ImageKept L c.pushaq (print_start L c) := fun _ _ _ => rfl
  have heq : video_print_at L fuel c
      = (video_print_loop_at L fuel (print_start L c)).map Cpu.popaq := rfl
  rw [heq, video_print_eq]
  generalize print_start L c = q at hsi hbx himage ⊢
  rw [video_print_loop_at_eq str himage hkeep hzero hsi hlen (by omega)
    (by omega) hfuel]
  rfl

-- ================================================================== numbers

theorem Confined.of_image {p : Cpu} (h : ImageKept L p d)
    (hrsp : d.reg .rsp = p.reg .rsp) : Confined (CursorByte L) p d := by
  refine ⟨hrsp, fun b _ hhi hb => ?_⟩
  unfold CursorByte at hb
  exact h b hhi (by omega)

/-- A digit on the screen. -/
theorem hexa_put_image {p : Cpu} (h : ImageKept L p d)
    (hlo : 0xB0000 ≤ (d.reg .rbx).toNat)
    (hhi : (d.reg .rbx).toNat + 2 ≤ 0x100000) :
    ImageKept L p (continue_print_hexa d) :=
  cont_printing_image h hlo hhi

/-- The digits, from any cursor and with any table. RSI is a digit then,
also when the end of the screen cuts the number off. -/
theorem hexa_loop_image (hexa_digits : BitVec 64) {p : Cpu} (n : Nat) :
    ∀ {d : Cpu}, n < 16 → ImageKept L p d → d.reg .rsp = p.reg .rsp →
      0xB0000 ≤ (d.reg .rbx).toNat →
      (d.reg .rbx).toNat + 2 * (n + 1) ≤ 0x100000 →
      ImageKept L p (hexa_loop hexa_digits (n + 1) d)
        ∧ (hexa_loop hexa_digits (n + 1) d).reg .rsp = p.reg .rsp
        ∧ ((hexa_loop hexa_digits (n + 1) d).reg .rsi).toNat < 16 := by
  have hdigit : ∀ d : Cpu, (hexa_digit hexa_digits d).mem = d.mem
      ∧ (∀ r, r ≠ .rax → r ≠ .rsi →
        (hexa_digit hexa_digits d).reg r = d.reg r)
      ∧ ((hexa_digit hexa_digits d).reg .rsi).toNat < 16 := by
    intro d
    refine ⟨rfl, ?_, ?_⟩
    · intro r hax hsi
      simp only [hexa_digit, Cpu.setLow8_reg, Cpu.reads_reg,
        Cpu.set_reg_of_ne hsi, if_neg hax]
    · show (d.reg .rdi >>> 0x3C).toNat < 16
      have hlt := (d.reg .rdi).isLt
      rw [BitVec.toNat_ushiftRight, Nat.shiftRight_eq_div_pow]
      omega
  induction n with
  | zero =>
      intro d _ hd hsp hlo hhi
      obtain ⟨hmem, hreg, hsi⟩ := hdigit d
      have hu : ImageKept L p (hexa_digit hexa_digits d) := by
        unfold ImageKept
        rw [hmem]
        exact hd
      have hbx := hreg .rbx (by decide) (by decide)
      have husp := (hreg .rsp (by decide) (by decide)).trans hsp
      rw [← hbx] at hlo hhi
      rw [hexa_loop]
      generalize hexa_digit hexa_digits d = u at hu hsi husp hlo hhi ⊢
      have hput := hexa_put_image hu hlo (by omega)
      dsimp only
      split
      · exact ⟨hu, husp, hsi⟩
      · rw [hexa_loop, ite_self]
        exact ⟨hput, husp, hsi⟩
  | succ n ih =>
      intro d hn hd hsp hlo hhi
      obtain ⟨hmem, hreg, hsi⟩ := hdigit d
      have hu : ImageKept L p (hexa_digit hexa_digits d) := by
        unfold ImageKept
        rw [hmem]
        exact hd
      have hbx := hreg .rbx (by decide) (by decide)
      have husp := (hreg .rsp (by decide) (by decide)).trans hsp
      rw [← hbx] at hlo hhi
      rw [hexa_loop]
      generalize hexa_digit hexa_digits d = u at hu hsi husp hlo hhi ⊢
      have hput := hexa_put_image hu hlo (by omega)
      have hnext : ((continue_print_hexa u).reg .rbx).toNat
          = (u.reg .rbx).toNat + 2 := by
        show (u.reg .rbx + 1#64 + 1#64).toNat = _
        have h1 : (u.reg .rbx + 1#64).toNat = (u.reg .rbx).toNat + 1 :=
          toNat_add_lit (by omega)
        rw [toNat_add_lit (by omega), h1]
      dsimp only
      split
      · exact ⟨hu, husp, hsi⟩
      split
      · exact ih (by omega) hput husp (by omega) (by omega)
      · exact ⟨hput, husp, hsi⟩

/-- A terminator stores the cursor. -/
theorem terminator_image {p : Cpu} (newline : Bool) (h : ImageKept L p d)
    (hrsp : d.reg .rsp = p.reg .rsp) :
    ImageKept L p (video_print_loop L [if newline then 13#8 else 0#8] d)
      ∧ (video_print_loop L [if newline then 13#8 else 0#8] d).reg .rsp
        = p.reg .rsp := by
  have hl : (lodsb (if newline then 13#8 else 0#8) d).reg .rsp
      = p.reg .rsp := (lodsb_reg _ d (by decide) (by decide)).trans hrsp
  simp only [video_print_loop, lodsb_al]
  cases newline with
  | true =>
      rw [if_pos rfl, if_pos rfl]
      exact ⟨ImageKept.store_cursor (d := _) h _,
        (out_video_print_loop_rsp _).trans hl⟩
  | false =>
      rw [if_neg Bool.false_ne_true, if_neg (by decide), if_pos rfl]
      exact ⟨ImageKept.store_cursor (d := _) h _,
        (out_video_print_loop1_rsp _).trans hl⟩

/-- From the end of the digits on: the scroll, the NUL and the text in low
memory, up to its terminator. -/
theorem scroll_hexa_returns {p : Cpu} (h : ImageKept L p e)
    (hrsp : e.reg .rsp = p.reg .rsp) (hsi : (e.reg .rsi).toNat < 16)
    {fuel : Nat} (hfuel : 0xB8001 ≤ fuel) :
    ∃ g, video_print_loop_at L fuel (cont_printing (scroll_hexa e)) = some g
      ∧ ImageKept L p g ∧ g.reg .rsp = p.reg .rsp := by
  obtain ⟨hrsi, husp, -⟩ := scroll_hexa_reg e
  have hroll : Shows e.mem (coded.type ⟨cellAt e.mem, 2000⟩ (inked 0#8)) true
      (cont_printing (scroll_hexa e)) := by
    rw [scroll_hexa_eq]
    exact Shows.scroll_printing (Screenful.refl e.mem) _
  obtain ⟨a, ha⟩ : ∃ a, (e.reg .rsi).toNat = a := ⟨_, rfl⟩
  have hstart : (cont_printing (scroll_hexa e)).reg .rsi
      = BitVec.ofNat 64 a := by
    rw [hrsi, ← ha, BitVec.ofNat_toNat, BitVec.setWidth_eq]
  rw [hrsp] at husp
  generalize cont_printing (scroll_hexa e) = u at hroll hstart husp ⊢
  rw [ha] at hsi
  -- the text, and the byte behind it
  obtain ⟨hlen, hplain, hget, -⟩ := textFrom_spec e.mem (0xB8000 - a) a
  obtain ⟨text, htext⟩ : ∃ text, lowText e.mem a = text := ⟨_, rfl⟩
  have hlow : textFrom e.mem (0xB8000 - a) a = text := htext
  rw [hlow] at hlen hplain hget
  have htail := hroll.print_text text
  obtain ⟨hzsp, hzsi, -⟩ := print_text_reg text u
  have hloop := video_print_loop_at_text (L := L) 1 text hroll hplain hstart
    (by omega) hget
  generalize print_text text u = z at htail hzsp hzsi hloop
  rw [Bool.true_or] at htail
  have hend := tail_end hsi htext.symm htail
  rw [BitVec.ofNat_add, ← hstart, ← hzsi] at hend
  have hterm : z.mem (z.reg .rsi)
      = if decide (LowNewline e.mem a) then 13#8 else 0#8 := by
    rw [hend]
    by_cases hnl : LowNewline e.mem a
    · rw [decide_eq_true hnl, if_pos hnl, if_pos rfl]
    · rw [decide_eq_false hnl, if_neg hnl, if_neg Bool.false_ne_true]
  rw [video_print_loop_at_end 0 hterm] at hloop
  have hmore := video_print_loop_at_mono (fuel - (1 + text.length)) hloop
  rw [Nat.add_sub_cancel' (by omega)] at hmore
  -- the screen is not below itself
  have himage : ImageKept L p z := by
    intro b hb hout
    rw [htail.screen.frame b (Or.inl (by omega))]
    exact h b hb hout
  exact ⟨_, hmore, terminator_image _ himage (hzsp.trans husp)⟩

/-- A number is printed and the call returns, whatever the cursor, the
table and low memory are. -/
theorem video_print_hexa_returns (hs : StackOk c) (hexa_digits : BitVec 64)
    {fuel : Nat} (hfuel : 0xB8001 ≤ fuel) :
    ∃ d, video_print_hexa L hexa_digits fuel c = some d
      ∧ Confined (CursorByte L) c d ∧ d.reg = c.reg := by
  have himage : ImageKept L c.pushaq (hexa_start L c) := fun _ _ _ => rfl
  have hsp : (hexa_start L c).reg .rsp = c.pushaq.reg .rsp := by
    unfold hexa_start
    rw [Cpu.set_reg_of_ne (by decide), Cpu.setLow16_reg, if_neg (by decide),
      Cpu.reads_reg, Cpu.set_reg_of_ne (by decide)]
  obtain ⟨w, hbx⟩ : ∃ w : BitVec 16, ((hexa_start L c).reg .rbx).toNat
      = 0xB0000 + w.toNat := ⟨_, toNat_merge16 0xB8000#64 _⟩
  have heq : video_print_hexa L hexa_digits fuel c
      = (video_print_loop_at L fuel (cont_printing (scroll_hexa (hexa_loop
        hexa_digits (15 + 1) (hexa_start L c))))).map Cpu.popaq := rfl
  rw [heq]
  generalize hexa_start L c = q at himage hsp hbx ⊢
  obtain ⟨hkept, hrsp, hsi⟩ := hexa_loop_image hexa_digits
    15 (by omega) himage hsp (by omega) (by omega)
  obtain ⟨g, hg, hgimage, hgsp⟩ := scroll_hexa_returns hkept hrsp hsi hfuel
  rw [hg]
  exact ⟨g.popaq, rfl, (Confined.of_image hgimage hgsp).saved hs
    fun b hb => hb.place⟩

end BootLoader.ThirdStage
