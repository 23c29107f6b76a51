/-
What `video_print_hexa` leaves on the screen.

# Past the last digit

The digit loop falls through into its scroll block, the block leaves for
`clear_last_line` of `video_print`, and from there on the call is a
`video_print` that was never started: the screen goes up a line, a NUL is
written, and RSI, which is the last digit, is followed as a string through
low memory up to the first 0 or 13 (`lowText`). What that text starts with
depends on the interrupt vectors, how far it goes on whatever lies there.

# When that does not show

The call always returns, with all registers back (`hexa_call`). The screen
then is a window on the tape that begins with the digits' screen and goes
on with the low memory, so the claim "the digits and nothing else" comes
down to the tape repeating itself (`Echoes`).
-/
import BootLoader.ThirdStage.Proofs.VideoCells

namespace BootLoader.ThirdStage

open FlatMemory Words

variable {L : Layout} {hexa_digits : BitVec 64} {c d e : Cpu} {m m₀ : Mem}
  {past : Bool} {s : Terminal.Screen Cell} {v : BitVec 64} {sl i : Nat}

-- ============================================================== the digits

/-- The digits table of `third_stage.asm`. -/
def hexaChars : List (BitVec 8) := ascii "0123456789ABCDEF"

/-- The table lies in the image. -/
structure HexaTable (hexa_digits : BitVec 64) (m : Mem) : Prop where
  lower : 0x10000 ≤ hexa_digits.toNat
  upper : hexa_digits.toNat + 16 ≤ imageEnd
  digit : ∀ k < 16, m (hexa_digits + BitVec.ofNat 64 k)
    = hexaChars.getD k 0#8

/-- Digit `i` of a quadword, from the highest one. -/
def hexaChar (v : BitVec 64) (i : Nat) : BitVec 8 :=
  hexaChars.getD (v.toNat / 16 ^ (15 - i) % 16) 0#8

/-- The sixteen digits. -/
def hexaText (v : BitVec 64) : List (BitVec 8) :=
  (List.range 16).map (hexaChar v)

theorem hexaText_length (v : BitVec 64) : (hexaText v).length = 16 := by
  unfold hexaText
  rw [List.length_map, List.length_range]

/-- The four highest bits of what is left after `i` digits. -/
theorem high_digit (v : BitVec 64) (hi : i < 16) :
    (v <<< (4 * i)) >>> 0x3C
      = BitVec.ofNat 64 (v.toNat / 16 ^ (15 - i) % 16) := by
  have hpow : (16 : Nat) ^ (15 - i) = 2 ^ (60 - 4 * i) := by
    rw [show (16 : Nat) = 2 ^ 4 by rfl, ← Nat.pow_mul]
    congr 1
    omega
  apply BitVec.eq_of_toNat_eq
  rw [toNat_lit (by omega), hpow]
  exact toNat_cut v (by omega) (by omega)

/-- After `i` digits: they are typed, and RDI has been shifted past
them. -/
structure Hexed (m₀ : Mem) (s : Terminal.Screen Cell) (v : BitVec 64)
    (c : Cpu) (i : Nat) (d : Cpu) : Prop where
  shows : Shows m₀ (coded.typed s (((hexaText v).take i).map inked)) false d
  rdi : d.reg .rdi = v <<< (4 * i)
  rcx : (d.reg .rcx).toNat = 16 - i
  rsp : d.reg .rsp = c.reg .rsp
  rsi : 0 < i → d.reg .rsi = BitVec.ofNat 64 (v.toNat / 16 ^ (16 - i) % 16)

/-- The digit in AL. -/
theorem hexa_digit_spec (ht : HexaTable hexa_digits m₀)
    (h : Hexed m₀ s v c i d) (hi : i < 16) :
    (hexa_digit hexa_digits d).low8 .rax = hexaChar v i
      ∧ (hexa_digit hexa_digits d).reg .rsi
        = BitVec.ofNat 64 (v.toNat / 16 ^ (15 - i) % 16)
      ∧ ∀ r, r ≠ .rax → r ≠ .rsi →
        (hexa_digit hexa_digits d).reg r = d.reg r := by
  have hk : v.toNat / 16 ^ (15 - i) % 16 < 16 := Nat.mod_lt _ (by omega)
  have hlower := ht.lower
  have hupper := ht.upper
  unfold imageEnd at hupper
  have hread : d.mem (hexa_digits
      + BitVec.ofNat 64 (v.toNat / 16 ^ (15 - i) % 16)) = hexaChar v i := by
    rw [h.shows.screen.frame _ (Or.inl (by
      rw [toNat_add_lit (by omega)]
      omega))]
    exact ht.digit _ hk
  have hshift := high_digit v hi
  rw [← h.rdi] at hshift
  refine ⟨?_, ?_, ?_⟩
  · rw [← hread, ← hshift]
    simp only [hexa_digit, Cpu.low8_setLow8, Cpu.set_mem, Cpu.set_reg_self]
  · rw [← hshift]
    simp only [hexa_digit, Cpu.setLow8_reg, Cpu.reads_reg, Cpu.set_reg_self,
      reduceCtorEq, if_false]
  · intro r hax hsi
    simp only [hexa_digit, Cpu.setLow8_reg, Cpu.reads_reg,
      Cpu.set_reg_of_ne hsi, if_neg hax]

/-- One more digit. -/
theorem Hexed.round (h : Hexed m₀ s v c i d) (hi : i < 16)
    (ht : HexaTable hexa_digits m₀) (hroom : s.next + 16 ≤ 2000) :
    (hexa_digit hexa_digits d).reg .rbx ≠ 0xB8FA0#64
      ∧ Hexed m₀ s v c (i + 1)
        (continue_print_hexa (hexa_digit hexa_digits d)) := by
  obtain ⟨hal, hsi, hreg⟩ := hexa_digit_spec ht h hi
  have hdig : Shows m₀ (coded.typed s (((hexaText v).take i).map inked)) false
      (hexa_digit hexa_digits d) :=
    ⟨h.shows.screen, h.shows.next, by
      rw [hreg .rbx (by decide) (by decide)]
      exact h.shows.rbx⟩
  have hcx := h.rcx
  rw [← hreg .rcx (by decide) (by decide)] at hcx
  have hdi := h.rdi
  rw [← hreg .rdi (by decide) (by decide)] at hdi
  have hsp := h.rsp
  rw [← hreg .rsp (by decide) (by decide)] at hsp
  generalize hexa_digit hexa_digits d = u at hal hsi hdig hcx hdi hsp ⊢
  -- the digit has room: no scroll in the middle of the number
  have hlen : (((hexaText v).take i).map inked).length = i := by
    rw [List.length_map, List.length_take, hexaText_length]
    omega
  have hnext : (coded.typed s (((hexaText v).take i).map inked)).next
      = s.next + i := by
    have hn := coded.typed_next s (by rw [coded_size]; omega)
      (((hexaText v).take i).map inked)
    rw [hlen, coded.rolls_of_le (by rw [coded_size]; omega)] at hn
    omega
  have hbx := hdig.rbx
  rw [hnext] at hbx
  have htake : ((hexaText v).take (i + 1)).map inked
      = ((hexaText v).take i).map inked ++ [inked (u.low8 .rax)] := by
    have hlt : i < (hexaText v).length := by
      rw [hexaText_length]
      exact hi
    have hget : (hexaText v)[i] = hexaChar v i := by
      simp only [hexaText, List.getElem_map, List.getElem_range]
    rw [hal, List.take_succ_eq_append_getElem hlt, hget, List.map_append]
    rfl
  constructor
  · intro heq
    rw [heq, toNat_lit (by omega)] at hbx
    omega
  · constructor
    · rw [htake, coded.typed_append]
      exact hdig.put (by rw [hnext]; omega) rfl rfl
    · show u.reg .rdi <<< 0x4 = _
      rw [hdi, ← BitVec.shiftLeft_add, Nat.mul_succ]
    · show (u.reg .rcx - 1#64).toNat = _
      rw [BitVec.toNat_sub, hcx, BitVec.toNat_ofNat]
      omega
    · exact hsp
    · intro _
      show u.reg .rsi = _
      rw [hsi, Nat.add_sub_add_right 15 1 i]

/-- The loop prints what is left of the sixteen. -/
theorem hexa_loop_spec (ht : HexaTable hexa_digits m₀)
    (hroom : s.next + 16 ≤ 2000) :
    ∀ (n : Nat) {i : Nat} {d : Cpu}, i + (n + 1) = 16 →
      Hexed m₀ s v c i d →
      Hexed m₀ s v c 16 (hexa_loop hexa_digits (n + 1) d) := by
  intro n
  induction n with
  | zero =>
      intro i d hi h
      obtain ⟨hbx, hround⟩ := h.round (by omega) ht hroom
      have hlast : i + 1 = 16 := by omega
      rw [hlast] at hround
      rw [hexa_loop]
      simp only [if_neg hbx]
      split
      · exact hround
      · exact hround
  | succ n ih =>
      intro i d hi h
      obtain ⟨hbx, hround⟩ := h.round (by omega) ht hroom
      have hcx := hround.rcx
      have hgo : (0#64).slt ((continue_print_hexa
          (hexa_digit hexa_digits d)).reg .rcx) = true := by
        rw [slt_of_small (by decide) (by omega), hcx]
        exact decide_eq_true (by rw [toNat_lit (by omega)]; omega)
      rw [hexa_loop]
      simp only [if_neg hbx, if_pos hgo]
      exact ih (by omega) hround

-- ======================================================== the scroll block

/-- The `jne` after the round of `.clear_last_line_hexa` is taken. -/
theorem clear_last_line_hexa_taken (hbx : c.reg .rbx = 0xB8F00#64)
    (hdx : c.reg .rdx = 0#64) :
    ((clear_last_line_round c).reg .rdx != 0xA0#64) = true :=
  ((Blanked.start hbx hdx).round (by omega)).go (by omega)

/-- So the block does what the scroll of `video_print` does. -/
theorem scroll_hexa_eq (c : Cpu) : scroll_hexa c = scroll c := by
  have hclear : ∀ u : Cpu, u.reg .rbx = 0xB8F00#64 → u.reg .rdx = 0#64 →
      clear_last_line (clear_last_line_round u) = clear_last_line u := by
    intro u hbx hdx
    have hgo := clear_last_line_hexa_taken hbx hdx
    have hround := (Blanked.start hbx hdx).round (by omega)
    have hfirst : clear_last_line u = if (clear_last_line_round u).reg .rdx
        != 0xA0#64 then Loop.doWhile (fun c => c.reg .rdx != 0xA0#64)
          clear_last_line_round 0x9F (clear_last_line_round u)
        else clear_last_line_round u := rfl
    rw [hfirst, if_pos hgo]
    exact Loop.doWhile_bound (Blanked u)
      (fun k d hk h => h.round hk) (fun d h => h.stop) (n := 0xA0)
      (by omega) (by omega) (by omega) hround
  have hblock : scroll_hexa c = (clear_last_line (clear_last_line_round
      (((copy_up (((c.set .rbx 0xB80A0#64).set .rax 0xB8000#64).set .rdx
        0#64)).set .rdx 0#64).set .rbx 0xB8F00#64))).set .rbx
          0xB8F00#64 := rfl
  have hscroll : scroll c = (clear_last_line (((copy_up (((c.set .rbx
      0xB80A0#64).set .rax 0xB8000#64).set .rdx 0#64)).set .rdx 0#64).set
        .rbx 0xB8F00#64)).set .rbx 0xB8F00#64 := rfl
  rw [hblock, hscroll]
  generalize copy_up (((c.set .rbx 0xB80A0#64).set .rax 0xB8000#64).set .rdx
    0#64) = u
  rw [hclear _ rfl rfl]

-- ============================================================= low memory

/-- What is read as text from `a` on, up to the first 0 or 13 of the next
`n` bytes. -/
def textFrom (m : Mem) : Nat → Nat → List (BitVec 8)
  | 0, _ => []
  | n + 1, a =>
      let ch := m (BitVec.ofNat 64 a)
      if ch = 13#8 ∨ ch = 0#8 then [] else ch :: textFrom m n (a + 1)

theorem textFrom_spec (m : Mem) (n : Nat) : ∀ a : Nat,
    (textFrom m n a).length ≤ n
      ∧ (∀ ch ∈ textFrom m n a, ch ≠ 13#8 ∧ ch ≠ 0#8)
      ∧ (∀ (j : Nat) (h : j < (textFrom m n a).length),
        m (BitVec.ofNat 64 (a + j)) = (textFrom m n a)[j])
      ∧ ((textFrom m n a).length < n →
        m (BitVec.ofNat 64 (a + (textFrom m n a).length)) = 13#8
          ∨ m (BitVec.ofNat 64 (a + (textFrom m n a).length)) = 0#8) := by
  induction n with
  | zero =>
      intro a
      exact ⟨Nat.le_refl _, fun ch h => by simp [textFrom] at h,
        fun j h => by simp [textFrom] at h, fun h => by simp at h⟩
  | succ n ih =>
      intro a
      obtain ⟨hlen, hplain, hget, hend⟩ := ih (a + 1)
      by_cases hterm : m (BitVec.ofNat 64 a) = 13#8
          ∨ m (BitVec.ofNat 64 a) = 0#8
      · have hnil : textFrom m (n + 1) a = [] := by
          rw [textFrom]
          exact if_pos hterm
        rw [hnil]
        exact ⟨Nat.zero_le _, fun ch h => by simp at h,
          fun j h => by simp at h, fun _ => hterm⟩
      · have hcons : textFrom m (n + 1) a
            = m (BitVec.ofNat 64 a) :: textFrom m n (a + 1) := by
          rw [textFrom]
          exact if_neg hterm
        rw [hcons]
        refine ⟨Nat.succ_le_succ hlen, ?_, ?_, ?_⟩
        · intro ch hch
          rcases List.mem_cons.1 hch with rfl | hch
          · exact not_or.1 hterm
          · exact hplain ch hch
        · intro j hj
          cases j with
          | zero => rfl
          | succ j =>
              rw [List.getElem_cons_succ, ← hget j (by
                rw [List.length_cons] at hj
                omega), Nat.add_assoc, Nat.add_comm 1]
        · intro h
          rw [List.length_cons] at h ⊢
          rw [← Nat.add_assoc, Nat.add_right_comm]
          exact hend (by omega)

/-- The text in low memory, below the screen. -/
def lowText (m : Mem) (a : Nat) : List (BitVec 8) :=
  textFrom m (0xB8000 - a) a

/-- It ends in a 13. -/
def LowNewline (m : Mem) (a : Nat) : Prop :=
  a + (lowText m a).length < 0xB8000
    ∧ m (BitVec.ofNat 64 (a + (lowText m a).length)) = 13#8

instance (m : Mem) (a : Nat) : Decidable (LowNewline m a) :=
  inferInstanceAs (Decidable (_ ∧ _))

/-- A text in memory below the screen is printed as from a list. -/
theorem video_print_loop_at_text (fuel : Nat) (text : List (BitVec 8)) :
    ∀ {s : Terminal.Screen Cell} {past : Bool} {d : Cpu} {a : Nat},
      Shows m₀ s past d → (∀ ch ∈ text, ch ≠ 13#8 ∧ ch ≠ 0#8) →
      d.reg .rsi = BitVec.ofNat 64 a → a + text.length ≤ 0xB8000 →
      (∀ (j : Nat) (h : j < text.length),
        m₀ (BitVec.ofNat 64 (a + j)) = text[j]) →
      video_print_loop_at L (fuel + text.length) d
        = video_print_loop_at L fuel (print_text text d) := by
  induction text with
  | nil =>
      intro s past d a _ _ _ _ _
      rfl
  | cons ch text ih =>
      intro s past d a h hplain hsi hroom hget
      rw [List.length_cons] at hroom
      obtain ⟨h13, h0⟩ := hplain ch List.mem_cons_self
      have hch : d.mem (d.reg .rsi) = ch := by
        have hfirst := hget 0 (by rw [List.length_cons]; omega)
        rw [hsi, h.screen.frame _ (Or.inl (by
          rw [toNat_lit (by omega)]
          omega))]
        exact hfirst
      rw [List.length_cons, ← Nat.add_assoc, video_print_loop_at]
      simp only [hch, lodsb_al]
      rw [if_neg h13, if_neg h0]
      have hnextsi : (print_char ch d).reg .rsi = BitVec.ofNat 64 (a + 1) := by
        rw [(print_char_counts ch d).1, hsi, ← BitVec.ofNat_add]
      refine ih (h.print_char ch)
        (fun ch' h' => hplain ch' (List.mem_cons_of_mem _ h')) hnextsi
        (by omega) ?_
      intro j hj
      have hnext := hget (j + 1) (by rw [List.length_cons]; omega)
      rw [List.getElem_cons_succ, ← Nat.add_assoc, Nat.add_right_comm] at hnext
      exact hnext

/-- A terminator in memory ends it. -/
theorem video_print_loop_at_end (fuel : Nat) {newline : Bool}
    (h : d.mem (d.reg .rsi) = if newline then 13#8 else 0#8) :
    video_print_loop_at L (fuel + 1) d
      = some (video_print_loop L [if newline then 13#8 else 0#8] d) := by
  rw [video_print_loop_at, video_print_loop]
  simp only [h, lodsb_al]
  cases newline with
  | true => rfl
  | false => rfl

/-- A result stays with more fuel. -/
theorem video_print_loop_at_mono (n : Nat) {fuel : Nat} :
    ∀ {d e : Cpu}, video_print_loop_at L fuel d = some e →
      video_print_loop_at L (fuel + n) d = some e := by
  induction fuel with
  | zero =>
      intro d e h
      cases h
  | succ fuel ih =>
      intro d e h
      rw [Nat.add_right_comm, video_print_loop_at]
      rw [video_print_loop_at] at h
      split at h
      next h13 => rw [if_pos h13, h]
      next h13 =>
        rw [if_neg h13]
        split at h
        next h0 => rw [if_pos h0, h]
        next h0 =>
          rw [if_neg h0]
          exact ih h

/-- So the call has one result, whatever the fuel. -/
theorem video_print_hexa_unique {fuel fuel' : Nat}
    (h : video_print_hexa L hexa_digits fuel c = some d)
    (h' : video_print_hexa L hexa_digits fuel' c = some e) : e = d := by
  obtain ⟨x, hx, rfl⟩ := Option.map_eq_some_iff.1 h
  obtain ⟨y, hy, rfl⟩ := Option.map_eq_some_iff.1 h'
  have h1 := video_print_loop_at_mono fuel' hx
  have h2 := video_print_loop_at_mono fuel hy
  rw [Nat.add_comm, h1] at h2
  cases h2
  rfl

-- ================================================================= the call

/-- The screen with the digits on it. -/
def hexaScreen (c : Cpu) (sl p : Nat) : Cell :=
  if sl / 2 ≤ p ∧ p < sl / 2 + 16 then
    inked (hexaChar (c.reg .rdi) (p - sl / 2))
  else cellAt c.mem p

/-- The text the call goes on with: from the last digit as an address, with
the registers saved on the stack. -/
def hexaTail (c : Cpu) : List (BitVec 8) :=
  lowText c.pushaq.mem ((c.reg .rdi).toNat % 16)

def HexaNewline (c : Cpu) : Prop :=
  LowNewline c.pushaq.mem ((c.reg .rdi).toNat % 16)

instance (c : Cpu) : Decidable (HexaNewline c) :=
  inferInstanceAs (Decidable (LowNewline _ _))

/-- Everything typed after the screen with the digits. -/
def hexaTyped (c : Cpu) : List Cell := inked 0#8 :: (hexaTail c).map inked

/-- The digits on the screen, by `hexaScreen`. -/
theorem hexaScreen_eq (hroom : sl + 32 ≤ 0xFA0) (c : Cpu) {p : Nat}
    (hp : p < 2000) :
    (coded.typed (screenOf sl c.mem) ((hexaText (c.reg .rdi)).map inked)).cell
      p = hexaScreen c sl p := by
  have hlen : ((hexaText (c.reg .rdi)).map inked).length = 16 := by
    rw [List.length_map, hexaText_length]
  have hnext : (screenOf sl c.mem).next = sl / 2 := rfl
  rw [coded.typed_cell_room _ _ (by rw [hlen, coded_size, hnext]; omega)
    (by rw [coded_size]; exact hp)]
  unfold hexaScreen
  by_cases hq : sl / 2 ≤ p ∧ p < sl / 2 + 16
  · rw [if_pos hq, dif_pos (by rw [hlen, hnext]; omega)]
    simp only [hexaText, hnext, List.get_eq_getElem, List.getElem_map,
      List.getElem_range]
  · rw [if_neg hq, dif_neg (by rw [hlen, hnext]; omega)]
    rfl

/-- The loop of digits starts where `video_print` starts. -/
def hexa_start (L : Layout) (c : Cpu) : Cpu :=
  (((c.pushaq.set .rbx 0xB8000#64).reads L.start_location 2).setLow16 .rbx
    (((c.pushaq.set .rbx 0xB8000#64).low16 .rbx)
      + c.pushaq.mem.read16 L.start_location)).set .rcx 0x10#64

theorem hexa_start_hexed (hs : StackOk c)
    (hsl : (c.mem.read16 L.start_location).toNat = sl) (heven : sl % 2 = 0)
    (hle : sl ≤ 0xFA0) :
    Hexed c.pushaq.mem (screenOf sl c.mem) (c.reg .rdi) c.pushaq 0
      (hexa_start L c) := by
  have hshows := Shows.print_start (L := L) hs hsl heven hle
  have hreg : ∀ r, r ≠ .rcx → (hexa_start L c).reg r
      = (print_start L c).reg r := by
    intro r hr
    unfold hexa_start print_start
    rw [Cpu.set_reg_of_ne hr, Cpu.set_reg_of_ne hr]
  have hkeep : ∀ r, r ≠ .rcx → r ≠ .rbx →
      (hexa_start L c).reg r = c.pushaq.reg r := by
    intro r hcx hbx
    unfold hexa_start
    rw [Cpu.set_reg_of_ne hcx, Cpu.setLow16_reg, if_neg hbx, Cpu.reads_reg,
      Cpu.set_reg_of_ne hbx]
  constructor
  · refine ⟨hshows.screen, hshows.next, ?_⟩
    rw [hreg .rbx (by decide)]
    exact hshows.rbx
  · rw [hkeep .rdi (by decide) (by decide), Cpu.pushaq_reg c (by decide),
      Nat.mul_zero, BitVec.shiftLeft_zero]
  · unfold hexa_start
    rw [Cpu.set_reg_self]
    rfl
  · exact hkeep .rsp (by decide) (by decide)
  · exact fun h => absurd h (Nat.lt_irrefl 0)

/-- The registers the scroll block and the first NUL leave. -/
theorem scroll_hexa_reg (e : Cpu) :
    (cont_printing (scroll_hexa e)).reg .rsi = e.reg .rsi
      ∧ (cont_printing (scroll_hexa e)).reg .rsp = e.reg .rsp
      ∧ (cont_printing (scroll_hexa e)).reg .rcx = e.reg .rcx + 2#64 := by
  have hkeep : ∀ r, r ≠ .rax → r ≠ .rbx → r ≠ .rdx → r ≠ .r8 →
      (scroll e).reg r = e.reg r := fun r h1 h2 h3 h4 => scroll_reg h1 h2 h3 h4
  have hcont : ∀ d : Cpu, (cont_printing d).reg .rsi = d.reg .rsi
      ∧ (cont_printing d).reg .rsp = d.reg .rsp
      ∧ (cont_printing d).reg .rcx = d.reg .rcx + 1#64 + 1#64 :=
    fun _ => ⟨rfl, rfl, rfl⟩
  obtain ⟨h1, h2, h3⟩ := hcont (scroll e)
  rw [scroll_hexa_eq, h1, h2, h3,
    hkeep .rsi (by decide) (by decide) (by decide) (by decide),
    hkeep .rsp (by decide) (by decide) (by decide) (by decide),
    hkeep .rcx (by decide) (by decide) (by decide) (by decide),
    BitVec.add_assoc]
  exact ⟨rfl, rfl, rfl⟩

/-- The byte that ends the tail: of low memory, or the NUL the text itself
has left at the start of the screen. -/
theorem tail_end {w : Nat → Cell} {a : Nat} (ha : a < 16)
    {text : List (BitVec 8)} (htext : text = lowText m₀ a)
    (h : Shows m₀ (coded.typed ⟨w, 2000⟩ (inked 0#8 :: text.map inked)) true
      d) : d.mem (BitVec.ofNat 64 (a + text.length))
        = if LowNewline m₀ a then 13#8 else 0#8 := by
  obtain ⟨hlen, -, -, hend⟩ := textFrom_spec m₀ (0xB8000 - a) a
  have hlow : textFrom m₀ (0xB8000 - a) a = text := htext.symm
  rw [hlow] at hlen hend
  have hnl : LowNewline m₀ a ↔ a + text.length < 0xB8000
      ∧ m₀ (BitVec.ofNat 64 (a + text.length)) = 13#8 := by
    rw [htext]
    rfl
  rcases Nat.lt_or_ge (a + text.length) 0xB8000 with hlt | hge
  · rw [h.screen.frame _ (Or.inl (by rw [toNat_lit (by omega)]; exact hlt))]
    rcases hend (by omega) with h13 | h0
    · rw [if_pos (hnl.2 ⟨hlt, h13⟩), h13]
    · refine h0.trans (if_neg fun h => ?_).symm
      have h13 := (hnl.1 h).2
      rw [h0] at h13
      cases h13
  · -- all of low memory: the screen has rolled into the text
    have haddr : a + text.length = 0xB8000 + 2 * 0 := by omega
    rw [if_neg (fun h => by have := (hnl.1 h).1; omega), haddr]
    have hcell := h.screen.cells 0 (by omega)
    obtain ⟨hlo, hhi⟩ := coded.rolls_bounds
      ((⟨w, 2000⟩ : Terminal.Screen Cell).next + (text.length + 1))
    rw [coded_size, coded_cols] at hlo hhi
    have hlist : (inked 0#8 :: text.map inked).length = text.length + 1 := by
      rw [List.length_cons, List.length_map]
    rw [coded.typed_cell _ (Nat.le_refl 2000) _ (by rw [coded_size]; omega),
      hlist, coded_cols] at hcell
    generalize coded.rolls _ = r at hlo hhi hcell
    have hnext : (⟨w, 2000⟩ : Terminal.Screen Cell).next = 2000 := rfl
    rw [hnext] at hlo hhi
    rw [coded.tape_line (Nat.le_refl 2000) (by rw [coded_size]; omega)
      (by rw [coded_size, coded_cols]; omega)
      (by rw [hlist, hnext]; omega)] at hcell
    exact (Prod.mk.inj hcell).1

/-- The whole call: it returns, with the registers back, the cursor stored
and the tape on the screen. -/
theorem hexa_call (hs : StackOk c)
    (hsl : (c.mem.read16 L.start_location).toNat = sl) (heven : sl % 2 = 0)
    (hroom : sl + 32 ≤ 0xFA0) (ht : HexaTable hexa_digits c.mem) :
    ∃ fuel g m, video_print_hexa L hexa_digits fuel c = some g
      ∧ Screenful c.pushaq.mem
        (coded.typed ⟨hexaScreen c sl, 2000⟩ (hexaTyped c)).cell true m
      ∧ g.mem = m.write16 L.start_location (storedCursor sl
        ((hexaTail c).length + 1) (decide (HexaNewline c)))
      ∧ g.reg = c.reg := by
  have hs' := hs
  obtain ⟨hlo, hhi⟩ := hs'
  have htable : HexaTable hexa_digits c.pushaq.mem := by
    have hlower := ht.lower
    have hupper := ht.upper
    unfold imageEnd at hupper
    obtain ⟨-, -, hpush, -⟩ := Cpu.pushaq_spec (c := c) (by omega)
    refine ⟨hlower, ht.upper, fun k hk => ?_⟩
    rw [hpush _ (Or.inr (by rw [toNat_add_lit (by omega)]; omega))]
    exact ht.digit k hk
  have hdig := hexa_loop_spec htable (by
    show sl / 2 + 16 ≤ 2000
    omega) 15 rfl (hexa_start_hexed hs hsl heven (by omega))
  obtain ⟨e, he⟩ : ∃ e, hexa_loop hexa_digits (15 + 1) (hexa_start L c) = e :=
    ⟨_, rfl⟩
  rw [he] at hdig
  -- the sixteen digits
  have hscreen : Screenful c.pushaq.mem (hexaScreen c sl) false e.mem := by
    have h := hdig.shows.screen
    rw [List.take_of_length_le (Nat.le_of_eq (hexaText_length _))] at h
    exact ⟨fun p hp => (h.cells p hp).trans (hexaScreen_eq hroom c hp),
      h.margin, h.frame⟩
  -- the scroll block
  obtain ⟨hsi, hsp, hcx⟩ := scroll_hexa_reg e
  have hroll : Shows c.pushaq.mem
      (coded.type ⟨hexaScreen c sl, 2000⟩ (inked 0#8)) true
      (cont_printing (scroll_hexa e)) := by
    rw [scroll_hexa_eq]
    exact Shows.scroll_printing hscreen _
  obtain ⟨u, hu⟩ : ∃ u, cont_printing (scroll_hexa e) = u := ⟨_, rfl⟩
  rw [hu] at hsi hsp hcx hroll
  have husi : u.reg .rsi = BitVec.ofNat 64 ((c.reg .rdi).toNat % 16) := by
    rw [hsi, hdig.rsi (by omega), Nat.sub_self, Nat.pow_zero, Nat.div_one]
  -- the tail
  obtain ⟨hlen, hplain, hget, -⟩ := textFrom_spec c.pushaq.mem
    (0xB8000 - (c.reg .rdi).toNat % 16) ((c.reg .rdi).toNat % 16)
  have htail := hroll.print_text (hexaTail c)
  obtain ⟨hzsp, hzsi, hzcx⟩ := print_text_reg (hexaTail c) u
  have hloop := video_print_loop_at_text (L := L) 1 (hexaTail c) hroll hplain
    husi (by
      have hle : (hexaTail c).length
        ≤ 0xB8000 - (c.reg .rdi).toNat % 16 := hlen
      omega) hget
  obtain ⟨z, hz⟩ : ∃ z, print_text (hexaTail c) u = z := ⟨_, rfl⟩
  rw [hz] at htail hzsp hzsi hzcx hloop
  rw [Bool.true_or] at htail
  have hend := tail_end (Nat.mod_lt _ (by omega)) rfl htail
  rw [BitVec.ofNat_add, ← husi] at hend
  have hterm : z.mem (z.reg .rsi)
      = if decide (HexaNewline c) then 13#8 else 0#8 := by
    rw [hzsi]
    refine hend.trans ?_
    by_cases hnl : HexaNewline c
    · rw [decide_eq_true hnl, if_pos rfl]
      exact if_pos hnl
    · rw [decide_eq_false hnl, if_neg Bool.false_ne_true]
      exact if_neg hnl
  rw [video_print_loop_at_end 0 hterm] at hloop
  -- the cursor and the registers
  have hzsl : (z.mem.read16 L.start_location).toNat = sl := by
    rw [htail.screen.cursor hs, hsl]
  have hecx : e.reg .rcx = 0#64 := BitVec.eq_of_toNat_eq hdig.rcx
  have hzcx' : z.reg .rcx
      = BitVec.ofNat 64 (2 * ((hexaTail c).length + 1)) := by
    rw [hzcx, hcx, hecx, Nat.mul_succ, Nat.add_comm, BitVec.ofNat_add]
    rfl
  obtain ⟨hmem, hrsp⟩ := terminator_mem (L := L) rfl hzsl (by omega) hzcx'
  obtain ⟨hgmem, hgreg⟩ := finish_print hs htail.screen hmem
    (hrsp.trans (hzsp.trans (hsp.trans hdig.rsp)))
  refine ⟨1 + (hexaTail c).length, _, z.mem, ?_, htail.screen, hgmem, hgreg⟩
  show (video_print_loop_at L _ (cont_printing (scroll_hexa (hexa_loop
    hexa_digits 0x10 (hexa_start L c))))).map Cpu.popaq = _
  rw [he, hu, hloop]
  rfl

-- ============================================================= the result

/-- The call returns with every register back, the digits in sixteen cells
from `sl`, the cursor after them, and the rest of video memory as it
was. -/
def HexaExact (L : Layout) (hexa_digits : BitVec 64) (c : Cpu) (sl : Nat) :
    Prop :=
  ∃ fuel d, video_print_hexa L hexa_digits fuel c = some d
    ∧ d.reg = c.reg
    ∧ TextAt d.mem sl (hexaText (c.reg .rdi))
    ∧ (d.mem.read16 L.start_location).toNat = sl + 0x20
    ∧ ∀ b : BitVec 64, 0xA0000 ≤ b.toNat → b.toNat < 0xC0000 →
      b.toNat < 0xB8000 + sl ∨ 0xB8000 + sl + 32 ≤ b.toNat →
      d.mem b = c.mem b

/-- The rolls of the call: one for the NUL and one more for every 80
characters of the tail. -/
def hexaRolls (c : Cpu) : Nat := (hexaTail c).length / 80 + 1

/-- The tape that begins with the digits' screen repeats itself at the
distance it is rolled by, the line past the screen is blank already, and
the cursor comes out where sixteen cells would put it. -/
structure Echoes (c : Cpu) (sl : Nat) : Prop where
  screen : ∀ p < 2000, coded.tape ⟨hexaScreen c sl, 2000⟩ (hexaTyped c)
    (p + 80 * hexaRolls c) = hexaScreen c sl p
  margin : ∀ b : BitVec 64, 0xB8FA0 ≤ b.toNat → b.toNat < 0xB9040 →
    c.mem b = blankByte b
  cursor : if HexaNewline c then sl % 160 = 128
    else (2 * ((hexaTail c).length + 1)) % 65536 = 32

theorem hexaTyped_rolls (c : Cpu) :
    coded.rolls (2000 + (hexaTyped c).length) = hexaRolls c := by
  have hlen : (hexaTyped c).length = (hexaTail c).length + 1 := by
    unfold hexaTyped
    rw [List.length_cons, List.length_map]
  unfold hexaRolls
  rw [coded.rolls_eq_iff, coded_size, coded_cols, hlen]
  omega

/-- The stored cursor is the right one under the third condition. -/
theorem hexa_cursor_iff (hroom : sl + 32 ≤ 0xFA0) (n : Nat)
    (newline : Prop) [Decidable newline] :
    (storedCursor sl n (decide newline)).toNat = sl + 0x20
      ↔ if newline then sl % 160 = 128 else (2 * n) % 65536 = 32 := by
  unfold storedCursor
  rw [BitVec.toNat_ofNat]
  by_cases hnl : newline
  · rw [decide_eq_true hnl, if_pos rfl, if_pos hnl]
    omega
  · rw [decide_eq_false hnl, if_neg Bool.false_ne_true, if_neg hnl]
    omega

/-- What the screen has to be. -/
theorem exact_cells_iff (hroom : sl + 32 ≤ 0xFA0) (heven : sl % 2 = 0)
    (c : Cpu) (m : Mem) :
    (∀ p < 2000, cellAt m p = hexaScreen c sl p)
      ↔ TextAt m sl (hexaText (c.reg .rdi))
        ∧ ∀ b : BitVec 64, 0xB8000 ≤ b.toNat → b.toNat < 0xB8FA0 →
          b.toNat < 0xB8000 + sl ∨ 0xB8000 + sl + 32 ≤ b.toNat →
          m b = c.mem b := by
  have hdigit : ∀ (j : Nat) (h : j < (hexaText (c.reg .rdi)).length),
      hexaScreen c sl (sl / 2 + j)
        = inked (hexaText (c.reg .rdi))[j] := by
    intro j h
    have hj := h
    rw [hexaText_length] at hj
    unfold hexaScreen
    rw [if_pos (by omega), Nat.add_sub_cancel_left]
    simp only [hexaText, List.getElem_map, List.getElem_range]
  have hother : ∀ p, p < sl / 2 ∨ sl / 2 + 16 ≤ p →
      hexaScreen c sl p = cellAt c.mem p := fun p hp =>
    if_neg (by omega)
  constructor
  · intro h
    refine ⟨?_, ?_⟩
    · intro j hj
      have hlen := hj
      rw [hexaText_length] at hlen
      rw [h _ (by omega), hdigit j hj]
    · intro b hlo hhi hb
      refine eq_of_cellAt (p := (b.toNat - 0xB8000) / 2) (by omega) ?_
        (by omega) (by omega)
      rw [h _ (by omega), hother _ (by omega)]
  · rintro ⟨htext, hrest⟩ p hp
    by_cases hin : sl / 2 ≤ p ∧ p < sl / 2 + 16
    · obtain ⟨j, rfl⟩ : ∃ j, p = sl / 2 + j := ⟨p - sl / 2, by omega⟩
      have hj : j < (hexaText (c.reg .rdi)).length := by
        rw [hexaText_length]
        omega
      rw [htext j hj, hdigit j hj]
    · rw [hother p (by omega)]
      exact cellAt_congr (by omega) fun b hlo hhi =>
        hrest b (by omega) (by omega) (by omega)

/-- The digits and nothing else, exactly when the tape echoes. -/
theorem hexa_exact_iff (L : Layout) (hexa_digits : BitVec 64) (c : Cpu)
    (sl : Nat) (hs : StackOk c)
    (hsl : (c.mem.read16 L.start_location).toNat = sl) (heven : sl % 2 = 0)
    (hroom : sl + 32 ≤ 0xFA0) (ht : HexaTable hexa_digits c.mem) :
    HexaExact L hexa_digits c sl ↔ Echoes c sl := by
  have hs' := hs
  obtain ⟨hlo, hhi⟩ := hs'
  have hin := L.start_location_in
  unfold imageEnd at hin
  obtain ⟨fuel, g, m, hcall, hscreen, hmem, hreg⟩ :=
    hexa_call (L := L) hs hsl heven hroom ht
  obtain ⟨-, -, hpush, -⟩ := Cpu.pushaq_spec (c := c) (by omega)
  -- what the call leaves, in terms of the tape
  have hcells : ∀ p < 2000, cellAt g.mem p
      = coded.tape ⟨hexaScreen c sl, 2000⟩ (hexaTyped c)
        (p + 80 * hexaRolls c) := by
    intro p hp
    rw [hmem, cursor_cells (by omega), hscreen.cells p hp, ← hexaTyped_rolls]
    exact coded.typed_cell _ (Nat.le_refl 2000) _ hp
  have hout : ∀ b : BitVec 64, 0xA0000 ≤ b.toNat → g.mem b = m b := by
    intro b hb
    rw [hmem]
    exact Mem.write_apply_of_out (n := 2) _ _ (by omega) (Or.inr (by omega))
  have hmargin : ∀ b : BitVec 64, 0xB8FA0 ≤ b.toNat → b.toNat < 0xB9040 →
      g.mem b = blankByte b := fun b h1 h2 =>
    (hout b (by omega)).trans (hscreen.margin b h1 h2)
  have hframe : ∀ b : BitVec 64, 0xA0000 ≤ b.toNat →
      b.toNat < 0xB8000 ∨ 0xB9040 ≤ b.toNat → g.mem b = c.mem b :=
    fun b h1 h2 => (hout b h1).trans ((hscreen.frame b h2).trans
      (hpush b (Or.inr (by omega))))
  have hcursor : g.mem.read16 L.start_location = storedCursor sl
      ((hexaTail c).length + 1) (decide (HexaNewline c)) := by
    rw [hmem]
    exact @Mem.read_write_self m L.start_location 2 _ (by omega)
  constructor
  · rintro ⟨fuel', d, hcall', -, htext, hcur, hrest⟩
    have hd := video_print_hexa_unique hcall hcall'
    subst hd
    refine ⟨?_, ?_, ?_⟩
    · intro p hp
      rw [← hcells p hp]
      exact (exact_cells_iff hroom heven c d.mem).2 ⟨htext, fun b h1 h2 h3 =>
        hrest b (by omega) (by omega) h3⟩ p hp
    · intro b h1 h2
      rw [← hrest b (by omega) (by omega) (by omega)]
      exact hmargin b h1 h2
    · rw [hcursor, hexa_cursor_iff hroom] at hcur
      exact hcur
  · intro he
    obtain ⟨htext, hrest⟩ := (exact_cells_iff hroom heven c g.mem).1
      fun p hp => (hcells p hp).trans (he.screen p hp)
    refine ⟨fuel, g, hcall, hreg, htext, ?_, ?_⟩
    · rw [hcursor, hexa_cursor_iff hroom]
      exact he.cursor
    · intro b h1 h2 h3
      by_cases hbuf : 0xB8000 ≤ b.toNat ∧ b.toNat < 0xB8FA0
      · exact hrest b hbuf.1 hbuf.2 h3
      by_cases hline : 0xB8FA0 ≤ b.toNat ∧ b.toNat < 0xB9040
      · rw [hmargin b hline.1 hline.2, he.margin b hline.1 hline.2]
      · exact hframe b h1 (by omega)

-- ============================================================== instances

/-- A text that is there is read. -/
theorem textFrom_eq (text : List (BitVec 8)) : ∀ {n a : Nat},
    text.length < n → (∀ ch ∈ text, ch ≠ 13#8 ∧ ch ≠ 0#8) →
    (∀ (j : Nat) (h : j < text.length),
      m (BitVec.ofNat 64 (a + j)) = text[j]) →
    (m (BitVec.ofNat 64 (a + text.length)) = 13#8
      ∨ m (BitVec.ofNat 64 (a + text.length)) = 0#8) →
    textFrom m n a = text := by
  induction text with
  | nil =>
      intro n a hn _ _ hend
      obtain ⟨n, rfl⟩ : ∃ k, n = k + 1 := ⟨n - 1, by
        rw [List.length_nil] at hn
        omega⟩
      rw [textFrom]
      exact if_pos hend
  | cons ch text ih =>
      intro n a hn hplain hget hend
      rw [List.length_cons] at hn hend
      obtain ⟨n, rfl⟩ : ∃ k, n = k + 1 := ⟨n - 1, by omega⟩
      have hfirst := hget 0 (by rw [List.length_cons]; omega)
      rw [Nat.add_zero, List.getElem_cons_zero] at hfirst
      obtain ⟨h13, h0⟩ := hplain ch List.mem_cons_self
      have hrest : textFrom m n (a + 1) = text := by
        refine ih (by omega)
          (fun ch' h' => hplain ch' (List.mem_cons_of_mem _ h')) ?_ ?_
        · intro j hj
          have hnext := hget (j + 1) (by rw [List.length_cons]; omega)
          rw [List.getElem_cons_succ, ← Nat.add_assoc,
            Nat.add_right_comm] at hnext
          exact hnext
        · rw [← Nat.add_assoc, Nat.add_right_comm] at hend
          exact hend
      rw [textFrom, hfirst, hrest]
      exact if_neg (not_or.2 ⟨h13, h0⟩)

/-- The table at 0x11300, with `f` elsewhere. -/
def withTable (f : Mem) : Mem := fun b =>
  if 0x11300 ≤ b.toNat ∧ b.toNat < 0x11310 then
    hexaChars.getD (b.toNat - 0x11300) 0#8
  else f b

theorem withTable_hexa (f : Mem) : HexaTable 0x11300#64 (withTable f) := by
  refine ⟨by decide, by decide, fun k hk => ?_⟩
  have haddr : (0x11300#64 + BitVec.ofNat 64 k).toNat = 0x11300 + k :=
    toNat_add_lit (by rw [toNat_lit (by omega)]; omega)
  unfold withTable
  rw [haddr, if_pos (by omega), Nat.add_sub_cancel_left]

theorem withTable_out {f : Mem} {b : BitVec 64}
    (h : b.toNat < 0x11300 ∨ 0x11310 ≤ b.toNat) : withTable f b = f b :=
  if_neg (by omega)

/-- Registers of a caller of `video_print_hexa` with RDI zero. -/
def hexaRegs (r : Reg) : BitVec 64 := if r = .rsp then 0xB000#64 else 0#64

/-- A machine with cleared memory but for the table. -/
def clearHexa : Cpu := ⟨hexaRegs, withTable fun _ => 0#8, []⟩

theorem hexa_stackOk {f : Mem} {log : List Access} :
    StackOk ⟨hexaRegs, f, log⟩ := by
  show 0x5100 ≤ (0xB000#64).toNat ∧ (0xB000#64).toNat ≤ 0x10000
  decide

/-- Low memory as the call sees it. -/
theorem hexa_low {f : Mem} {b : BitVec 64} (hb : b.toNat < 0x5000) :
    (Cpu.pushaq ⟨hexaRegs, f, []⟩).mem b = f b := by
  obtain ⟨-, -, hmem, -⟩ := Cpu.pushaq_spec (c := ⟨hexaRegs, f, []⟩)
    (by show 120 ≤ (0xB000#64).toNat; decide)
  refine hmem b (Or.inl ?_)
  show b.toNat < (0xB000#64).toNat - 120
  exact Nat.lt_of_lt_of_le hb (by decide)

/-- Address by address: 79 zeros and a newline from address 0 on, the same
line 25 times on the screen, and the cursor sixteen cells before the end of
the first. -/
def echoByte (b : Nat) : BitVec 8 :=
  if b < 79 then 0x30#8
  else if b = 79 then 13#8
  else if b = 0x11272 then 0x80#8
  else if b < 0xB8000 then 0#8
  else if 0xB8FA0 ≤ b then if b % 2 = 0 then 0x20#8 else 0#8
  else if b % 2 = 1 then 0x1F#8
  else if b % 160 = 0xB8000 % 160 then 0#8 else 0x30#8

def echoMem : Mem := withTable fun b => echoByte b.toNat

/-- A machine that echoes zeros. -/
def echoHexa : Cpu := ⟨hexaRegs, echoMem, []⟩

/-- Every line of that screen. -/
def echoCell (p : Nat) : Cell :=
  if p % 80 = 0 then inked 0#8 else inked 0x30#8

theorem echo_cellAt {p : Nat} (hp : p < 2000) :
    cellAt echoHexa.mem p = echoCell p := by
  have h1 := toNat_lit (n := 0xB8000 + 2 * p) (by omega)
  have h2 := toNat_lit (n := 0xB8000 + 2 * p + 1) (by omega)
  have hchar : echoMem (BitVec.ofNat 64 (0xB8000 + 2 * p))
      = if p % 80 = 0 then 0#8 else 0x30#8 := by
    refine (withTable_out (Or.inr (by omega))).trans ?_
    rw [h1]
    unfold echoByte
    rw [if_neg (by omega), if_neg (by omega), if_neg (by omega),
      if_neg (by omega), if_neg (by omega), if_neg (by omega)]
    by_cases hline : p % 80 = 0
    · rw [if_pos hline, if_pos (by omega)]
    · rw [if_neg hline, if_neg (by omega)]
  have hattr : echoMem (BitVec.ofNat 64 (0xB8000 + 2 * p + 1)) = 0x1F#8 := by
    refine (withTable_out (Or.inr (by omega))).trans ?_
    rw [h2]
    unfold echoByte
    rw [if_neg (by omega), if_neg (by omega), if_neg (by omega),
      if_neg (by omega), if_neg (by omega), if_pos (by omega)]
  have hcell : cellAt echoHexa.mem p
      = (echoMem (BitVec.ofNat 64 (0xB8000 + 2 * p)),
        echoMem (BitVec.ofNat 64 (0xB8000 + 2 * p + 1))) := rfl
  rw [hcell, hchar, hattr]
  unfold echoCell
  split
  · rfl
  · rfl

/-- The digits, which are zeros, change nothing there. -/
theorem echo_screen {p : Nat} (hp : p < 2000) :
    hexaScreen echoHexa 128 p = echoCell p := by
  have hzero : ∀ j, hexaChar (echoHexa.reg .rdi) j = 0x30#8 := by
    intro j
    have hv : (echoHexa.reg .rdi).toNat = 0 := rfl
    unfold hexaChar
    rw [hv, Nat.zero_div]
    rfl
  unfold hexaScreen
  by_cases hin : 128 / 2 ≤ p ∧ p < 128 / 2 + 16
  · rw [if_pos hin, hzero]
    exact (if_neg (by omega)).symm
  · rw [if_neg hin, echo_cellAt hp]

/-- The bytes of low memory as the call reads them. -/
theorem echo_low {n : Nat} (hn : n ≤ 79) :
    echoHexa.pushaq.mem (BitVec.ofNat 64 (0 + n))
      = if n < 79 then 0x30#8 else 13#8 := by
  have haddr := toNat_lit (n := 0 + n) (by omega)
  have hmem : echoHexa.pushaq.mem (BitVec.ofNat 64 (0 + n))
      = echoMem (BitVec.ofNat 64 (0 + n)) := hexa_low (by omega)
  rw [hmem]
  refine (withTable_out (Or.inl (by omega))).trans ?_
  rw [haddr, Nat.zero_add]
  unfold echoByte
  by_cases hlt : n < 79
  · rw [if_pos hlt, if_pos hlt]
  · obtain rfl : n = 79 := by omega
    rfl

theorem echo_tail : hexaTail echoHexa = List.replicate 79 0x30#8 := by
  refine textFrom_eq _ ?_ ?_ ?_ ?_
  · rw [List.length_replicate]
    show 79 < 0xB8000
    omega
  · intro ch hch
    rw [List.eq_of_mem_replicate hch]
    decide
  · intro j hj
    rw [List.length_replicate] at hj
    rw [List.getElem_replicate]
    exact (echo_low (by omega)).trans (if_pos hj)
  · rw [List.length_replicate]
    exact Or.inl ((echo_low (Nat.le_refl _)).trans (if_neg (by omega)))

theorem echo_newline : HexaNewline echoHexa := by
  have hlow : lowText echoHexa.pushaq.mem
      ((echoHexa.reg .rdi).toNat % 16) = List.replicate 79 0x30#8 := echo_tail
  unfold HexaNewline LowNewline
  rw [hlow, List.length_replicate]
  refine ⟨?_, (echo_low (Nat.le_refl _)).trans (if_neg (by omega))⟩
  show 0 + 79 < 0xB8000
  omega

/-- The tape of that machine: the same line over and over. -/
theorem echo_tape {p : Nat} (hp : p < 2000) :
    coded.tape ⟨hexaScreen echoHexa 128, 2000⟩ (hexaTyped echoHexa)
      (p + 80 * hexaRolls echoHexa) = echoCell p := by
  have hrolls : hexaRolls echoHexa = 1 := by
    unfold hexaRolls
    rw [echo_tail, List.length_replicate]
  have hlen : (hexaTyped echoHexa).length = 80 := by
    unfold hexaTyped
    rw [echo_tail, List.length_cons, List.length_map, List.length_replicate]
  have hline : echoCell (p + 80) = echoCell p := by
    unfold echoCell
    rw [Nat.add_mod_right]
  rw [hrolls, Nat.mul_one, ← hline]
  unfold Terminal.Format.tape
  rcases Nat.lt_or_ge (p + 80) 2000 with hlt | hge
  · rw [if_pos hlt]
    exact echo_screen hlt
  · have hnext : (⟨hexaScreen echoHexa 128, 2000⟩ :
        Terminal.Screen Cell).next = 2000 := rfl
    rw [hnext, if_neg (by omega), List.getElem?_eq_getElem (by omega)]
    show coded.kept (p + 80) _ = _
    unfold Terminal.Format.kept echoCell
    rw [coded_size, coded_cols]
    by_cases hstart : (p + 80) % 80 = 0
    · rw [if_pos ⟨hge, by omega⟩, if_pos hstart]
      rfl
    · rw [if_neg (by omega), if_neg hstart]
      obtain ⟨j, hj⟩ : ∃ j, p + 80 - 2000 = j + 1 :=
        ⟨p + 80 - 2000 - 1, by omega⟩
      simp only [hexaTyped, echo_tail, hj, List.getElem_cons_succ,
        List.getElem_map, List.getElem_replicate]

theorem echo_margin {b : BitVec 64} (hlo : 0xB8FA0 ≤ b.toNat)
    (hhi : b.toNat < 0xB9040) : echoMem b = blankByte b := by
  refine (withTable_out (Or.inr (by omega))).trans ?_
  unfold echoByte
  rw [if_neg (by omega), if_neg (by omega), if_neg (by omega),
    if_neg (by omega), if_pos hlo]
  rfl

/-- The instance of the machine that echoes. -/
theorem hexa_exact_iff_sample :
    HexaExact assembledLayout 0x11300#64 echoHexa 128 := by
  refine (hexa_exact_iff assembledLayout 0x11300#64 echoHexa 128
    hexa_stackOk ?_ rfl (by omega) (withTable_hexa _)).2 ?_
  · show (echoMem.read16 0x11272#64).toNat = 128
    decide +kernel
  · refine ⟨fun p hp => ?_, fun b hlo hhi => echo_margin hlo hhi, ?_⟩
    · rw [echo_tape hp, echo_screen hp]
    · rw [if_pos echo_newline]

/-- Zeros printed from a cleared machine: the cursor moves on by the NUL
alone. -/
theorem hexa_not_exact : ¬ ∀ (L : Layout) (hexa_digits : BitVec 64) (c : Cpu)
    (sl : Nat), StackOk c →
    (c.mem.read16 L.start_location).toNat = sl → sl % 2 = 0 →
    sl + 32 ≤ 0xFA0 → HexaTable hexa_digits c.mem →
    HexaExact L hexa_digits c sl := by
  intro h
  have hs : StackOk clearHexa := hexa_stackOk
  have hsl : (clearHexa.mem.read16 assembledLayout.start_location).toNat
      = 0 := by
    have hzero := @Mem.read_eq_zero clearHexa.mem
      assembledLayout.start_location 2 fun k hk => by
        have haddr : (assembledLayout.start_location
            + BitVec.ofNat 64 k).toNat = 0x11272 + k :=
          toNat_add_lit (x := 0x11272#64) (by rw [toNat_lit (by omega)]; omega)
        exact if_neg (by omega)
    exact congrArg BitVec.toNat hzero
  have ht : HexaTable 0x11300#64 clearHexa.mem := withTable_hexa _
  obtain ⟨fuel', d, hcall', -, -, hcur, -⟩ := h assembledLayout 0x11300#64
    clearHexa 0 hs hsl rfl (by omega) ht
  obtain ⟨fuel, g, m, hcall, -, hmem, -⟩ :=
    hexa_call (L := assembledLayout) hs hsl rfl (by omega) ht
  have hd := video_print_hexa_unique hcall hcall'
  rw [hd, hmem] at hcur
  have hread := @Mem.read_write_self m assembledLayout.start_location 2
    (storedCursor 0 ((hexaTail clearHexa).length + 1)
      (decide (HexaNewline clearHexa))) (by omega)
  rw [show (m.write16 assembledLayout.start_location _).read16
    assembledLayout.start_location = _ from hread,
    hexa_cursor_iff (by omega)] at hcur
  -- the first byte of memory is the terminator
  have hfirst : clearHexa.pushaq.mem (BitVec.ofNat 64 0) = 0#8 :=
    hexa_low (by decide)
  have htail : hexaTail clearHexa = [] :=
    textFrom_eq [] (by show 0 < 0xB8000; omega) (fun _ h => by simp at h)
      (fun _ h => by simp at h) (Or.inr hfirst)
  have hnl : ¬ HexaNewline clearHexa := by
    rintro ⟨-, h13⟩
    have hlow : lowText clearHexa.pushaq.mem
        ((clearHexa.reg .rdi).toNat % 16) = [] := htail
    rw [hlow] at h13
    exact absurd (hfirst.symm.trans h13) (by decide)
  rw [if_neg hnl, htail] at hcur
  cases hcur

end BootLoader.ThirdStage
