/-
What `ata_identify_disk` does with a drive that has answered, and so what a
whole call does.

The 512 bytes go to the buffer's start plus the offset of the channel in
the port tables (`Taken`): the index is loaded into SI, where `rep insw`
does not look for it. `ata_print_info` then cuts two texts off by a zero
in the buffer, at bytes it counts from the buffer's start, and prints from
there whoever's data this is. Every call whose drive answers returns, with
the registers back and one line in the history (`ata_identify_disk_spec`,
`ata_identify_disk_inv`).
-/
import BootLoader.ThirdStage.Proofs.AtaPolling

namespace BootLoader.ThirdStage

open FlatMemory Words

variable {L : Layout} {l : AtaLabels L} {bus : AtaBus} {c d : Cpu}
  {s s' s₀ : Ata} {k n : Nat} {ready : Bool}

-- ============================================================== the buffer

/-- The bytes of the buffer and of the index behind it. -/
def BufferByte (l : AtaLabels L) (b : BitVec 64) : Prop :=
  l.ata_identify_buffer.toNat ≤ b.toNat
    ∧ b.toNat < l.ata_identify_buffer.toNat + 2050

/-- The bytes `ata_print_info` cuts its texts off at. -/
def StopByte (l : AtaLabels L) (b : BitVec 64) : Prop :=
  b = l.ata_identify_buffer + 39#64 ∨ b = l.ata_identify_buffer + 50#64

theorem ata_identify_buffer_toNat (l : AtaLabels L) :
    l.ata_identify_buffer.toNat = l.ata_control_ports.toNat + 56 := by
  have hin := l.data_in
  exact toNat_add_lit (by omega)

/-- A byte of the buffer. -/
theorem in_buffer_toNat (l : AtaLabels L) {n : Nat} (hn : n ≤ 2048) :
    (l.ata_identify_buffer + BitVec.ofNat 64 n).toNat
      = l.ata_identify_buffer.toNat + n := by
  have hin := l.data_in
  have hbuf := ata_identify_buffer_toNat l
  exact toNat_add_lit (by omega)

theorem StopByte.inBuffer {b : BitVec 64} (h : StopByte l b) :
    BufferByte l b := by
  unfold BufferByte
  rcases h with rfl | rfl
  · have hat := in_buffer_toNat l (n := 39) (by omega)
    omega
  · have hat := in_buffer_toNat l (n := 50) (by omega)
    omega

/-- The cursor is not in the data. -/
theorem BufferByte.not_cursor {b : BitVec 64} (h : BufferByte l b) :
    ¬ CursorByte L b := by
  have hin := l.data_in
  have hout := l.cursor_apart.1
  have hbuf := ata_identify_buffer_toNat l
  unfold BufferByte at h
  unfold CursorByte
  omega

-- =============================================================== the texts

theorem comma_confined (hs : StackOk c) :
    Confined (CursorByte L) c (print L l.comma comma c) := by
  have hlen : comma.length ≤ 30 := by decide
  have hlabel := l.texts_in.1
  exact (print_confined hs _ _ (by omega) (by omega)).1

theorem newline_confined (hs : StackOk c) :
    Confined (CursorByte L) c (print L l.newline newline c) := by
  have hlen : newline.length ≤ 30 := by decide
  have hlabel := l.texts_in.2
  exact (print_confined hs _ _ (by omega) (by omega)).1

/-- A text of the buffer is printed up to the zero put into it. -/
theorem print_field_returns (hs : StackOk c) {f t : Nat} (hf : f < t)
    (ht : t ≤ 64) {fuel : Nat} (hfuel : 0x1000 ≤ fuel) :
    ∃ d, print_field l (BitVec.ofNat 64 f) (BitVec.ofNat 64 t) fuel c = some d
      ∧ Confined (fun b => CursorByte L b
        ∨ b = l.ata_identify_buffer + BitVec.ofNat 64 t) c d := by
  have hin := l.data_in
  have hbuf := ata_identify_buffer_toNat l
  have hstop := in_buffer_toNat l (n := t) (by omega)
  have hfield := in_buffer_toNat l (n := f) (by omega)
  obtain ⟨u, hu⟩ : ∃ u, (c.store8 (l.ata_identify_buffer + BitVec.ofNat 64 t)
      0x0#8).set .rsi (l.ata_identify_buffer + BitVec.ofNat 64 f) = u :=
    ⟨_, rfl⟩
  have hkeep : Confined (fun b => CursorByte L b
      ∨ b = l.ata_identify_buffer + BitVec.ofNat 64 t) c u := by
    have hput : Confined (fun b => CursorByte L b
        ∨ b = l.ata_identify_buffer + BitVec.ofNat 64 t) c (c.store8
          (l.ata_identify_buffer + BitVec.ofNat 64 t) 0x0#8) := by
      refine Confined.write (n := 1) (Confined.refl c) rfl rfl (by omega)
        fun b hlo hhi => Or.inr ?_
      apply BitVec.eq_of_toNat_eq
      omega
    rw [← hu]
    exact hput.set (by decide) _
  have hzero : u.mem (l.ata_identify_buffer + BitVec.ofNat 64 t) = 0#8 := by
    rw [← hu]
    exact Mem.write8_self _ _ _
  have hsi : (u.reg .rsi).toNat = l.ata_identify_buffer.toNat + f := by
    rw [← hu, Cpu.set_reg_self, hfield]
  have hsu : StackOk u := by
    unfold StackOk
    rw [hkeep.rsp]
    exact hs
  -- the text as it stands there, the zero included
  obtain ⟨str, hstr⟩ : ∃ str, (List.range (t - f + 1)).map (fun i =>
      u.mem (BitVec.ofNat 64 ((u.reg .rsi).toNat + i))) = str := ⟨_, rfl⟩
  have hlen : str.length = t - f + 1 := by
    rw [← hstr, List.length_map, List.length_range]
  have htext : TextIn L u.mem (u.reg .rsi).toNat str := by
    refine ⟨by omega, fun i hi => ?_, fun i hi => ?_⟩
    · simp only [← hstr, List.getElem_map, List.getElem_range]
    · refine BufferByte.not_cursor (l := l) ?_
      unfold BufferByte
      rw [toNat_lit (by omega)]
      omega
  have hmem : 0#8 ∈ str := by
    rw [← hstr]
    refine List.mem_map.2 ⟨t - f, List.mem_range.2 (by omega), ?_⟩
    rw [← hzero]
    congr 1
    apply BitVec.eq_of_toNat_eq
    rw [toNat_lit (by omega), hsi, hstop]
    omega
  have hprint := video_print_at_eq (L := L) hsu fuel htext
    (by have := hsu.2; omega) hmem (by omega) (by omega)
  obtain ⟨hconf, -⟩ := video_print_confined (L := L) hsu str (by omega)
    (by omega)
  have hsp : StackOk (video_print L str u) := by
    unfold StackOk
    rw [hconf.rsp]
    exact hsu
  have hcomma := comma_confined (l := l) hsp
  refine ⟨print L l.comma comma (video_print L str u), ?_, ?_⟩
  · unfold print_field
    dsimp only
    rw [hu, hprint]
    rfl
  · exact hkeep.trans ((hconf.trans hcomma).mono fun b => Or.inl)

theorem StackOk.of_confined {free : BitVec 64 → Prop} (hs : StackOk c)
    (h : Confined free c d) : StackOk d := by
  unfold StackOk
  rw [h.rsp]
  exact hs

/-- What is printed of the drive: it returns, and writes two bytes of the
buffer. -/
theorem ata_print_info_returns (hs : StackOk c) (hin : StackOk c.pushaq)
    {fuel : Nat} (hfuel : 0xB8001 ≤ fuel) :
    ∃ d, ata_print_info l fuel c = some d
      ∧ Confined (fun b => CursorByte L b ∨ StopByte l b) c d
      ∧ d.reg = c.reg := by
  have hcursor : ∀ b : BitVec 64, CursorByte L b →
      CursorByte L b ∨ StopByte l b := fun b => Or.inl
  obtain ⟨c₁, h₁, hk₁⟩ := print_field_returns (l := l) hin (f := 20) (t := 39)
    (by omega) (by omega) (Nat.le_trans (by omega) hfuel)
  have hs₁ := hin.of_confined hk₁
  obtain ⟨c₂, h₂, hk₂⟩ := print_field_returns (l := l) hs₁ (f := 46) (t := 50)
    (by omega) (by omega) (Nat.le_trans (by omega) hfuel)
  have hs₂ := hs₁.of_confined hk₂
  -- the texts, and the number behind them
  have hload : Confined (CursorByte L) c₂ ((c₂.set .rdi 0#64).load64 .rdi
      (l.ata_identify_buffer + ATA_IDENTIFY_DEV_DUMP.lba_48_sectors)) :=
    Confined.set (r := .rdi) (Confined.reads (Confined.set (r := .rdi)
      (Confined.refl c₂) (by decide) _) _ 8) (by decide) _
  obtain ⟨c₃, h₃, hk₃, -⟩ := video_print_hexa_returns (L := L)
    (hs₂.of_confined hload) l.hexa_digits hfuel
  have hs₃ := (hs₂.of_confined hload).of_confined hk₃
  -- the flag, and the end of the line
  obtain ⟨u, hu⟩ : ∃ u, ((c₃.setLow16 .rax 0x400#16).reads
      (l.ata_identify_buffer + ATA_IDENTIFY_DEV_DUMP.command_set5) 2).setLow16
        .rax ((c₃.setLow16 .rax 0x400#16).low16 .rax
          &&& (c₃.setLow16 .rax 0x400#16).mem.read16 (l.ata_identify_buffer
            + ATA_IDENTIFY_DEV_DUMP.command_set5)) = u := ⟨_, rfl⟩
  have hku : Confined (CursorByte L) c₃ u := by
    rw [← hu]
    exact Confined.set (r := .rax) (Confined.reads (Confined.set (r := .rax)
      (Confined.refl c₃) (by decide) _) _ 2) (by decide) _
  have hsu := hs₃.of_confined hku
  have hlba := in_buffer_toNat l (n := 2048) (by omega)
  have hdata := l.data_in
  have hbuf := ata_identify_buffer_toNat l
  have hlabel : l.lba_48_supported.toNat
      = l.ata_control_ports.toNat + 2108 := toNat_add_lit (by omega)
  have hkc := comma_confined (l := l) hsu
  have hlen : lba_48_supported.length = 17 := by decide
  obtain ⟨hkl, -⟩ := print_confined (L := L) (hsu.of_confined hkc)
    l.lba_48_supported lba_48_supported (by omega) (by omega)
  obtain ⟨v, hv⟩ : ∃ v, (if u.low16 .rax = 0x0#16 then u else
      print L l.lba_48_supported lba_48_supported
        (print L l.comma comma u)) = v := ⟨_, rfl⟩
  have hkv : Confined (CursorByte L) u v := by
    rw [← hv]
    split
    · exact Confined.refl u
    · exact hkc.trans hkl
  have hkn := newline_confined (l := l) (hsu.of_confined hkv)
  have hrest := (((hload.trans hk₃).trans hku).trans hkv).trans hkn
  have hall : Confined (fun b => CursorByte L b ∨ StopByte l b) c.pushaq
      (print L l.newline newline v) := by
    refine ((hk₁.mono ?_).trans (hk₂.mono ?_)).trans (hrest.mono hcursor)
    · exact fun b hb => hb.imp_right Or.inl
    · exact fun b hb => hb.imp_right Or.inr
  refine ⟨(print L l.newline newline v).popaq, ?_, hall.saved hs ?_⟩
  · unfold ata_print_info
    dsimp only
    have h₁' : print_field l ATA_IDENTIFY_DEV_DUMP.serial 39#64 fuel c.pushaq
        = some c₁ := h₁
    have h₂' : print_field l ATA_IDENTIFY_DEV_DUMP.fw_version 50#64 fuel c₁
        = some c₂ := h₂
    simp only [h₁', h₂', h₃, hu, hv, Option.bind_eq_bind, Option.bind_some]
    rfl
  · rintro b (hb | hb)
    · exact hb.place
    · have hat := hb.inBuffer.1
      omega

-- ============================================================ the transfer

/-- Byte `i` of the words a drive answers with. -/
def blockByte (words : Nat → BitVec 16) (i : Nat) : BitVec 8 :=
  (words (i / 2)).extractLsb' (8 * (i % 2)) 8

/-- `n` bytes of the words stand at `a`. -/
def BlockAt (words : Nat → BitVec 16) (a : BitVec 64) (n : Nat) (m : Mem) :
    Prop :=
  ∀ i < n, m (a + BitVec.ofNat 64 i) = blockByte words i

/-- `k` words of the selected drive have been taken since `u`. -/
structure Taken (bus : AtaBus) (u : Ata) (k : Nat) (s : Ata) : Prop where
  rdi : s.cpu.reg .rdi = u.cpu.reg .rdi + BitVec.ofNat 64 (2 * k)
  rdx : s.cpu.reg .rdx = u.cpu.reg .rdx
  rsp : s.cpu.reg .rsp = u.cpu.reg .rsp
  port : s.port = u.port
  words : s.words = k
  reports : s.reports = u.reports
  block : BlockAt (u.selected bus (u.cpu.low16 .rdx)).words
    (u.cpu.reg .rdi) (2 * k) s.cpu.mem
  frame : ∀ b : BitVec 64, b.toNat < (u.cpu.reg .rdi).toNat
    ∨ (u.cpu.reg .rdi).toNat + 2 * k ≤ b.toNat → s.cpu.mem b = u.cpu.mem b

theorem Taken.start {u : Ata} (hwords : u.words = 0) : Taken bus u 0 u := by
  refine ⟨?_, rfl, rfl, rfl, hwords, rfl, fun i hi => ?_, fun _ _ => rfl⟩
  · exact (BitVec.add_zero _).symm
  · omega

/-- One word more. -/
theorem Taken.round {u : Ata} (hk : k < 256)
    (hroom : (u.cpu.reg .rdi).toNat + 512 ≤ 2 ^ 64) (h : Taken bus u k s) :
    Taken bus u (k + 1) (Ata.insw bus s) := by
  obtain ⟨a, ha⟩ : ∃ a, u.cpu.reg .rdi = a := ⟨_, rfl⟩
  obtain ⟨d, hd⟩ : ∃ d, u.selected bus (u.cpu.low16 .rdx) = d := ⟨_, rfl⟩
  have hdrive : s.selected bus (s.cpu.low16 .rdx) = d := by
    unfold Ata.selected Cpu.low16 at hd ⊢
    rw [h.port, h.rdx]
    exact hd
  have hmem : (Ata.insw bus s).cpu.mem
      = s.cpu.mem.write (a + BitVec.ofNat 64 (2 * k)) 2 (d.words k) := by
    rw [← ha, ← h.rdi, ← hdrive, ← h.words]
    rfl
  have hat : (a + BitVec.ofNat 64 (2 * k)).toNat = a.toNat + 2 * k := by
    rw [ha] at hroom
    exact toNat_add_lit (by omega)
  have hblock := h.block
  have hframe := h.frame
  rw [hd, ha] at hblock
  rw [ha] at hframe hroom
  refine ⟨?_, h.rdx, h.rsp, h.port, ?_, h.reports, ?_, ?_⟩
  · show s.cpu.reg .rdi + 2#64 = _
    rw [h.rdi, BitVec.add_assoc, Nat.mul_succ, BitVec.ofNat_add]
  · show s.words + 1 = k + 1
    rw [h.words]
  · rw [hd, ha, hmem]
    intro i hi
    rcases Nat.lt_or_ge i (2 * k) with hlt | hge
    · have hto : (a + BitVec.ofNat 64 i).toNat = a.toNat + i :=
        toNat_add_lit (by omega)
      rw [← hblock i hlt]
      exact Mem.write_apply_of_out _ _ (by omega) (Or.inl (by omega))
    · -- a byte of this word
      obtain ⟨j, rfl⟩ : ∃ j, i = 2 * k + j := ⟨i - 2 * k, by omega⟩
      rw [BitVec.ofNat_add, ← BitVec.add_assoc]
      refine (Mem.write_apply_add _ _ _ (by omega) (by omega)).trans ?_
      unfold blockByte
      rw [show (2 * k + j) / 2 = k by omega, show (2 * k + j) % 2 = j by omega]
  · intro b hb
    rw [ha] at hb
    rw [hmem, ← hframe b (by omega)]
    exact Mem.write_apply_of_out _ _ (by omega) (by omega)

/-- The block, by `rep insw`. -/
theorem repInsw_taken (bus : AtaBus) {u : Ata} (hcx : u.cpu.reg .rcx = 256#64)
    (hroom : (u.cpu.reg .rdi).toNat + 512 ≤ 2 ^ 64) (hwords : u.words = 0) :
    Taken bus u 256 (u.repInsw bus) := by
  unfold Ata.repInsw
  rw [hcx]
  exact Loop.times_counted (Taken bus u) (fun k s hk h => h.round hk hroom)
    (Taken.start hwords)

/-- Where a call puts the block of its drive. -/
def blockSlot (l : AtaLabels L) (c : Cpu) : BitVec 64 :=
  c.reg .rdi + l.ata_identify_buffer

theorem blockSlot_toNat (hc : Calls c) :
    (blockSlot l c).toNat = l.ata_identify_buffer.toNat + (c.reg .rdi).toNat := by
  have hin := l.data_in
  have hbuf := ata_identify_buffer_toNat l
  have hdi := hc.channel
  unfold blockSlot
  rw [BitVec.toNat_add, Nat.mod_eq_of_lt (by omega), Nat.add_comm]

/-- The operands: the base port in DX, the slot in RDI. -/
theorem transfer_operands_spec (hc : Calls s₀.cpu) (h : Asked l s₀ k s) :
    Confined (CursorByte L) s₀.cpu.pushaq (transfer_operands l s.cpu)
      ∧ (transfer_operands l s.cpu).reg .rdi = blockSlot l s₀.cpu
      ∧ (transfer_operands l s.cpu).reg .rcx = 256#64
      ∧ (transfer_operands l s.cpu).low16 .rdx = channelBase l s₀.cpu := by
  have hin := l.data_in
  have hout := l.cursor_apart.1
  have hdi := hc.channel
  have hs : StackOk s.cpu := hc.inner.of_confined h.kept
  have hlabel : l.ata_identify_msg.toNat
      = l.ata_control_ports.toNat + 44 := toNat_add_lit (by omega)
  have hlen : ata_identify_msg.length = 12 := by decide
  obtain ⟨hprint, hreg⟩ := print_confined (L := L) hs
    l.ata_identify_msg ata_identify_msg (by omega) (by omega)
  unfold transfer_operands
  dsimp only
  generalize print L l.ata_identify_msg ata_identify_msg s.cpu = u
    at hprint hreg ⊢
  have hkept := (h.kept.mono fun _ hf => absurd hf not_false).trans hprint
  have hrdi : u.reg .rdi = s₀.cpu.reg .rdi := by
    rw [hreg .rdi (by decide), h.posed.rdi]
  have haddr : (l.ata_base_io_ports + u.reg .rdi).toNat
      = l.ata_control_ports.toNat + 6 + (u.reg .rdi).toNat :=
    data_toNat l (by omega) (by rw [hrdi]; exact hdi)
  have hbase : u.mem.read16 (l.ata_base_io_ports + u.reg .rdi)
      = channelBase l s₀.cpu := by
    rw [hrdi] at haddr ⊢
    rw [← h.posed.base hc, h.posed.rdi]
    have hsp := hs.2
    refine hprint.read (n := 2) (by omega) (by omega) fun b hlo hhi => ?_
    unfold CursorByte
    omega
  refine ⟨?_, ?_, ?_, ?_⟩
  · exact ((Confined.set (r := .rsi) (Confined.reads (Confined.set (r := .rdx)
      (hkept.reads _ 8) (by decide) _) _ 2) (by decide) _).set (r := .rdi)
        (by decide) _).set (r := .rcx) (by decide) _ |>.set (by decide) _
  · unfold blockSlot
    rw [← hrdi, Cpu.set_reg_of_ne (by decide), Cpu.set_reg_of_ne (by decide),
      Cpu.set_reg_self, load16, Cpu.setLow16_reg, if_neg (by decide),
      Cpu.reads_reg, Cpu.load64_reg, if_neg (by decide)]
  · rfl
  · show (u.mem.read64 (l.ata_base_io_ports + u.reg .rdi)).extractLsb' 0 16
      = _
    rw [← Mem.read16_of_read64, hbase]

/-- What a call may write. -/
def AtaByte (l : AtaLabels L) (b : BitVec 64) : Prop :=
  CursorByte L b ∨ BufferByte l b

theorem AtaByte.place {b : BitVec 64} (h : AtaByte l b) : 0x10000 ≤ b.toNat := by
  have hin := l.data_in
  have hbuf := ata_identify_buffer_toNat l
  rcases h with hcur | hbyte
  · exact hcur.place
  · have hlo := hbyte.1
    omega

/-- The line a transfer adds to the history. -/
def transferred (l : AtaLabels L) (c : Cpu) (polls : Nat) : AtaReport :=
  .transfer (channelBase l c) (driveSelector l c) polls (blockSlot l c)

/-- The words, and the index advanced behind the buffer. -/
theorem transfer_spec (bus : AtaBus) (hc : Calls s₀.cpu) (h : Asked l s₀ k s) :
    ∃ u, u = transfer l bus (s.run (transfer_operands l))
      ∧ Confined (AtaByte l) s₀.cpu.pushaq u.cpu
      ∧ u.reports = s₀.reports ++ [transferred l s₀.cpu k]
      ∧ BlockAt (calledDrive l bus s₀.cpu).words (blockSlot l s₀.cpu) 512
        u.cpu.mem := by
  have hin := l.data_in
  have hbuf := ata_identify_buffer_toNat l
  have hslot := blockSlot_toNat (l := l) hc
  have hdi := hc.channel
  obtain ⟨hkept, hrdi, hrcx, hdx⟩ := transfer_operands_spec hc h
  have hindex : l.ata_identify_buffer_index.toNat
      = l.ata_control_ports.toNat + 2104 := toNat_add_lit (by omega)
  refine ⟨_, rfl, ?_⟩
  unfold transfer
  dsimp only
  -- the state `rep insw` starts in
  obtain ⟨v, hv⟩ : ∃ v, (s.run (transfer_operands l)).report (.transfer
      ((s.run (transfer_operands l)).cpu.low16 .rdx)
      ((s.run (transfer_operands l)).port
        ((s.run (transfer_operands l)).cpu.low16 .rdx + ATA_REG_HDDEVSEL))
      (s.run (transfer_operands l)).polls
      ((s.run (transfer_operands l)).cpu.reg .rdi)) = v := ⟨_, rfl⟩
  have hvcpu : v.cpu = transfer_operands l s.cpu := by
    rw [← hv]
    rfl
  have hvport : v.port = s.port := by
    rw [← hv]
    rfl
  have hvwords : v.words = 0 := by
    rw [← hv]
    exact h.words
  have hvrep : v.reports = s₀.reports ++ [transferred l s₀.cpu k] := by
    rw [← hv]
    show s.reports ++ [AtaReport.transfer
      ((transfer_operands l s.cpu).low16 .rdx)
      (s.port ((transfer_operands l s.cpu).low16 .rdx + ATA_REG_HDDEVSEL))
      s.polls ((transfer_operands l s.cpu).reg .rdi)] = _
    rw [hdx, hrdi, h.port, h.polls, h.reports]
    rfl
  rw [hv]
  rw [← hvcpu] at hkept hrdi hrcx hdx
  have hdrive : v.selected bus (v.cpu.low16 .rdx)
      = calledDrive l bus s₀.cpu := by
    unfold Ata.selected calledDrive
    rw [hdx, hvport, h.port]
  have htaken := repInsw_taken bus hrcx (by rw [hrdi]; omega) hvwords
  obtain ⟨-, -, hsp, -, -, hrep, hblock, hframe⟩ := htaken
  rw [hdrive, hrdi] at hblock
  rw [hrdi] at hframe
  generalize v.repInsw bus = w at hsp hrep hblock hframe ⊢
  have hstored : (w.run fun c => c.store16 l.ata_identify_buffer_index
      (c.mem.read16 l.ata_identify_buffer_index + 256#16)).cpu.mem
      = w.cpu.mem.write l.ata_identify_buffer_index 2
        (w.cpu.mem.read16 l.ata_identify_buffer_index + 256#16) := rfl
  have hwkept : Confined (AtaByte l) s₀.cpu.pushaq w.cpu := by
    refine ⟨hsp.trans hkept.rsp, fun b hlo hhi hb => ?_⟩
    have hout : ¬ BufferByte l b := fun hf => hb (Or.inr hf)
    unfold BufferByte at hout
    rw [hframe b (by omega)]
    exact hkept.mem b hlo hhi fun hf => hb (Or.inl hf)
  refine ⟨?_, hrep.trans hvrep, fun i hi => ?_⟩
  · refine hwkept.write (n := 2) rfl hstored (by omega) fun b hlo hhi => ?_
    refine Or.inr ?_
    unfold BufferByte
    omega
  · have hat : (blockSlot l s₀.cpu + BitVec.ofNat 64 i).toNat
        = (blockSlot l s₀.cpu).toNat + i := toNat_add_lit (by omega)
    rw [hstored, ← hblock i hi]
    exact Mem.write_apply_of_out _ _ (by omega) (Or.inl (by omega))

/-- The ready path: the block is in its slot, but for the bytes the texts
are cut off at. -/
theorem identify_ready_spec (bus : AtaBus) (hc : Calls s₀.cpu)
    (h : Asked l s₀ k s) {fuel : Nat} (hfuel : 0xB8001 ≤ fuel) :
    ∃ s', identify_ready l bus fuel s = some s'
      ∧ Confined (AtaByte l) s₀.cpu.pushaq s'.cpu
      ∧ s'.reports = s₀.reports ++ [transferred l s₀.cpu k]
      ∧ ∀ i < 512, ¬ StopByte l (blockSlot l s₀.cpu + BitVec.ofNat 64 i) →
        s'.cpu.mem (blockSlot l s₀.cpu + BitVec.ofNat 64 i)
          = blockByte (calledDrive l bus s₀.cpu).words i := by
  have hin := l.data_in
  have hbuf := ata_identify_buffer_toNat l
  have hslot := blockSlot_toNat (l := l) hc
  have hdi := hc.channel
  obtain ⟨u, hu, hkept, hrep, hblock⟩ := transfer_spec bus hc h
  have hs : StackOk u.cpu := hc.inner.of_confined hkept
  have hs' : StackOk u.cpu.pushaq := by
    obtain ⟨hlo, hhi⟩ := hc.stack
    obtain ⟨hrsp, -⟩ := Cpu.pushaq_spec (c := s₀.cpu) (by omega)
    have husp : (u.cpu.reg .rsp).toNat = (s₀.cpu.reg .rsp).toNat - 120 := by
      rw [hkept.rsp, hrsp]
    obtain ⟨hursp, -⟩ := Cpu.pushaq_spec (c := u.cpu) (by omega)
    exact ⟨by omega, by omega⟩
  obtain ⟨d, hd, hinfo, -⟩ := ata_print_info_returns (l := l) hs hs' hfuel
  refine ⟨u.run fun _ => d, ?_, ?_, hrep, fun i hi hstop => ?_⟩
  · unfold identify_ready
    dsimp only
    rw [← hu, hd]
    rfl
  · refine hkept.trans (hinfo.mono fun b hb => ?_)
    exact hb.imp_right StopByte.inBuffer
  · have hat : (blockSlot l s₀.cpu + BitVec.ofNat 64 i).toNat
        = (blockSlot l s₀.cpu).toNat + i := toNat_add_lit (by omega)
    have hbyte : BufferByte l (blockSlot l s₀.cpu + BitVec.ofNat 64 i) := by
      unfold BufferByte
      omega
    have hsp := hs.2
    rw [← hblock i hi]
    refine hinfo.mem _ (by omega) (by omega) fun hf => ?_
    rcases hf with hcur | hf
    · exact hbyte.not_cursor hcur
    · exact hstop hf

-- ================================================================= the call

/-- The line a call adds to the history. -/
def settled (l : AtaLabels L) (c : Cpu) (n : Nat) (ready : Bool) :
    AtaReport :=
  if ready then transferred l c (n + 1) else .error (n + 1)

/-- What a call leaves: the registers, everything but the cursor and the
buffer, which an error leaves alone as well, and the block of a drive that
was ready. -/
structure Identified (l : AtaLabels L) (bus : AtaBus) (ready : Bool)
    (s s' : Ata) : Prop where
  reg : s'.cpu.reg = s.cpu.reg
  kept : Confined (AtaByte l) s.cpu s'.cpu
  error : ready = false → Confined (CursorByte L) s.cpu s'.cpu
  block : ready = true → ∀ i < 512,
    ¬ StopByte l (blockSlot l s.cpu + BitVec.ofNat 64 i) →
    s'.cpu.mem (blockSlot l s.cpu + BitVec.ofNat 64 i)
      = blockByte (calledDrive l bus s.cpu).words i

/-- The error path. -/
theorem identify_error_spec (hc : Calls s₀.cpu) (h : Asked l s₀ k s) :
    (identify_error l s).reports = s₀.reports ++ [.error k]
      ∧ Confined (CursorByte L) s₀.cpu.pushaq (identify_error l s).cpu := by
  have hin := l.data_in
  have hs : StackOk s.cpu := hc.inner.of_confined h.kept
  have hlabel : l.ata_error_msg.toNat
      = l.ata_control_ports.toNat + 18 := toNat_add_lit (by omega)
  have hlen : ata_error_msg.length = 26 := by decide
  obtain ⟨hprint, -⟩ := print_confined (L := L) hs l.ata_error_msg
    ata_error_msg (by omega) (by omega)
  refine ⟨?_, (h.kept.mono fun _ hf => absurd hf not_false).trans hprint⟩
  rw [← h.polls, ← h.reports]
  rfl

/-- A call returns when its drive's statuses end. -/
theorem ata_identify_disk_spec (hc : Calls s.cpu)
    (h : Settles (calledDrive l bus s.cpu).status n ready) (fuel : Nat)
    (hfuel : 0xB8001 ≤ fuel) (hn : n ≤ fuel) :
    ∃ s', ata_identify_disk l bus fuel s = some s'
      ∧ s'.reports = s.reports ++ [settled l s.cpu n ready]
      ∧ Identified l bus ready s s' := by
  have hs := hc.stackOk
  obtain ⟨u, hu, hasked⟩ := identify_status_spec (l := l) hc h hn
  cases ready with
  | false =>
      obtain ⟨hrep, hconf⟩ := identify_error_spec hc hasked
      obtain ⟨hkept, hreg⟩ := hconf.saved hs fun b hb => hb.place
      refine ⟨(identify_error l u).run Cpu.popaq, ?_, hrep, hreg,
        hkept.mono fun b => Or.inl, fun _ => hkept, nofun⟩
      unfold ata_identify_disk
      rw [hu]
      rfl
  | true =>
      obtain ⟨v, hv, hconf, hrep, hblock⟩ :=
        identify_ready_spec bus hc hasked hfuel
      obtain ⟨hkept, hreg⟩ := hconf.saved hs fun b hb => hb.place
      refine ⟨v.run Cpu.popaq, ?_, hrep, hreg, hkept, nofun,
        fun _ i hi hstop => ?_⟩
      · unfold ata_identify_disk
        rw [hu]
        show (do let s ← identify_ready l bus fuel u; return s.run Cpu.popaq)
          = _
        rw [hv]
        rfl
      · rw [← hblock i hi hstop]
        exact congrFun (Cpu.popaq_mem v.cpu) _

/-- A call that returns has seen its drive's statuses end. -/
theorem ata_identify_disk_inv (hc : Calls s.cpu) {fuel : Nat}
    (h : ata_identify_disk l bus fuel s = some s') :
    ∃ n ready, Settles (calledDrive l bus s.cpu).status n ready
      ∧ s'.reports = s.reports ++ [settled l s.cpu n ready] := by
  unfold ata_identify_disk at h
  obtain ⟨⟨u, ready⟩, hu, h⟩ := Option.bind_eq_some_iff.1 h
  obtain ⟨n, hsettles, hasked⟩ := identify_status_inv (l := l) hc hu
  refine ⟨n, ready, hsettles, ?_⟩
  cases ready with
  | false =>
      obtain ⟨hrep, -⟩ := identify_error_spec hc hasked
      cases h
      exact hrep
  | true =>
      obtain ⟨v, hv, h⟩ := Option.bind_eq_some_iff.1 h
      obtain ⟨w, hw, -, hrep, -⟩ := transfer_spec bus hc hasked
      cases h
      obtain ⟨d, -, hd⟩ := Option.bind_eq_some_iff.1 hv
      cases hd
      rw [← hw] at *
      exact hrep

end BootLoader.ThirdStage
