/-
How `ata_identify_disk` asks a drive and reads its answer.

The registers written before the command leave the selected drive in
place, so every status read is one of the drive the call was for
(`Asked`). The polling then is a search through its statuses:
`Settles status n ready` says that the search stops at status `n`, which
is the first of them when that is below 2 as a signed byte, and else the
first later one with ERR or DRQ set. The code stops there and nowhere else
(`identify_status_spec`, `identify_status_inv`), so a drive that never
answers is polled for ever.
-/
import BootLoader.ThirdStage.Proofs.VideoTexts

namespace BootLoader.ThirdStage

open FlatMemory Words

variable {L : Layout} {l : AtaLabels L} {bus : AtaBus} {c d : Cpu}
  {s s' : Ata} {status : Nat → BitVec 8} {n : Nat} {ready : Bool}

-- =============================================================== the search

/-- All the bits of the mask are set. -/
def Has (bits v : BitVec 8) : Prop := bits &&& v = bits

instance (bits v : BitVec 8) : Decidable (Has bits v) :=
  inferInstanceAs (Decidable (_ = _))

/-- The first status ends the call. -/
def Refused (status : Nat → BitVec 8) : Prop := (status 0).slt 0x2#8 = true

instance (status : Nat → BitVec 8) : Decidable (Refused status) :=
  inferInstanceAs (Decidable (_ = _))

/-- The statuses end in an error or a transfer at status `n`. -/
def Settles (status : Nat → BitVec 8) (n : Nat) (ready : Bool) : Prop :=
  if Refused status then n = 0 ∧ ready = false
  else 0 < n
    ∧ (∀ k, 0 < k → k < n →
      ¬ Has ATA_SR_ERR (status k) ∧ ¬ Has ATA_SR_DRQ (status k))
    ∧ if ready then ¬ Has ATA_SR_ERR (status n) ∧ Has ATA_SR_DRQ (status n)
      else Has ATA_SR_ERR (status n)

/-- A search with an end has ERR or DRQ there. -/
theorem Settles.final (h : Settles status n ready) (hr : ¬ Refused status) :
    0 < n ∧ (Has ATA_SR_ERR (status n) ∨ Has ATA_SR_DRQ (status n)) := by
  unfold Settles at h
  rw [if_neg hr] at h
  obtain ⟨hpos, -, hend⟩ := h
  refine ⟨hpos, ?_⟩
  cases ready with
  | true => exact Or.inr hend.2
  | false => exact Or.inl hend

/-- It has one end. -/
theorem Settles.unique {n' : Nat} {ready' : Bool} (h : Settles status n ready)
    (h' : Settles status n' ready') : n = n' ∧ ready = ready' := by
  by_cases hr : Refused status
  · unfold Settles at h h'
    rw [if_pos hr] at h h'
    exact ⟨h.1.trans h'.1.symm, h.2.trans h'.2.symm⟩
  · obtain ⟨hpos, hfinal⟩ := h.final hr
    obtain ⟨hpos', hfinal'⟩ := h'.final hr
    unfold Settles at h h'
    rw [if_neg hr] at h h'
    obtain ⟨-, hbefore, hend⟩ := h
    obtain ⟨-, hbefore', hend'⟩ := h'
    have hn : n = n' := by
      rcases Nat.lt_trichotomy n n' with hlt | heq | hgt
      · have hnone := hbefore' n hpos hlt
        rcases hfinal with herr | hdrq
        · exact absurd herr hnone.1
        · exact absurd hdrq hnone.2
      · exact heq
      · have hnone := hbefore n' hpos' hgt
        rcases hfinal' with herr | hdrq
        · exact absurd herr hnone.1
        · exact absurd hdrq hnone.2
    subst hn
    refine ⟨rfl, ?_⟩
    cases ready with
    | true =>
        cases ready' with
        | true => rfl
        | false => exact absurd hend' hend.1
    | false =>
        cases ready' with
        | true => exact absurd hend hend'.1
        | false => rfl

/-- A refused drive is an error at its first status. -/
theorem Refused.settles (h : Refused status) : Settles status 0 false := by
  unfold Settles
  rw [if_pos h]
  exact ⟨rfl, rfl⟩

theorem Refused.not_ready (h : Refused status) : ¬ Settles status n true := by
  intro hn
  obtain ⟨-, heq⟩ := hn.unique h.settles
  cases heq

-- ============================================================= the position

/-- The base port of the channel RDI stands for. -/
def channelBase (l : AtaLabels L) (c : Cpu) : BitVec 16 :=
  c.mem.read16 (l.ata_base_io_ports + c.reg .rdi)

/-- The selector of the drive RSI stands for. -/
def driveSelector (l : AtaLabels L) (c : Cpu) : BitVec 8 :=
  c.mem (l.ata_drv_selector + c.reg .rsi)

/-- The drive a call is for. -/
def calledDrive (l : AtaLabels L) (bus : AtaBus) (c : Cpu) : DriveAnswers :=
  bus (channelBase l c) (driveSelector l c)

/-- A call as the loops make it: an entry of each table, and stack for the
register saves. -/
structure Calls (c : Cpu) : Prop where
  stack : 0x5100 + 240 ≤ (c.reg .rsp).toNat ∧ (c.reg .rsp).toNat ≤ 0x10000
  channel : (c.reg .rdi).toNat ≤ 2
  drive : (c.reg .rsi).toNat ≤ 1

theorem Calls.stackOk (h : Calls c) : StackOk c :=
  ⟨by have := h.stack; omega, h.stack.2⟩

/-- The stack for the register save inside the call. -/
theorem Calls.inner (h : Calls c) : StackOk c.pushaq := by
  obtain ⟨hlo, hhi⟩ := h.stack
  obtain ⟨hrsp, -⟩ := Cpu.pushaq_spec (c := c) (by omega)
  exact ⟨by omega, by omega⟩

/-- The registers and the tables of the position are those of the call. -/
structure Posed (c d : Cpu) : Prop where
  image : ∀ b : BitVec 64, 0x10000 ≤ b.toNat → b.toNat < 0xB0000 →
    d.mem b = c.mem b
  rdi : d.reg .rdi = c.reg .rdi
  rsi : d.reg .rsi = c.reg .rsi

/-- Work on RAX, RCX and RDX. -/
structure Scratch (d e : Cpu) : Prop where
  mem : e.mem = d.mem
  reg : ∀ r, r ≠ .rax → r ≠ .rcx → r ≠ .rdx → e.reg r = d.reg r

theorem Scratch.refl (d : Cpu) : Scratch d d := ⟨rfl, fun _ _ _ _ => rfl⟩

theorem Scratch.set (h : Scratch c d) {r : Reg}
    (hr : r = .rax ∨ r = .rcx ∨ r = .rdx) (v : BitVec 64) :
    Scratch c (d.set r v) := by
  refine ⟨h.mem, fun r' hax hcx hdx => ?_⟩
  rw [Cpu.set_reg_of_ne, h.reg r' hax hcx hdx]
  rcases hr with rfl | rfl | rfl
  · exact hax
  · exact hcx
  · exact hdx

theorem Scratch.reads (h : Scratch c d) (a : BitVec 64) (n : Nat) :
    Scratch c (d.reads a n) := ⟨h.mem, h.reg⟩

theorem Posed.scratch (h : Posed c d) {e : Cpu} (he : Scratch d e) :
    Posed c e := by
  refine ⟨fun b hlo hhi => ?_, ?_, ?_⟩
  · rw [he.mem, h.image b hlo hhi]
  · rw [he.reg .rdi (by decide) (by decide) (by decide), h.rdi]
  · rw [he.reg .rsi (by decide) (by decide) (by decide), h.rsi]

theorem Confined.scratch {free : BitVec 64 → Prop} (h : Confined free c d)
    {e : Cpu} (he : Scratch d e) : Confined free c e := by
  refine ⟨?_, fun b hlo hhi hb => ?_⟩
  · rw [he.reg .rsp (by decide) (by decide) (by decide), h.rsp]
  · rw [he.mem, h.mem b hlo hhi hb]

/-- A register save inside the call. -/
theorem Posed.pushaq (h : Posed c d) (hs : StackOk d) :
    Posed c d.pushaq := by
  refine ⟨fun b hlo hhi => ?_, ?_, ?_⟩
  · rw [pushaq_confined hs (Nat.le_trans hs.2 hlo), h.image b hlo hhi]
  · rw [Cpu.pushaq_reg d (by decide), h.rdi]
  · rw [Cpu.pushaq_reg d (by decide), h.rsi]

/-- An address in the data. -/
theorem data_toNat (l : AtaLabels L) {x : BitVec 64} {n : Nat}
    (hn : n ≤ 2125) (hx : x.toNat ≤ 2) :
    (l.ata_control_ports + BitVec.ofNat 64 n + x).toNat
      = l.ata_control_ports.toNat + n + x.toNat := by
  have hin := l.data_in
  rw [BitVec.toNat_add, toNat_add_lit (by omega), Nat.mod_eq_of_lt (by omega)]

/-- The base port, inside the call. -/
theorem Posed.base (hc : Calls c) (h : Posed c d) :
    d.mem.read16 (l.ata_base_io_ports + d.reg .rdi) = channelBase l c := by
  have hin := l.data_in
  have hdi := hc.channel
  have haddr : (l.ata_base_io_ports + c.reg .rdi).toNat
      = l.ata_control_ports.toNat + 6 + (c.reg .rdi).toNat :=
    data_toNat l (by omega) hdi
  rw [h.rdi]
  exact Mem.read_congr_bytes (n := 2) (by omega)
    fun b hlo hhi => h.image b (by omega) (by omega)

/-- The selector, inside the call. -/
theorem Posed.selector (hc : Calls c) (h : Posed c d) :
    d.mem (l.ata_drv_selector + d.reg .rsi) = driveSelector l c := by
  have hin := l.data_in
  have hsi := hc.drive
  have haddr : (l.ata_drv_selector + c.reg .rsi).toNat
      = l.ata_control_ports.toNat + 15 + (c.reg .rsi).toNat :=
    data_toNat l (by omega) (by omega)
  rw [h.rsi]
  exact h.image _ (by omega) (by omega)

/-- The port of a register of the channel. -/
theorem channel_port_spec (hc : Calls c) (h : Posed c d) (o : BitVec 16) :
    Scratch d (channel_port l o d)
      ∧ (channel_port l o d).low16 .rdx = channelBase l c + o := by
  have hbase := h.base (l := l) hc
  unfold channel_port load16
  dsimp only
  refine ⟨?_, ?_⟩
  · exact Scratch.set (Scratch.set ((Scratch.refl d).reads _ 2)
      (Or.inr (Or.inr rfl)) _) (Or.inr (Or.inr rfl)) _
  · rw [Cpu.low16_setLow16, Cpu.low16_setLow16, hbase]

-- ============================================================== the command

/-- Inside the call, with the drive selected and asked for `k` statuses and
no word since the last byte written. -/
structure Asked (l : AtaLabels L) (s₀ : Ata) (k : Nat) (s : Ata) : Prop where
  posed : Posed s₀.cpu s.cpu
  kept : Confined (fun _ => False) s₀.cpu.pushaq s.cpu
  port : s.port (channelBase l s₀.cpu + ATA_REG_HDDEVSEL)
    = driveSelector l s₀.cpu
  polls : s.polls = k
  words : s.words = 0
  reports : s.reports = s₀.reports

variable {s₀ : Ata} {k : Nat}

/-- Work on the scratch registers. -/
theorem Asked.run (h : Asked l s₀ k s) {f : Cpu → Cpu}
    (hf : Scratch s.cpu (f s.cpu)) : Asked l s₀ k (s.run f) :=
  ⟨h.posed.scratch hf, h.kept.scratch hf, h.port, h.polls, h.words, h.reports⟩

/-- Another register written. -/
theorem Asked.outAl (h : Asked l s₀ k s) {o : BitVec 16}
    (ho : o ≠ ATA_REG_HDDEVSEL)
    (hdx : s.cpu.low16 .rdx = channelBase l s₀.cpu + o) :
    Asked l s₀ 0 s.outAl := by
  refine ⟨h.posed, h.kept, ?_, rfl, rfl, h.reports⟩
  rw [← h.port]
  refine Function.update_of_ne (fun heq => ho ?_) _ _
  rw [hdx] at heq
  exact ((BitVec.add_right_inj _).1 heq).symm

theorem write_channel_asked (hc : Calls s₀.cpu) (h : Asked l s₀ k s)
    {o : BitVec 16} (ho : o ≠ ATA_REG_HDDEVSEL) :
    Asked l s₀ 0 (write_channel l o s) := by
  obtain ⟨hscratch, hdx⟩ := channel_port_spec (l := l) hc h.posed o
  exact (h.run hscratch).outAl ho hdx

/-- The selection. -/
theorem select_ata_disk_asked (hc : Calls s₀.cpu) (h : Posed s₀.cpu s.cpu)
    (hkept : Confined (fun _ => False) s₀.cpu.pushaq s.cpu)
    (hreports : s.reports = s₀.reports) :
    Asked l s₀ 0 (select_ata_disk l s) := by
  have hstack : StackOk s.cpu := by
    unfold StackOk
    rw [hkept.rsp]
    exact hc.inner
  have hpush := h.pushaq hstack
  have hzero : Scratch s.cpu.pushaq (s.cpu.pushaq.set .rax 0#64) :=
    (Scratch.refl _).set (Or.inl rfl) _
  obtain ⟨hport, hdx⟩ := channel_port_spec (l := l) hc (hpush.scratch hzero)
    ATA_REG_HDDEVSEL
  have hu := (hpush.scratch hzero).scratch hport
  have hsel := hu.selector (l := l) hc
  have hkeep : Confined (fun _ => False) s.cpu.pushaq
      (channel_port l ATA_REG_HDDEVSEL (s.cpu.pushaq.set .rax 0#64)) :=
    ((Confined.refl _).scratch hzero).scratch hport
  have hrun : select_ata_disk l s = (((s.run Cpu.pushaq).run fun c =>
      channel_port l ATA_REG_HDDEVSEL (c.set .rax 0#64)).run fun c =>
        load8 c .rax (l.ata_drv_selector + c.reg .rsi)).outAl.run
          Cpu.popaq := rfl
  rw [hrun]
  have hcpu : ((s.run Cpu.pushaq).run fun c => channel_port l
      ATA_REG_HDDEVSEL (c.set .rax 0#64)).cpu = channel_port l
        ATA_REG_HDDEVSEL (s.cpu.pushaq.set .rax 0#64) := rfl
  have hrep : ((s.run Cpu.pushaq).run fun c => channel_port l
      ATA_REG_HDDEVSEL (c.set .rax 0#64)).reports = s.reports := rfl
  rw [← hcpu] at hu hdx hsel hkeep
  generalize (s.run Cpu.pushaq).run _ = u at hu hdx hsel hkeep hrep ⊢
  -- the selector goes to the port, and the registers come back
  have hload : Scratch u.cpu (load8 u.cpu .rax
      (l.ata_drv_selector + u.cpu.reg .rsi)) :=
    ((Scratch.refl _).reads _ 1).set (Or.inl rfl) _
  obtain ⟨hback, hreg⟩ := (hkeep.scratch hload).saved hstack
    fun _ hf => absurd hf not_false
  have hal : (load8 u.cpu .rax (l.ata_drv_selector + u.cpu.reg .rsi)).low8
      .rax = driveSelector l s₀.cpu := by
    unfold load8
    rw [Cpu.low8_setLow8, hsel]
  have hdx' : (load8 u.cpu .rax (l.ata_drv_selector + u.cpu.reg .rsi)).low16
      .rdx = channelBase l s₀.cpu + ATA_REG_HDDEVSEL := by
    rw [← hdx]
    unfold Cpu.low16 load8
    rw [Cpu.setLow8_reg, if_neg (by decide), Cpu.reads_reg]
  unfold Ata.run Ata.outAl
  dsimp only
  generalize load8 u.cpu .rax (l.ata_drv_selector + u.cpu.reg .rsi) = v
    at hback hreg hal hdx' ⊢
  refine ⟨⟨fun b hlo hhi => ?_, ?_, ?_⟩, ?_, ?_, rfl, rfl, ?_⟩
  · rw [hback.mem b (Nat.le_trans hstack.2 hlo) hhi not_false]
    exact h.image b hlo hhi
  · exact (congrFun hreg .rdi).trans h.rdi
  · exact (congrFun hreg .rsi).trans h.rsi
  · exact hkept.trans hback
  · show Function.update u.port (v.low16 .rdx) (v.low8 .rax) _ = _
    rw [hdx', Function.update_self, hal]
  · exact hrep.trans hreports

/-- Everything up to the command. -/
theorem identify_command_asked (hc : Calls s₀.cpu) :
    Asked l s₀ 0 (identify_command l (s₀.run Cpu.pushaq)) := by
  have hs := hc.stackOk
  have hstart : Posed s₀.cpu s₀.cpu.pushaq :=
    Posed.pushaq ⟨fun _ _ _ => rfl, rfl, rfl⟩ hs
  obtain ⟨s, hcontrol⟩ : ∃ s, s = (((s₀.run Cpu.pushaq).run fun c =>
      c.set .rax (c.reg .rax ^^^ 0#64)).run fun c => load16 c .rdx
        (l.ata_control_ports + c.reg .rdi)).outAl := ⟨_, rfl⟩
  have hscratch : Scratch s₀.cpu.pushaq s.cpu := by
    rw [hcontrol]
    exact (((Scratch.refl _).set (Or.inl rfl) _).reads _ 2).set
      (Or.inr (Or.inr rfl)) _
  have hreports : s.reports = s₀.reports := by
    rw [hcontrol]
    rfl
  have hsel := select_ata_disk_asked (l := l) hc (hstart.scratch hscratch)
    ((Confined.refl _).scratch hscratch) hreports
  have hcommand : identify_command l (s₀.run Cpu.pushaq)
      = (((write_channel l ATA_REG_LBA2 (write_channel l ATA_REG_LBA1
        (write_channel l ATA_REG_LBA0 (write_channel l ATA_REG_SECCOUNT0
          ((select_ata_disk l s).run fun c => c.set .rax 0#64))))).run
            (channel_port l ATA_REG_COMMAND)).run fun c =>
              c.setLow8 .rax ATA_CMD_IDENTIFY).outAl := by
    rw [hcontrol]
    rfl
  rw [hcommand]
  generalize select_ata_disk l s = u at hsel ⊢
  have hzero := hsel.run (f := fun c => c.set .rax 0#64)
    ((Scratch.refl _).set (Or.inl rfl) _)
  have hwritten := write_channel_asked hc (write_channel_asked hc
    (write_channel_asked hc (write_channel_asked hc hzero
      (o := ATA_REG_SECCOUNT0) (by decide)) (o := ATA_REG_LBA0)
      (by decide)) (o := ATA_REG_LBA1) (by decide)) (o := ATA_REG_LBA2)
      (by decide)
  generalize write_channel l ATA_REG_LBA2 _ = w at hwritten ⊢
  obtain ⟨hport, hdx⟩ := channel_port_spec (l := l) hc hwritten.posed
    ATA_REG_COMMAND
  have hasked := hwritten.run (f := channel_port l ATA_REG_COMMAND) hport
  refine Asked.outAl (k := 0) (o := ATA_REG_COMMAND) ?_ (by decide) ?_
  · exact hasked.run (f := fun c => c.setLow8 .rax ATA_CMD_IDENTIFY)
      ((Scratch.refl _).set (Or.inl rfl) _)
  · rw [← hdx]
    unfold Ata.run Cpu.low16
    dsimp only
    rw [Cpu.setLow8_reg, if_neg (by decide)]

-- ============================================================= the statuses

/-- One status read: it is the next one of the drive, in AL. -/
theorem read_status_spec (bus : AtaBus) (hc : Calls s₀.cpu) (h : Asked l s₀ k s) :
    Asked l s₀ (k + 1) (read_status l bus s)
      ∧ (read_status l bus s).cpu.low8 .rax
        = (calledDrive l bus s₀.cpu).status k := by
  obtain ⟨hport, hdx⟩ := channel_port_spec (l := l) hc h.posed ATA_REG_STATUS
  have hasked := h.run (f := channel_port l ATA_REG_STATUS) hport
  unfold read_status
  have hcpu : (s.run (channel_port l ATA_REG_STATUS)).cpu
      = channel_port l ATA_REG_STATUS s.cpu := rfl
  rw [← hcpu] at hdx
  generalize s.run (channel_port l ATA_REG_STATUS) = u at hasked hdx ⊢
  have hanswer : (u.selected bus (u.cpu.low16 .rdx - ATA_REG_STATUS)).status
      u.polls = (calledDrive l bus s₀.cpu).status k := by
    unfold Ata.selected calledDrive
    rw [hdx, BitVec.add_sub_cancel, hasked.port, hasked.polls]
  unfold Ata.inAl
  dsimp only
  rw [hanswer]
  have hscratch : Scratch u.cpu (u.cpu.setLow8 .rax
      ((calledDrive l bus s₀.cpu).status k)) :=
    (Scratch.refl _).set (Or.inl rfl) _
  refine ⟨⟨hasked.posed.scratch hscratch, hasked.kept.scratch hscratch,
    hasked.port, ?_, hasked.words, hasked.reports⟩, Cpu.low8_setLow8 _ _ _⟩
  show u.polls + 1 = k + 1
  rw [hasked.polls]

/-- The mask in CL leaves AL alone. -/
theorem masked_status_spec (bit : BitVec 8) (c : Cpu) :
    Scratch c (masked_status bit c)
      ∧ (masked_status bit c).low8 .rcx = bit &&& c.low8 .rax
      ∧ (masked_status bit c).reg .rax = c.reg .rax := by
  unfold masked_status
  dsimp only
  have hax : ∀ (d : Cpu) (v : BitVec 8),
      (d.setLow8 .rcx v).reg .rax = d.reg .rax := by
    intro d v
    rw [Cpu.setLow8_reg, if_neg (by decide)]
  refine ⟨?_, ?_, ?_⟩
  · exact Scratch.set (Scratch.set (Scratch.refl c) (Or.inr (Or.inl rfl)) _)
      (Or.inr (Or.inl rfl)) _
  · rw [Cpu.low8_setLow8, Cpu.low8_setLow8]
    unfold Cpu.low8
    rw [hax]
  · rw [hax, hax]

/-- One round of the polling, by the status it reads. -/
theorem check_ready_round (bus : AtaBus) (hc : Calls s₀.cpu)
    (h : Asked l s₀ k s) (fuel : Nat) :
    ∃ u v, Asked l s₀ (k + 1) u ∧ Asked l s₀ (k + 1) v
      ∧ check_ready l bus (fuel + 1) s
        = if Has ATA_SR_ERR ((calledDrive l bus s₀.cpu).status k) then
            some (u, false)
          else if Has ATA_SR_DRQ ((calledDrive l bus s₀.cpu).status k) then
            some (v, true)
          else check_ready l bus fuel v := by
  obtain ⟨hread, hal⟩ := read_status_spec bus hc h
  have hzero := hread.run (f := fun c => c.set .rcx 0#64)
    ((Scratch.refl _).set (Or.inr (Or.inl rfl)) _)
  have hal' : ((read_status l bus s).run fun c => c.set .rcx 0#64).cpu.low8
      .rax = (calledDrive l bus s₀.cpu).status k := by
    rw [← hal]
    unfold Ata.run Cpu.low8
    dsimp only
    rw [Cpu.set_reg_of_ne (by decide)]
  rw [check_ready]
  dsimp only
  generalize (read_status l bus s).run (fun c => c.set .rcx 0#64) = t
    at hzero hal' ⊢
  generalize (calledDrive l bus s₀.cpu).status k = v at hal' ⊢
  obtain ⟨herr, hcl, hax⟩ := masked_status_spec ATA_SR_ERR t.cpu
  have hu := hzero.run herr
  have hual : (t.run (masked_status ATA_SR_ERR)).cpu.low8 .rax = v := by
    rw [← hal']
    exact congrArg (BitVec.extractLsb' 0 8) hax
  have hucl : (t.run (masked_status ATA_SR_ERR)).cpu.low8 .rcx
      = ATA_SR_ERR &&& v := hcl.trans (by rw [hal'])
  generalize t.run (masked_status ATA_SR_ERR) = u at hu hual hucl ⊢
  obtain ⟨hdrq, hcl', -⟩ := masked_status_spec ATA_SR_DRQ u.cpu
  have hv := hu.run hdrq
  have hvcl : (u.run (masked_status ATA_SR_DRQ)).cpu.low8 .rcx
      = ATA_SR_DRQ &&& v := hcl'.trans (by rw [hual])
  generalize u.run (masked_status ATA_SR_DRQ) = w at hv hvcl ⊢
  refine ⟨u, w, hu, hv, ?_⟩
  by_cases herr : Has ATA_SR_ERR v
  · rw [if_pos herr, if_pos (hucl.trans herr)]
  · rw [if_neg herr, if_neg fun heq => herr (hucl.symm.trans heq)]
    by_cases hdrq : Has ATA_SR_DRQ v
    · rw [if_pos hdrq, if_neg (not_not.2 (hvcl.trans hdrq))]
    · rw [if_neg hdrq, if_pos fun heq => hdrq (hvcl.symm.trans heq)]

/-- The entry, by the first status. -/
theorem identify_status_first (bus : AtaBus) (hc : Calls s.cpu)
    (fuel : Nat) :
    ∃ u, Asked l s 1 u ∧ identify_status l bus fuel s
      = if Refused (calledDrive l bus s.cpu).status then some (u, false)
        else check_ready l bus fuel u := by
  obtain ⟨hread, hal⟩ := read_status_spec bus hc
    (identify_command_asked (l := l) hc)
  refine ⟨_, hread, ?_⟩
  unfold identify_status
  dsimp only
  rw [hal]
  by_cases hr : Refused (calledDrive l bus s.cpu).status
  · rw [if_pos hr]
    exact if_pos hr
  · rw [if_neg hr]
    exact if_neg hr

-- ================================================================ the search

/-- The polling finds the first later status with ERR or DRQ. The induction
is on how far away that is. -/
theorem check_ready_finds (hc : Calls s₀.cpu)
    (hn : if ready then
        ¬ Has ATA_SR_ERR ((calledDrive l bus s₀.cpu).status n)
          ∧ Has ATA_SR_DRQ ((calledDrive l bus s₀.cpu).status n)
      else Has ATA_SR_ERR ((calledDrive l bus s₀.cpu).status n)) (m : Nat) :
    ∀ {k fuel : Nat} {s : Ata}, k + m = n → m < fuel → Asked l s₀ k s →
      (∀ j, k ≤ j → j < n →
        ¬ Has ATA_SR_ERR ((calledDrive l bus s₀.cpu).status j)
          ∧ ¬ Has ATA_SR_DRQ ((calledDrive l bus s₀.cpu).status j)) →
      ∃ s', check_ready l bus fuel s = some (s', ready)
        ∧ Asked l s₀ (n + 1) s' := by
  induction m with
  | zero =>
      intro k fuel s hk hfuel h _
      obtain ⟨fuel, rfl⟩ : ∃ f, fuel = f + 1 := ⟨fuel - 1, by omega⟩
      rw [Nat.add_zero] at hk
      subst hk
      obtain ⟨u, v, hu, hv, hround⟩ := check_ready_round bus hc h fuel
      rw [hround]
      cases ready with
      | true =>
          rw [if_pos rfl] at hn
          rw [if_neg hn.1, if_pos hn.2]
          exact ⟨v, rfl, hv⟩
      | false =>
          rw [if_neg Bool.false_ne_true] at hn
          rw [if_pos hn]
          exact ⟨u, rfl, hu⟩
  | succ m ih =>
      intro k fuel s hk hfuel h hbefore
      obtain ⟨fuel, rfl⟩ : ∃ f, fuel = f + 1 := ⟨fuel - 1, by omega⟩
      obtain ⟨u, v, -, hv, hround⟩ := check_ready_round bus hc h fuel
      obtain ⟨herr, hdrq⟩ := hbefore k (Nat.le_refl k) (by omega)
      rw [hround, if_neg herr, if_neg hdrq]
      exact ih (by omega) (by omega) hv fun j hj hjn =>
        hbefore j (by omega) hjn

/-- A result of the polling is at such a status. -/
theorem check_ready_inv (hc : Calls s₀.cpu) (fuel : Nat) :
    ∀ {k : Nat} {s s' : Ata}, Asked l s₀ k s →
      check_ready l bus fuel s = some (s', ready) →
      ∃ n, k ≤ n ∧ Asked l s₀ (n + 1) s'
        ∧ (∀ j, k ≤ j → j < n →
          ¬ Has ATA_SR_ERR ((calledDrive l bus s₀.cpu).status j)
            ∧ ¬ Has ATA_SR_DRQ ((calledDrive l bus s₀.cpu).status j))
        ∧ if ready then
            ¬ Has ATA_SR_ERR ((calledDrive l bus s₀.cpu).status n)
              ∧ Has ATA_SR_DRQ ((calledDrive l bus s₀.cpu).status n)
          else Has ATA_SR_ERR ((calledDrive l bus s₀.cpu).status n) := by
  induction fuel with
  | zero =>
      intro k s s' _ h
      cases h
  | succ fuel ih =>
      intro k s s' hs h
      obtain ⟨u, v, hu, hv, hround⟩ := check_ready_round bus hc hs fuel
      rw [hround] at h
      by_cases herr : Has ATA_SR_ERR ((calledDrive l bus s₀.cpu).status k)
      · rw [if_pos herr] at h
        cases h
        refine ⟨k, Nat.le_refl k, hu, fun j hj hjk => ?_, ?_⟩
        · omega
        · rw [if_neg Bool.false_ne_true]
          exact herr
      rw [if_neg herr] at h
      by_cases hdrq : Has ATA_SR_DRQ ((calledDrive l bus s₀.cpu).status k)
      · rw [if_pos hdrq] at h
        cases h
        refine ⟨k, Nat.le_refl k, hv, fun j hj hjk => ?_, ?_⟩
        · omega
        · rw [if_pos rfl]
          exact ⟨herr, hdrq⟩
      rw [if_neg hdrq] at h
      obtain ⟨n, hle, hasked, hbefore, hend⟩ := ih hv h
      refine ⟨n, by omega, hasked, fun j hj hjn => ?_, hend⟩
      rcases Nat.eq_or_lt_of_le hj with heq | hlt
      · rw [← heq]
        exact ⟨herr, hdrq⟩
      · exact hbefore j hlt hjn

/-- The code ends where the search does. -/
theorem identify_status_spec (hc : Calls s.cpu)
    (h : Settles (calledDrive l bus s.cpu).status n ready) {fuel : Nat}
    (hfuel : n ≤ fuel) :
    ∃ s', identify_status l bus fuel s = some (s', ready)
      ∧ Asked l s (n + 1) s' := by
  obtain ⟨u, hu, hfirst⟩ := identify_status_first (l := l) bus hc fuel
  rw [hfirst]
  unfold Settles at h
  by_cases hr : Refused (calledDrive l bus s.cpu).status
  · rw [if_pos hr] at h ⊢
    obtain ⟨rfl, rfl⟩ := h
    exact ⟨u, rfl, hu⟩
  · rw [if_neg hr] at h ⊢
    obtain ⟨hpos, hbefore, hend⟩ := h
    exact check_ready_finds hc hend (n - 1) (by omega) (by omega) hu
      fun j hj hjn => hbefore j hj hjn

/-- And nowhere else. -/
theorem identify_status_inv (hc : Calls s.cpu) {fuel : Nat}
    (h : identify_status l bus fuel s = some (s', ready)) :
    ∃ n, Settles (calledDrive l bus s.cpu).status n ready
      ∧ Asked l s (n + 1) s' := by
  obtain ⟨u, hu, hfirst⟩ := identify_status_first (l := l) bus hc fuel
  rw [hfirst] at h
  unfold Settles
  by_cases hr : Refused (calledDrive l bus s.cpu).status
  · rw [if_pos hr] at h
    cases h
    refine ⟨0, ?_, hu⟩
    rw [if_pos hr]
    exact ⟨rfl, rfl⟩
  · rw [if_neg hr] at h
    obtain ⟨n, hpos, hasked, hbefore, hend⟩ := check_ready_inv hc fuel hu h
    refine ⟨n, ?_, hasked⟩
    rw [if_neg hr]
    exact ⟨hpos, hbefore, hend⟩

end BootLoader.ThirdStage
