/-
Which of the identify blocks are left when the loops are through.

The buffer has room for four blocks, one a position. What the loops put
into RDI is the offset of a channel in a table of words, 0 or 2, and that
is also what the slot is computed from: both drives of a channel get the
same slot and the two channels' slots share 510 bytes. So the buffer keeps
one block, the last one transferred.

The four positions are numbered in the order of the loops. `Visited` is
the invariant of both loops: the calls so far and what they have left of
the buffer. `drives_kept_iff` says for which drives nothing is lost.
-/
import BootLoader.Lib.Areas
import BootLoader.ThirdStage.Proofs.AtaTransfer

namespace BootLoader.ThirdStage

open FlatMemory Words

variable {L : Layout} {l : AtaLabels L} {bus : AtaBus} {c d : Cpu}
  {s s' s₀ : Ata} {j : Nat} {last : Nat → Nat} {ready : Nat → Bool}

-- ============================================================= the positions

/-- Position `j` of the loops. -/
def loopBase (j : Nat) : BitVec 16 :=
  if j / 2 = 0 then ATA_PRIMARY_BASE_IO else ATA_SECONDARY_BASE_IO

def loopSelector (j : Nat) : BitVec 8 :=
  if j % 2 = 0 then ATA_MASTER_DRV_SELECTOR else ATA_SLAVE_DRV_SELECTOR

def loopDrive (bus : AtaBus) (j : Nat) : DriveAnswers :=
  bus (loopBase j) (loopSelector j)

/-- Where the call for position `j` puts a block. -/
def loopSlot (l : AtaLabels L) (j : Nat) : BitVec 64 :=
  BitVec.ofNat 64 (2 * (j / 2)) + l.ata_identify_buffer

/-- A drive that gets to its transfer. -/
def Present (d : DriveAnswers) : Prop := ∃ n, Settles d.status n true

/-- The port tables, as `ata.asm` declares them. -/
structure AtaTables (l : AtaLabels L) (m : Mem) : Prop where
  primary : m.read16 l.ata_base_io_ports = ATA_PRIMARY_BASE_IO
  secondary : m.read16 (l.ata_base_io_ports + 2#64) = ATA_SECONDARY_BASE_IO
  master : m l.ata_drv_selector = ATA_MASTER_DRV_SELECTOR
  slave : m (l.ata_drv_selector + 1#64) = ATA_SLAVE_DRV_SELECTOR

/-- What does not write the tables keeps them. -/
theorem AtaTables.congr {m m' : Mem} (h : AtaTables l m)
    (heq : ∀ b : BitVec 64, l.ata_control_ports.toNat ≤ b.toNat →
      b.toNat < l.ata_control_ports.toNat + 56 → m' b = m b) :
    AtaTables l m' := by
  have hin := l.data_in
  have hports : l.ata_base_io_ports.toNat = l.ata_control_ports.toNat + 6 :=
    toNat_add_lit (by omega)
  have hports' : (l.ata_base_io_ports + 2#64).toNat
      = l.ata_base_io_ports.toNat + 2 := toNat_add_lit (by omega)
  have hsel : l.ata_drv_selector.toNat = l.ata_control_ports.toNat + 15 :=
    toNat_add_lit (by omega)
  have hsel' : (l.ata_drv_selector + 1#64).toNat
      = l.ata_drv_selector.toNat + 1 := toNat_add_lit (by omega)
  refine ⟨?_, ?_, ?_, ?_⟩
  · rw [← h.primary]
    exact Mem.read_congr_bytes (n := 2) (by omega)
      fun b hlo hhi => heq b (by omega) (by omega)
  · rw [← h.secondary]
    exact Mem.read_congr_bytes (n := 2) (by omega)
      fun b hlo hhi => heq b (by omega) (by omega)
  · rw [heq _ (by omega) (by omega), h.master]
  · rw [heq _ (by omega) (by omega), h.slave]

/-- RDI and RSI of position `j`. -/
structure AtPosition (j : Nat) (c : Cpu) : Prop where
  rdi : c.reg .rdi = BitVec.ofNat 64 (2 * (j / 2))
  rsi : c.reg .rsi = BitVec.ofNat 64 (j % 2)

/-- A call at a position is for the position's drive. -/
theorem AtPosition.called (hj : j < 4) (h : AtPosition j c)
    (ht : AtaTables l c.mem) :
    channelBase l c = loopBase j ∧ driveSelector l c = loopSelector j
      ∧ blockSlot l c = loopSlot l j := by
  refine ⟨?_, ?_, ?_⟩
  · unfold channelBase loopBase
    rw [h.rdi]
    by_cases hchannel : j / 2 = 0
    · rw [if_pos hchannel, hchannel, ← ht.primary]
      congr 1
      exact BitVec.add_zero _
    · rw [if_neg hchannel, show j / 2 = 1 by omega, ← ht.secondary]
  · unfold driveSelector loopSelector
    rw [h.rsi]
    by_cases hdrive : j % 2 = 0
    · rw [if_pos hdrive, hdrive, ← ht.master]
      congr 1
      exact BitVec.add_zero _
    · rw [if_neg hdrive, show j % 2 = 1 by omega, ← ht.slave]
  · unfold blockSlot loopSlot
    rw [h.rdi]

theorem loopSlot_toNat (l : AtaLabels L) (hj : j < 4) :
    (loopSlot l j).toNat = l.ata_identify_buffer.toNat + 2 * (j / 2) := by
  have hin := l.data_in
  have hbuf := ata_identify_buffer_toNat l
  unfold loopSlot
  rw [BitVec.add_comm]
  exact toNat_add_lit (by omega)

-- ============================================================== the property

/-- The bytes a call has transferred to. -/
def AtaReport.area? : AtaReport → Option Area
  | .error _ => none
  | .transfer _ _ _ buffer => some ⟨buffer.toNat, 512⟩

/-- The block of `d` stands at `a`, but for the bytes printing overwrites. -/
def SlotHolds (l : AtaLabels L) (d : DriveAnswers) (a : BitVec 64)
    (m : Mem) : Prop :=
  ∀ i < 512, ¬ StopByte l (a + BitVec.ofNat 64 i) →
    m (a + BitVec.ofNat 64 i) = blockByte d.words i

/-- Every drive present was transferred, no transfer left the buffer, no
two went to the same bytes, and all blocks are there. -/
structure DrivesKept (l : AtaLabels L) (bus : AtaBus)
    (calls : List AtaReport) (m : Mem) : Prop where
  slot : ∀ j < 4, Present (loopDrive bus j) →
    ∃ polls buffer, .transfer (loopBase j) (loopSelector j) polls buffer
      ∈ calls
  inside : ∀ base selector polls buffer,
    AtaReport.transfer base selector polls buffer ∈ calls →
    l.ata_identify_buffer.toNat ≤ buffer.toNat
      ∧ buffer.toNat + 512 ≤ l.ata_identify_buffer.toNat + 2048
  apart : (calls.filterMap AtaReport.area?).Pairwise Area.Disjoint
  block : ∀ base selector polls buffer,
    AtaReport.transfer base selector polls buffer ∈ calls →
    SlotHolds l (bus base selector) buffer m

/-- The loops come to an end, with every drive's block kept. -/
def KeepsDrives (l : AtaLabels L) (bus : AtaBus) (s : Ata) : Prop :=
  ∃ bound, ∀ fuel, bound ≤ fuel → ∃ s' calls,
    channel_loop l bus fuel s = some s' ∧ s'.reports = s.reports ++ calls
      ∧ DrivesKept l bus calls s'.cpu.mem

-- ================================================================= the calls

/-- How the drives' statuses end. -/
def Answered (bus : AtaBus) (last : Nat → Nat) (ready : Nat → Bool) : Prop :=
  ∀ j < 4, Settles (loopDrive bus j).status (last j) (ready j)

theorem Answered.present (h : Answered bus last ready) (hj : j < 4) :
    Present (loopDrive bus j) ↔ ready j = true := by
  constructor
  · rintro ⟨n, hn⟩
    exact ((h j hj).unique hn).2
  · intro hr
    have hsettles := h j hj
    rw [hr] at hsettles
    exact ⟨last j, hsettles⟩

/-- The line of position `j`. -/
def loopReport (l : AtaLabels L) (last : Nat → Nat) (ready : Nat → Bool)
    (j : Nat) : AtaReport :=
  if ready j then
    .transfer (loopBase j) (loopSelector j) (last j + 1) (loopSlot l j)
  else .error (last j + 1)

/-- After the calls for the positions below `j`: their lines, and the block
of the last drive that was ready. -/
structure Visited (l : AtaLabels L) (bus : AtaBus) (last : Nat → Nat)
    (ready : Nat → Bool) (s₀ : Ata) (j : Nat) (s : Ata) : Prop where
  rsp : s.cpu.reg .rsp = s₀.cpu.reg .rsp
  tables : AtaTables l s.cpu.mem
  reports : s.reports
    = s₀.reports ++ (List.range j).map (loopReport l last ready)
  block : ∀ i < j, ready i = true →
    (∀ k, i < k → k < j → ready k = false) →
    SlotHolds l (loopDrive bus i) (loopSlot l i) s.cpu.mem

/-- What does not write the piece of data keeps the invariant. -/
theorem Visited.congr (h : Visited l bus last ready s₀ j s) (hj : j ≤ 4)
    {f : Cpu → Cpu} (hsp : (f s.cpu).reg .rsp = s.cpu.reg .rsp)
    (heq : ∀ b : BitVec 64, l.ata_control_ports.toNat ≤ b.toNat →
      b.toNat < l.ata_control_ports.toNat + 2125 →
      (f s.cpu).mem b = s.cpu.mem b) :
    Visited l bus last ready s₀ j (s.run f) := by
  have hin := l.data_in
  have hbuf := ata_identify_buffer_toNat l
  refine ⟨hsp.trans h.rsp, h.tables.congr fun b hlo hhi =>
    heq b hlo (by omega), h.reports, fun i hi hr hlater k hk hstop => ?_⟩
  have hslot := loopSlot_toNat l (j := i) (by omega)
  have hat : (loopSlot l i + BitVec.ofNat 64 k).toNat
      = (loopSlot l i).toNat + k := toNat_add_lit (by omega)
  rw [← h.block i hi hr hlater k hk hstop]
  exact heq _ (by omega) (by omega)

/-- One call more. -/
theorem Visited.call (ha : Answered bus last ready)
    (hs : 0x5100 + 240 ≤ (s₀.cpu.reg .rsp).toNat
      ∧ (s₀.cpu.reg .rsp).toNat ≤ 0x10000)
    (h : Visited l bus last ready s₀ j s) (hj : j < 4)
    (hp : AtPosition j s.cpu) {fuel : Nat} (hfuel : 0xB8001 ≤ fuel)
    (hlast : last j ≤ fuel) :
    ∃ s', ata_identify_disk l bus fuel s = some s'
      ∧ Visited l bus last ready s₀ (j + 1) s'
      ∧ Confined (AtaByte l) s.cpu s'.cpu := by
  have hin := l.data_in
  have hbuf := ata_identify_buffer_toNat l
  have hcur := l.cursor_apart.1
  obtain ⟨hbase, hsel, hslot⟩ := hp.called hj h.tables
  have hc : Calls s.cpu := by
    refine ⟨by rw [h.rsp]; exact hs, ?_, ?_⟩
    · rw [hp.rdi, toNat_lit (by omega)]
      omega
    · rw [hp.rsi, toNat_lit (by omega)]
      omega
  have hdrive : calledDrive l bus s.cpu = loopDrive bus j := by
    unfold calledDrive loopDrive
    rw [hbase, hsel]
  have hsettles := ha j hj
  rw [← hdrive] at hsettles
  obtain ⟨s', hcall, hrep, hid⟩ := ata_identify_disk_spec hc hsettles fuel
    hfuel hlast
  have hsp := hc.stack.2
  refine ⟨s', hcall, ⟨?_, ?_, ?_, ?_⟩, hid.kept⟩
  · rw [hid.reg, h.rsp]
  · refine h.tables.congr fun b hlo hhi => ?_
    refine hid.kept.mem b (by omega) (by omega) fun hf => ?_
    rcases hf with hf | hf
    · unfold CursorByte at hf
      omega
    · have hge := hf.1
      omega
  · rw [hrep, h.reports, List.append_assoc, List.range_succ, List.map_append]
    congr 2
    unfold settled transferred loopReport
    rw [hbase, hsel, hslot]
    rfl
  · intro i hi hr hlater k hk hstop
    rcases Nat.eq_or_lt_of_le (Nat.le_of_lt_succ hi) with rfl | hlt
    · -- the drive just called
      have hblock := hid.block hr k hk
      rw [hslot, hdrive] at hblock
      exact hblock hstop
    · -- an earlier one: this call was an error
      have hnone := hlater j hlt (Nat.lt_succ_self j)
      have hslot' := loopSlot_toNat l (j := i) (by omega)
      have hat : (loopSlot l i + BitVec.ofNat 64 k).toNat
          = (loopSlot l i).toNat + k := toNat_add_lit (by omega)
      have hbyte : BufferByte l (loopSlot l i + BitVec.ofNat 64 k) :=
        ⟨by omega, by omega⟩
      rw [(hid.error hnone).mem _ (by omega) (by omega) hbyte.not_cursor]
      exact h.block i hlt hr (fun m him hmj => hlater m him (by omega)) k hk
        hstop

-- ================================================================= the loops

/-- The loops' two variables. -/
theorem ata_master_var_toNat (l : AtaLabels L) :
    l.ata_master_var.toNat = l.ata_channel_var.toNat + 8 := by
  have hin := l.channel_in
  exact toNat_add_lit (by omega)

/-- The variables are not among what a call writes. -/
theorem not_ataByte_of_var {b : BitVec 64}
    (hlo : l.ata_channel_var.toNat ≤ b.toNat)
    (hhi : b.toNat < l.ata_channel_var.toNat + 16) : ¬ AtaByte l b := by
  have hin := l.data_in
  have hbuf := ata_identify_buffer_toNat l
  have happart := l.channel_apart
  have hcur := l.cursor_apart.2
  rintro (hf | hf)
  · unfold CursorByte at hf
    omega
  · unfold BufferByte at hf
    omega

/-- A store to a variable. -/
theorem Visited.store (h : Visited l bus last ready s₀ j s) (hj : j ≤ 4)
    {f : Cpu → Cpu} {a : BitVec 64} {v : BitVec 64}
    (hsp : (f s.cpu).reg .rsp = s.cpu.reg .rsp)
    (hmem : (f s.cpu).mem = s.cpu.mem.write64 a v)
    (hlo : l.ata_channel_var.toNat ≤ a.toNat)
    (hhi : a.toNat + 8 ≤ l.ata_channel_var.toNat + 16) :
    Visited l bus last ready s₀ j (s.run f) := by
  have hin := l.channel_in
  have happart := l.channel_apart
  refine h.congr hj hsp fun b hb hb' => ?_
  rw [hmem]
  exact Mem.write_apply_of_out (n := 8) _ _ (by omega) (by omega)

/-- In the inner loop: the channel, the drive, and the calls so far. -/
structure InChannel (l : AtaLabels L) (bus : AtaBus) (last : Nat → Nat)
    (ready : Nat → Bool) (s₀ : Ata) (channel k : Nat) (s : Ata) :
    Prop where
  visited : Visited l bus last ready s₀ (2 * channel + k) s
  channel : s.cpu.mem.read64 l.ata_channel_var = BitVec.ofNat 64 (2 * channel)
  master : s.cpu.mem.read64 l.ata_master_var = BitVec.ofNat 64 k

/-- A round of the inner loop. -/
theorem InChannel.round {channel k : Nat} (ha : Answered bus last ready)
    (hs : 0x5100 + 240 ≤ (s₀.cpu.reg .rsp).toNat
      ∧ (s₀.cpu.reg .rsp).toNat ≤ 0x10000)
    (h : InChannel l bus last ready s₀ channel k s) (hch : channel < 2)
    (hk : k < 2) {fuel : Nat} (hfuel : 0xB8001 ≤ fuel)
    (hlast : ∀ j < 4, last j ≤ fuel) :
    ∃ s', master_slave_round l bus fuel s = some s'
      ∧ InChannel l bus last ready s₀ channel (k + 1) s' := by
  have hin := l.channel_in
  have hmaster := ata_master_var_toNat l
  -- the position in RDI and RSI
  obtain ⟨u, hu⟩ : ∃ u, (s.run fun c => c.load64 .rdi l.ata_channel_var).run
      (fun c => c.load64 .rsi l.ata_master_var) = u := ⟨_, rfl⟩
  have hureg : ∀ r, u.cpu.reg r = if r = .rsi then BitVec.ofNat 64 k
      else if r = .rdi then BitVec.ofNat 64 (2 * channel)
      else s.cpu.reg r := by
    intro r
    rw [← hu, ← h.master, ← h.channel]
    rfl
  have humem : u.cpu.mem = s.cpu.mem := by
    rw [← hu]
    rfl
  have hurep : u.reports = s.reports := by
    rw [← hu]
    rfl
  have huv : Visited l bus last ready s₀ (2 * channel + k) u := by
    rw [← hu]
    refine Visited.congr (Visited.congr h.visited (by omega) ?_
      fun _ _ _ => rfl) (by omega) ?_ fun _ _ _ => rfl
    · exact Cpu.set_reg_of_ne (by decide)
    · exact Cpu.set_reg_of_ne (by decide)
  have hup : AtPosition (2 * channel + k) u.cpu := by
    refine ⟨?_, ?_⟩
    · rw [hureg .rdi, if_neg (by decide), if_pos rfl,
        show (2 * channel + k) / 2 = channel by omega]
    · rw [hureg .rsi, if_pos rfl, show (2 * channel + k) % 2 = k by omega]
  obtain ⟨v, hv, hvisited, hkept⟩ := huv.call ha hs (by omega) hup hfuel
    (hlast _ (by omega))
  have hsp : (u.cpu.reg .rsp).toNat ≤ 0x10000 := by
    rw [huv.rsp]
    exact hs.2
  -- the variables are still there
  have hvar : ∀ {a : BitVec 64}, l.ata_channel_var.toNat ≤ a.toNat →
      a.toNat + 8 ≤ l.ata_channel_var.toNat + 16 →
      v.cpu.mem.read64 a = s.cpu.mem.read64 a := by
    intro a hlo hhi
    rw [← humem]
    exact hkept.read (n := 8) (by omega) (by omega)
      fun b hb hb' => not_ataByte_of_var (by omega) (by omega)
  have hvc := (hvar (a := l.ata_channel_var) (Nat.le_refl _)
    (by omega)).trans h.channel
  have hvm := (hvar (a := l.ata_master_var) (by omega) (by omega)).trans
    h.master
  refine ⟨v.run (inc_qword l.ata_master_var), ?_, ?_, ?_, ?_⟩
  · unfold master_slave_round
    dsimp only
    rw [hu, hv]
    rfl
  · exact hvisited.store (by omega) rfl rfl (by omega) (by omega)
  · rw [← hvc]
    exact Mem.read_write_of_disjoint _ (n := 8) (k := 8) _ (by omega)
      (by omega) (Or.inl (by omega))
  · refine (Mem.read64_write64_self _ _ _).trans ?_
    show v.cpu.mem.read64 l.ata_master_var + 1#64 = _
    rw [hvm, ← BitVec.ofNat_add]

/-- A round of the outer loop: both drives of a channel. -/
theorem channel_round_spec {channel : Nat} (ha : Answered bus last ready)
    (hs : 0x5100 + 240 ≤ (s₀.cpu.reg .rsp).toNat
      ∧ (s₀.cpu.reg .rsp).toNat ≤ 0x10000)
    (h : Visited l bus last ready s₀ (2 * channel) s)
    (hvar : s.cpu.mem.read64 l.ata_channel_var
      = BitVec.ofNat 64 (2 * channel)) (hch : channel < 2) {fuel : Nat}
    (hfuel : 0xB8001 ≤ fuel) (hlast : ∀ j < 4, last j ≤ fuel) :
    ∃ s', channel_round l bus fuel s = some s'
      ∧ Visited l bus last ready s₀ (2 * (channel + 1)) s'
      ∧ s'.cpu.mem.read64 l.ata_channel_var
        = BitVec.ofNat 64 (2 * (channel + 1)) := by
  have hin := l.channel_in
  have hmaster := ata_master_var_toNat l
  obtain ⟨u, hu⟩ : ∃ u, s.run (fun c => c.store64 l.ata_master_var 0x0#64)
      = u := ⟨_, rfl⟩
  have hstart : InChannel l bus last ready s₀ channel 0 u := by
    rw [← hu]
    refine ⟨?_, ?_, Mem.read64_write64_self _ _ _⟩
    · exact h.store (by omega) rfl rfl (by omega) (by omega)
    · rw [← hvar]
      exact Mem.read_write_of_disjoint _ (n := 8) (k := 8) _ (by omega)
        (by omega) (Or.inl (by omega))
  have hbelow : ∀ k v, k ≤ 2 → InChannel l bus last ready s₀ channel k v →
      qword_below l.ata_master_var 0x2#64 v = decide (k < 2) := by
    intro k v hk hv
    unfold qword_below
    rw [hv.master, slt_lit (by rw [toNat_lit (by omega)]; omega) (by omega),
      toNat_lit (by omega)]
  have hloop : ∃ v, Loop.finish (qword_below l.ata_master_var 0x2#64)
      (master_slave_round l bus fuel) fuel u = some v
        ∧ InChannel l bus last ready s₀ channel 2 v := by
    refine Loop.finish_counted (InChannel l bus last ready s₀ channel)
      (by omega) (fun k w hk hw => hw.round ha hs hch hk hfuel hlast) ?_ ?_
      (by omega) hstart
    · intro k w _ hk hw
      rw [hbelow k w (by omega) hw]
      exact decide_eq_true hk
    · intro w hw
      rw [hbelow 2 w (Nat.le_refl 2) hw]
      rfl
  obtain ⟨v, hv, hend⟩ := hloop
  have hvisited : Visited l bus last ready s₀ (2 * (channel + 1)) v :=
    hend.visited
  -- the variable goes on to the next word
  obtain ⟨w, hw⟩ : ∃ w, v.run (inc_qword l.ata_channel_var) = w := ⟨_, rfl⟩
  have hwv : Visited l bus last ready s₀ (2 * (channel + 1)) w := by
    rw [← hw]
    exact hvisited.store (by omega) rfl rfl (Nat.le_refl _) (by omega)
  have hwvar : w.cpu.mem.read64 l.ata_channel_var
      = BitVec.ofNat 64 (2 * channel + 1) := by
    rw [← hw, BitVec.ofNat_add, ← hend.channel]
    exact Mem.read64_write64_self _ _ _
  refine ⟨w.run (inc_qword l.ata_channel_var), ?_, ?_, ?_⟩
  · unfold channel_round
    dsimp only
    rw [hu, hv, ← hw]
    rfl
  · exact hwv.store (by omega) rfl rfl (Nat.le_refl _) (by omega)
  · refine (Mem.read64_write64_self _ _ _).trans ?_
    show w.cpu.mem.read64 l.ata_channel_var + 1#64 = _
    rw [hwvar, ← BitVec.ofNat_add, Nat.mul_succ]

/-- All four calls. -/
theorem channel_loop_visits (ha : Answered bus last ready)
    (hs : 0x5100 + 240 ≤ (s.cpu.reg .rsp).toNat
      ∧ (s.cpu.reg .rsp).toNat ≤ 0x10000) (ht : AtaTables l s.cpu.mem)
    (hvar : s.cpu.mem.read64 l.ata_channel_var = 0#64) {fuel : Nat}
    (hfuel : 0xB8001 ≤ fuel) (hlast : ∀ j < 4, last j ≤ fuel) :
    ∃ s', channel_loop l bus fuel s = some s'
      ∧ Visited l bus last ready s 4 s' := by
  have hstart : Visited l bus last ready s 0 s := by
    refine ⟨rfl, ht, ?_, fun i hi => by omega⟩
    exact (List.append_nil _).symm
  have hbelow : ∀ k v, k ≤ 2 →
      v.cpu.mem.read64 l.ata_channel_var = BitVec.ofNat 64 (2 * k) →
      qword_below l.ata_channel_var 0x4#64 v = decide (2 * k < 4) := by
    intro k v hk hv
    unfold qword_below
    rw [hv, slt_lit (by rw [toNat_lit (by omega)]; omega) (by omega),
      toNat_lit (by omega)]
  have hloop : ∃ s', Loop.finish (qword_below l.ata_channel_var 0x4#64)
      (channel_round l bus fuel) fuel s = some s'
        ∧ Visited l bus last ready s (2 * 2) s'
        ∧ s'.cpu.mem.read64 l.ata_channel_var = BitVec.ofNat 64 (2 * 2) := by
    refine Loop.finish_counted (fun k v => Visited l bus last ready s (2 * k) v
      ∧ v.cpu.mem.read64 l.ata_channel_var = BitVec.ofNat 64 (2 * k))
      (by omega) ?_ ?_ ?_ (by omega) ⟨hstart, hvar⟩
    · rintro k v hk ⟨hv, hvk⟩
      exact channel_round_spec ha hs hv hvk hk hfuel hlast
    · rintro k v - hk ⟨-, hvk⟩
      rw [hbelow k v (by omega) hvk]
      exact decide_eq_true (by omega)
    · rintro v ⟨-, hvk⟩
      rw [hbelow 2 v (Nat.le_refl 2) hvk]
      rfl
  obtain ⟨s', hs', hvisited, -⟩ := hloop
  exact ⟨s', hs', hvisited⟩

-- =============================================================== the result

theorem mem_loopReports {r : AtaReport} :
    r ∈ (List.range 4).map (loopReport l last ready)
      ↔ ∃ j < 4, loopReport l last ready j = r := by
  rw [List.mem_map]
  exact exists_congr fun j => and_congr_left' List.mem_range

/-- The transfers in the lines. -/
theorem transfer_mem_iff {base : BitVec 16} {selector : BitVec 8}
    {polls : Nat} {buffer : BitVec 64} :
    AtaReport.transfer base selector polls buffer
        ∈ (List.range 4).map (loopReport l last ready)
      ↔ ∃ j < 4, ready j = true ∧ base = loopBase j
        ∧ selector = loopSelector j ∧ polls = last j + 1
        ∧ buffer = loopSlot l j := by
  rw [mem_loopReports]
  refine exists_congr fun j => and_congr_right' ?_
  unfold loopReport
  cases hr : ready j with
  | true =>
      rw [if_pos rfl]
      constructor
      · intro heq
        cases heq
        exact ⟨rfl, rfl, rfl, rfl, rfl⟩
      · rintro ⟨-, rfl, rfl, rfl, rfl⟩
        rfl
  | false =>
      rw [if_neg Bool.false_ne_true]
      constructor
      · intro heq
        cases heq
      · rintro ⟨heq, -⟩
        cases heq

/-- Any two slots share bytes. -/
theorem slots_overlap {i : Nat} (hi : i < 4) (hj : j < 4) :
    ¬ Area.Disjoint ⟨(loopSlot l i).toNat, 512⟩ ⟨(loopSlot l j).toNat, 512⟩ := by
  have hsi := loopSlot_toNat l hi
  have hsj := loopSlot_toNat l hj
  intro h
  refine h (l.ata_identify_buffer.toNat + 2) ⟨⟨?_, ?_⟩, ⟨?_, ?_⟩⟩
  · show (loopSlot l i).toNat ≤ _
    omega
  · show _ < (loopSlot l i).toNat + 512
    omega
  · show (loopSlot l j).toNat ≤ _
    omega
  · show _ < (loopSlot l j).toNat + 512
    omega

/-- The lines' areas share nothing exactly when there is one at most. -/
theorem areas_apart_iff :
    (((List.range 4).map (loopReport l last ready)).filterMap
        AtaReport.area?).Pairwise Area.Disjoint
      ↔ ∀ i j, i < j → j < 4 → ¬ (ready i = true ∧ ready j = true) := by
  have harea : ∀ k, (loopReport l last ready k).area?
      = if ready k then some ⟨(loopSlot l k).toNat, 512⟩ else none := by
    intro k
    unfold loopReport
    cases ready k with
    | true => rfl
    | false => rfl
  rw [List.pairwise_filterMap, List.pairwise_map, List.pairwise_iff_getElem]
  simp only [List.length_range, List.getElem_range, harea]
  constructor
  · rintro h i j hij hj ⟨hri, hrj⟩
    refine slots_overlap (l := l) (i := i) (j := j) (by omega) hj ?_
    refine h i j (by omega) hj hij _ ?_ _ ?_
    · rw [hri, if_pos rfl]
    · rw [hrj, if_pos rfl]
  · intro h i j hi hj hij a ha b hb
    exfalso
    refine h i j hij hj ⟨?_, ?_⟩
    · by_contra hri
      rw [if_neg hri] at ha
      cases ha
    · by_contra hrj
      rw [if_neg hrj] at hb
      cases hb

/-- What the loops have left, for the drives there are. -/
theorem Visited.kept_iff (ha : Answered bus last ready)
    (h : Visited l bus last ready s₀ 4 s) :
    DrivesKept l bus ((List.range 4).map (loopReport l last ready)) s.cpu.mem
      ↔ ∀ i j, i < j → j < 4 → ¬ (ready i = true ∧ ready j = true) := by
  constructor
  · exact fun hkept => areas_apart_iff.1 hkept.apart
  · intro hone
    refine ⟨fun j hj hp => ?_, ?_, areas_apart_iff.2 hone, ?_⟩
    · exact ⟨_, _, transfer_mem_iff.2
        ⟨j, hj, (ha.present hj).1 hp, rfl, rfl, rfl, rfl⟩⟩
    · intro base selector polls buffer hmem
      obtain ⟨j, hj, -, -, -, -, rfl⟩ := transfer_mem_iff.1 hmem
      have hslot := loopSlot_toNat l hj
      omega
    · intro base selector polls buffer hmem
      obtain ⟨j, hj, hr, rfl, rfl, -, rfl⟩ := transfer_mem_iff.1 hmem
      refine h.block j hj hr fun k hjk hk => ?_
      exact Bool.eq_false_iff.2 fun hrk => hone j k hjk hk ⟨hr, hrk⟩

/-- The loops' outcome, by how the drives' statuses end. -/
theorem keepsDrives_iff_ready (ha : Answered bus last ready)
    (hs : 0x5100 + 240 ≤ (s.cpu.reg .rsp).toNat
      ∧ (s.cpu.reg .rsp).toNat ≤ 0x10000) (ht : AtaTables l s.cpu.mem)
    (hvar : s.cpu.mem.read64 l.ata_channel_var = 0#64) :
    KeepsDrives l bus s
      ↔ ∀ i j, i < j → j < 4 → ¬ (ready i = true ∧ ready j = true) := by
  -- enough for the printing and for every drive's statuses
  obtain ⟨bound, hbound, hlast⟩ : ∃ bound, 0xB8001 ≤ bound
      ∧ ∀ j < 4, last j ≤ bound := by
    refine ⟨0xB8001 + last 0 + last 1 + last 2 + last 3, by omega,
      fun j hj => ?_⟩
    have hcases : j = 0 ∨ j = 1 ∨ j = 2 ∨ j = 3 := by omega
    rcases hcases with rfl | rfl | rfl | rfl <;> omega
  have hvisits : ∀ fuel, bound ≤ fuel → ∃ s',
      channel_loop l bus fuel s = some s' ∧ Visited l bus last ready s 4 s' :=
    fun fuel hfuel => channel_loop_visits ha hs ht hvar (by omega)
      fun j hj => Nat.le_trans (hlast j hj) hfuel
  constructor
  · rintro ⟨bound', hkeeps⟩
    obtain ⟨s', hs', hvisited⟩ := hvisits (max bound bound') (by omega)
    obtain ⟨s'', calls, hcall, hrep, hkept⟩ :=
      hkeeps (max bound bound') (by omega)
    rw [hs'] at hcall
    cases hcall
    rw [hvisited.reports] at hrep
    rw [← List.append_cancel_left hrep] at hkept
    exact (hvisited.kept_iff ha).1 hkept
  · intro hone
    refine ⟨bound, fun fuel hfuel => ?_⟩
    obtain ⟨s', hs', hvisited⟩ := hvisits fuel hfuel
    exact ⟨s', _, hs', hvisited.reports, (hvisited.kept_iff ha).2 hone⟩

/-- The identify data of every drive is kept exactly when there is one
drive at most. The drives' statuses must end, or the loops do not. -/
theorem drives_kept_iff (L : Layout) (l : AtaLabels L) (bus : AtaBus)
    (s : Ata) (hs : 0x5100 + 240 ≤ (s.cpu.reg .rsp).toNat
      ∧ (s.cpu.reg .rsp).toNat ≤ 0x10000) (ht : AtaTables l s.cpu.mem)
    (hvar : s.cpu.mem.read64 l.ata_channel_var = 0#64)
    (hd : ∀ j < 4, ∃ n ready, Settles (loopDrive bus j).status n ready) :
    KeepsDrives l bus s
      ↔ ∀ i j, i < j → j < 4 →
        ¬ (Present (loopDrive bus i) ∧ Present (loopDrive bus j)) := by
  choose! last ready ha using hd
  have ha' : Answered bus last ready := ha
  rw [keepsDrives_iff_ready ha' hs ht hvar]
  refine forall₂_congr fun i j => forall₂_congr fun hij hj => ?_
  rw [ha'.present (by omega), ha'.present hj]

-- ============================================================== instances

/-- The tables where the labels have them, in otherwise empty memory. -/
def ataMem : Mem := fun b =>
  if b = 0x12006#64 then 0xF0#8
  else if b = 0x12007#64 then 0x01#8
  else if b = 0x12008#64 then 0x70#8
  else if b = 0x12009#64 then 0x01#8
  else if b = 0x1200F#64 then 0xA0#8
  else if b = 0x12010#64 then 0xB0#8
  else 0#8

theorem ataMem_tables : AtaTables ataLabels ataMem :=
  ⟨by decide, by decide, by decide, by decide⟩

/-- The processor at the loops. -/
def ataLoops : Ata where
  cpu := ⟨fun _ => 0xB000#64, ataMem, []⟩
  port := fun _ => 0#8
  polls := 0
  words := 0
  reports := []

/-- A drive that is ready with the numbers of its words. -/
def numbered : DriveAnswers := ⟨fun _ => 0x58#8, BitVec.ofNat 16⟩

/-- No drive. -/
def absent : DriveAnswers := ⟨fun _ => 0#8, fun _ => 0#16⟩

theorem numbered_settles : Settles numbered.status 1 true := by
  have hgo : ¬ Refused numbered.status := by decide
  unfold Settles
  rw [if_neg hgo]
  refine ⟨by omega, fun k hk hk' => by omega, ?_⟩
  rw [if_pos rfl]
  decide

theorem absent_settles : Settles absent.status 0 false :=
  Refused.settles (by decide)

/-- One drive, the master of the secondary channel. -/
def oneDrive : AtaBus := fun base selector =>
  if base = ATA_SECONDARY_BASE_IO ∧ selector = ATA_MASTER_DRV_SELECTOR then
    numbered
  else absent

theorem oneDrive_eq : ∀ j < 4, loopDrive oneDrive j
    = if j = 2 then numbered else absent := by
  intro j hj
  have hcases : j = 0 ∨ j = 1 ∨ j = 2 ∨ j = 3 := by omega
  rcases hcases with rfl | rfl | rfl | rfl <;> rfl

theorem drives_kept_iff_sample : KeepsDrives ataLabels oneDrive ataLoops := by
  refine (drives_kept_iff assembledLayout ataLabels oneDrive ataLoops
    ⟨by decide, by decide⟩ ataMem_tables (by decide) fun j hj => ?_).2 ?_
  · rw [oneDrive_eq j hj]
    split
    · exact ⟨1, true, numbered_settles⟩
    · exact ⟨0, false, absent_settles⟩
  · rintro i j hij hj ⟨⟨n, hn⟩, ⟨m, hm⟩⟩
    rw [oneDrive_eq i (by omega)] at hn
    rw [oneDrive_eq j hj] at hm
    by_cases h2 : i = 2
    · rw [if_neg (by omega)] at hm
      cases (hm.unique absent_settles).2
    · rw [if_neg h2] at hn
      cases (hn.unique absent_settles).2

/-- With a drive at each position three blocks are lost. -/
theorem blocks_lost : ¬ ∀ (L : Layout) (l : AtaLabels L) (bus : AtaBus)
    (s : Ata), 0x5100 + 240 ≤ (s.cpu.reg .rsp).toNat
      ∧ (s.cpu.reg .rsp).toNat ≤ 0x10000 → AtaTables l s.cpu.mem →
    s.cpu.mem.read64 l.ata_channel_var = 0#64 →
    (∀ j < 4, ∃ n ready, Settles (loopDrive bus j).status n ready) →
    KeepsDrives l bus s := by
  intro h
  have ha : Answered (fun _ _ => numbered) (fun _ => 1) fun _ => true :=
    fun _ _ => numbered_settles
  have hs : 0x5100 + 240 ≤ (ataLoops.cpu.reg .rsp).toNat
      ∧ (ataLoops.cpu.reg .rsp).toNat ≤ 0x10000 := by decide
  have hvar : ataLoops.cpu.mem.read64 ataLabels.ata_channel_var = 0#64 := by
    decide
  have hkeeps := h assembledLayout ataLabels (fun _ _ => numbered) ataLoops hs
    ataMem_tables hvar fun j hj => ⟨1, true, ha j hj⟩
  exact (keepsDrives_iff_ready ha hs ataMem_tables hvar).1 hkeeps 0 1
    (by omega) (by omega) ⟨rfl, rfl⟩

end BootLoader.ThirdStage
