/-
The driver's ring indices over runs of sends and receptions.

# One call

`send_spec` and `process_spec` say what a call does to the indices, the
pointers and the card's tail registers when the word above the index it
advances is zero: for a send the low word of `e1000_rx_desc_ptr`, for a
reception the transmit index. That word is where the doubleword accesses of
`e1000_tx_cur` and `e1000_rx_cur` reach. A received packet is never taken
for an ARP packet: `network_stack` looks for the type in the descriptor,
where the status byte stands, and the status of a received packet is odd.

# Runs

`Rings` is the invariant over runs: each index is its count modulo 0x800,
the pointers are where `e1000_init_mem` put them, and each write to a tail
register had the index of its time.
-/
import BootLoader.ThirdStage.Proofs.NicCells

namespace BootLoader.ThirdStage

open FlatMemory Mem Words

variable {L : Layout} {l : NicLabels L} {p v : BitVec 64} {c d e : Cpu}
  {s s' : Nic}

-- ========================================================= the descriptors

/-- An index in a cleared register, times the size of a descriptor. -/
theorem index_scaled {i : Nat} (hi : i < 0x800) :
    (BitVec.ofNat 16 i).setWidth 64 <<< 4 = BitVec.ofNat 64 (16 * i) := by
  apply BitVec.eq_of_toNat_eq
  simp only [BitVec.toNat_shiftLeft, BitVec.toNat_setWidth,
    BitVec.toNat_ofNat, Nat.shiftLeft_eq]
  omega

/-- The operands of the send: the descriptor, its buffer, and the size. -/
theorem tx_operands_spec (hr : Ready l p v c.mem) {i : Nat} (hi : i < 0x800)
    (htx : c.mem.read16 l.e1000_tx_cur = BitVec.ofNat 16 i) :
    (tx_operands l c).mem = c.mem
      ∧ (tx_operands l c).reg .rsp = c.reg .rsp
      ∧ (tx_operands l c).reg .r9 = p + BitVec.ofNat 64 (0x8000 + 16 * i)
      ∧ (tx_operands l c).reg .rdi
        = p + BitVec.ofNat 64 (0x410000 + 0x800 * i)
      ∧ (tx_operands l c).reg .rcx = 0x800#64 := by
  have hdesc : p + 0x8000#64 + BitVec.ofNat 64 (16 * i)
      = p + BitVec.ofNat 64 (0x8000 + 16 * i) := by
    rw [BitVec.add_assoc, ← BitVec.ofNat_add]
  have hbuffer := hr.buffers i hi
  unfold tx_operands
  simp only [load16, Cpu.setLow16, Cpu.set_reg, Cpu.load64_reg,
    Cpu.reads_reg, Cpu.set_mem, Cpu.load64_mem, Cpu.reads_mem, reduceCtorEq,
    if_false, if_true, merge16_zero, htx, index_scaled hi, hr.tx_desc, hdesc,
    hbuffer, e1000_packet_size, and_self]

/-- The fields above the buffer's address in a transmit descriptor. -/
theorem tx_field_free (hp : RingRoom p) {i o n : Nat} (hi : i < 0x800)
    (hoff : 8 ≤ o) (hn : o + n ≤ 16) :
    (p + BitVec.ofNat 64 (0x8000 + 16 * i) + BitVec.ofNat 64 o).toNat + n
        ≤ 2 ^ 64
      ∧ ∀ b : BitVec 64, (p + BitVec.ofNat 64 (0x8000 + 16 * i)
          + BitVec.ofNat 64 o).toNat ≤ b.toNat →
        b.toNat < (p + BitVec.ofNat 64 (0x8000 + 16 * i)
          + BitVec.ofNat 64 o).toNat + n → ¬ Booked l p b := by
  have hcells := l.rx_cur_in
  have hbase := l.mem_base_in
  have hdesc := desc_toNat hp.2 (n := 0x8000 + 16 * i) (by omega)
  obtain ⟨hlo, hhi⟩ := hp
  have haddr : (p + BitVec.ofNat 64 (0x8000 + 16 * i)
      + BitVec.ofNat 64 o).toNat = p.toNat + (0x8000 + 16 * i) + o := by
    rw [toNat_add_lit (by omega), hdesc]
  refine ⟨by omega, ?_⟩
  intro b hb1 hb2
  rintro (h | h | h) <;> omega

theorem tx_describe_keeps (hp : RingRoom p) {i : Nat} (hi : i < 0x800)
    (h9 : c.reg .r9 = p + BitVec.ofNat 64 (0x8000 + 16 * i)) :
    Keeps l p c (tx_describe l c)
      ∧ (tx_describe l c).reg .r9 = c.reg .r9 := by
  obtain ⟨hs1, hs2⟩ := tx_field_free (l := l) hp hi (o := 12) (n := 1)
    (by omega) (by omega)
  obtain ⟨hc1, hc2⟩ := tx_field_free (l := l) hp hi (o := 11) (n := 1)
    (by omega) (by omega)
  obtain ⟨hl1, hl2⟩ := tx_field_free (l := l) hp hi (o := 8) (n := 2)
    (by omega) (by omega)
  rw [← h9] at hs1 hs2 hc1 hc2 hl1 hl2
  have hstatus : Keeps l p c (c.store8 (c.reg .r9 + descStatus) 0x0#8) :=
    (Keeps.refl c).write (n := 1) rfl rfl hs1 hs2
  have hcmd : Keeps l p c ((c.store8 (c.reg .r9 + descStatus) 0x0#8).store8
      (c.reg .r9 + descCmd) txCommand) :=
    hstatus.write (n := 1) rfl rfl hc1 hc2
  have hlen := load16_keeps hcmd (by decide : Reg.rbx ≠ .rsp)
    l.e1000_send_packet_len
  exact ⟨hlen.write (n := 2) rfl rfl hl1 hl2, rfl⟩

/-- The send's work on memory stays in the descriptor and its buffer. -/
theorem tx_fill_keeps (hp : RingRoom p) (hr : Ready l p v c.mem) {i : Nat}
    (hi : i < 0x800)
    (htx : c.mem.read16 l.e1000_tx_cur = BitVec.ofNat 16 i) :
    Keeps l p c (tx_fill l c)
      ∧ (tx_fill l c).reg .r9 = p + BitVec.ofNat 64 (0x8000 + 16 * i) := by
  obtain ⟨hmem, hrsp, hr9, hdi, hcx⟩ := tx_operands_spec hr hi htx
  have hcells := l.rx_cur_in
  have hbase := l.mem_base_in
  have hbuf := desc_toNat hp.2 (n := 0x410000 + 0x800 * i) (by omega)
  obtain ⟨hlo, hhi⟩ := id hp
  unfold tx_fill rep_movsb
  generalize tx_operands l c = c₁ at hmem hrsp hr9 hdi hcx
  rw [show (c₁.reg .rcx).toNat = 0x800 by rw [hcx]; rfl]
  obtain ⟨hreg, hcopy⟩ := times_move moveRound_movsb 0x800 c₁
    (by rw [hdi]; omega)
  have hk : Keeps l p c (Loop.times movsb 0x800 c₁) := by
    refine ⟨(hreg _ (by decide) (by decide) (by decide)).trans hrsp, ?_⟩
    intro a ha
    rw [hcopy a (by rw [hdi]; rcases ha with ha | ha | ha <;> omega), hmem]
  have h9 := (hreg .r9 (by decide) (by decide) (by decide)).trans hr9
  generalize Loop.times movsb 0x800 c₁ = c₂ at hk h9
  obtain ⟨hk', h9'⟩ := tx_describe_keeps (l := l) hp hi h9
  exact ⟨hk.trans hk', h9'.trans h9⟩

-- ========================================================= the tail registers

/-- The index and the word above it as the tail register gets them. -/
theorem update_tail_spec (hp : RingRoom p) (hs : StackOk s.cpu)
    (reg : BitVec 16) {o : Nat} (hoff : o + 4 ≤ 52) :
    Keeps l p s.cpu
        (update_tail l reg (l.e1000_rx_cur + BitVec.ofNat 64 o) s).cpu
      ∧ (∀ a : BitVec 64, 0x20000 ≤ a.toNat →
        (update_tail l reg (l.e1000_rx_cur + BitVec.ofNat 64 o) s).cpu.mem a
          = s.cpu.mem a)
      ∧ (∀ r, r ≠ .r8 →
        (update_tail l reg (l.e1000_rx_cur + BitVec.ofNat 64 o) s).cpu.reg r
          = s.cpu.reg r)
      ∧ (update_tail l reg (l.e1000_rx_cur + BitVec.ofNat 64 o) s).sent
        = s.sent
      ∧ (update_tail l reg (l.e1000_rx_cur + BitVec.ofNat 64 o) s).received
        = s.received
      ∧ (update_tail l reg (l.e1000_rx_cur + BitVec.ofNat 64 o) s).updates
        = s.updates
      ∧ (Mapped l s.cpu.mem →
        (update_tail l reg (l.e1000_rx_cur + BitVec.ofNat 64 o) s).out
          = s.out ++ [⟨.mmio (reg.setWidth 64
              + s.cpu.mem.read64 l.e1000_vaddress),
            s.cpu.mem.read32 (l.e1000_rx_cur + BitVec.ofNat 64 o), s.sent,
            s.received⟩]) := by
  have hcur := rx_cur_add_toNat l (n := o) (by omega)
  have haddr := rw_address_toNat l
  have hdata := rw_data_toNat l
  have hbase := l.mem_base_in
  have hcells := l.rx_cur_in
  have hruns := l.runs_apart
  generalize hcureq : l.e1000_rx_cur + BitVec.ofNat 64 o = cur at *
  -- the machine at the call of `e1000_write_command`
  let c₁ := s.cpu.store16 l.e1000_rw_address reg
  let c₂ := load32 c₁ .r8 cur
  let c₃ := c₂.store32 l.e1000_rw_data (c₂.low32 .r8)
  have heq : update_tail l reg cur s
      = e1000_write_command l { s with cpu := c₃ } := rfl
  have hk : Keeps l p s.cpu c₃ :=
    (load32_keeps ((Keeps.refl s.cpu).store_rw_address hp reg) (by decide)
      cur).store_rw_data hp _
  have hs₃ : StackOk c₃ := hs
  obtain ⟨⟨hreg, hsent, hrecv, hupd⟩, hmem, hout⟩ := write_command_spec l
    (s := { s with cpu := c₃ }) hs₃
  rw [heq]
  refine ⟨hk.trans ⟨by rw [hreg], fun a ha => hmem a ?_⟩, ?_, ?_, hsent,
    hrecv, hupd, ?_⟩
  · rcases ha.place hp with h | h <;> omega
  · intro a ha
    refine (hmem a (by omega)).trans ?_
    refine (write_apply_of_out (n := 4) _ _ (by omega) (by omega)).trans ?_
    exact write_apply_of_out (n := 2) _ _ (by omega) (by omega)
  · intro r hr
    rw [hreg]
    exact Cpu.set_reg_of_ne hr
  · intro hmapped
    rw [hout (hk.mapped.2 hmapped)]
    have hreg16 : c₃.mem.read16 l.e1000_rw_address = reg := by
      refine (read_write_of_disjoint (n := 4) (k := 2) _ _ (by omega)
        (by omega) (by omega)).trans ?_
      exact read_write_self (n := 2) _ _ _ (by omega)
    have hread : c₁.mem.read32 cur = s.cpu.mem.read32 cur :=
      read_write_of_disjoint (n := 2) (k := 4) _ _ (by omega) (by omega)
        (by omega)
    have hval : c₃.mem.read32 l.e1000_rw_data = s.cpu.mem.read32 cur := by
      refine (read_write_self (n := 4) _ _ _ (by omega)).trans ?_
      show (c₂.reg .r8).extractLsb' 0 32 = _
      rw [show c₂.reg .r8 = (c₁.mem.read32 cur).setWidth 64 from
        Cpu.set_reg_self _ _ _, low32_zeroExtend, hread]
    show _ ++ [DeviceWrite.mk (.mmio ((c₃.mem.read16 _).setWidth 64
      + c₃.mem.read64 _)) (c₃.mem.read32 _) _ _] = _
    rw [hreg16, hval, hk.vaddress]

-- ============================================================== the indices

/-- The rings with the transmit index at `i` and the receive index at
`j`. -/
structure RingsAt (l : NicLabels L) (p v : BitVec 64) (i j : Nat) (m : Mem) :
    Prop where
  ready : Ready l p v m
  tx : m.read16 l.e1000_tx_cur = BitVec.ofNat 16 i
  rx : m.read16 l.e1000_rx_cur = BitVec.ofNat 16 j

variable {i j : Nat}

theorem Keeps.ringsAt (hp : RingRoom p) (h : Keeps l p c d)
    (hr : RingsAt l p v i j c.mem) : RingsAt l p v i j d.mem :=
  ⟨h.ready hp hr.ready, h.tx_cur.trans hr.tx, h.rx_cur.trans hr.rx⟩

/-- The word above the transmit index. -/
theorem tx_cur_next (l : NicLabels L) :
    l.e1000_tx_cur + 2#64 = l.e1000_rx_desc_ptr := by
  unfold NicLabels.e1000_tx_cur NicLabels.e1000_rx_desc_ptr
  rw [BitVec.add_assoc]
  rfl

/-- Memory as an advance of one of the indices leaves it. -/
structure Elsewhere (l : NicLabels L) (c d : Cpu) : Prop where
  rsp : d.reg .rsp = c.reg .rsp
  mem : ∀ a : BitVec 64, a.toNat < l.e1000_rx_cur.toNat
    ∨ l.e1000_rx_cur.toNat + 4 ≤ a.toNat → d.mem a = c.mem a

theorem Elsewhere.read (h : Elsewhere l c d) {a : BitVec 64} {n : Nat}
    (hn : a.toNat + n ≤ 2 ^ 64) (hout : a.toNat + n ≤ l.e1000_rx_cur.toNat
      ∨ l.e1000_rx_cur.toNat + 4 ≤ a.toNat) :
    d.mem.read a n = c.mem.read a n :=
  read_congr_bytes hn fun b hlo hhi => h.mem b (by omega)

theorem Elsewhere.var (h : Elsewhere l c d) {o n : Nat} (hoff : 4 ≤ o)
    (hn : o + n ≤ 60) :
    d.mem.read (l.e1000_rx_cur + BitVec.ofNat 64 o) n
      = c.mem.read (l.e1000_rx_cur + BitVec.ofNat 64 o) n := by
  have hcells := l.rx_cur_in
  rcases Nat.lt_or_ge o 60 with hlt | hge
  · have haddr := rx_cur_add_toNat l (n := o) hlt
    exact h.read (by omega) (by omega)
  · obtain rfl : n = 0 := by omega
    rfl

/-- The pointers and the descriptors do not depend on the indices. -/
theorem Elsewhere.ready (hp : RingRoom p) (h : Elsewhere l c d)
    (hr : Ready l p v c.mem) : Ready l p v d.mem where
  vaddress := by
    have hbase := l.mem_base_in
    have haddr := vaddress_toNat l
    have hruns := l.runs_apart
    exact (@Elsewhere.read L l c d h l.e1000_vaddress 8 (by omega)
      (by omega)).trans hr.vaddress
  rx_desc := (h.var (o := 4) (n := 8) (by omega) (by omega)).trans hr.rx_desc
  tx_desc := (h.var (o := 12) (n := 8) (by omega) (by omega)).trans
    hr.tx_desc
  rx_packets := (h.var (o := 20) (n := 8) (by omega) (by omega)).trans
    hr.rx_packets
  tx_packets := (h.var (o := 28) (n := 8) (by omega) (by omega)).trans
    hr.tx_packets
  recv_packet := (h.var (o := 36) (n := 8) (by omega) (by omega)).trans
    hr.recv_packet
  send_packet := (h.var (o := 44) (n := 8) (by omega) (by omega)).trans
    hr.send_packet
  buffers := by
    intro n hn
    have haddr := desc_toNat hp.2 (n := 0x8000 + 16 * n) (by omega)
    have hcells := l.rx_cur_in
    obtain ⟨hlo, hhi⟩ := hp
    exact (@Elsewhere.read L l c d h _ 8 (by omega) (by omega)).trans
      (hr.buffers n hn)

theorem Elsewhere.mapped (h : Elsewhere l c d) :
    Mapped l d.mem ↔ Mapped l c.mem := by
  have hbase := l.mem_base_in
  have haddr := ioport_flag_toNat l
  have hruns := l.runs_apart
  unfold Mapped
  rw [h.mem _ (by omega)]

/-- A packet more in the transmit ring. -/
theorem RingsAt.advance_tx (hp : RingRoom p) (hr : RingsAt l p v i j c.mem)
    (hi : i < 0x800)
    (hclear : c.mem.read16 l.e1000_rx_desc_ptr = 0#16 ∨ i + 1 < 0x800) :
    RingsAt l p v ((i + 1) % 0x800) j (advance_index l.e1000_tx_cur c).mem
      ∧ Elsewhere l c (advance_index l.e1000_tx_cur c)
      ∧ (advance_index l.e1000_tx_cur c).reg = c.reg
      ∧ (advance_index l.e1000_tx_cur c).mem.read16 l.e1000_rx_desc_ptr
        = c.mem.read16 l.e1000_rx_desc_ptr := by
  have hcells := l.rx_cur_in
  have htx : l.e1000_tx_cur.toNat = l.e1000_rx_cur.toNat + 2 :=
    rx_cur_add_toNat l (by omega)
  obtain ⟨hval, hreg, hmem⟩ := advance_index_spec (c := c) (by omega) hi hr.tx
    (by rw [tx_cur_next]; exact hclear)
  have helse : Elsewhere l c (advance_index l.e1000_tx_cur c) :=
    ⟨by rw [hreg], fun a ha => hmem a (by omega)⟩
  refine ⟨⟨helse.ready hp hr.ready, hval, ?_⟩, helse, hreg, ?_⟩
  · refine Eq.trans ?_ hr.rx
    exact read_congr_bytes (n := 2) (by omega) fun a _ ha =>
      hmem a (by omega)
  · exact helse.var (o := 4) (n := 2) (by omega) (by omega)

/-- A packet less in the receive ring. The wrap takes the transmit index
back to 0. -/
theorem RingsAt.advance_rx (hp : RingRoom p) (hr : RingsAt l p v i j c.mem)
    (hj : j < 0x800) :
    ∃ i', (i' = i ∨ i' = 0)
      ∧ RingsAt l p v i' ((j + 1) % 0x800)
        (advance_index l.e1000_rx_cur c).mem
      ∧ Elsewhere l c (advance_index l.e1000_rx_cur c)
      ∧ (advance_index l.e1000_rx_cur c).reg = c.reg := by
  have hcells := l.rx_cur_in
  have htx : l.e1000_tx_cur.toNat = l.e1000_rx_cur.toNat + 2 :=
    rx_cur_add_toNat l (by omega)
  by_cases hlast : j + 1 < 0x800
  · obtain ⟨hval, hreg, hmem⟩ := advance_index_spec (c := c) (by omega) hj
      hr.rx (Or.inr hlast)
    have helse : Elsewhere l c (advance_index l.e1000_rx_cur c) :=
      ⟨by rw [hreg], fun a ha => hmem a (by omega)⟩
    refine ⟨i, Or.inl rfl, ⟨helse.ready hp hr.ready, ?_, hval⟩, helse, hreg⟩
    refine Eq.trans ?_ hr.tx
    exact read_congr_bytes (n := 2) (by omega) fun a hlo _ =>
      hmem a (by omega)
  · obtain rfl : j = 0x7FF := by omega
    obtain ⟨hval, habove, hreg, hmem⟩ := advance_index_wrap (c := c)
      (by omega) hr.rx
    have helse : Elsewhere l c (advance_index l.e1000_rx_cur c) :=
      ⟨by rw [hreg], hmem⟩
    exact ⟨0, Or.inr rfl, ⟨helse.ready hp hr.ready, habove, hval⟩, helse,
      hreg⟩

-- ================================================================= sending

/-- Work on memory that leaves the bookkeeping alone. -/
def Leaves (l : NicLabels L) (p : BitVec 64) (f : Mem → Mem) : Prop :=
  ∀ m a, Booked l p a → f m a = m a

theorem Leaves.keeps {f : Mem → Mem} (h : Leaves l p f) (s : Nic) :
    Keeps l p s.cpu (s.dma f).cpu :=
  ⟨rfl, fun a ha => h s.cpu.mem a ha⟩

/-- No packet counted, nothing written to the card. -/
structure Silent (s s' : Nic) : Prop where
  out : s'.out = s.out
  sent : s'.sent = s.sent
  received : s'.received = s.received
  updates : s'.updates = s.updates

theorem Silent.refl (s : Nic) : Silent s s := ⟨rfl, rfl, rfl, rfl⟩

theorem Silent.trans {s'' : Nic} (h : Silent s s') (h' : Silent s' s'') :
    Silent s s'' :=
  ⟨h'.out.trans h.out, h'.sent.trans h.sent, h'.received.trans h.received,
    h'.updates.trans h.updates⟩

/-- The wait for the card. -/
theorem wait_sent_spec (polls : List Dma) :
    ∀ {s s' : Nic}, (∀ f ∈ polls, Leaves l p f) →
      wait_sent polls s = some s' → Keeps l p s.cpu s'.cpu ∧ Silent s s' := by
  induction polls with
  | nil =>
      intro s s' _ h
      cases h
  | cons f polls ih =>
      intro s s' hp h
      have hstep : Keeps l p s.cpu ((s.dma f).run fun c =>
          c.reads (c.reg .r9 + descStatus) 1).cpu :=
        ((hp f List.mem_cons_self).keeps s).reads _ _
      unfold wait_sent at h
      simp only at h
      split at h
      · obtain ⟨hk, hsil⟩ := ih (fun g hg => hp g (List.mem_cons_of_mem _ hg))
          h
        exact ⟨hstep.trans hk, ⟨hsil.out, hsil.sent, hsil.received,
          hsil.updates⟩⟩
      · obtain rfl := Option.some.inj h
        exact ⟨hstep, ⟨rfl, rfl, rfl, rfl⟩⟩

theorem sent_msg_length : e1000_sent_packet_msg.length ≤ 30 := by
  unfold e1000_sent_packet_msg ascii
  rw [List.length_append, List.length_map, String.length_toList]
  decide

/-- The rings after a register save. -/
theorem pushaq_rings (hp : RingRoom p) (hs : StackOk c)
    (hr : RingsAt l p v i j c.mem) :
    RingsAt l p v i j c.pushaq.mem ∧ (Mapped l c.pushaq.mem ↔ Mapped l c.mem)
      ∧ c.pushaq.mem.read16 l.e1000_rx_desc_ptr
        = c.mem.read16 l.e1000_rx_desc_ptr := by
  -- but for RSP a save keeps the bookkeeping
  have hk : Keeps l p c { c.pushaq with reg := c.reg } :=
    ⟨rfl, fun a ha => pushaq_kept hp hs ha⟩
  have hrings := hk.ringsAt hp hr
  exact ⟨hrings, hk.mapped,
    hk.var (o := 4) (n := 2) (by omega) (by omega)⟩

/-- A packet in the ring, the index not yet told to the card. -/
def queued (l : NicLabels L) (s : Nic) : Nic :=
  { s with
    cpu := advance_index l.e1000_tx_cur (tx_fill l s.cpu.pushaq)
    sent := s.sent + 1 }

theorem send_eq (l : NicLabels L) (polls : List Dma) (s : Nic) :
    e1000_send_out_packet l polls s
      = (wait_sent polls
          (update_tail l REG_TXDESCTAIL l.e1000_tx_cur (queued l s))).map
        fun s => (s.run (print L l.e1000_sent_packet_msg
          e1000_sent_packet_msg)).run Cpu.popaq := by
  unfold e1000_send_out_packet queued
  simp only [Nic.run]
  exact Option.map_eq_bind.symm

/-- `e1000_send_out_packet`, from the transmit index `i`: the index
advances, and the tail register gets it under the word above it. -/
theorem send_spec (hp : RingRoom p) (hs : StackRoom 240 s.cpu)
    (hr : RingsAt l p v i j s.cpu.mem) (hi : i < 0x800)
    (hclear : s.cpu.mem.read16 l.e1000_rx_desc_ptr = 0#16 ∨ i + 1 < 0x800)
    (hmapped : Mapped l s.cpu.mem) {polls : List Dma}
    (hpolls : ∀ f ∈ polls, Leaves l p f)
    (h : e1000_send_out_packet l polls s = some s') :
    RingsAt l p v ((i + 1) % 0x800) j s'.cpu.mem
      ∧ Mapped l s'.cpu.mem
      ∧ s'.sent = s.sent + 1 ∧ s'.received = s.received
      ∧ s'.updates = s.updates
      ∧ s'.out = s.out ++ [⟨.mmio (REG_TXDESCTAIL.setWidth 64 + v),
        s.cpu.mem.read16 l.e1000_rx_desc_ptr
          ++ BitVec.ofNat 16 ((i + 1) % 0x800), s.sent + 1, s.received⟩] := by
  rw [send_eq] at h
  obtain ⟨s₅, hwait, rfl⟩ := Option.map_eq_some_iff.1 h
  -- up to the index
  have hs₁ : StackRoom 120 s.cpu.pushaq := hs.pushaq
  obtain ⟨hr₁, hmap₁, hword₁⟩ := pushaq_rings hp hs.stackOk hr
  obtain ⟨hk₂, -⟩ := tx_fill_keeps hp hr₁.ready hi hr₁.tx
  have hr₂ := hk₂.ringsAt hp hr₁
  have hword₂ : (tx_fill l s.cpu.pushaq).mem.read16 l.e1000_rx_desc_ptr
      = s.cpu.mem.read16 l.e1000_rx_desc_ptr :=
    (hk₂.var (o := 4) (n := 2) (by omega) (by omega)).trans hword₁
  obtain ⟨hr₃, helse, hreg₃, hword₃⟩ := hr₂.advance_tx hp hi
    (by rw [hword₂]; exact hclear)
  -- the tail register
  have hs₃ : StackRoom 120 (queued l s).cpu := by
    show StackRoom 120 (advance_index l.e1000_tx_cur _)
    unfold StackRoom
    rw [hreg₃]
    exact hs₁.of_keeps hk₂
  have hmap₃ : Mapped l (queued l s).cpu.mem :=
    helse.mapped.2 (hk₂.mapped.2 (hmap₁.2 hmapped))
  obtain ⟨hk₄, -, -, hsent, hrecv, hupd, hout⟩ := update_tail_spec
    (s := queued l s) hp hs₃.stackOk REG_TXDESCTAIL (o := 2) (by omega)
  -- the wait and the message
  have htx : l.e1000_rx_cur + BitVec.ofNat 64 2 = l.e1000_tx_cur := rfl
  rw [htx] at hk₄ hsent hrecv hupd hout
  generalize update_tail l REG_TXDESCTAIL l.e1000_tx_cur (queued l s) = s₄
    at *
  obtain ⟨hk₅, hsil⟩ := wait_sent_spec polls hpolls hwait
  have hs₅ : StackRoom 120 s₅.cpu := (hs₃.of_keeps hk₄).of_keeps hk₅
  obtain ⟨hk₆, -⟩ := print_keeps (l := l) hp hs₅.stackOk
    l.e1000_sent_packet_msg e1000_sent_packet_msg (l.strings_in _ (by simp))
    sent_msg_length
  have hk := (hk₄.trans hk₅).trans hk₆
  refine ⟨?_, ?_, hsil.sent.trans hsent, hsil.received.trans hrecv,
    hsil.updates.trans hupd, ?_⟩
  · show RingsAt l p v _ _ (Cpu.popaq _).mem
    rw [Cpu.popaq_mem]
    exact hk.ringsAt hp hr₃
  · show Mapped l (Cpu.popaq _).mem
    rw [Cpu.popaq_mem]
    exact hk.mapped.2 hmap₃
  · refine (hsil.out.trans (hout hmap₃)).trans ?_
    show s.out ++ [DeviceWrite.mk (.mmio (_ + Mem.read64 _ _))
      (Mem.read32 (advance_index l.e1000_tx_cur _).mem l.e1000_tx_cur) _ _]
      = _
    unfold queued
    rw [hr₃.ready.vaddress, read32_split, tx_cur_next, hword₃, hword₂, hr₃.tx]

-- =============================================================== receiving

/-- The look at the current receive descriptor. -/
theorem rx_look_spec (hr : RingsAt l p v i j c.mem) (hj : j < 0x800) :
    (rx_look l c).mem = c.mem ∧ (rx_look l c).reg .rsp = c.reg .rsp
      ∧ (rx_look l c).reg .r9 = p + BitVec.ofNat 64 (16 * j)
      ∧ (rx_look l c).low8 .rax
        = c.mem (p + BitVec.ofNat 64 (16 * j) + descStatus) &&& 1#8 := by
  unfold rx_look
  refine ⟨rfl, ?_, ?_, ?_⟩
  · simp only [load16, load8, Cpu.setLow16, Cpu.setLow8, Cpu.set_reg,
      Cpu.load64_reg, Cpu.reads_reg, reduceCtorEq, if_false]
  · simp only [load16, load8, Cpu.setLow16, Cpu.setLow8, Cpu.set_reg,
      Cpu.load64_reg, Cpu.reads_reg, Cpu.set_mem, Cpu.load64_mem,
      Cpu.reads_mem, reduceCtorEq, if_false, if_true, merge16_zero, hr.rx,
      index_scaled hj, hr.ready.rx_desc]
  · rw [Cpu.low8_setLow8]
    unfold load8
    rw [Cpu.low8_setLow8]
    simp only [load16, Cpu.setLow16, Cpu.set_reg, Cpu.load64_reg,
      Cpu.reads_reg, Cpu.set_mem, Cpu.load64_mem, Cpu.reads_mem,
      reduceCtorEq, if_false, if_true, merge16_zero, hr.rx, index_scaled hj,
      hr.ready.rx_desc]

theorem rx_operands_spec (hr : RingsAt l p v i j c.mem) :
    (rx_operands l c).mem = c.mem
      ∧ (rx_operands l c).reg .rsp = c.reg .rsp
      ∧ (rx_operands l c).reg .r9 = c.reg .r9
      ∧ (rx_operands l c).reg .rdi = p + 0x810000#64
      ∧ (rx_operands l c).reg .rcx = 8#64
      ∧ (rx_operands l c).reg .rsi = c.mem.read64 (c.reg .r9) := by
  unfold rx_operands
  simp only [Cpu.set_reg, Cpu.load64_reg, Cpu.set_mem, Cpu.load64_mem,
    reduceCtorEq, if_false, if_true, hr.ready.recv_packet, true_and,
    and_true]
  rfl

/-- Memory past the first 64 bytes of the packet buffer, or before it. -/
def OffPacket (p a : BitVec 64) : Prop :=
  a.toNat < p.toNat + 0x810000 ∨ p.toNat + 0x810040 ≤ a.toNat

/-- The fetch writes the head of the packet buffer and the length. -/
theorem rx_fetch_spec (hp : RingRoom p) (hr : RingsAt l p v i j c.mem) :
    Keeps l p c (rx_fetch l c) ∧ (rx_fetch l c).reg .r9 = c.reg .r9
      ∧ ∀ a : BitVec 64, 0x100000 ≤ a.toNat → OffPacket p a →
        (rx_fetch l c).mem a = c.mem a := by
  obtain ⟨hmem, hrsp, hr9, hdi, hcx, -⟩ := rx_operands_spec hr
  have hcells := l.rx_cur_in
  have hbase := l.mem_base_in
  have hruns := l.runs_apart
  have hlen : l.e1000_recv_packet_len.toNat = l.e1000_rx_cur.toNat + 52 :=
    rx_cur_add_toNat l (by omega)
  have hbuf : (p + 0x810000#64).toNat = p.toNat + 0x810000 :=
    desc_toNat hp.2 (by omega)
  obtain ⟨hlo, hhi⟩ := id hp
  unfold rx_fetch rep_movsq
  generalize rx_operands l c = c₁ at hmem hrsp hr9 hdi hcx
  rw [show (c₁.reg .rcx).toNat = 8 by rw [hcx]; rfl]
  obtain ⟨hreg, hcopy⟩ := times_move moveRound_movsq 8 c₁
    (by rw [hdi]; omega)
  have hk : Keeps l p c (Loop.times movsq 8 c₁) := by
    refine ⟨(hreg _ (by decide) (by decide) (by decide)).trans hrsp, ?_⟩
    intro a ha
    rw [hcopy a (by rw [hdi]; rcases ha with ha | ha | ha <;> omega), hmem]
  have h9 := (hreg .r9 (by decide) (by decide) (by decide)).trans hr9
  have hout : ∀ a : BitVec 64, OffPacket p a →
      (Loop.times movsq 8 c₁).mem a = c.mem a := by
    intro a ha
    unfold OffPacket at ha
    rw [hcopy a (by rw [hdi]; omega), hmem]
  generalize Loop.times movsq 8 c₁ = c₂ at hk h9 hout
  have hk' : Keeps l p c (rx_length l c₂) := by
    refine (load16_keeps hk (by decide : Reg.rbx ≠ .rsp)
      (c₂.reg .r9 + descLength)).write (n := 2) rfl rfl (by omega) ?_
    intro b hb1 hb2
    rintro (hb | hb | hb) <;> omega
  have h9' : (rx_length l c₂).reg .r9 = c₂.reg .r9 := by
    unfold rx_length load16 Cpu.setLow16
    rw [Cpu.store16_reg, Cpu.set_reg_of_ne (by decide), Cpu.reads_reg]
  refine ⟨hk', h9'.trans h9, ?_⟩
  intro a ha1 ha2
  rw [← hout a ha2]
  exact write_apply_of_out (n := 2) _ _ (by omega) (by omega)

/-- A word with an odd low byte, its bytes exchanged. -/
theorem rotated_odd_ne_arp (w : BitVec 16) (h : w.getLsbD 0 = true) :
    w.rotateLeft 8 ≠ ETHERTYPE_ARP := by
  intro heq
  have hbit := congrArg (fun x : BitVec 16 => x.getLsbD 8) heq
  simp only [BitVec.getLsbD_rotateLeft] at hbit
  have hzero : w.getLsbD 0 = false := hbit
  rw [h] at hzero
  cases hzero

/-- `network_stack` at its first compare. -/
def typed (s : Nic) : Nic :=
  let s := s.run Cpu.pushaq
  let s := s.run fun c => c.set .rdi 0#64
  let s := s.run fun c => load16 c .rdi (c.reg .r9 + 12#64)
  s.run fun c => rol8 c .rdi

/-- `network_stack` calls `process_arp`. -/
def CallsArp (s : Nic) : Prop := (typed s).cpu.low16 .rdi = ETHERTYPE_ARP

instance (s : Nic) : Decidable (CallsArp s) :=
  inferInstanceAs (Decidable (_ = _))

theorem network_stack_eq (l : NicLabels L) (reply : List Dma) (s : Nic) :
    network_stack l reply s
      = if CallsArp s then
          (process_arp l reply (typed s)).map fun s => s.run Cpu.popaq
        else some ((typed s).run Cpu.popaq) := by
  unfold network_stack CallsArp
  exact if_congr Iff.rfl Option.map_eq_bind.symm rfl

/-- The type is the word 12 bytes past R9, in the other byte order. -/
theorem typed_rdi (hs : StackOk s.cpu)
    (hlo : 0x100000 ≤ (s.cpu.reg .r9 + 12#64).toNat)
    (hhi : (s.cpu.reg .r9 + 12#64).toNat + 2 ≤ 2 ^ 64) :
    (typed s).cpu.low16 .rdi
      = (s.cpu.mem.read16 (s.cpu.reg .r9 + 12#64)).rotateLeft 8 := by
  have hr9 : s.cpu.pushaq.reg .r9 = s.cpu.reg .r9 :=
    Cpu.pushaq_reg s.cpu (by decide)
  have hread : s.cpu.pushaq.mem.read16 (s.cpu.reg .r9 + 12#64)
      = s.cpu.mem.read16 (s.cpu.reg .r9 + 12#64) :=
    pushaq_read (n := 2) hs (by omega) hhi
  rw [← hread, ← hr9]
  show (rol8 (load16 _ _ _) _).low16 _ = _
  unfold rol8 load16
  rw [Cpu.low16_setLow16, Cpu.low16_setLow16]
  rfl

/-- A descriptor is not taken for an ARP packet: its status is odd, and the
type sought has an even high byte. -/
theorem not_callsArp (hs : StackOk s.cpu)
    (hdesc : 0x100000 ≤ (s.cpu.reg .r9 + 12#64).toNat)
    (hend : (s.cpu.reg .r9 + 12#64).toNat + 2 ≤ 2 ^ 64)
    (hodd : (s.cpu.mem (s.cpu.reg .r9 + 12#64)).getLsbD 0 = true) :
    ¬ CallsArp s := by
  unfold CallsArp
  rw [typed_rdi hs hdesc hend]
  refine rotated_odd_ne_arp _
    ((getLsbD_read s.cpu.mem 2 _ 0 (by omega)).trans ?_)
  rw [show BitVec.ofNat 64 (0 / 8) = 0#64 from rfl, BitVec.add_zero]
  exact hodd

/-- So `network_stack` leaves at once. -/
theorem network_stack_spec (hp : RingRoom p) (hs : StackOk s.cpu)
    (hdesc : 0x100000 ≤ (s.cpu.reg .r9 + 12#64).toNat)
    (hend : (s.cpu.reg .r9 + 12#64).toNat + 2 ≤ 2 ^ 64)
    (hodd : (s.cpu.mem (s.cpu.reg .r9 + 12#64)).getLsbD 0 = true)
    (reply : List Dma) :
    ∃ s', network_stack l reply s = some s' ∧ s'.cpu.reg = s.cpu.reg
      ∧ Keeps l p s.cpu s'.cpu ∧ Silent s s'
      ∧ ∀ a : BitVec 64, 0x10000 ≤ a.toNat →
        s'.cpu.mem a = s.cpu.mem a := by
  have hk : Keeps l p s.cpu.pushaq (typed s).cpu :=
    Keeps.set (load16_keeps ((Keeps.refl _).set (by decide) _) (by decide) _)
      (by decide) _
  refine ⟨(typed s).run Cpu.popaq, ?_, ?_, Keeps.saved hp hs hk,
    ⟨rfl, rfl, rfl, rfl⟩, ?_⟩
  · rw [network_stack_eq, if_neg (not_callsArp hs hdesc hend hodd)]
  · exact popaq_restores hs hk.rsp fun a _ => rfl
  · intro a ha
    obtain ⟨hlo, hhi⟩ := hs
    obtain ⟨-, -, hpush, -⟩ := Cpu.pushaq_spec (c := s.cpu) (by omega)
    show (Cpu.popaq _).mem a = _
    rw [Cpu.popaq_mem]
    exact hpush a (Or.inr (by omega))

/-- The descriptor back to the card, the index past it. -/
def taken (l : NicLabels L) (s : Nic) : Nic :=
  { s with
    cpu := advance_index l.e1000_rx_cur
      (s.cpu.store8 (s.cpu.reg .r9 + descStatus) 0x0#8)
    received := s.received + 1 }

/-- The machine after the look at a status. -/
def looked (l : NicLabels L) (s : Nic) (r : Arrival) : Nic :=
  { s with cpu := rx_look l (s.dma r.arrive).cpu }

/-- The machine as `network_stack` is called. -/
def handed (l : NicLabels L) (s : Nic) (r : Arrival) : Nic :=
  (looked l s r).run (rx_fetch l)

theorem receive_loop_cons (l : NicLabels L) (r : Arrival)
    (rs : List Arrival) (s : Nic) :
    receive_loop l (r :: rs) s
      = if (looked l s r).cpu.low8 .rax ≠ 0x1#8 then some (looked l s r)
        else (network_stack l r.reply (handed l s r)).bind
          fun s => receive_loop l rs (taken l s) := rfl

/-- The status of the descriptor in R9 is odd. -/
theorem status_odd {x : BitVec 8} (h : x &&& 1#8 = 1#8) :
    x.getLsbD 0 = true := by
  have hbit := congrArg (fun y : BitVec 8 => y.getLsbD 0) h
  simpa using hbit

/-- The status of the receive descriptor `n`. -/
def rxStatus (p : BitVec 64) (n : Nat) : BitVec 64 :=
  p + BitVec.ofNat 64 (16 * n) + descStatus

theorem rxStatus_toNat (hp : p.toNat + 0x811000 ≤ 2 ^ 64) {n : Nat}
    (hn : n < 0x800) : (rxStatus p n).toNat = p.toNat + 16 * n + 12 := by
  have hdesc := desc_toNat hp (n := 16 * n) (by omega)
  unfold rxStatus descStatus
  rw [toNat_add_lit (by omega), hdesc]

/-- `h` has the packet that stood in the descriptor `j`. -/
structure Handed (l : NicLabels L) (p : BitVec 64) (j : Nat) (s : Nic)
    (r : Arrival) (h : Nic) : Prop where
  keeps : Keeps l p s.cpu h.cpu
  r9 : h.cpu.reg .r9 = p + BitVec.ofNat 64 (16 * j)
  odd : (h.cpu.mem (rxStatus p j)).getLsbD 0 = true
  high : ∀ a : BitVec 64, 0x100000 ≤ a.toNat → OffPacket p a →
    h.cpu.mem a = r.arrive s.cpu.mem a

/-- What the look and the fetch leave. -/
theorem handed_spec (hp : RingRoom p) (hr : RingsAt l p v i j s.cpu.mem)
    (hj : j < 0x800) {r : Arrival} (hleave : Leaves l p r.arrive)
    (hstatus : (looked l s r).cpu.low8 .rax = 0x1#8) :
    Handed l p j s r (handed l s r) := by
  have hk₁ := hleave.keeps s
  obtain ⟨hmem₂, hrsp₂, h9₂, hal₂⟩ := rx_look_spec (hk₁.ringsAt hp hr) hj
  have hk₂ : Keeps l p s.cpu (looked l s r).cpu :=
    hk₁.trans ⟨hrsp₂, fun a _ => congrFun hmem₂ a⟩
  obtain ⟨hk₃, h9₃, hkeep⟩ := rx_fetch_spec (c := (looked l s r).cpu) hp
    (hk₂.ringsAt hp hr)
  have hhigh : ∀ a : BitVec 64, 0x100000 ≤ a.toNat → OffPacket p a →
      (handed l s r).cpu.mem a = r.arrive s.cpu.mem a :=
    fun a ha hout => (hkeep a ha hout).trans (congrFun hmem₂ a)
  refine ⟨hk₂.trans hk₃, h9₃.trans h9₂, ?_, hhigh⟩
  have haddr := rxStatus_toNat hp.2 hj
  obtain ⟨hlo, hhi⟩ := hp
  rw [hhigh _ (by omega) (Or.inl (by omega))]
  exact status_odd (hal₂.symm.trans hstatus)

/-- One packet taken out of the ring. -/
theorem receive_round (hp : RingRoom p) (hs : StackOk s.cpu)
    (hr : RingsAt l p v i j s.cpu.mem) (hj : j < 0x800) {r : Arrival}
    (hleave : Leaves l p r.arrive)
    (hstatus : (looked l s r).cpu.low8 .rax = 0x1#8) :
    ∃ t i', network_stack l r.reply (handed l s r) = some t
      ∧ (i' = i ∨ i' = 0)
      ∧ RingsAt l p v i' ((j + 1) % 0x800) (taken l t).cpu.mem
      ∧ (taken l t).cpu.reg .rsp = s.cpu.reg .rsp
      ∧ (Mapped l (taken l t).cpu.mem ↔ Mapped l s.cpu.mem)
      ∧ Silent s t
      ∧ ∀ a : BitVec 64, p.toNat ≤ a.toNat → OffPacket p a →
        (taken l t).cpu.mem a
          = (r.arrive s.cpu.mem).write8 (rxStatus p j) 0x0#8 a := by
  have hh := handed_spec hp hr hj hleave hstatus
  have hsil₃ : Silent s (handed l s r) := ⟨rfl, rfl, rfl, rfl⟩
  generalize handed l s r = h at hh hsil₃ ⊢
  -- the descriptor lies in the receive ring
  obtain ⟨hlo, hhi⟩ := id hp
  have hfield : (p + BitVec.ofNat 64 (16 * j) + 12#64).toNat
      = p.toNat + 16 * j + 12 := rxStatus_toNat hp.2 hj
  have hs₃ : StackOk h.cpu := by
    unfold StackOk
    rw [hh.keeps.rsp]
    exact hs
  obtain ⟨t, ht, hreg, hk₄, hsil, hhigh⟩ := network_stack_spec (l := l) hp
    hs₃ (by rw [hh.r9]; omega) (by rw [hh.r9]; omega)
    (by rw [hh.r9]; exact hh.odd) r.reply
  -- the status cleared, the index advanced
  have hk₅ : Keeps l p t.cpu
      (t.cpu.store8 (t.cpu.reg .r9 + descStatus) 0x0#8) := by
    have hcells := l.rx_cur_in
    have hbase := l.mem_base_in
    have haddr : (t.cpu.reg .r9 + descStatus).toNat
        = p.toNat + 16 * j + 12 := by
      rw [hreg, hh.r9]
      exact hfield
    refine (Keeps.refl t.cpu).write (n := 1) rfl rfl (by omega) ?_
    intro b hb1 hb2
    rintro (hb | hb | hb) <;> omega
  have hall := (hh.keeps.trans hk₄).trans hk₅
  have hr₅ := hall.ringsAt hp hr
  obtain ⟨i', hi', hr₆, helse, hreg₆⟩ := hr₅.advance_rx hp hj
  refine ⟨t, i', ht, hi', hr₆, ?_, helse.mapped.trans hall.mapped,
    hsil₃.trans hsil, ?_⟩
  · show (advance_index l.e1000_rx_cur _).reg .rsp = _
    rw [hreg₆]
    exact hall.rsp
  · intro a ha hout
    have hcells := l.rx_cur_in
    refine (helse.mem a (Or.inr (by omega))).trans ?_
    show t.cpu.mem.write8 (t.cpu.reg .r9 + descStatus) 0x0#8 a = _
    rw [hreg, hh.r9]
    refine write_congr (n := 1) _ ?_
    exact (hhigh a (by omega)).trans (hh.high a (by omega) hout)

/-- The receive loop: the packets it takes move the receive index on. -/
theorem receive_loop_spec (hp : RingRoom p) (rounds : List Arrival) :
    ∀ {s s' : Nic} {i j : Nat}, (∀ r ∈ rounds, Leaves l p r.arrive) →
      StackOk s.cpu → RingsAt l p v i j s.cpu.mem → j < 0x800 →
      receive_loop l rounds s = some s' →
      ∃ k i', (i' = i ∨ i' = 0)
        ∧ RingsAt l p v i' ((j + k) % 0x800) s'.cpu.mem
        ∧ s'.cpu.reg .rsp = s.cpu.reg .rsp
        ∧ (Mapped l s'.cpu.mem ↔ Mapped l s.cpu.mem)
        ∧ s'.out = s.out ∧ s'.sent = s.sent
        ∧ s'.received = s.received + k ∧ s'.updates = s.updates := by
  induction rounds with
  | nil =>
      intro s s' i j _ _ _ _ h
      cases h
  | cons r rs ih =>
      intro s s' i j hleave hs hr hj h
      have harrive := hleave r List.mem_cons_self
      rw [receive_loop_cons] at h
      split at h
      · -- the status bit is clear
        obtain rfl := Option.some.inj h
        obtain ⟨hmem, hrsp, -⟩ := rx_look_spec
          ((harrive.keeps s).ringsAt hp hr) hj
        have hk : Keeps l p s.cpu (looked l s r).cpu :=
          (harrive.keeps s).trans ⟨hrsp, fun a _ => congrFun hmem a⟩
        refine ⟨0, i, Or.inl rfl, ?_, hk.rsp, hk.mapped, rfl, rfl, rfl,
          rfl⟩
        rw [Nat.add_zero, Nat.mod_eq_of_lt hj]
        exact hk.ringsAt hp hr
      next hstatus =>
        obtain ⟨t, i₁, ht, hi₁, hr', hrsp, hmap, hsil, -⟩ := receive_round
          hp hs hr hj harrive (not_not.1 hstatus)
        rw [ht] at h
        have hs' : StackOk (taken l t).cpu := by
          unfold StackOk
          rw [hrsp]
          exact hs
        obtain ⟨k, i', hi', hrk, hrspk, hmapk, hout, hsent, hrecv, hupd⟩ :=
          ih (fun r' hr' => hleave r' (List.mem_cons_of_mem _ hr')) hs' hr'
            (Nat.mod_lt _ (by omega)) h
        refine ⟨k + 1, i', by omega, ?_, hrspk.trans hrsp,
          hmapk.trans hmap, hout.trans hsil.out, hsent.trans hsil.sent, ?_,
          hupd.trans hsil.updates⟩
        · rw [Nat.mod_add_mod, Nat.add_assoc, Nat.add_comm 1] at hrk
          exact hrk
        · rw [hrecv]
          show t.received + 1 + k = _
          rw [hsil.received]
          omega

/-- A register named, the registers saved. -/
def asking (l : NicLabels L) (reg : BitVec 16) (s : Nic) : Nic :=
  (s.run Cpu.pushaq).run fun c => c.store16 l.e1000_rw_address reg

/-- The card asked for the register. -/
def register_read (l : NicLabels L) (reg : BitVec 16) (answer : BitVec 32)
    (s : Nic) : Nic :=
  e1000_read_command l answer (asking l reg s)

/-- The card asked for its head register, the answer in R8. -/
def headAsked (l : NicLabels L) (head : BitVec 32) (s : Nic) : Nic :=
  (register_read l REG_RXDESCHEAD head s).run
    fun c => load32 (c.set .r8 0#64) .r8 l.e1000_rw_data

theorem process_eq (l : NicLabels L) (head : BitVec 32)
    (rounds : List Arrival) (s : Nic) :
    e1000_process_packet l head rounds s
      = if (headAsked l head s).cpu.low16 .r8
          = (headAsked l head s).cpu.mem.read16 l.e1000_rx_cur then
          some ((headAsked l head s).run Cpu.popaq)
        else (receive_loop l rounds (headAsked l head s)).map fun s =>
          (update_tail l REG_RXDESCTAIL l.e1000_rx_cur
            { s with updates := s.updates + 1 }).run Cpu.popaq := by
  unfold e1000_process_packet headAsked register_read asking
  simp only [Nic.run]
  exact if_congr Iff.rfl rfl Option.map_eq_bind.symm

/-- The card's head is where the driver is: nothing to process. -/
def Idle (l : NicLabels L) (head : BitVec 32) (m : Mem) : Prop :=
  (answered l head m).extractLsb' 0 16 = m.read16 l.e1000_rx_cur

/-- What asking the card for a register leaves. -/
structure RegisterRead (l : NicLabels L) (p : BitVec 64) (reg : BitVec 16)
    (answer : BitVec 32) (s t : Nic) : Prop where
  keeps : Keeps l p s.cpu.pushaq t.cpu
  data : t.cpu.mem.read32 l.e1000_rw_data = answered l answer s.cpu.mem
  address : t.cpu.mem.read16 l.e1000_rw_address = reg
  high : ∀ a : BitVec 64, 0x20000 ≤ a.toNat → t.cpu.mem a = s.cpu.mem a
  sent : t.sent = s.sent
  received : t.received = s.received
  updates : t.updates = s.updates
  out : ∃ ws, t.out = s.out ++ ws ∧ ∀ w ∈ ws, ∃ q, w.addr = .port q

theorem register_read_spec (hp : RingRoom p) (hs : StackRoom 120 s.cpu)
    (reg : BitVec 16) (answer : BitVec 32) :
    RegisterRead l p reg answer s (register_read l reg answer s) := by
  have hbase := l.mem_base_in
  have hdata := rw_data_toNat l
  have haddr := rw_address_toNat l
  have hflag := ioport_flag_toNat l
  have hs₁ : StackRoom 0 s.cpu.pushaq := StackRoom.pushaq (n := 0) hs
  have hk₂ : Keeps l p s.cpu.pushaq (asking l reg s).cpu :=
    (Keeps.refl _).store_rw_address hp _
  have hs₂ : StackRoom 0 (asking l reg s).cpu := hs₁.of_keeps hk₂
  -- the flag and the data variable are as at the call
  have hanswer : answered l answer (asking l reg s).cpu.mem
      = answered l answer s.cpu.mem := by
    have hflag₂ : (asking l reg s).cpu.mem l.e1000_ioport_flag
        = s.cpu.mem l.e1000_ioport_flag :=
      (hk₂.mem _ (ioport_flag_kept l p)).trans
        (pushaq_kept hp hs.stackOk (ioport_flag_kept l p))
    have hdata₂ : (asking l reg s).cpu.mem.read32 l.e1000_rw_data
        = s.cpu.mem.read32 l.e1000_rw_data :=
      (read_write_of_disjoint (n := 2) (k := 4) _ _ (by omega) (by omega)
        (by omega)).trans
        (pushaq_read (n := 4) hs.stackOk (by omega) (by omega))
    unfold answered
    rw [hflag₂, hdata₂]
  have haddr₂ : (asking l reg s).cpu.mem.read16 l.e1000_rw_address = reg :=
    read_write_self (n := 2) _ _ _ (by omega)
  have hhigh₂ : ∀ a : BitVec 64, 0x20000 ≤ a.toNat →
      (asking l reg s).cpu.mem a = s.cpu.mem a := by
    intro a ha
    obtain ⟨hlo, hhi⟩ := hs.stackOk
    obtain ⟨-, -, hpush, -⟩ := Cpu.pushaq_spec (c := s.cpu) (by omega)
    refine (write_apply_of_out (n := 2) _ _ (by omega) (by omega)).trans ?_
    exact hpush a (Or.inr (by omega))
  have hasking : (asking l reg s).out = s.out ∧ (asking l reg s).sent = s.sent
      ∧ (asking l reg s).received = s.received
      ∧ (asking l reg s).updates = s.updates := ⟨rfl, rfl, rfl, rfl⟩
  obtain ⟨hout₂, hsent₂, hrecv₂, hupd₂⟩ := hasking
  obtain ⟨htraffic, hmem₃, hval, ws, hout, hws⟩ := read_command_spec l answer
    hs₂.stackOk
  unfold register_read
  generalize asking l reg s = s₂ at *
  generalize e1000_read_command l answer s₂ = s₃ at *
  have hk₃ : Keeps l p s₂.cpu s₃.cpu := by
    refine ⟨by rw [htraffic.reg], fun a ha => ?_⟩
    have hplace := ha.place hp
    refine hmem₃ a (by omega) ?_
    by_cases hin : l.e1000_rw_data.toNat ≤ a.toNat
        ∧ a.toNat < l.e1000_rw_data.toNat + 4
    · exact absurd ha (rw_data_free hp a hin.1 (by omega))
    · omega
  refine ⟨hk₂.trans hk₃, hval.trans hanswer, ?_, ?_,
    htraffic.sent.trans hsent₂, htraffic.received.trans hrecv₂,
    htraffic.updates.trans hupd₂, ws, hout.trans (by rw [hout₂]), hws⟩
  · refine Eq.trans ?_ haddr₂
    exact read_congr_bytes (n := 2) (by omega) fun a hlo hhi =>
      hmem₃ a (by omega) (by omega)
  · intro a ha
    exact (hmem₃ a (by omega) (by omega)).trans (hhigh₂ a ha)

/-- Asking the card for its head. -/
theorem headAsked_spec (hp : RingRoom p) (hs : StackRoom 120 s.cpu)
    (hr : RingsAt l p v i j s.cpu.mem) (head : BitVec 32) :
    RingsAt l p v i j (headAsked l head s).cpu.mem
      ∧ (headAsked l head s).cpu.reg .rsp = s.cpu.pushaq.reg .rsp
      ∧ (Mapped l (headAsked l head s).cpu.mem ↔ Mapped l s.cpu.mem)
      ∧ ((headAsked l head s).cpu.low16 .r8
          = (headAsked l head s).cpu.mem.read16 l.e1000_rx_cur
        ↔ Idle l head s.cpu.mem)
      ∧ (headAsked l head s).sent = s.sent
      ∧ (headAsked l head s).received = s.received
      ∧ (headAsked l head s).updates = s.updates
      ∧ (∀ a : BitVec 64, 0x20000 ≤ a.toNat →
        (headAsked l head s).cpu.mem a = s.cpu.mem a)
      ∧ ∃ ws, (headAsked l head s).out = s.out ++ ws
        ∧ ∀ w ∈ ws, ∃ q, w.addr = .port q := by
  obtain ⟨hr₁, hmap₁, -⟩ := pushaq_rings hp hs.stackOk hr
  have hread := register_read_spec (l := l) hp hs REG_RXDESCHEAD head
  unfold headAsked
  generalize register_read l REG_RXDESCHEAD head s = t at *
  have hr₂ := hread.keeps.ringsAt hp hr₁
  have hr8 : (t.run fun c => load32 (c.set .r8 0#64) .r8
      l.e1000_rw_data).cpu.low16 .r8
      = (answered l head s.cpu.mem).extractLsb' 0 16 := by
    show (Cpu.reg (Cpu.set _ _ _) _).extractLsb' 0 16 = _
    rw [Cpu.set_reg_self, low16_zeroExtend, ← hread.data]
    rfl
  have hmem : (t.run fun c => load32 (c.set .r8 0#64) .r8
      l.e1000_rw_data).cpu.mem = t.cpu.mem := rfl
  refine ⟨hr₂, hread.keeps.rsp, hread.keeps.mapped.trans hmap₁, ?_,
    hread.sent, hread.received, hread.updates, hread.high, hread.out⟩
  unfold Idle
  rw [hr8, hmem, hr₂.rx, hr.rx]

/-- `e1000_process_packet`, when there is nothing to process or the
transmit index is 0: the receive index moves past the packets taken, and
the tail register gets it. -/
theorem process_spec (hp : RingRoom p) (hs : StackRoom 120 s.cpu)
    (hr : RingsAt l p v i j s.cpu.mem) (hj : j < 0x800) {head : BitVec 32}
    {rounds : List Arrival} (hleave : ∀ r ∈ rounds, Leaves l p r.arrive)
    (hclear : Idle l head s.cpu.mem ∨ Mapped l s.cpu.mem ∧ i = 0)
    (h : e1000_process_packet l head rounds s = some s') :
    ∃ (k : Nat) (ws : List DeviceWrite),
      RingsAt l p v i ((j + k) % 0x800) s'.cpu.mem
        ∧ s'.sent = s.sent ∧ s'.received = s.received + k
        ∧ (∀ w ∈ ws, ∃ q, w.addr = .port q)
        ∧ (s'.updates = s.updates ∧ s'.out = s.out ++ ws
          ∨ s'.updates = s.updates + 1 ∧ s'.out = s.out ++ ws
            ++ [⟨.mmio (REG_RXDESCTAIL.setWidth 64 + v),
              0#16 ++ BitVec.ofNat 16 ((j + k) % 0x800), s.sent,
              s.received + k⟩]) := by
  obtain ⟨hr₁, hrsp₁, hmap₁, hidle, hsent₁, hrecv₁, hupd₁, -, ws, hout₁,
    hws⟩ := headAsked_spec hp hs hr head
  rw [process_eq] at h
  generalize headAsked l head s = a at *
  split at h
  · obtain rfl := Option.some.inj h
    refine ⟨0, ws, ?_, hsent₁, hrecv₁, hws, Or.inl ⟨hupd₁, hout₁⟩⟩
    show RingsAt l p v _ _ (Cpu.popaq _).mem
    rw [Cpu.popaq_mem, Nat.add_zero, Nat.mod_eq_of_lt hj]
    exact hr₁
  next hbusy =>
    obtain ⟨hmapped, rfl⟩ := hclear.resolve_left (mt hidle.2 hbusy)
    obtain ⟨t, ht, rfl⟩ := Option.map_eq_some_iff.1 h
    have hs₁ : StackRoom 0 a.cpu := by
      unfold StackRoom
      rw [hrsp₁]
      exact StackRoom.pushaq (n := 0) hs
    obtain ⟨k, i', hi', hrk, hrspk, hmapk, houtk, hsentk, hrecvk, hupdk⟩ :=
      receive_loop_spec hp rounds hleave hs₁.stackOk hr₁ hj ht
    obtain rfl : i' = 0 := by omega
    -- the tail register
    have hst : StackRoom 0 t.cpu := by
      unfold StackRoom
      rw [hrspk]
      exact hs₁
    obtain ⟨hk, -, -, hsent, hrecv, hupd, hout⟩ := update_tail_spec (l := l)
      (s := { t with updates := t.updates + 1 }) hp hst.stackOk
      REG_RXDESCTAIL (o := 0) (by omega)
    have hrx : l.e1000_rx_cur + BitVec.ofNat 64 0 = l.e1000_rx_cur :=
      BitVec.add_zero _
    rw [hrx] at hk hsent hrecv hupd hout
    generalize update_tail l REG_RXDESCTAIL l.e1000_rx_cur
      { t with updates := t.updates + 1 } = u at *
    have hout' := hout (hmapk.2 (hmap₁.2 hmapped))
    refine ⟨k, ws, ?_, (hsent.trans hsentk).trans hsent₁, ?_, hws,
      Or.inr ⟨?_, ?_⟩⟩
    · show RingsAt l p v _ _ (Cpu.popaq _).mem
      rw [Cpu.popaq_mem]
      exact hk.ringsAt hp hrk
    · exact (hrecv.trans hrecvk).trans (by rw [hrecv₁])
    · exact hupd.trans (by show t.updates + 1 = _; rw [hupdk, hupd₁])
    · refine hout'.trans ?_
      show t.out ++ [DeviceWrite.mk (.mmio (_ + t.cpu.mem.read64 _))
        (t.cpu.mem.read32 l.e1000_rx_cur) t.sent t.received] = _
      rw [houtk, hout₁, hrk.ready.vaddress, read32_split, hsentk, hsent₁,
        hrecvk, hrecv₁, hrk.rx]
      rw [show t.cpu.mem.read16 (l.e1000_rx_cur + 2#64) = 0#16 from hrk.tx]

end BootLoader.ThirdStage
