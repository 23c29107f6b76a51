/-
What is handed to the network driver goes on the wire, whole and in order.

# One send

`TxOwned` are the bytes the transmit side rests on: its variables, its ring
and its packet area. A send writes the packet into the buffer of the
current descriptor, fills the descriptor and moves the tail, after which
the card has one descriptor (`Pending`). It waits until the card has taken
it, so at the end the card has none (`wait_returns`).

The receive pointer above the transmit index is none of these bytes. The
wrap of the index clears half of it, which does not touch what is sent.

# Runs

`TxAt n` is the invariant: `n` packets sent, the head and the tail both at
the driver's index. Other work of the kernel may come between two sends and
between two looks of the driver, as long as it keeps to its own memory
(`frames_sent_in_order`).
-/
import BootLoader.ThirdStage.NicTransmit
import BootLoader.ThirdStage.Proofs.NicStarvation

namespace BootLoader.ThirdStage

open FlatMemory Mem Words

variable {L : Layout} {l : NicLabels L} {p v : BitVec 64} {c d e : Cpu}
  {s s' : Nic} {i : Nat} {m m' : Mem} {r : TxCard}

-- ============================================================== the bytes

/-- The transmit side's bytes: the card's address and mode, the index, the
two pointers, the ring and the packet area. -/
def TxOwned (l : NicLabels L) (p a : BitVec 64) : Prop :=
  (l.e1000_mem_base.toNat + 16 ≤ a.toNat
      ∧ a.toNat < l.e1000_mem_base.toNat + 26)
    ∨ (l.e1000_rx_cur.toNat + 2 ≤ a.toNat
      ∧ a.toNat < l.e1000_rx_cur.toNat + 4)
    ∨ (l.e1000_rx_cur.toNat + 12 ≤ a.toNat
      ∧ a.toNat < l.e1000_rx_cur.toNat + 20)
    ∨ (l.e1000_rx_cur.toNat + 44 ≤ a.toNat
      ∧ a.toNat < l.e1000_rx_cur.toNat + 52)
    ∨ (p.toNat + 0x8000 ≤ a.toNat ∧ a.toNat < p.toNat + 0x10000)
    ∨ (p.toNat + 0x410000 ≤ a.toNat ∧ a.toNat < p.toNat + 0x810000)

/-- Two memories with the same of them. -/
def TxSame (l : NicLabels L) (p : BitVec 64) (m m' : Mem) : Prop :=
  ∀ a, TxOwned l p a → m' a = m a

/-- Work on memory that leaves them alone. -/
def TxSpares (l : NicLabels L) (p : BitVec 64) (f : Dma) : Prop :=
  ∀ m, TxSame l p m (f m)

theorem TxSame.trans {m'' : Mem} (h : TxSame l p m m')
    (h' : TxSame l p m' m'') : TxSame l p m m'' :=
  fun a ha => (h' a ha).trans (h a ha)

/-- They are bookkeeping or lie past the image. -/
theorem TxOwned.place (hp : RingRoom p) {a : BitVec 64}
    (h : TxOwned l p a) : Booked l p a ∨ 0x100000 ≤ a.toNat := by
  obtain ⟨hlo, -⟩ := hp
  rcases h with h | h | h | h | h | h
  · exact Or.inl (Or.inr (Or.inl h))
  · exact Or.inl (Or.inl (by omega))
  · exact Or.inl (Or.inl (by omega))
  · exact Or.inl (Or.inl (by omega))
  · exact Or.inr (by omega)
  · exact Or.inr (by omega)

/-- What keeps the bookkeeping and the memory past the image keeps them. -/
theorem Keeps.txSame (hp : RingRoom p) (h : Keeps l p c d)
    (hhigh : ∀ a : BitVec 64, 0x100000 ≤ a.toNat → d.mem a = c.mem a) :
    TxSame l p c.mem d.mem :=
  fun a ha => (ha.place hp).elim (h.mem a) (hhigh a)

theorem TxSame.read (h : TxSame l p m m') {a : BitVec 64} {n : Nat}
    (hn : a.toNat + n ≤ 2 ^ 64)
    (hin : ∀ b : BitVec 64, a.toNat ≤ b.toNat → b.toNat < a.toNat + n →
      TxOwned l p b) : m'.read a n = m.read a n :=
  read_congr_bytes hn fun b hlo hhi => h b (hin b hlo hhi)

-- ============================================================= the addresses

/-- The descriptor `n`, and its buffer. -/
def txDesc (p : BitVec 64) (n : Nat) : BitVec 64 :=
  p + BitVec.ofNat 64 (0x8000 + 16 * n)

def txBuffer (p : BitVec 64) (n : Nat) : BitVec 64 :=
  p + BitVec.ofNat 64 (0x410000 + 0x800 * n)

theorem txDesc_toNat (hp : RingRoom p) {n : Nat} (hn : n < 0x800) :
    (txDesc p n).toNat = p.toNat + (0x8000 + 16 * n) :=
  desc_toNat hp.2 (by omega)

theorem txField_toNat (hp : RingRoom p) {n k : Nat} (hn : n < 0x800)
    (hk : k < 16) : (txDesc p n + BitVec.ofNat 64 k).toNat
      = p.toNat + (0x8000 + 16 * n) + k := by
  rw [txDesc, area_toNat hp.2 (by omega)]
  omega

theorem txBuffer_toNat (hp : RingRoom p) {n k : Nat} (hn : n < 0x800)
    (hk : k < 0x800) : (txBuffer p n + BitVec.ofNat 64 k).toNat
      = p.toNat + (0x410000 + 0x800 * n) + k := by
  rw [txBuffer, area_toNat hp.2 (by omega)]
  omega

theorem send_packet_toNat (hp : RingRoom p) {k : Nat} (hk : k < 0x800) :
    (p + 0x810800#64 + BitVec.ofNat 64 k).toNat = p.toNat + 0x810800 + k := by
  show (p + BitVec.ofNat 64 0x810800 + _).toNat = _
  rw [area_toNat hp.2 (by omega)]
  omega

/-- A descriptor's fields are the transmit side's. -/
theorem txField_owned (hp : RingRoom p) {n k : Nat} (hn : n < 0x800)
    (hk : k < 16) : TxOwned l p (txDesc p n + BitVec.ofNat 64 k) := by
  have := txField_toNat hp hn hk
  exact Or.inr (Or.inr (Or.inr (Or.inr (Or.inl (by omega)))))

theorem txBuffer_owned (hp : RingRoom p) {n k : Nat} (hn : n < 0x800)
    (hk : k < 0x800) : TxOwned l p (txBuffer p n + BitVec.ofNat 64 k) := by
  have := txBuffer_toNat hp hn hk
  exact Or.inr (Or.inr (Or.inr (Or.inr (Or.inr (by omega)))))

-- ============================================================== the variables

/-- The transmit side ready, its index at `i`. -/
structure TxReady (l : NicLabels L) (p v : BitVec 64) (i : Nat) (m : Mem) :
    Prop where
  mapped : Mapped l m
  vaddress : m.read64 l.e1000_vaddress = v
  index : m.read16 l.e1000_tx_cur = BitVec.ofNat 16 i
  desc : m.read64 l.e1000_tx_desc_ptr = p + 0x8000#64
  packet : m.read64 l.e1000_send_packet = p + 0x810800#64
  buffers : ∀ n < 0x800, m.read64 (txDesc p n) = txBuffer p n

/-- A read of its variables past the index. -/
theorem TxSame.var (h : TxSame l p m m') {o n : Nat} (hn : n ≤ 8)
    (hin : (2 ≤ o ∧ o + n ≤ 4) ∨ (12 ≤ o ∧ o + n ≤ 20)
      ∨ (44 ≤ o ∧ o + n ≤ 52)) :
    m'.read (l.e1000_rx_cur + BitVec.ofNat 64 o) n
      = m.read (l.e1000_rx_cur + BitVec.ofNat 64 o) n := by
  have haddr := rx_cur_add_toNat l (n := o) (by omega)
  have hcells := l.rx_cur_in
  refine h.read (by omega) fun b hlo hhi => ?_
  rcases hin with h | h | h
  · exact Or.inr (Or.inl (by omega))
  · exact Or.inr (Or.inr (Or.inl (by omega)))
  · exact Or.inr (Or.inr (Or.inr (Or.inl (by omega))))

theorem TxSame.mapped (h : TxSame l p m m') : Mapped l m' ↔ Mapped l m := by
  have haddr := ioport_flag_toNat l
  unfold Mapped
  rw [h _ (Or.inl (by omega))]

theorem TxSame.vaddress (h : TxSame l p m m') :
    m'.read64 l.e1000_vaddress = m.read64 l.e1000_vaddress := by
  have haddr := vaddress_toNat l
  have hbase := l.mem_base_in
  exact h.read (n := 8) (by omega) fun b hlo hhi => Or.inl (by omega)

theorem TxSame.desc (h : TxSame l p m m') (hp : RingRoom p) {n : Nat}
    (hn : n < 0x800) : m'.read64 (txDesc p n) = m.read64 (txDesc p n) := by
  have haddr := txDesc_toNat hp hn
  obtain ⟨-, hhi⟩ := hp
  exact h.read (n := 8) (by omega) fun b hlo hhi =>
    Or.inr (Or.inr (Or.inr (Or.inr (Or.inl (by omega)))))

theorem TxReady.congr (hp : RingRoom p) (h : TxReady l p v i m)
    (hsame : TxSame l p m m') : TxReady l p v i m' where
  mapped := hsame.mapped.2 h.mapped
  vaddress := hsame.vaddress.trans h.vaddress
  index := (hsame.var (o := 2) (n := 2) (by omega) (by omega)).trans h.index
  desc := (hsame.var (o := 12) (n := 8) (by omega) (by omega)).trans h.desc
  packet := (hsame.var (o := 44) (n := 8) (by omega) (by omega)).trans
    h.packet
  buffers := fun n hn => (hsame.desc hp hn).trans (h.buffers n hn)

-- ============================================================== the packet

/-- Where the copy goes from and to. -/
theorem tx_operands_at (hr : TxReady l p v i c.mem) (hi : i < 0x800) :
    (tx_operands l c).mem = c.mem
      ∧ (tx_operands l c).reg .rsp = c.reg .rsp
      ∧ (tx_operands l c).reg .r9 = txDesc p i
      ∧ (tx_operands l c).reg .rsi = p + 0x810800#64
      ∧ (tx_operands l c).reg .rdi = txBuffer p i
      ∧ (tx_operands l c).reg .rcx = 0x800#64 := by
  have hdesc : p + 0x8000#64 + BitVec.ofNat 64 (16 * i) = txDesc p i := by
    rw [txDesc, BitVec.add_assoc, ← BitVec.ofNat_add]
  have hbuffer := hr.buffers i hi
  unfold tx_operands
  simp only [load16, Cpu.setLow16, Cpu.set_reg, Cpu.load64_reg,
    Cpu.reads_reg, Cpu.set_mem, Cpu.load64_mem, Cpu.reads_mem, reduceCtorEq,
    if_false, if_true, merge16_zero, hr.index, index_scaled hi, hr.desc, hdesc,
    hbuffer, hr.packet, e1000_packet_size, and_self]

/-- A packet in the ring: the descriptor `i` names the bytes of the send
buffer, in its own, and asks for a report. -/
structure Described (l : NicLabels L) (p : BitVec 64) (i : Nat)
    (m m' : Mem) : Prop where
  length : m'.read16 (txDesc p i + descLength)
    = m.read16 l.e1000_send_packet_len
  cmd : m' (txDesc p i + descCmd) = txCommand
  status : m' (txDesc p i + descStatus) = 0x0#8
  bytes : ∀ k < 0x800, m' (txBuffer p i + BitVec.ofNat 64 k)
    = m (p + 0x810800#64 + BitVec.ofNat 64 k)

/-- The same, and nothing else written. -/
structure Filled (l : NicLabels L) (p : BitVec 64) (i : Nat) (c d : Cpu) :
    Prop where
  rsp : d.reg .rsp = c.reg .rsp
  r9 : d.reg .r9 = txDesc p i
  described : Described l p i c.mem d.mem
  rest : ∀ a : BitVec 64,
    a.toNat < (txDesc p i).toNat + 8 ∨ (txDesc p i).toNat + 16 ≤ a.toNat →
    a.toNat < (txBuffer p i).toNat ∨ (txBuffer p i).toNat + 0x800 ≤ a.toNat →
    d.mem a = c.mem a

/-- The descriptor's fields. -/
theorem tx_describe_at (hp : RingRoom p) (hi : i < 0x800)
    (h9 : c.reg .r9 = txDesc p i) :
    let d := tx_describe l c
    d.reg .rsp = c.reg .rsp ∧ d.reg .r9 = txDesc p i
      ∧ d.mem.read16 (txDesc p i + descLength)
        = c.mem.read16 l.e1000_send_packet_len
      ∧ d.mem (txDesc p i + descCmd) = txCommand
      ∧ d.mem (txDesc p i + descStatus) = 0x0#8
      ∧ ∀ a : BitVec 64, a.toNat < (txDesc p i).toNat + 8
          ∨ (txDesc p i).toNat + 16 ≤ a.toNat → d.mem a = c.mem a := by
  have hbase := txDesc_toNat hp hi
  have hlen : (txDesc p i + descLength).toNat
      = p.toNat + (0x8000 + 16 * i) + 8 := txField_toNat hp hi (by omega)
  have hcmd : (txDesc p i + descCmd).toNat
      = p.toNat + (0x8000 + 16 * i) + 11 := txField_toNat hp hi (by omega)
  have hstatus : (txDesc p i + descStatus).toNat
      = p.toNat + (0x8000 + 16 * i) + 12 := txField_toNat hp hi (by omega)
  have hvar := rx_cur_add_toNat l (n := 54) (by omega)
  have hcells := l.rx_cur_in
  obtain ⟨hlo, hhi⟩ := hp
  intro d
  have hvar' : l.e1000_send_packet_len.toNat = l.e1000_rx_cur.toNat + 54 :=
    hvar
  obtain ⟨c₁, hc₁⟩ : ∃ c₁, c.store8 (c.reg .r9 + descStatus) 0x0#8 = c₁ :=
    ⟨_, rfl⟩
  obtain ⟨c₂, hc₂⟩ : ∃ c₂, c₁.store8 (c₁.reg .r9 + descCmd) txCommand = c₂ :=
    ⟨_, rfl⟩
  have h9₁ : c₁.reg .r9 = txDesc p i := by
    rw [← hc₁]
    exact h9
  have hm₁ : c₁.mem = c.mem.write8 (txDesc p i + descStatus) 0x0#8 := by
    rw [← hc₁, ← h9]
    rfl
  have hm₂ : c₂.mem = c₁.mem.write8 (txDesc p i + descCmd) txCommand := by
    rw [← hc₂, ← h9₁]
    rfl
  have hval : c₂.mem.read16 l.e1000_send_packet_len
      = c.mem.read16 l.e1000_send_packet_len := by
    rw [hm₂, hm₁]
    refine (read_write_of_disjoint (n := 1) (k := 2) _ _ (by omega) (by omega)
      (by omega)).trans ?_
    exact read_write_of_disjoint (n := 1) (k := 2) _ _ (by omega) (by omega)
      (by omega)
  have hreg : ∀ r, r ≠ .rbx → d.reg r = c.reg r := by
    intro r hr
    show (load16 _ _ _).reg r = _
    unfold load16 Cpu.setLow16
    exact Cpu.set_reg_of_ne hr
  have hmem : d.mem = c₂.mem.write16 (txDesc p i + descLength)
      (c.mem.read16 l.e1000_send_packet_len) := by
    have h9' : (load16 c₂ .rbx l.e1000_send_packet_len).reg .r9
        = txDesc p i := by
      rw [← h9₁, ← hc₂]
      unfold load16 Cpu.setLow16
      exact Cpu.set_reg_of_ne (by decide)
    have hbx : (load16 c₂ .rbx l.e1000_send_packet_len).low16 .rbx
        = c.mem.read16 l.e1000_send_packet_len := by
      unfold load16
      rw [Cpu.low16_setLow16, hval]
    rw [← h9', ← hbx, ← hc₂, ← hc₁]
    rfl
  refine ⟨hreg .rsp (by decide), (hreg .r9 (by decide)).trans h9, ?_, ?_, ?_,
    fun a ha => ?_⟩
  · rw [hmem]
    exact read_write_self (n := 2) _ _ _ (by omega)
  · rw [hmem, hm₂]
    refine (write_apply_of_out (n := 2) _ _ (by omega) (by omega)).trans ?_
    exact write8_self _ _ _
  · rw [hmem, hm₂, hm₁]
    refine (write_apply_of_out (n := 2) _ _ (by omega) (by omega)).trans ?_
    refine (write_apply_of_out (n := 1) _ _ (by omega) (by omega)).trans ?_
    exact write8_self _ _ _
  · rw [hmem, hm₂, hm₁]
    refine (write_apply_of_out (n := 2) _ _ (by omega) (by omega)).trans ?_
    refine (write_apply_of_out (n := 1) _ _ (by omega) (by omega)).trans ?_
    exact write_apply_of_out (n := 1) _ _ (by omega) (by omega)

/-- The packet copied and described. -/
theorem tx_fill_at (hp : RingRoom p) (hend : p.toNat + 0x811000 < 2 ^ 64)
    (hr : TxReady l p v i c.mem) (hi : i < 0x800) :
    Filled l p i c (tx_fill l c) := by
  obtain ⟨hmem, hrsp, h9, hsi, hdi, hcx⟩ := tx_operands_at hr hi
  have hdst := txBuffer_toNat hp hi (k := 0) (by omega)
  have hsrc := send_packet_toNat hp (k := 0) (by omega)
  rw [BitVec.add_zero] at hdst hsrc
  have hdesc := txDesc_toNat hp hi
  have hvar := rx_cur_add_toNat l (n := 54) (by omega)
  have hvar' : l.e1000_send_packet_len.toNat = l.e1000_rx_cur.toNat + 54 :=
    hvar
  have hcells := l.rx_cur_in
  obtain ⟨hlo, hhi⟩ := id hp
  unfold tx_fill rep_movsb
  generalize tx_operands l c = c₁ at hmem hrsp h9 hsi hdi hcx
  rw [show (c₁.reg .rcx).toNat = 0x800 by rw [hcx]; rfl]
  obtain ⟨hreg, hout⟩ := times_move moveRound_movsb 0x800 c₁
    (by rw [hdi]; omega)
  have hcopy := times_copied copyRound_movsb 0x800 c₁ (by rw [hsi]; omega)
    (by rw [hdi]; omega) (by rw [hsi, hdi]; omega)
  rw [hdi] at hout hcopy
  rw [hsi, hmem] at hcopy
  rw [hmem] at hout
  have h9' := (hreg .r9 (by decide) (by decide) (by decide)).trans h9
  have hrsp' := (hreg .rsp (by decide) (by decide) (by decide)).trans hrsp
  generalize Loop.times movsb 0x800 c₁ = c₂ at *
  obtain ⟨h1, h2, h3, h4, h5, h6⟩ := tx_describe_at (l := l) hp hi h9'
  have hlen : c₂.mem.read16 l.e1000_send_packet_len
      = c.mem.read16 l.e1000_send_packet_len :=
    read_congr_bytes (n := 2) (by omega) fun a hlo hhi =>
      hout a (Or.inl (by omega))
  refine ⟨h1.trans hrsp', h2, ⟨h3.trans hlen, h4, h5, fun k hk => ?_⟩,
    fun a ha hb => ?_⟩
  · have haddr := txBuffer_toNat hp hi hk
    rw [h6 _ (by omega)]
    exact hcopy k (by omega)
  · rw [h6 a ha]
    exact hout a (by omega)

-- =============================================================== the index

/-- The index advances, whatever stands above it. -/
theorem advance_index_any {cur : BitVec 64} (hcur : cur.toNat + 4 ≤ 2 ^ 64)
    (hi : i < 0x800) (hval : c.mem.read16 cur = BitVec.ofNat 16 i) :
    (advance_index cur c).mem.read16 cur = BitVec.ofNat 16 ((i + 1) % 0x800)
      ∧ (advance_index cur c).reg = c.reg
      ∧ ∀ a : BitVec 64, a.toNat < cur.toNat ∨ cur.toNat + 4 ≤ a.toNat →
        (advance_index cur c).mem a = c.mem a := by
  by_cases hlast : i + 1 < 0x800
  · obtain ⟨h1, h2, h3⟩ := advance_index_spec hcur hi hval (Or.inr hlast)
    exact ⟨h1, h2, fun a ha => h3 a (by omega)⟩
  · obtain rfl : i = 0x7FF := by omega
    obtain ⟨h1, -, h2, h3⟩ := advance_index_wrap hcur hval
    exact ⟨h1, h2, h3⟩

-- ================================================================ the card

/-- Room for the rings where the card's low address register reaches, and
on a descriptor's boundary. -/
structure TxRoom (p : BitVec 64) : Prop where
  ring : RingRoom p
  low : p.toNat + 0x811000 ≤ 2 ^ 32
  aligned : p.toNat % 16 = 0

/-- The card set up for the ring at `p`, the last frame ended. -/
structure TxSetUp (p : BitVec 64) (r : TxCard) : Prop where
  base : r.high ++ r.low = p + 0x8000#64
  length : r.length = 0x800
  enabled : r.enabled = true
  begun : r.begun = []

theorem TxSetUp.current (h : TxSetUp p r) : r.current = txDesc p r.head := by
  unfold TxCard.current
  rw [h.base, txDesc, BitVec.add_assoc, BitVec.ofNat_add]

/-- A descriptor with the packet `f` for the card at its head. -/
structure Pending (l : NicLabels L) (p v : BitVec 64) (i : Nat) (f : Packet)
    (r : TxCard) (m : Mem) : Prop where
  ready : TxReady l p v ((i + 1) % 0x800) m
  card : TxSetUp p r
  head : r.head = i
  tail : r.tail = (i + 1) % 0x800
  cmd : m (txDesc p i + descCmd) = txCommand
  status : m (txDesc p i + descStatus) = 0x0#8
  short : (m.read16 (txDesc p i + descLength)).toNat ≤ 0x800
  named : TxCard.named (txDesc p i) m = f

theorem bytesAt_congr {a b : BitVec 64} {n : Nat}
    (h : ∀ k < n, m' (b + BitVec.ofNat 64 k) = m (a + BitVec.ofNat 64 k)) :
    bytesAt m' b n = bytesAt m a n :=
  List.map_congr_left fun k hk => h k (List.mem_range.1 hk)

/-- Work elsewhere leaves it so. -/
theorem Pending.congr (hp : RingRoom p) {f : Packet} {r : TxCard}
    (hi : i < 0x800) (h : Pending l p v i f r m) (hsame : TxSame l p m m') :
    Pending l p v i f r m' := by
  have hlen : m'.read16 (txDesc p i + descLength)
      = m.read16 (txDesc p i + descLength) := by
    have haddr : (txDesc p i + descLength).toNat
        = p.toNat + (0x8000 + 16 * i) + 8 := txField_toNat hp hi (by omega)
    have hend := hp.2
    refine hsame.read (n := 2) (by omega) fun b hlo hhi => ?_
    exact Or.inr (Or.inr (Or.inr (Or.inr (Or.inl (by omega)))))
  refine ⟨h.ready.congr hp hsame, h.card, h.head, h.tail, ?_, ?_, ?_, ?_⟩
  · exact (hsame _ (txField_owned hp hi (k := 11) (by omega))).trans h.cmd
  · exact (hsame _ (txField_owned hp hi (k := 12) (by omega))).trans h.status
  · rw [hlen]
    exact h.short
  · rw [← h.named]
    unfold TxCard.named
    rw [hlen, hsame.desc hp hi, h.ready.buffers i hi]
    refine bytesAt_congr fun k hk => hsame _ ?_
    exact txBuffer_owned hp hi (Nat.lt_of_lt_of_le hk h.short)

/-- The card after it took the packet. -/
def TxCard.sent (r : TxCard) (f : Packet) : TxCard :=
  { r with head := r.tail, wire := r.wire ++ [f] }

theorem Pending.transmit {f : Packet} {r : TxCard}
    (h : Pending l p v i f r m) : TxCard.transmit (r, m)
      = (r.sent f, m.write8 (txDesc p i + descStatus) TSTA_DD) := by
  have hne : r.head ≠ r.tail := by
    rw [h.head, h.tail]
    omega
  have hcur : r.current = txDesc p i := by rw [h.card.current, h.head]
  have hnext : (r.head + 1) % r.length = r.tail := by
    rw [h.card.length, h.head, h.tail]
  unfold TxCard.transmit
  rw [if_pos ⟨h.card.enabled, hne⟩]
  show (r.fetch r.current m, TxCard.report r.current m) = _
  rw [hcur]
  unfold TxCard.fetch TxCard.report
  rw [h.cmd, h.status, if_pos (show txCommand.getLsbD 0 = true by decide),
    if_pos (show txCommand.getLsbD 3 = true by decide), h.named, hnext,
    h.card.begun, List.nil_append, ← h.card.begun]
  rfl

/-- A card with its head at its tail does nothing. -/
theorem transmit_none {x : TxCard × Mem} (h : x.1.head = x.1.tail) (n : Nat) :
    Loop.times TxCard.transmit n x = x := by
  induction n with
  | zero => rfl
  | succ n ih =>
      show Loop.times TxCard.transmit n (TxCard.transmit x) = x
      rw [show TxCard.transmit x = x from if_neg fun hx => hx.2 h]
      exact ih

-- ================================================================ the wait

/-- A turn that takes no descriptor. -/
theorem turn_idle {t : TxTurn} (h : t.count = 0) (x : TxCard × Mem) :
    t.run x = (x.1, t.other x.2) := by
  unfold TxTurn.run
  rw [h]
  rfl

/-- A turn that takes one, and then finds no other. -/
theorem Pending.turn {f : Packet} {r : TxCard} {t : TxTurn}
    (h : Pending l p v i f r m) (ht : 0 < t.count) :
    t.run (r, m) = (r.sent f,
      t.other (m.write8 (txDesc p i + descStatus) TSTA_DD)) := by
  obtain ⟨n, hn⟩ : ∃ n, t.count = n + 1 := ⟨t.count - 1, by omega⟩
  have htimes : Loop.times TxCard.transmit t.count (r, m)
      = (r.sent f, m.write8 (txDesc p i + descStatus) TSTA_DD) := by
    rw [hn]
    show Loop.times TxCard.transmit n (TxCard.transmit (r, m)) = _
    rw [h.transmit]
    exact transmit_none rfl n
  unfold TxTurn.run
  rw [htimes]

/-- Only the status changes, and the driver sees it. -/
theorem done_same (hp : RingRoom p) (hi : i < 0x800) (m : Mem) :
    ∀ a : BitVec 64, a ≠ txDesc p i + descStatus →
      m.write8 (txDesc p i + descStatus) TSTA_DD a = m a := by
  intro a ha
  have haddr : (txDesc p i + descStatus).toNat
      = p.toNat + (0x8000 + 16 * i) + 12 := txField_toNat hp hi (by omega)
  have hend := hp.2
  refine write_apply_of_out (n := 1) _ _ (by omega) ?_
  have hne : a.toNat ≠ (txDesc p i + descStatus).toNat :=
    fun h => ha (BitVec.eq_of_toNat_eq h)
  omega

/-- The status is none of the variables and no buffer's address. -/
theorem TxReady.done {n : Nat} (hp : RingRoom p) (hi : i < 0x800)
    (h : TxReady l p v n m) :
    TxReady l p v n (m.write8 (txDesc p i + descStatus) TSTA_DD) := by
  have haddr : (txDesc p i + descStatus).toNat
      = p.toNat + (0x8000 + 16 * i) + 12 := txField_toNat hp hi (by omega)
  have hcells := l.rx_cur_in
  have hbase := l.mem_base_in
  have hflag := ioport_flag_toNat l
  have hvaddr := vaddress_toNat l
  have hcur := rx_cur_add_toNat l (n := 2) (by omega)
  have hdesc := rx_cur_add_toNat l (n := 12) (by omega)
  have hpacket := rx_cur_add_toNat l (n := 44) (by omega)
  obtain ⟨hlo, hhi⟩ := id hp
  have hread : ∀ (a : BitVec 64) (k : Nat), a.toNat + k ≤ 2 ^ 64 →
      a.toNat + k ≤ p.toNat + (0x8000 + 16 * i) + 12
        ∨ p.toNat + (0x8000 + 16 * i) + 13 ≤ a.toNat →
      (m.write8 (txDesc p i + descStatus) TSTA_DD).read a k = m.read a k :=
    fun a k hk hout => read_write_of_disjoint (n := 1) _ _ (by omega) hk
      (by omega)
  refine ⟨?_, ?_, ?_, ?_, ?_, fun k hk => ?_⟩
  · unfold Mapped
    rw [done_same hp hi m _ fun heq => ?_]
    · exact h.mapped
    · have := congrArg BitVec.toNat heq
      omega
  · exact (hread l.e1000_vaddress 8 (by omega) (by omega)).trans h.vaddress
  · exact (hread (l.e1000_rx_cur + BitVec.ofNat 64 2) 2 (by omega)
      (by omega)).trans h.index
  · exact (hread (l.e1000_rx_cur + BitVec.ofNat 64 12) 8 (by omega)
      (by omega)).trans h.desc
  · exact (hread (l.e1000_rx_cur + BitVec.ofNat 64 44) 8 (by omega)
      (by omega)).trans h.packet
  · have hk' := txDesc_toNat hp hk
    exact (hread (txDesc p k) 8 (by omega) (by omega)).trans (h.buffers k hk)

/-- The driver after one look. -/
def glanced (t : TxTurn) (r : TxCard) (s : Nic) : Nic :=
  (s.dma fun m => (t.run (r, m)).2).run fun c =>
    c.reads (c.reg .r9 + descStatus) 1

theorem wait_sent_turn (t : TxTurn) (ts : List TxTurn) (r : TxCard)
    (s : Nic) : wait_sent (txPolls (t :: ts) (r, s.cpu.mem)) s
      = if (glanced t r s).cpu.mem (s.cpu.reg .r9 + descStatus) = 0x0#8 then
          wait_sent (txPolls ts ((t.run (r, s.cpu.mem)).1,
            (glanced t r s).cpu.mem)) (glanced t r s)
        else some (glanced t r s) := rfl

/-- A look before the card takes the packet. -/
theorem Pending.look_idle (hp : RingRoom p) (hi : i < 0x800) {f : Packet}
    {t : TxTurn} {ts : List TxTurn} (h : Pending l p v i f r s.cpu.mem)
    (h9 : s.cpu.reg .r9 = txDesc p i) (hother : TxSpares l p t.other)
    (ht : t.count = 0) :
    wait_sent (txPolls (t :: ts) (r, s.cpu.mem)) s
        = wait_sent (txPolls ts (r, (glanced t r s).cpu.mem)) (glanced t r s)
      ∧ t.run (r, s.cpu.mem) = (r, (glanced t r s).cpu.mem)
      ∧ Pending l p v i f r (glanced t r s).cpu.mem := by
  have hrun := turn_idle ht (r, s.cpu.mem)
  have hmem : (glanced t r s).cpu.mem = t.other s.cpu.mem :=
    congrArg Prod.snd hrun
  have hpend : Pending l p v i f r (glanced t r s).cpu.mem := by
    rw [hmem]
    exact h.congr hp hi (hother _)
  refine ⟨?_, by rw [hmem]; exact hrun, hpend⟩
  rw [wait_sent_turn, h9, if_pos hpend.status, hrun]

/-- The look after it. -/
theorem Pending.look_done (hp : RingRoom p) (hi : i < 0x800) {f : Packet}
    {t : TxTurn} {ts : List TxTurn} (h : Pending l p v i f r s.cpu.mem)
    (h9 : s.cpu.reg .r9 = txDesc p i) (hother : TxSpares l p t.other)
    (ht : 0 < t.count) :
    wait_sent (txPolls (t :: ts) (r, s.cpu.mem)) s = some (glanced t r s)
      ∧ t.run (r, s.cpu.mem) = (r.sent f, (glanced t r s).cpu.mem)
      ∧ TxReady l p v ((i + 1) % 0x800) (glanced t r s).cpu.mem := by
  have hrun := h.turn ht
  have hmem : (glanced t r s).cpu.mem
      = t.other (s.cpu.mem.write8 (txDesc p i + descStatus) TSTA_DD) :=
    congrArg Prod.snd hrun
  have hstatus : (glanced t r s).cpu.mem (txDesc p i + descStatus)
      = TSTA_DD := by
    rw [hmem]
    refine (hother _ _ (txField_owned hp hi (k := 12) (by omega))).trans ?_
    exact write8_self _ _ _
  refine ⟨?_, by rw [hmem]; exact hrun, ?_⟩
  · rw [wait_sent_turn, h9, hstatus]
    exact if_neg (by decide)
  · rw [hmem]
    exact (h.ready.done hp hi).congr hp (hother _)

/-- The wait ends as soon as the card takes the packet, and not before. -/
theorem wait_isSome_iff (hp : RingRoom p) (hi : i < 0x800) {f : Packet}
    {ts : List TxTurn} : ∀ {s : Nic}, Pending l p v i f r s.cpu.mem →
      s.cpu.reg .r9 = txDesc p i → (∀ t ∈ ts, TxSpares l p t.other) →
      ((wait_sent (txPolls ts (r, s.cpu.mem)) s).isSome = true
        ↔ ∃ t ∈ ts, 0 < t.count) := by
  induction ts with
  | nil =>
      intro s _ _ _
      constructor
      · intro h
        cases h
      · rintro ⟨_, h, _⟩
        exact absurd h List.not_mem_nil
  | cons t ts ih =>
      intro s hpend h9 hother
      have ht := hother t List.mem_cons_self
      rcases Nat.eq_zero_or_pos t.count with hcount | hcount
      · obtain ⟨heq, -, hpend'⟩ :=
          hpend.look_idle hp hi h9 ht hcount
        rw [heq, ih hpend' h9 fun u hu => hother u (List.mem_cons_of_mem t hu)]
        constructor
        · rintro ⟨u, hu, hpos⟩
          exact ⟨u, List.mem_cons_of_mem t hu, hpos⟩
        · rintro ⟨u, hu, hpos⟩
          rcases List.mem_cons.1 hu with rfl | hu
          · omega
          · exact ⟨u, hu, hpos⟩
      · rw [(hpend.look_done hp hi h9 ht hcount).1]
        exact ⟨fun _ => ⟨t, List.mem_cons_self, hcount⟩, fun _ => rfl⟩

/-- What a wait leaves that ends with the last of its turns. -/
theorem wait_returns (hp : RingRoom p) (hi : i < 0x800) {f : Packet}
    {ts : List TxTurn} : ∀ {s s' : Nic}, Pending l p v i f r s.cpu.mem →
      s.cpu.reg .r9 = txDesc p i → (∀ t ∈ ts, TxSpares l p t.other) →
      wait_sent (txPolls ts (r, s.cpu.mem)) s = some s' →
      (∀ k < ts.length,
        wait_sent (txPolls (ts.take k) (r, s.cpu.mem)) s = none) →
      txTurns ts (r, s.cpu.mem) = (r.sent f, s'.cpu.mem)
        ∧ TxReady l p v ((i + 1) % 0x800) s'.cpu.mem
        ∧ s'.cpu.reg = s.cpu.reg ∧ Silent s s' := by
  induction ts with
  | nil =>
      intro s s' _ _ _ h _
      cases h
  | cons t ts ih =>
      intro s s' hpend h9 hother h hlast
      have ht := hother t List.mem_cons_self
      rcases Nat.eq_zero_or_pos t.count with hcount | hcount
      · obtain ⟨heq, hrun, hpend'⟩ :=
          hpend.look_idle hp hi h9 ht hcount
        rw [heq] at h
        obtain ⟨h1, h2, h3, h4⟩ := ih hpend' h9
          (fun u hu => hother u (List.mem_cons_of_mem t hu)) h fun k hk => by
            have hnone := hlast (k + 1) (Nat.succ_lt_succ hk)
            rw [List.take_succ_cons,
              (hpend.look_idle hp hi h9 ht hcount).1] at hnone
            exact hnone
        refine ⟨?_, h2, h3, ⟨h4.out, h4.sent, h4.received, h4.updates⟩⟩
        show txTurns ts (t.run (r, s.cpu.mem)) = _
        rw [hrun]
        exact h1
      · -- the card takes the packet, so this is the last turn
        obtain ⟨heq, hrun, hready⟩ :=
          hpend.look_done hp hi h9 ht hcount
        rw [heq] at h
        cases h
        have hnil : ts = [] := by
          by_contra hne
          have hnone := hlast 1 (Nat.succ_lt_succ (List.length_pos_iff.2 hne))
          rw [List.take_succ_cons,
            (hpend.look_done hp hi h9 ht hcount).1] at hnone
          cases hnone
        rw [hnil]
        exact ⟨hrun, hready, rfl, rfl, rfl, rfl, rfl⟩

-- ================================================================ the send

/-- The driver between two sends, `i` its index; the card has nothing to
do. -/
structure TxIdle (l : NicLabels L) (p v : BitVec 64) (i : Nat) (r : TxCard)
    (m : Mem) : Prop where
  ready : TxReady l p v i m
  card : TxSetUp p r
  head : r.head = i
  tail : r.tail = i

/-- The card with its tail moved. -/
def TxCard.moved (r : TxCard) (t : Nat) : TxCard := { r with tail := t }

theorem TxCard.moved_tail (r : TxCard) (t : Nat) : (r.moved t).tail = t := rfl

/-- What a write to a register does to the ring's card. -/
theorem TxCard.take_register (v : BitVec 64) (r : TxCard) (reg : BitVec 16)
    (y : BitVec 32) (k n : Nat) :
    TxCard.take v r ⟨tailAddr v reg, y, k, n⟩
      = if reg = REG_TXDESCLO then { r with low := y &&& 0xFFFFFFF0#32 }
        else if reg = REG_TXDESCHI then { r with high := y }
        else if reg = REG_TXDESCLEN then
          { r with length := y.toNat % 0x100000 / 16 }
        else if reg = REG_TXDESCHEAD then { r with head := y.toNat % 0x10000 }
        else if reg = REG_TXDESCTAIL then { r with tail := y.toNat % 0x10000 }
        else if reg = REG_TCTRL then { r with enabled := y.getLsbD 1 }
        else r :=
  if_congr (tailAddr_inj v) rfl (if_congr (tailAddr_inj v) rfl
    (if_congr (tailAddr_inj v) rfl (if_congr (tailAddr_inj v) rfl
      (if_congr (tailAddr_inj v) rfl (if_congr (tailAddr_inj v) rfl rfl)))))

/-- A write to the tail. -/
theorem TxCard.take_tail (v : BitVec 64) (r : TxCard) (y : BitVec 32)
    (k n : Nat) : TxCard.take v r ⟨tailAddr v REG_TXDESCTAIL, y, k, n⟩
      = r.moved (y.toNat % 0x10000) := by
  rw [TxCard.take_register, if_neg (by decide), if_neg (by decide),
    if_neg (by decide), if_neg (by decide), if_pos rfl, TxCard.moved]

/-- The driver before its first look. -/
def waiting (l : NicLabels L) (s : Nic) : Nic :=
  update_tail l REG_TXDESCTAIL l.e1000_tx_cur (queued l s)

theorem sendOffered_eq (l : NicLabels L) (v : BitVec 64) (r : TxCard)
    (s : Nic) : sendOffered l v r s
      = (((waiting l s).out.drop s.out.length).foldl (TxCard.take v) r,
        (waiting l s).cpu.mem) := by
  simp only [sendOffered, waiting, queued, Nic.run, Nic.since]

/-- A packet in the send buffer that a descriptor's buffer holds. -/
def Sendable (l : NicLabels L) (m : Mem) : Prop :=
  (m.read16 l.e1000_send_packet_len).toNat ≤ 0x800

/-- A register save stays below the image. -/
theorem pushaq_above (hs : StackOk c) {a : BitVec 64}
    (ha : 0x10000 ≤ a.toNat) : c.pushaq.mem a = c.mem a := by
  obtain ⟨hlo, hhi⟩ := hs
  obtain ⟨-, -, hpush, -⟩ := Cpu.pushaq_spec (c := c) (by omega)
  exact hpush a (Or.inr (by omega))

/-- The bytes the transmit side reads before it sends. -/
def TxRead (l : NicLabels L) (p a : BitVec 64) : Prop :=
  (l.e1000_mem_base.toNat + 16 ≤ a.toNat
      ∧ a.toNat < l.e1000_mem_base.toNat + 26)
    ∨ (l.e1000_rx_cur.toNat + 12 ≤ a.toNat
      ∧ a.toNat < l.e1000_rx_cur.toNat + 20)
    ∨ (l.e1000_rx_cur.toNat + 44 ≤ a.toNat
      ∧ a.toNat < l.e1000_rx_cur.toNat + 52)
    ∨ (p.toNat + 0x8000 ≤ a.toNat ∧ a.toNat < p.toNat + 0x10000
      ∧ (a.toNat - p.toNat) % 16 < 8)

/-- With those bytes the transmit side is ready at the index it has. -/
theorem TxReady.reads {n : Nat} (hp : RingRoom p) (h : TxReady l p v i m)
    (hsame : ∀ a, TxRead l p a → m' a = m a)
    (hindex : m'.read16 l.e1000_tx_cur = BitVec.ofNat 16 n) :
    TxReady l p v n m' := by
  have hcells := l.rx_cur_in
  have hbase := l.mem_base_in
  have hflag := ioport_flag_toNat l
  have hvaddr := vaddress_toNat l
  have hdesc : l.e1000_tx_desc_ptr.toNat = l.e1000_rx_cur.toNat + 12 :=
    rx_cur_add_toNat l (by omega)
  have hpacket : l.e1000_send_packet.toNat = l.e1000_rx_cur.toNat + 44 :=
    rx_cur_add_toNat l (by omega)
  have hread : ∀ a : BitVec 64, a.toNat + 8 ≤ 2 ^ 64 →
      (∀ b : BitVec 64, a.toNat ≤ b.toNat → b.toNat < a.toNat + 8 →
        TxRead l p b) → m'.read64 a = m.read64 a :=
    fun a hn hin => read_congr_bytes (n := 8) hn fun b hlo hhi =>
      hsame b (hin b hlo hhi)
  refine ⟨?_, ?_, hindex, ?_, ?_, fun k hk => ?_⟩
  · unfold Mapped
    rw [hsame _ (Or.inl (by omega))]
    exact h.mapped
  · exact (hread _ (by omega) fun b _ _ => Or.inl (by omega)).trans h.vaddress
  · exact (hread _ (by omega) fun b _ _ => Or.inr (Or.inl (by omega))).trans
      h.desc
  · exact (hread _ (by omega) fun b _ _ =>
      Or.inr (Or.inr (Or.inl (by omega)))).trans h.packet
  · have haddr := txDesc_toNat hp hk
    have hend := hp.2
    exact (hread _ (by omega) fun b _ _ =>
      Or.inr (Or.inr (Or.inr (by omega)))).trans (h.buffers k hk)

/-- The packet stays described when neither its descriptor and buffer nor
the send buffer change. -/
theorem Described.congr (hp : RingRoom p) (hi : i < 0x800) {n n' : Mem}
    (h : Described l p i m m') (hout : ∀ a, TxOwned l p a →
      ¬ (l.e1000_rx_cur.toNat ≤ a.toNat ∧ a.toNat < l.e1000_rx_cur.toNat + 6) →
      n' a = m' a)
    (hin : ∀ a : BitVec 64, 0x10000 ≤ a.toNat → n a = m a) :
    Described l p i n n' := by
  have hcells := l.rx_cur_in
  have hlen : (txDesc p i + descLength).toNat
      = p.toNat + (0x8000 + 16 * i) + 8 := txField_toNat hp hi (by omega)
  have hvar : l.e1000_send_packet_len.toNat = l.e1000_rx_cur.toNat + 54 :=
    rx_cur_add_toNat l (by omega)
  have hfield : ∀ k < 16, n' (txDesc p i + BitVec.ofNat 64 k)
      = m' (txDesc p i + BitVec.ofNat 64 k) := by
    intro k hk
    have haddr := txField_toNat hp hi hk
    have hlo := hp.1
    exact hout _ (txField_owned hp hi hk) (by omega)
  obtain ⟨hlo, hhi⟩ := id hp
  refine ⟨?_, (hfield 11 (by omega)).trans h.cmd,
    (hfield 12 (by omega)).trans h.status, fun k hk => ?_⟩
  · refine (read_congr_bytes (n := 2) (by omega) fun b hb hb' => ?_).trans
      (h.length.trans (read_congr_bytes (n := 2) (by omega) fun b hb _ => ?_))
    · exact hout b (Or.inr (Or.inr (Or.inr (Or.inr (Or.inl (by omega))))))
        (by omega)
    · exact (hin b (by omega)).symm
  · have haddr := txBuffer_toNat hp hi hk
    have hsrc := send_packet_toNat hp hk
    rw [hout _ (txBuffer_owned hp hi hk) (by omega), h.bytes k hk]
    exact (hin _ (by omega)).symm

/-- A packet queued, the index advanced. -/
theorem queued_at (hroom : TxRoom p) (hi : i < 0x800) (hs : StackOk s.cpu)
    (h : TxReady l p v i s.cpu.mem) :
    TxReady l p v ((i + 1) % 0x800) (queued l s).cpu.mem
      ∧ (queued l s).cpu.reg .rsp = s.cpu.pushaq.reg .rsp
      ∧ (queued l s).cpu.reg .r9 = txDesc p i
      ∧ Described l p i s.cpu.mem (queued l s).cpu.mem := by
  have hp := hroom.ring
  have hcells := l.rx_cur_in
  have hbase := l.mem_base_in
  have hruns := l.runs_apart
  have hdesc := txDesc_toNat hp hi
  have hbuf := txBuffer_toNat hp hi (k := 0) (by omega)
  rw [BitVec.add_zero] at hbuf
  have htx : l.e1000_tx_cur.toNat = l.e1000_rx_cur.toNat + 2 :=
    rx_cur_add_toNat l (by omega)
  obtain ⟨hlo, hhi⟩ := id hp
  have h₁ : TxReady l p v i s.cpu.pushaq.mem := h.congr hp fun a ha => by
    refine pushaq_above hs ?_
    rcases ha.place hp with hb | hb
    · have := hb.place hp
      omega
    · omega
  have hfill := tx_fill_at hp (by have := hroom.low; omega) h₁ hi
  have hindex₂ : (tx_fill l s.cpu.pushaq).mem.read16 l.e1000_tx_cur
      = BitVec.ofNat 16 i := by
    refine Eq.trans ?_ h₁.index
    exact read_congr_bytes (n := 2) (by omega) fun a _ ha =>
      hfill.rest a (Or.inl (by omega)) (Or.inl (by omega))
  obtain ⟨hval, hreg, hmem⟩ := advance_index_any (c := tx_fill l s.cpu.pushaq)
    (by omega) hi hindex₂
  refine ⟨?_, ?_, ?_, ?_⟩
  · refine h₁.reads hp (fun a ha => ?_) hval
    refine (hmem a ?_).trans (hfill.rest a ?_ ?_)
    · rcases ha with ha | ha | ha | ha <;> omega
    · rcases ha with ha | ha | ha | ha <;> omega
    · rcases ha with ha | ha | ha | ha <;> omega
  · exact (congrFun hreg .rsp).trans hfill.rsp
  · exact (congrFun hreg .r9).trans hfill.r9
  · exact hfill.described.congr hp hi (fun a _ hout => hmem a (by omega))
      fun a ha => (pushaq_above hs ha).symm

/-- The packet of a descriptor is the one described. -/
theorem Described.named (hsend : Sendable l m) (hr : TxReady l p v i m)
    (h : Described l p i m m') (hbuf : m'.read64 (txDesc p i) = txBuffer p i) :
    (m'.read16 (txDesc p i + descLength)).toNat ≤ 0x800
      ∧ TxCard.named (txDesc p i) m' = packetAt l m := by
  unfold TxCard.named packetAt
  rw [h.length, hbuf, hr.packet]
  refine ⟨hsend, bytesAt_congr fun k hk => h.bytes k ?_⟩
  exact Nat.lt_of_lt_of_le hk hsend

/-- The packet goes to the card. -/
theorem offered (hroom : TxRoom p) (hi : i < 0x800)
    (hs : StackRoom 240 s.cpu) (h : TxIdle l p v i r s.cpu.mem)
    (hsend : Sendable l s.cpu.mem) :
    (sendOffered l v r s).2 = (waiting l s).cpu.mem
      ∧ (waiting l s).cpu.reg .r9 = txDesc p i
      ∧ StackRoom 120 (waiting l s).cpu
      ∧ (sendOffered l v r s).1.wire = r.wire
      ∧ Pending l p v i (packetAt l s.cpu.mem) (sendOffered l v r s).1
        (waiting l s).cpu.mem := by
  have hp := hroom.ring
  obtain ⟨hready, hrsp, h9, hdescribed⟩ := queued_at hroom hi hs.stackOk h.ready
  have hs₁ : StackRoom 120 (queued l s).cpu := by
    unfold StackRoom
    rw [hrsp]
    exact hs.pushaq (n := 120)
  obtain ⟨hk, hhigh, hreg, -, -, -, hout⟩ := update_tail_spec (s := queued l s)
    hp hs₁.stackOk REG_TXDESCTAIL (o := 2) (by omega)
  have hout' := hout hready.mapped
  have htx : l.e1000_rx_cur + BitVec.ofNat 64 2 = l.e1000_tx_cur := rfl
  rw [htx, read32_split, hready.index, hready.vaddress] at hout'
  change Keeps l p (queued l s).cpu (waiting l s).cpu at hk
  have hsame : TxSame l p (queued l s).cpu.mem (waiting l s).cpu.mem :=
    hk.txSame hp fun a ha => hhigh a (by omega)
  have hready' := hready.congr hp hsame
  have hdescribed' := hdescribed.congr hp hi (fun a ha _ => hsame a ha)
    fun _ _ => rfl
  obtain ⟨hshort, hnamed⟩ := hdescribed'.named hsend h.ready
    (hready'.buffers i hi)
  have hcard : (sendOffered l v r s).1
      = r.moved ((i + 1) % 0x800) := by
    rw [sendOffered_eq, show (waiting l s).out = s.out ++ _ from hout',
      List.drop_left]
    show TxCard.take v r _ = _
    refine (r.take_tail v _ _ _).trans (congrArg r.moved ?_)
    rw [BitVec.toNat_append, ← Nat.shiftLeft_add_eq_or_of_lt
      (BitVec.isLt _), Nat.shiftLeft_eq, BitVec.toNat_ofNat]
    omega
  refine ⟨by rw [sendOffered_eq], (hreg .r9 (by decide)).trans h9,
    hs₁.of_keeps hk, ?_, ?_⟩
  · rw [hcard]
    rfl
  · rw [hcard]
    exact ⟨hready', ⟨h.card.base, h.card.length, h.card.enabled,
      h.card.begun⟩, h.head, r.moved_tail _, hdescribed'.cmd,
      hdescribed'.status, hshort, hnamed⟩

/-- One send: it returns when the card takes the packet in one of the turns,
and leaves the packet on the wire and the card with nothing to do. -/
theorem send_tx (hroom : TxRoom p) (hi : i < 0x800)
    (hs : StackRoom 240 s.cpu) (h : TxIdle l p v i r s.cpu.mem)
    (hsend : Sendable l s.cpu.mem) {ts : List TxTurn}
    (hother : ∀ t ∈ ts, TxSpares l p t.other) :
    let x := sendOffered l v r s
    ((e1000_send_out_packet l (txPolls ts x) s).isSome = true
        ↔ ∃ t ∈ ts, 0 < t.count)
      ∧ ∀ s', e1000_send_out_packet l (txPolls ts x) s = some s' →
        (∀ k < ts.length,
          e1000_send_out_packet l (txPolls (ts.take k) x) s = none) →
        TxIdle l p v ((i + 1) % 0x800) (txTurns ts x).1 s'.cpu.mem
          ∧ (txTurns ts x).1.wire = r.wire ++ [packetAt l s.cpu.mem] := by
  have hp := hroom.ring
  intro x
  obtain ⟨hmem, h9, hs', hwire, hpend⟩ := offered hroom hi hs h hsend
  have hx : x = (x.1, (waiting l s).cpu.mem) := by
    rw [← hmem]
  have heq : ∀ us, e1000_send_out_packet l (txPolls us x) s
      = (wait_sent (txPolls us (x.1, (waiting l s).cpu.mem)) (waiting l s)).map
        fun s => (s.run (print L l.e1000_sent_packet_msg
          e1000_sent_packet_msg)).run Cpu.popaq := by
    intro us
    rw [send_eq, ← hx]
    rfl
  constructor
  · rw [heq, Option.isSome_map]
    exact wait_isSome_iff hp hi hpend h9 hother
  · intro s' hrun hlast
    rw [heq] at hrun
    obtain ⟨s₅, hwait, rfl⟩ := Option.map_eq_some_iff.1 hrun
    obtain ⟨hturns, hready, hreg, -⟩ := wait_returns hp hi hpend h9 hother hwait
      fun k hk => by
        have hnone := hlast k hk
        rw [heq] at hnone
        exact Option.map_eq_none_iff.1 hnone
    have hs₅ : StackRoom 120 s₅.cpu := by
      unfold StackRoom
      rw [hreg]
      exact hs'
    obtain ⟨hk, -, hhigh, -⟩ := print_keeps (l := l) hp hs₅.stackOk
      l.e1000_sent_packet_msg e1000_sent_packet_msg
      (l.strings_in _ (by simp)) sent_msg_length
    rw [hx, hturns]
    refine ⟨⟨?_, ⟨hpend.card.base, hpend.card.length, hpend.card.enabled,
      hpend.card.begun⟩, hpend.tail, hpend.tail⟩, ?_⟩
    · show TxReady l p v _ (Cpu.popaq _).mem
      rw [Cpu.popaq_mem]
      exact hready.congr hp (hk.txSame hp hhigh)
    · show x.1.wire ++ _ = _
      rw [hwire]

-- ============================================================== the start

/-- The card's transmit registers. -/
def txRegisters : List (BitVec 16) :=
  [REG_TXDESCLO, REG_TXDESCHI, REG_TXDESCLEN, REG_TXDESCHEAD, REG_TXDESCTAIL,
    REG_TCTRL]

/-- A step, with the packets it was handed: other work, which keeps to its
own memory and registers, or a send. The turns of a send are the looks it
took. -/
inductive TxStep (l : NicLabels L) (p v : BitVec 64) :
    TxSystem → List Packet → TxSystem → Prop
  | other {x : TxSystem} {s' : Nic} :
      TxSame l p x.nic.cpu.mem s'.cpu.mem →
      (∀ w ∈ s'.since x.nic, ∀ reg ∈ txRegisters, w.addr ≠ tailAddr v reg) →
      TxStep l p v x []
        ⟨s', (s'.since x.nic).foldl (TxCard.take v) x.card⟩
  | send {x : TxSystem} {regs : Reg → BitVec 64} {ts : List TxTurn}
      {s' : Nic} :
      0x5400 ≤ (regs .rsp).toNat → (regs .rsp).toNat ≤ 0x10000 →
      Sendable l x.nic.cpu.mem → (∀ t ∈ ts, TxSpares l p t.other) →
      e1000_send_out_packet l
        (txPolls ts (sendOffered l v x.card (x.nic.at regs))) (x.nic.at regs)
        = some s' →
      (∀ k < ts.length, e1000_send_out_packet l (txPolls (ts.take k)
        (sendOffered l v x.card (x.nic.at regs))) (x.nic.at regs) = none) →
      TxStep l p v x [packetAt l x.nic.cpu.mem]
        ⟨s', (txTurns ts (sendOffered l v x.card (x.nic.at regs))).1⟩

/-- `x` after a run from `x₀` that was handed the packets. -/
inductive TxRun (l : NicLabels L) (p v : BitVec 64) (x₀ : TxSystem) :
    List Packet → TxSystem → Prop
  | start : TxRun l p v x₀ [] x₀
  | step {fs gs : List Packet} {x x' : TxSystem} :
      TxRun l p v x₀ fs x → TxStep l p v x gs x' →
      TxRun l p v x₀ (fs ++ gs) x'

/-- The invariant: `n` packets sent. -/
def TxAt (l : NicLabels L) (p v : BitVec 64) (n : Nat) (x : TxSystem) :
    Prop :=
  TxIdle l p v (n % 0x800) x.card x.nic.cpu.mem

variable {x x' x₀ : TxSystem} {fs gs : List Packet} {n : Nat}

/-- A card passes over what is not written to its registers. -/
theorem TxCard.take_others {ws : List DeviceWrite}
    (hws : ∀ w ∈ ws, ∀ reg ∈ txRegisters, w.addr ≠ tailAddr v reg)
    (r : TxCard) : ws.foldl (TxCard.take v) r = r := by
  induction ws generalizing r with
  | nil => rfl
  | cons w ws ih =>
      have hw : ∀ reg ∈ txRegisters, ¬ w.addr = .mmio (reg.setWidth 64 + v) :=
        hws w List.mem_cons_self
      rw [List.foldl_cons, ih fun w' hw' => hws w' (List.mem_cons_of_mem _ hw')]
      unfold TxCard.take
      rw [if_neg (hw _ (by decide)), if_neg (hw _ (by decide)),
        if_neg (hw _ (by decide)), if_neg (hw _ (by decide)),
        if_neg (hw _ (by decide)), if_neg (hw _ (by decide))]

theorem TxIdle.congr (hp : RingRoom p) (h : TxIdle l p v i r m)
    (hsame : TxSame l p m m') : TxIdle l p v i r m' :=
  ⟨h.ready.congr hp hsame, h.card, h.head, h.tail⟩

/-- One step. -/
theorem TxAt.step (hroom : TxRoom p) (h : TxAt l p v n x)
    (hstep : TxStep l p v x gs x') :
    TxAt l p v (n + gs.length) x' ∧ x'.card.wire = x.card.wire ++ gs := by
  cases hstep with
  | other hsame hws =>
      rw [TxCard.take_others hws]
      exact ⟨TxIdle.congr hroom.ring h hsame, (List.append_nil _).symm⟩
  | @send regs ts s' hlo hhi hsend hother hrun hlast =>
      obtain ⟨-, hdone⟩ := send_tx (s := x.nic.at regs) hroom
        (Nat.mod_lt n (by omega))
        ⟨by show 0x5100 + 240 ≤ (regs .rsp).toNat; omega, hhi⟩ h hsend hother
      obtain ⟨hidle, hwire⟩ := hdone s' hrun hlast
      rw [Nat.mod_add_mod] at hidle
      exact ⟨hidle, hwire⟩

/-- A whole run. -/
theorem TxRun.at (hroom : TxRoom p) (h₀ : TxAt l p v 0 x₀)
    (hrun : TxRun l p v x₀ fs x) :
    TxAt l p v fs.length x ∧ x.card.wire = x₀.card.wire ++ fs := by
  induction hrun with
  | start => exact ⟨h₀, (List.append_nil _).symm⟩
  | step _ hstep ih =>
      obtain ⟨hat, hwire⟩ := ih
      obtain ⟨hat', hwire'⟩ := hat.step hroom hstep
      rw [List.length_append, hwire', hwire, List.append_assoc]
      exact ⟨hat', rfl⟩

-- =============================================================== the result

/-- A packet's length stored before a send. -/
def storeLength (l : NicLabels L) (len : BitVec 16) : Dma :=
  fun m => m.write16 l.e1000_send_packet_len len

theorem storeLength_spares (hp : RingRoom p) (len : BitVec 16) :
    TxSpares l p (storeLength l len) := by
  have hvar : l.e1000_send_packet_len.toNat = l.e1000_rx_cur.toNat + 54 :=
    rx_cur_add_toNat l (by omega)
  have hcells := l.rx_cur_in
  have hruns := l.runs_apart
  have hbase := l.mem_base_in
  have hlo := hp.1
  intro m a ha
  refine write_apply_of_out (n := 2) _ _ (by omega) ?_
  rcases ha with h | h | h | h | h | h <;> omega

/-- A packet stored and handed over, and taken before the first look. -/
theorem TxAt.one_packet (hroom : TxRoom p) (h : TxAt l p v 0 x₀) :
    ∃ f x, TxRun l p v x₀ [f] x := by
  have hp := hroom.ring
  obtain ⟨x₁, hx₁⟩ : ∃ x₁ : TxSystem, x₁ = ⟨x₀.nic.dma (storeLength l 60#16),
    ((x₀.nic.dma (storeLength l 60#16)).since x₀.nic).foldl (TxCard.take v)
      x₀.card⟩ := ⟨_, rfl⟩
  have hstep : TxStep l p v x₀ [] x₁ := by
    rw [hx₁]
    refine .other (storeLength_spares hp _ _) fun w hw => ?_
    rw [show (x₀.nic.dma (storeLength l 60#16)).since x₀.nic = [] from
      List.drop_length] at hw
    cases hw
  have hat := (h.step hroom hstep).1
  have hsend : Sendable l x₁.nic.cpu.mem := by
    have hvar : l.e1000_send_packet_len.toNat = l.e1000_rx_cur.toNat + 54 :=
      rx_cur_add_toNat l (by omega)
    have hcells := l.rx_cur_in
    have hlen : x₁.nic.cpu.mem.read16 l.e1000_send_packet_len = 60#16 := by
      rw [hx₁]
      exact read_write_self (n := 2) _ _ _ (by omega)
    unfold Sendable
    rw [hlen]
    decide
  have hspares : ∀ t ∈ [TxTurn.mk 1 id], TxSpares l p t.other := by
    rintro t ht
    rw [List.mem_singleton.1 ht]
    exact fun m a _ => rfl
  have hone := fun (ts : List TxTurn) (hts : ∀ t ∈ ts, TxSpares l p t.other) =>
    (send_tx (s := x₁.nic.at fun _ => 0xB000#64) hroom
      (Nat.mod_lt _ (by omega))
      ⟨by show 0x5100 + 240 ≤ 0xB000; omega, by show 0xB000 ≤ 0x10000; omega⟩
      hat hsend hts).1
  obtain ⟨s', hs'⟩ := Option.isSome_iff_exists.1 ((hone _ hspares).2
    ⟨_, List.mem_singleton_self _, Nat.one_pos⟩)
  have hnone := mt (hone [] fun _ h => absurd h List.not_mem_nil).1
    fun ⟨_, h, _⟩ => absurd h List.not_mem_nil
  refine ⟨_, _, TxRun.step (TxRun.step .start hstep) (.send
    (by show 0x5400 ≤ 0xB000; omega) (by show 0xB000 ≤ 0x10000; omega) hsend
    hspares hs' fun k hk => ?_)⟩
  obtain rfl : k = 0 := Nat.lt_one_iff.1 hk
  exact Option.not_isSome_iff_eq_none.1 hnone

end BootLoader.ThirdStage
