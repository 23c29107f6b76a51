/-
The rings after `e1000_init_mem`.

The pointers are laid out one area after another from 0x10000 past the
memory in use, and both loops fill their 2048 descriptors with the
addresses of 2048-byte buffers (`Filling`). Nothing of this touches the two
indices, which are 0 as declared: the rings start in `RingsAt 0 0`.
-/
import BootLoader.ThirdStage.Proofs.NicRings

namespace BootLoader.ThirdStage

open FlatMemory Mem Words

variable {L : Layout} {l : NicLabels L} {p q : BitVec 64} {w : BitVec 8}
  {c d e : Cpu}

-- ================================================================ the loops

/-- A round of a descriptor loop: the buffer's address and the status `w`
into the descriptor at R8, both pointers and the count on. -/
structure FillRound (w : BitVec 8) (round : Cpu → Cpu) : Prop where
  r8 : ∀ c, (round c).reg .r8 = c.reg .r8 + 16#64
  r9 : ∀ c, (round c).reg .r9 = c.reg .r9 + 0x800#64
  rcx : ∀ c, (round c).reg .rcx = c.reg .rcx - 1#64
  rsp : ∀ c, (round c).reg .rsp = c.reg .rsp
  addr : ∀ c, (c.reg .r8).toNat + 16 ≤ 2 ^ 64 →
    (round c).mem.read64 (c.reg .r8) = c.reg .r9
  status : ∀ c, (c.reg .r8).toNat + 16 ≤ 2 ^ 64 →
    (round c).mem (c.reg .r8 + descStatus) = w
  mem : ∀ c, (c.reg .r8).toNat + 16 ≤ 2 ^ 64 → ∀ a : BitVec 64,
    a.toNat < (c.reg .r8).toNat ∨ (c.reg .r8).toNat + 16 ≤ a.toNat →
    (round c).mem a = c.mem a

/-- A field store in the descriptor at `a`, past its address. -/
theorem field_store (m : Mem) {a : BitVec 64} (ha : a.toNat + 16 ≤ 2 ^ 64)
    {o : Nat} (hlo : 8 ≤ o) (hhi : o < 16) (v : BitVec 8) :
    (m.write8 (a + BitVec.ofNat 64 o) v).read64 a = m.read64 a
      ∧ ∀ b : BitVec 64, b.toNat < a.toNat ∨ a.toNat + 16 ≤ b.toNat →
        m.write8 (a + BitVec.ofNat 64 o) v b = m b := by
  have haddr : (a + BitVec.ofNat 64 o).toNat = a.toNat + o :=
    toNat_add_lit (by omega)
  refine ⟨read_write_of_disjoint (n := 1) (k := 8) _ _ (by omega) (by omega)
    (by omega), ?_⟩
  intro b hb
  exact write_apply_of_out (n := 1) _ _ (by omega) (by omega)

theorem fillRound_rx : FillRound 0x0#8 rx_loop_round where
  r8 := fun c => by
    simp only [rx_loop_round, Cpu.set_reg, Cpu.store8_reg, Cpu.store64_reg,
      reduceCtorEq, if_false, if_true, e1000_desc_size]
  r9 := fun c => by
    simp only [rx_loop_round, Cpu.set_reg, Cpu.store8_reg, Cpu.store64_reg,
      reduceCtorEq, if_false, if_true, e1000_packet_size]
  rcx := fun c => by
    simp only [rx_loop_round, Cpu.set_reg, Cpu.store8_reg, Cpu.store64_reg,
      reduceCtorEq, if_false, if_true]
  rsp := fun c => by
    simp only [rx_loop_round, Cpu.set_reg, Cpu.store8_reg, Cpu.store64_reg,
      reduceCtorEq, if_false]
  addr := fun c hend => by
    refine (field_store _ hend (o := 12) (by omega) (by omega) 0x0#8).1.trans
      ?_
    exact read64_write64_self _ _ _
  status := fun c _ => write8_self _ _ _
  mem := fun c hend a ha => by
    refine ((field_store _ hend (o := 12) (by omega) (by omega) 0x0#8).2 a
      ha).trans ?_
    exact write_apply_of_out (n := 8) _ _ (by omega) (by omega)

theorem fillRound_tx : FillRound TSTA_DD tx_loop_round where
  r8 := fun c => by
    simp only [tx_loop_round, Cpu.set_reg, Cpu.store8_reg, Cpu.store64_reg,
      reduceCtorEq, if_false, if_true, e1000_desc_size]
  r9 := fun c => by
    simp only [tx_loop_round, Cpu.set_reg, Cpu.store8_reg, Cpu.store64_reg,
      reduceCtorEq, if_false, if_true, e1000_packet_size]
  rcx := fun c => by
    simp only [tx_loop_round, Cpu.set_reg, Cpu.store8_reg, Cpu.store64_reg,
      reduceCtorEq, if_false, if_true]
  rsp := fun c => by
    simp only [tx_loop_round, Cpu.set_reg, Cpu.store8_reg, Cpu.store64_reg,
      reduceCtorEq, if_false]
  addr := fun c hend => by
    refine (field_store _ hend (o := 12) (by omega) (by omega)
      TSTA_DD).1.trans ?_
    refine (field_store _ hend (o := 11) (by omega) (by omega) 0x0#8).1.trans
      ?_
    exact read64_write64_self _ _ _
  status := fun c _ => write8_self _ _ _
  mem := fun c hend a ha => by
    refine ((field_store _ hend (o := 12) (by omega) (by omega)
      TSTA_DD).2 a ha).trans ?_
    refine ((field_store _ hend (o := 11) (by omega) (by omega) 0x0#8).2 a
      ha).trans ?_
    exact write_apply_of_out (n := 8) _ _ (by omega) (by omega)

/-- The descriptors at `p` after `k` rounds over the buffers at `q`. -/
structure Filling (c : Cpu) (p q : BitVec 64) (w : BitVec 8) (k : Nat)
    (e : Cpu) : Prop where
  r8 : e.reg .r8 = p + BitVec.ofNat 64 (16 * k)
  r9 : e.reg .r9 = q + BitVec.ofNat 64 (0x800 * k)
  rcx : e.reg .rcx = BitVec.ofNat 64 (0x800 - k)
  rsp : e.reg .rsp = c.reg .rsp
  filled : ∀ i < k, e.mem.read64 (p + BitVec.ofNat 64 (16 * i))
    = q + BitVec.ofNat 64 (0x800 * i)
  status : ∀ i < k, e.mem (rxStatus p i) = w
  rest : ∀ a : BitVec 64, a.toNat < p.toNat ∨ p.toNat + 0x8000 ≤ a.toNat →
    e.mem a = c.mem a

theorem Filling.step {round : Cpu → Cpu} (hround : FillRound w round)
    (hend : p.toNat + 0x8000 ≤ 2 ^ 64) {k : Nat} (hk : k < 0x800)
    (h : Filling c p q w k e) : Filling c p q w (k + 1) (round e) := by
  have haddr : ∀ n, n ≤ 0x7FF → (p + BitVec.ofNat 64 (16 * n)).toNat
      = p.toNat + 16 * n := fun n hn => toNat_add_lit (by omega)
  have h8 : (e.reg .r8).toNat = p.toNat + 16 * k := by
    rw [h.r8]
    exact haddr k (by omega)
  refine ⟨?_, ?_, ?_, (hround.rsp e).trans h.rsp, ?_, ?_, ?_⟩
  · rw [hround.r8, h.r8, BitVec.add_assoc, ← BitVec.ofNat_add]
    rfl
  · rw [hround.r9, h.r9, BitVec.add_assoc, ← BitVec.ofNat_add]
    rfl
  · rw [hround.rcx, h.rcx]
    apply BitVec.eq_of_toNat_eq
    simp only [BitVec.toNat_sub, BitVec.toNat_ofNat]
    omega
  · intro i hi
    rcases Nat.lt_succ_iff_lt_or_eq.1 hi with hlt | rfl
    · -- an earlier descriptor
      rw [← h.filled i hlt]
      have hi' := haddr i (by omega)
      exact read_congr_bytes (n := 8) (by omega) fun a hlo hhi =>
        hround.mem e (by omega) a (by omega)
    · rw [← h.r8, hround.addr e (by omega), h.r9]
  · intro i hi
    rcases Nat.lt_succ_iff_lt_or_eq.1 hi with hlt | rfl
    · rw [← h.status i hlt]
      have hi' := haddr i (by omega)
      have hstatus : (rxStatus p i).toNat = p.toNat + 16 * i + 12 := by
        unfold rxStatus descStatus
        rw [toNat_add_lit (by omega), hi']
      exact hround.mem e (by omega) _ (by omega)
    · have hstatus := hround.status e (by omega)
      rw [h.r8] at hstatus
      exact hstatus
  · intro a ha
    rw [hround.mem e (by omega) a (by omega)]
    exact h.rest a ha

/-- A ring filled, with what the rounds keep beside. -/
theorem fill_ring_rule {round : Cpu → Cpu} (hround : FillRound w round)
    {desc packets : BitVec 64} (hdesc : c.mem.read64 desc = p)
    (hpackets : c.mem.read64 packets = q)
    (hend : p.toNat + 0x8000 ≤ 2 ^ 64) {I : Nat → Cpu → Prop}
    (hfirst : ∀ e, I 0 e) (hstep : ∀ k e, k < 0x800 → Filling c p q w k e →
      I k e → I (k + 1) (round e)) :
    Filling c p q w 0x800 (fill_ring desc packets round c)
      ∧ I 0x800 (fill_ring desc packets round c) := by
  have hstart : Filling c p q w 0 (((c.load64 .r8 desc).load64 .r9
      packets).set .rcx e1000_desc_array_count) := by
    refine ⟨?_, ?_, Cpu.set_reg_self _ _ _, ?_, fun i hi => ?_,
      fun i hi => ?_, fun _ _ => rfl⟩
    · simp only [Cpu.set_reg, Cpu.load64_reg, reduceCtorEq, if_false, if_true,
        hdesc]
      exact (BitVec.add_zero _).symm
    · simp only [Cpu.set_reg, Cpu.load64_reg, Cpu.load64_mem, reduceCtorEq,
        if_false, if_true, hpackets]
      exact (BitVec.add_zero _).symm
    · simp only [Cpu.set_reg, Cpu.load64_reg, reduceCtorEq, if_false]
    · omega
    · omega
  unfold fill_ring
  refine Loop.doWhile_counted (fun k e => Filling c p q w k e ∧ I k e)
    (by omega) ?_ ?_ ?_ (Nat.le_refl _) ⟨hstart, hfirst _⟩
  · rintro k e hk ⟨h, hi⟩
    exact ⟨h.step hround hend hk, hstep k e hk h hi⟩
  · rintro k e - hk ⟨h, -⟩
    rw [h.rcx, slt_of_small (by simp) (by rw [toNat_lit] <;> omega),
      toNat_lit (n := 0x800 - k) (by omega)]
    exact decide_eq_true (by simp; omega)
  · rintro e ⟨h, -⟩
    rw [h.rcx]
    rfl

/-- A ring filled. -/
theorem fill_ring_spec {round : Cpu → Cpu} (hround : FillRound w round)
    {desc packets : BitVec 64} (hdesc : c.mem.read64 desc = p)
    (hpackets : c.mem.read64 packets = q)
    (hend : p.toNat + 0x8000 ≤ 2 ^ 64) :
    Filling c p q w 0x800 (fill_ring desc packets round c) :=
  (fill_ring_rule (I := fun _ _ => True) hround hdesc hpackets hend
    (fun _ => trivial) fun _ _ _ _ _ => trivial).1

/-- The command byte of a transmit descriptor. -/
def txCmd (p : BitVec 64) (n : Nat) : BitVec 64 :=
  p + BitVec.ofNat 64 (16 * n) + descCmd

/-- The transmit ring filled: no command in any descriptor. -/
theorem fill_tx_spec {desc packets : BitVec 64}
    (hdesc : c.mem.read64 desc = p) (hpackets : c.mem.read64 packets = q)
    (hend : p.toNat + 0x8000 ≤ 2 ^ 64) :
    Filling c p q TSTA_DD 0x800 (fill_ring desc packets tx_loop_round c)
      ∧ ∀ i < 0x800,
        (fill_ring desc packets tx_loop_round c).mem (txCmd p i) = 0x0#8 := by
  refine fill_ring_rule (I := fun k e => ∀ i < k, e.mem (txCmd p i) = 0x0#8)
    fillRound_tx hdesc hpackets hend (fun e i hi => by omega) ?_
  intro k e hk h hcmd i hi
  have haddr : ∀ n, n ≤ 0x7FF → (txCmd p n).toNat = p.toNat + 16 * n + 11 := by
    intro n hn
    have hdesc : (p + BitVec.ofNat 64 (16 * n)).toNat = p.toNat + 16 * n :=
      toNat_add_lit (by omega)
    unfold txCmd descCmd
    rw [toNat_add_lit (by omega), hdesc]
  have h8 : (e.reg .r8).toNat = p.toNat + 16 * k := by
    rw [h.r8, toNat_add_lit (by omega)]
  have hi' := haddr i (by omega)
  rcases Nat.lt_succ_iff_lt_or_eq.1 hi with hlt | rfl
  · rw [← hcmd i hlt]
    exact fillRound_tx.mem e (by omega) _ (by omega)
  · -- the status goes in after the command
    have hat : txCmd p i = e.reg .r8 + descCmd := by
      rw [h.r8]
      rfl
    have hstatus : (e.reg .r8 + descStatus).toNat = (e.reg .r8).toNat + 12 :=
      toNat_add_lit (by omega)
    rw [hat] at hi' ⊢
    refine Eq.trans (write_apply_of_out (n := 1)
      (a := e.reg .r8 + descStatus) _ _ (by omega) (by omega))
      (write8_self ((e.store64 (e.reg .r8) (e.reg .r9)).mem)
        (e.reg .r8 + descCmd) 0x0#8)

-- ============================================================= the pointers

/-- One area: its pointer stored, RAX past it. -/
theorem assign_area_spec (c : Cpu) (cell size : BitVec 64) :
    (assign_area cell size c).reg .rax = c.reg .rax + size
      ∧ (assign_area cell size c).reg .rsp = c.reg .rsp
      ∧ (assign_area cell size c).mem = c.mem.write64 cell (c.reg .rax) :=
  ⟨Cpu.set_reg_self _ _ _, Cpu.set_reg_of_ne (by decide), rfl⟩

/-- Pointers of the second run apart from each other. -/
theorem pointer_other (l : NicLabels L) (m : Mem) {i j : Nat} (w : BitVec 64)
    (h : i + 8 ≤ j ∨ j + 8 ≤ i) (hi : i + 8 ≤ 52) (hj : j + 8 ≤ 52) :
    (m.write64 (l.e1000_rx_cur + BitVec.ofNat 64 i) w).read64
        (l.e1000_rx_cur + BitVec.ofNat 64 j)
      = m.read64 (l.e1000_rx_cur + BitVec.ofNat 64 j) :=
  read_write_off (n := 8) (k := 8) m _ w h (by omega) (by omega)

/-- The memory after the stores, from the pointers' values. -/
theorem assign_areas_mem (l : NicLabels L) (c : Cpu)
    (hp : p = c.mem.read64 l.current_memory_address + 0x10000#64) :
    (assign_areas l c).mem
      = ((((((((c.mem.write64 l.current_memory_address p).write64
        l.e1000_rx_desc_ptr p).write64
        l.e1000_tx_desc_ptr (p + 0x8000#64)).write64
        l.e1000_rx_packets_ptr (p + 0x10000#64)).write64
        l.e1000_tx_packets_ptr (p + 0x410000#64)).write64
        l.e1000_recv_packet (p + 0x810000#64)).write64
        l.e1000_send_packet (p + 0x810800#64)).write64
        l.current_memory_address (p + 0x811000#64)) := by
  unfold assign_areas
  simp only [assign_area, e1000_desc_array_size, e1000_packet_area_size,
    e1000_packet_size, Cpu.store64_mem, Cpu.store64_reg, Cpu.set_mem,
    Cpu.set_reg, Cpu.load64_reg, Cpu.load64_mem, Cpu.reads_mem, if_true,
    ← hp, read64_write64_self, BitVec.add_assoc, BitVec.reduceAdd]

/-- The six pointers, one area after another from 0x10000 past the memory
in use, and the memory in use past the last. -/
theorem assign_areas_spec (l : NicLabels L) (c : Cpu)
    (hp : p = c.mem.read64 l.current_memory_address + 0x10000#64) :
    (assign_areas l c).reg .rsp = c.reg .rsp
      ∧ (assign_areas l c).mem.read64 l.e1000_rx_desc_ptr = p
      ∧ (assign_areas l c).mem.read64 l.e1000_tx_desc_ptr = p + 0x8000#64
      ∧ (assign_areas l c).mem.read64 l.e1000_rx_packets_ptr
        = p + 0x10000#64
      ∧ (assign_areas l c).mem.read64 l.e1000_tx_packets_ptr
        = p + 0x410000#64
      ∧ (assign_areas l c).mem.read64 l.e1000_recv_packet = p + 0x810000#64
      ∧ (assign_areas l c).mem.read64 l.e1000_send_packet = p + 0x810800#64
      ∧ (assign_areas l c).mem.read64 l.current_memory_address
        = p + 0x811000#64
      ∧ ∀ a : BitVec 64, a.toNat < l.e1000_rx_cur.toNat + 4
          ∨ l.e1000_rx_cur.toNat + 52 ≤ a.toNat →
        a.toNat < l.current_memory_address.toNat
          ∨ l.current_memory_address.toNat + 8 ≤ a.toNat →
        (assign_areas l c).mem a = c.mem a := by
  have hcells := l.rx_cur_in
  have hcur := l.current_in
  have hapart := l.current_apart l.e1000_rx_cur (Or.inr rfl)
  have hmem := assign_areas_mem l c hp
  have hrsp : (assign_areas l c).reg .rsp = c.reg .rsp := by
    unfold assign_areas
    simp only [assign_area, Cpu.store64_reg, Cpu.set_reg, Cpu.load64_reg,
      Cpu.reads_reg, reduceCtorEq, if_false]
  -- the last store is not to a pointer
  have hlast : ∀ (m : Mem) (w : BitVec 64) {j : Nat}, j + 8 ≤ 52 →
      (m.write64 l.current_memory_address w).read64
          (l.e1000_rx_cur + BitVec.ofNat 64 j)
        = m.read64 (l.e1000_rx_cur + BitVec.ofNat 64 j) := by
    intro m w j hj
    have haddr := rx_cur_add_toNat l (n := j) (by omega)
    exact read64_write64_of_disjoint m w (by omega) (by omega) (by omega)
  refine ⟨hrsp, ?_, ?_, ?_, ?_, ?_, ?_,
    by rw [hmem, read64_write64_self], ?_⟩
  iterate 6
    rw [hmem]
    simp only [NicLabels.e1000_rx_desc_ptr, NicLabels.e1000_tx_desc_ptr,
      NicLabels.e1000_rx_packets_ptr, NicLabels.e1000_tx_packets_ptr,
      NicLabels.e1000_recv_packet, NicLabels.e1000_send_packet]
    rw [hlast _ _ (by omega)]
    simp (disch := omega) only [pointer_other, read64_write64_self]
  -- the bytes of none of them
  intro a ha hout
  have hother : ∀ (m : Mem) (w : BitVec 64) {j : Nat}, 4 ≤ j → j + 8 ≤ 52 →
      m.write64 (l.e1000_rx_cur + BitVec.ofNat 64 j) w a = m a := by
    intro m w j hlo hhi
    have haddr := rx_cur_add_toNat l (n := j) (by omega)
    exact write_apply_of_out (n := 8) m w (by omega) (by omega)
  have hcurrent : ∀ (m : Mem) (w : BitVec 64),
      m.write64 l.current_memory_address w a = m a :=
    fun m w => write_apply_of_out (n := 8) m w (by omega) hout
  rw [hmem]
  simp only [NicLabels.e1000_rx_desc_ptr, NicLabels.e1000_tx_desc_ptr,
    NicLabels.e1000_rx_packets_ptr, NicLabels.e1000_tx_packets_ptr,
    NicLabels.e1000_recv_packet, NicLabels.e1000_send_packet]
  simp (disch := omega) only [hother, hcurrent]

-- =============================================================== the result

/-- Where the areas start. -/
def ringBase (l : NicLabels L) (c : Cpu) : BitVec 64 :=
  c.mem.read64 l.current_memory_address + 0x10000#64

/-- A machine about to lay out the rings: the indices as declared, room for
the areas past the memory in use, room on the stack. -/
structure BeforeInit (l : NicLabels L) (c : Cpu) : Prop where
  stack : StackRoom 120 c
  rx_cur : c.mem.read16 l.e1000_rx_cur = 0#16
  tx_cur : c.mem.read16 l.e1000_tx_cur = 0#16
  room : RingRoom (ringBase l c)

theorem init_msg_length : e1000_mem_init_msg.length ≤ 30 := by
  unfold e1000_mem_init_msg ascii
  rw [List.length_append, List.length_map, String.length_toList]
  decide

/-- Before the message: the pointers, the memory in use past the areas, and
both rings filled. -/
structure InitBody (l : NicLabels L) (p : BitVec 64) (c d : Cpu) : Prop where
  rsp : d.reg .rsp = c.pushaq.reg .rsp
  rx_desc : d.mem.read64 l.e1000_rx_desc_ptr = p
  tx_desc : d.mem.read64 l.e1000_tx_desc_ptr = p + 0x8000#64
  rx_packets : d.mem.read64 l.e1000_rx_packets_ptr = p + 0x10000#64
  tx_packets : d.mem.read64 l.e1000_tx_packets_ptr = p + 0x410000#64
  recv_packet : d.mem.read64 l.e1000_recv_packet = p + 0x810000#64
  send_packet : d.mem.read64 l.e1000_send_packet = p + 0x810800#64
  current : d.mem.read64 l.current_memory_address = p + 0x811000#64
  rx_addr : ∀ i < 0x800, d.mem.read64 (p + BitVec.ofNat 64 (16 * i))
    = p + 0x10000#64 + BitVec.ofNat 64 (0x800 * i)
  rx_status : ∀ i < 0x800, d.mem (rxStatus p i) = 0x0#8
  tx_addr : ∀ i < 0x800,
    d.mem.read64 (p + 0x8000#64 + BitVec.ofNat 64 (16 * i))
      = p + 0x410000#64 + BitVec.ofNat 64 (0x800 * i)
  tx_status : ∀ i < 0x800, d.mem (rxStatus (p + 0x8000#64) i) = TSTA_DD
  tx_cmd : ∀ i < 0x800, d.mem (txCmd (p + 0x8000#64) i) = 0x0#8
  rest : ∀ a : BitVec 64, a.toNat < l.e1000_rx_cur.toNat + 4
      ∨ l.e1000_rx_cur.toNat + 52 ≤ a.toNat →
    a.toNat < l.current_memory_address.toNat
      ∨ l.current_memory_address.toNat + 8 ≤ a.toNat →
    a.toNat < p.toNat ∨ p.toNat + 0x10000 ≤ a.toNat →
    d.mem a = c.pushaq.mem a

/-- Areas from `p` on that lie past the image and do not wrap. -/
def AreaRoom (p : BitVec 64) : Prop :=
  0x20000 ≤ p.toNat ∧ p.toNat + 0x811000 ≤ 2 ^ 64

theorem RingRoom.areaRoom (hp : RingRoom p) : AreaRoom p :=
  ⟨Nat.le_trans (by decide) hp.1, hp.2⟩

/-- A ring past the image leaves its cells. -/
theorem Filling.image {n : Nat} (h : Filling c p q w n e) (hp : AreaRoom p)
    {a : BitVec 64} (ha : a.toNat + 8 ≤ 0x20000) :
    e.mem.read64 a = c.mem.read64 a := by
  have hlo := hp.1
  exact read_congr_bytes (n := 8) (by omega) fun b _ hb =>
    h.rest b (Or.inl (by omega))

theorem init_body (hs : StackRoom 120 c) (hp : AreaRoom (ringBase l c)) :
    ∃ d, e1000_init_mem l c
        = (print L l.e1000_mem_init_msg e1000_mem_init_msg d).popaq
      ∧ InitBody l (ringBase l c) c d := by
  have hcells := l.rx_cur_in
  have hcur := l.current_in
  have hcurrent : c.pushaq.mem.read64 l.current_memory_address
      = c.mem.read64 l.current_memory_address :=
    pushaq_read (n := 8) hs.stackOk (by omega) (by omega)
  obtain ⟨hrsp, hrx, htx, hrxp, htxp, hrecv, hsend, hin_use, hrest⟩ :=
    assign_areas_spec (p := ringBase l c) l c.pushaq
      (by rw [hcurrent]; rfl)
  refine ⟨fill_ring l.e1000_tx_desc_ptr l.e1000_tx_packets_ptr tx_loop_round
    (fill_ring l.e1000_rx_desc_ptr l.e1000_rx_packets_ptr rx_loop_round
      (assign_areas l c.pushaq)), rfl, ?_⟩
  generalize assign_areas l c.pushaq = c₁ at *
  generalize ringBase l c = p at *
  obtain ⟨hlo, hhi⟩ := id hp
  have htxbase : (p + 0x8000#64).toNat = p.toNat + 0x8000 :=
    desc_toNat hp.2 (by omega)
  -- the receive ring, then the transmit ring over it
  have h₁ := fill_ring_spec fillRound_rx hrx hrxp (by omega)
  generalize fill_ring l.e1000_rx_desc_ptr l.e1000_rx_packets_ptr
    rx_loop_round c₁ = e at h₁ ⊢
  have hptr₁ : ∀ o, o + 8 ≤ 52 →
      e.mem.read64 (l.e1000_rx_cur + BitVec.ofNat 64 o)
        = c₁.mem.read64 (l.e1000_rx_cur + BitVec.ofNat 64 o) := by
    intro o ho
    have haddr := rx_cur_add_toNat l (n := o) (by omega)
    exact h₁.image hp (by omega)
  have hdesc : e.mem.read64 l.e1000_tx_desc_ptr = p + 0x8000#64 :=
    (hptr₁ 12 (by omega)).trans htx
  have hpackets : e.mem.read64 l.e1000_tx_packets_ptr = p + 0x410000#64 :=
    (hptr₁ 28 (by omega)).trans htxp
  obtain ⟨h₂, hcmd⟩ := fill_tx_spec hdesc hpackets (by omega)
  generalize fill_ring l.e1000_tx_desc_ptr l.e1000_tx_packets_ptr
    tx_loop_round e = d at h₂ hcmd ⊢
  have hptr : ∀ o, o + 8 ≤ 52 →
      d.mem.read64 (l.e1000_rx_cur + BitVec.ofNat 64 o)
        = c₁.mem.read64 (l.e1000_rx_cur + BitVec.ofNat 64 o) := by
    intro o ho
    have haddr := rx_cur_add_toNat l (n := o) (by omega)
    refine Eq.trans ?_ (hptr₁ o ho)
    exact read_congr_bytes (n := 8) (by omega) fun b _ hb =>
      h₂.rest b (Or.inl (by omega))
  have hmark : d.mem.read64 l.current_memory_address = p + 0x811000#64 := by
    refine Eq.trans ?_ ((h₁.image hp (by omega)).trans hin_use)
    exact read_congr_bytes (n := 8) (by omega) fun b _ hb =>
      h₂.rest b (Or.inl (by omega))
  refine ⟨(h₂.rsp.trans h₁.rsp).trans hrsp, (hptr 4 (by omega)).trans hrx,
    (hptr 12 (by omega)).trans htx, (hptr 20 (by omega)).trans hrxp,
    (hptr 28 (by omega)).trans htxp, (hptr 36 (by omega)).trans hrecv,
    (hptr 44 (by omega)).trans hsend, hmark, ?_, ?_, h₂.filled, h₂.status,
    hcmd, ?_⟩
  · intro i hi
    have haddr := desc_toNat hp.2 (n := 16 * i) (by omega)
    rw [← h₁.filled i hi]
    exact read_congr_bytes (n := 8) (by omega) fun a ha ha' =>
      h₂.rest a (Or.inl (by omega))
  · intro i hi
    have hstatus := rxStatus_toNat hp.2 hi
    rw [h₂.rest _ (Or.inl (by omega))]
    exact h₁.status i hi
  · intro a hptr hmark hring
    rw [h₂.rest a (by omega), h₁.rest a (by omega)]
    exact hrest a hptr hmark

/-- `e1000_init_mem` lays the rings out, both indices at 0, with the card
as it was, no packet in the receive ring and each of its descriptors with a
buffer of its own. -/
theorem e1000_init_mem_spec (h : BeforeInit l c) :
    RingsAt l (ringBase l c) (c.mem.read64 l.e1000_vaddress) 0 0
        (e1000_init_mem l c).mem
      ∧ (Mapped l (e1000_init_mem l c).mem ↔ Mapped l c.mem)
      ∧ (∀ i < 0x800,
        (e1000_init_mem l c).mem (rxStatus (ringBase l c) i) = 0x0#8)
      ∧ ∀ i < 0x800, (e1000_init_mem l c).mem.read64
          (ringBase l c + BitVec.ofNat 64 (16 * i))
        = ringBase l c + 0x10000#64 + BitVec.ofNat 64 (0x800 * i) := by
  have hp := h.room
  have hcells := l.rx_cur_in
  have hbase := l.mem_base_in
  have hruns := l.runs_apart
  have hapart := l.current_apart l.e1000_rx_cur (Or.inr rfl)
  have hapart' := l.current_apart l.e1000_mem_base (Or.inl rfl)
  have hvaddr := vaddress_toNat l
  have hflag := ioport_flag_toNat l
  have hroom : StackRoom 0 c.pushaq := StackRoom.pushaq (n := 0) h.stack
  obtain ⟨d, hinit, hbody⟩ := init_body h.stack hp.areaRoom
  obtain ⟨hplo, hphi⟩ := id hp
  -- the variables apart from the pointers are as at the call
  have hkeep : ∀ a : BitVec 64, 0x10000 ≤ a.toNat → a.toNat < 0x20000 →
      a.toNat < l.e1000_rx_cur.toNat + 4
        ∨ l.e1000_rx_cur.toNat + 52 ≤ a.toNat →
      a.toNat < l.current_memory_address.toNat
        ∨ l.current_memory_address.toNat + 8 ≤ a.toNat →
      d.mem a = c.mem a := by
    intro a hlo hhi hout hout'
    obtain ⟨hsp, hsp'⟩ := h.stack.stackOk
    obtain ⟨-, -, hpush, -⟩ := Cpu.pushaq_spec (c := c) (by omega)
    rw [hbody.rest a hout hout' (Or.inl (by omega))]
    exact hpush a (Or.inr (by omega))
  have hvar : ∀ (a : BitVec 64) (n : Nat), 0x10000 ≤ a.toNat →
      a.toNat + n ≤ 0x20000 → a.toNat + n ≤ l.e1000_rx_cur.toNat + 4
        ∨ l.e1000_rx_cur.toNat + 52 ≤ a.toNat →
      a.toNat + n ≤ l.current_memory_address.toNat
        ∨ l.current_memory_address.toNat + 8 ≤ a.toNat →
      d.mem.read a n = c.mem.read a n := by
    intro a n hlo hhi hout hout'
    exact read_congr_bytes (by omega) fun b hb hb' =>
      hkeep b (by omega) (by omega) (by omega) (by omega)
  have hindex : ∀ o, o + 2 ≤ 4 →
      d.mem.read16 (l.e1000_rx_cur + BitVec.ofNat 64 o)
        = c.mem.read16 (l.e1000_rx_cur + BitVec.ofNat 64 o) := by
    intro o hoff
    have haddr := rx_cur_add_toNat l (n := o) (by omega)
    exact hvar _ 2 (by omega) (by omega) (by omega) (by omega)
  have hr₄ : RingsAt l (ringBase l c) (c.mem.read64 l.e1000_vaddress) 0 0
      d.mem := by
    refine ⟨⟨?_, hbody.rx_desc, hbody.tx_desc, hbody.rx_packets,
      hbody.tx_packets, hbody.recv_packet, hbody.send_packet, ?_⟩, ?_, ?_⟩
    · exact hvar l.e1000_vaddress 8 (by omega) (by omega) (by omega)
        (by omega)
    · intro i hi
      have hfilled := hbody.tx_addr i hi
      rw [BitVec.add_assoc, BitVec.add_assoc, ← BitVec.ofNat_add,
        ← BitVec.ofNat_add] at hfilled
      exact hfilled
    · exact (hindex 2 (by omega)).trans h.tx_cur
    · have hrx0 := hindex 0 (by omega)
      rw [BitVec.add_zero] at hrx0
      exact hrx0.trans h.rx_cur
  -- the message
  have hs₄ : StackRoom 0 d := by
    unfold StackRoom
    rw [hbody.rsp]
    exact hroom
  obtain ⟨hk, -, hhigh, -⟩ := print_keeps (l := l) (c := d) hp hs₄.stackOk
    l.e1000_mem_init_msg e1000_mem_init_msg (l.strings_in _ (by simp))
    init_msg_length
  rw [hinit, Cpu.popaq_mem]
  refine ⟨hk.ringsAt hp hr₄, hk.mapped.trans ?_, ?_, ?_⟩
  · unfold Mapped
    rw [hkeep _ (by omega) (by omega) (by omega) (by omega)]
  · intro i hi
    have haddr := rxStatus_toNat hp.2 hi
    rw [hhigh _ (by omega)]
    exact hbody.rx_status i hi
  · intro i hi
    have haddr := desc_toNat hp.2 (n := 16 * i) (by omega)
    rw [← hbody.rx_addr i hi]
    exact read_congr_bytes (n := 8) (by omega) fun a ha ha' =>
      hhigh a (by omega)

end BootLoader.ThirdStage
