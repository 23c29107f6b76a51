/-
What the network driver's routines leave alone.

`Booked` is the set of bytes the rings' bookkeeping rests on: the two
indices, the six pointers, the card's address and mode, and the buffer
addresses in the transmit descriptors. `Keeps c d` says that `d` has these
bytes and the stack pointer of `c`. Everything the two routines do keeps
them except the advance of an index, which `advance_index_spec` describes:
with a zero word above the index it writes the index and nothing else.
-/
import BootLoader.Cpu.Stack
import BootLoader.ThirdStage.Nic
import BootLoader.ThirdStage.Proofs.VideoFrame

namespace BootLoader.ThirdStage

open FlatMemory Mem Words

variable {L : Layout} {l : NicLabels L} {p : BitVec 64} {c d e : Cpu}

-- ============================================================== the bytes

/-- Room for the rings from `p` on: above the image and the screen, up to
the end of memory. -/
def RingRoom (p : BitVec 64) : Prop :=
  0x100000 ≤ p.toNat ∧ p.toNat + 0x811000 ≤ 2 ^ 64

/-- The bytes of the rings' bookkeeping. -/
def Booked (l : NicLabels L) (p a : BitVec 64) : Prop :=
  (l.e1000_rx_cur.toNat ≤ a.toNat ∧ a.toNat < l.e1000_rx_cur.toNat + 52)
    ∨ (l.e1000_mem_base.toNat + 16 ≤ a.toNat
      ∧ a.toNat < l.e1000_mem_base.toNat + 26)
    ∨ (p.toNat + 0x8000 ≤ a.toNat ∧ a.toNat < p.toNat + 0x10000
      ∧ (a.toNat - p.toNat) % 16 < 8)

/-- The stack has room for `n` bytes of register saves. -/
def StackRoom (n : Nat) (c : Cpu) : Prop :=
  0x5100 + n ≤ (c.reg .rsp).toNat ∧ (c.reg .rsp).toNat ≤ 0x10000

/-- `d` has the stack pointer and the bookkeeping of `c`. -/
structure Keeps (l : NicLabels L) (p : BitVec 64) (c d : Cpu) : Prop where
  rsp : d.reg .rsp = c.reg .rsp
  mem : ∀ a, Booked l p a → d.mem a = c.mem a

theorem Keeps.refl (c : Cpu) : Keeps l p c c := ⟨rfl, fun _ _ => rfl⟩

theorem Keeps.trans (h : Keeps l p c d) (h' : Keeps l p d e) :
    Keeps l p c e :=
  ⟨h'.rsp.trans h.rsp, fun a ha => (h'.mem a ha).trans (h.mem a ha)⟩

theorem Keeps.set (h : Keeps l p c d) {r : Reg} (hr : r ≠ .rsp)
    (v : BitVec 64) : Keeps l p c (d.set r v) :=
  ⟨(Cpu.set_reg_of_ne (Ne.symm hr)).trans h.rsp, h.mem⟩

theorem Keeps.reads (h : Keeps l p c d) (a : BitVec 64) (n : Nat) :
    Keeps l p c (d.reads a n) := ⟨h.rsp, h.mem⟩

/-- A store that meets no such byte. -/
theorem Keeps.write (h : Keeps l p c d) {a : BitVec 64} {n : Nat}
    {v : BitVec (8 * n)} (hreg : e.reg = d.reg)
    (hmem : e.mem = d.mem.write a n v) (hn : a.toNat + n ≤ 2 ^ 64)
    (hout : ∀ b : BitVec 64, a.toNat ≤ b.toNat → b.toNat < a.toNat + n →
      ¬ Booked l p b) : Keeps l p c e := by
  refine ⟨by rw [hreg, h.rsp], ?_⟩
  intro b hb
  rw [hmem, ← h.mem b hb]
  refine write_apply_of_out _ _ hn ?_
  have hmiss : ¬ (a.toNat ≤ b.toNat ∧ b.toNat < a.toNat + n) :=
    fun hin => hout b hin.1 hin.2 hb
  omega

/-- A read of kept bytes. -/
theorem Keeps.read (h : Keeps l p c d) {a : BitVec 64} {n : Nat}
    (hn : a.toNat + n ≤ 2 ^ 64)
    (hin : ∀ b : BitVec 64, a.toNat ≤ b.toNat → b.toNat < a.toNat + n →
      Booked l p b) : d.mem.read a n = c.mem.read a n :=
  read_congr_bytes hn fun b hlo hhi => h.mem b (hin b hlo hhi)

/-- The bookkeeping lies in the image or in the transmit ring. -/
theorem Booked.place (hp : RingRoom p) {a : BitVec 64} (h : Booked l p a) :
    (0x10000 ≤ a.toNat ∧ a.toNat < 0x20000) ∨ 0x100000 ≤ a.toNat := by
  have hcells := l.rx_cur_in
  have hbase := l.mem_base_in
  obtain ⟨hlo, -⟩ := hp
  rcases h with h | h | h
  · exact Or.inl (by omega)
  · exact Or.inl (by omega)
  · exact Or.inr (by omega)

theorem StackRoom.mono {m n : Nat} (h : StackRoom n c) (hm : m ≤ n) :
    StackRoom m c := ⟨by have := h.1; omega, h.2⟩

theorem StackRoom.stackOk {n : Nat} (h : StackRoom n c) : StackOk c :=
  ⟨by have := h.1; omega, h.2⟩

theorem StackRoom.of_keeps {n : Nat} (h : StackRoom n c)
    (hk : Keeps l p c d) : StackRoom n d := by
  unfold StackRoom
  rw [hk.rsp]
  exact h

/-- Room left after a register save. -/
theorem StackRoom.pushaq {n : Nat} (h : StackRoom (n + 120) c) :
    StackRoom n c.pushaq := by
  obtain ⟨hlo, hhi⟩ := h
  obtain ⟨hrsp, -⟩ := Cpu.pushaq_spec (c := c) (by omega)
  exact ⟨by omega, by omega⟩

/-- A register save writes below every kept byte. -/
theorem pushaq_kept (hp : RingRoom p) (hs : StackOk c) {a : BitVec 64}
    (ha : Booked l p a) : c.pushaq.mem a = c.mem a := by
  obtain ⟨hlo, hhi⟩ := hs
  obtain ⟨-, -, hmem, -⟩ := Cpu.pushaq_spec (c := c) (by omega)
  have hplace := ha.place hp
  exact hmem a (Or.inr (by omega))

/-- A routine between a save and a restore of the registers. -/
theorem Keeps.saved (hp : RingRoom p) (hs : StackOk c)
    (h : Keeps l p c.pushaq d) : Keeps l p c d.popaq := by
  refine ⟨?_, ?_⟩
  · rw [Cpu.popaq_rsp, h.rsp, Cpu.pushaq_rsp, BitVec.sub_add_cancel]
  · intro a ha
    rw [Cpu.popaq_mem, h.mem a ha]
    exact pushaq_kept hp hs ha

-- ============================================================ the addresses

theorem rw_data_toNat (l : NicLabels L) :
    l.e1000_rw_data.toNat = l.e1000_mem_base.toNat + 8 := by
  have hbase := l.mem_base_in
  exact toNat_add_lit (by omega)

theorem rw_address_toNat (l : NicLabels L) :
    l.e1000_rw_address.toNat = l.e1000_mem_base.toNat + 12 := by
  have hbase := l.mem_base_in
  exact toNat_add_lit (by omega)

theorem vaddress_toNat (l : NicLabels L) :
    l.e1000_vaddress.toNat = l.e1000_mem_base.toNat + 16 := by
  have hbase := l.mem_base_in
  exact toNat_add_lit (by omega)

theorem ioport_flag_toNat (l : NicLabels L) :
    l.e1000_ioport_flag.toNat = l.e1000_mem_base.toNat + 25 := by
  have hbase := l.mem_base_in
  exact toNat_add_lit (by omega)

/-- A variable of the second run. -/
theorem rx_cur_add_toNat (l : NicLabels L) {n : Nat} (hn : n < 60) :
    (l.e1000_rx_cur + BitVec.ofNat 64 n).toNat
      = l.e1000_rx_cur.toNat + n := by
  have hcells := l.rx_cur_in
  exact toNat_add_lit (by omega)

theorem ioport_flag_kept (l : NicLabels L) (p : BitVec 64) :
    Booked l p l.e1000_ioport_flag := by
  have haddr := ioport_flag_toNat l
  exact Or.inr (Or.inl (by omega))

/-- The driver's scratch variables are not kept. -/
theorem rw_data_free (hp : RingRoom p) (b : BitVec 64)
    (hlo : l.e1000_rw_data.toNat ≤ b.toNat)
    (hhi : b.toNat < l.e1000_rw_data.toNat + 6) : ¬ Booked l p b := by
  have haddr := rw_data_toNat l
  have hbase := l.mem_base_in
  have hcells := l.rx_cur_in
  have hruns := l.runs_apart
  obtain ⟨hlow, -⟩ := hp
  rintro (h | h | h)
  · omega
  · omega
  · omega

-- ================================================================ printing

/-- A message of the driver, with its label in the image, changes what
messages change: the window, the cursor and the stack. -/
theorem print_frame (hs : StackOk c) {label : BitVec 64}
    {str : List (BitVec 8)} (hlabel : label.toNat + 30 ≤ 0x20000)
    (hlen : str.length ≤ 30) {a : BitVec 64}
    (hwindow : a.toNat < 0xB0000 ∨ 0x100000 ≤ a.toNat)
    (hcursor : a.toNat < L.start_location.toNat
      ∨ L.start_location.toNat + 2 ≤ a.toNat)
    (hstack : a.toNat < (c.reg .rsp).toNat - 120
      ∨ (c.reg .rsp).toNat ≤ a.toNat) :
    (print L label str c).mem a = c.mem a := by
  have hsi : ((c.set .rsi label).reg .rsi).toNat + str.length
      ≤ 0x100000 := by
    rw [Cpu.set_reg_self]
    omega
  have hrsp : (c.set .rsi label).reg .rsp = c.reg .rsp :=
    Cpu.set_reg_of_ne (by decide)
  have hok : StackOk (c.set .rsi label) := hs
  rcases hwindow with hlow | hhigh
  · refine video_print_frame hok str (by omega) hsi ?_ hlow hcursor
    rw [hrsp]
    exact hstack
  · exact (video_print_quiet hok str (by omega) hsi).high a hhigh a.isLt

/-- What the driver relies on across a message. -/
theorem print_keeps (hp : RingRoom p) (hs : StackOk c) (label : BitVec 64)
    (str : List (BitVec 8)) (hlabel : label.toNat + 30 ≤ 0x20000)
    (hlen : str.length ≤ 30) :
    Keeps l p c (print L label str c)
      ∧ (∀ r, r ≠ .rsi → (print L label str c).reg r = c.reg r)
      ∧ (∀ a : BitVec 64, 0x100000 ≤ a.toNat →
        (print L label str c).mem a = c.mem a)
      ∧ ∀ a : BitVec 64, l.e1000_mem_base.toNat ≤ a.toNat →
        a.toNat < l.e1000_mem_base.toNat + 35 →
        (print L label str c).mem a = c.mem a := by
  have hs' : StackOk (c.set .rsi label) := hs
  have hsi : ((c.set .rsi label).reg .rsi).toNat + str.length
      ≤ 0x100000 := by
    rw [Cpu.set_reg_self]
    omega
  have hquiet := video_print_quiet (L := L) hs' str (by omega) hsi
  have hreg : ∀ r, r ≠ .rsi → (print L label str c).reg r = c.reg r := by
    intro r hr
    unfold print
    rw [hquiet.reg]
    exact Cpu.set_reg_of_ne hr
  have himage : ∀ a : BitVec 64, 0x10000 ≤ a.toNat → a.toNat < 0x20000 →
      a.toNat < L.start_location.toNat ∨ L.start_location.toNat + 2 ≤ a.toNat →
      (print L label str c).mem a = c.mem a := by
    intro a hlo hhi hout
    have hsp := hs.2
    exact print_frame hs hlabel hlen (Or.inl (by omega)) hout
      (Or.inr (by omega))
  have hbase := l.cursor_apart l.e1000_mem_base (Or.inl rfl)
  have hcells := l.cursor_apart l.e1000_rx_cur (Or.inr (Or.inl rfl))
  have hbase_in := l.mem_base_in
  refine ⟨⟨hreg .rsp (by decide), ?_⟩, hreg,
    fun a ha => hquiet.high a ha a.isLt,
    fun a hlo hhi => himage a (by omega) (by omega) (by omega)⟩
  intro a ha
  rcases ha.place hp with ⟨hlo, hhi⟩ | hhigh
  · refine himage a hlo hhi ?_
    obtain ⟨hring, -⟩ := hp
    rcases ha with h | h | h
    · omega
    · omega
    · omega
  · exact hquiet.high a hhigh a.isLt

-- =============================================================== registers

theorem load16_keeps (h : Keeps l p c d) {r : Reg} (hr : r ≠ .rsp)
    (a : BitVec 64) : Keeps l p c (load16 d r a) :=
  (h.reads a 2).set hr _

theorem load32_keeps (h : Keeps l p c d) {r : Reg} (hr : r ≠ .rsp)
    (a : BitVec 64) : Keeps l p c (load32 d r a) :=
  (h.reads a 4).set hr _

/-- A store to the data variable. -/
theorem Keeps.store_rw_data (hp : RingRoom p) (h : Keeps l p c d)
    (v : BitVec 32) : Keeps l p c (d.store32 l.e1000_rw_data v) := by
  have haddr := rw_data_toNat l
  have hbase := l.mem_base_in
  refine h.write (n := 4) rfl rfl (by omega) ?_
  exact fun b hlo hhi => rw_data_free hp b hlo (by omega)

/-- A store to the register variable. -/
theorem Keeps.store_rw_address (hp : RingRoom p) (h : Keeps l p c d)
    (v : BitVec 16) : Keeps l p c (d.store16 l.e1000_rw_address v) := by
  have haddr := rw_address_toNat l
  have haddr' := rw_data_toNat l
  have hbase := l.mem_base_in
  refine h.write (n := 2) rfl rfl (by omega) ?_
  exact fun b hlo hhi => rw_data_free hp b (by omega) (by omega)

/-- Registers saved come back when the bytes below the image stay. -/
theorem popaq_restores (hs : StackOk c)
    (hrsp : d.reg .rsp = c.pushaq.reg .rsp)
    (hmem : ∀ a : BitVec 64, a.toNat < 0x10000 → d.mem a = c.pushaq.mem a) :
    d.popaq.reg = c.reg := by
  obtain ⟨hlo, hhi⟩ := hs
  exact (Cpu.popaq_spec (by omega) hrsp
    fun a _ ha => hmem a (by omega)).1

/-- A word loaded into a cleared register. -/
theorem merge16_zero (v : BitVec 16) :
    ((0#64).extractLsb' 16 48 ++ v : BitVec 64) = v.setWidth 64 := by
  apply BitVec.eq_of_toNat_eq
  rw [toNat_merge16, BitVec.toNat_setWidth]
  have hv := v.isLt
  simp only [BitVec.toNat_ofNat]
  omega

/-- Reads of the driver's variables after a register save. -/
theorem pushaq_read (hs : StackOk c) {a : BitVec 64} {n : Nat}
    (hlo : 0x10000 ≤ a.toNat) (hn : a.toNat + n ≤ 2 ^ 64) :
    c.pushaq.mem.read a n = c.mem.read a n := by
  obtain ⟨hroom, hhi⟩ := hs
  obtain ⟨-, -, hmem, -⟩ := Cpu.pushaq_spec (c := c) (by omega)
  exact read_congr_bytes hn fun b hb _ => hmem b (Or.inr (by omega))

/-- The card's registers, in memory. -/
def Mapped (l : NicLabels L) (m : Mem) : Prop := m l.e1000_ioport_flag ≠ 0x1#8

/-- What a call of `e1000_write_command` leaves as it was. -/
structure Traffic (s s' : Nic) : Prop where
  reg : s'.cpu.reg = s.cpu.reg
  sent : s'.sent = s.sent
  received : s'.received = s.received
  updates : s'.updates = s.updates

/-- `e1000_write_command`: nothing changes but the stack, and a card
mapped into memory takes the data at the register's address. -/
theorem write_command_spec (l : NicLabels L) {s : Nic}
    (hs : StackOk s.cpu) :
    Traffic s (e1000_write_command l s)
      ∧ (∀ a : BitVec 64, 0x10000 ≤ a.toNat →
        (e1000_write_command l s).cpu.mem a = s.cpu.mem a)
      ∧ (Mapped l s.cpu.mem → (e1000_write_command l s).out = s.out
        ++ [⟨.mmio ((s.cpu.mem.read16 l.e1000_rw_address).setWidth 64
            + s.cpu.mem.read64 l.e1000_vaddress),
          s.cpu.mem.read32 l.e1000_rw_data, s.sent, s.received⟩]) := by
  obtain ⟨hroom, hhi⟩ := id hs
  obtain ⟨-, -, hpush, -⟩ := Cpu.pushaq_spec (c := s.cpu) (by omega)
  have hflag := ioport_flag_toNat l
  have hdata := rw_data_toNat l
  have haddr := rw_address_toNat l
  have hvaddr := vaddress_toNat l
  have hbase := l.mem_base_in
  -- the body keeps RSP and memory
  obtain ⟨d, heq, hrsp, hmem, hsent, hrecv, hupd⟩ :
      ∃ d : Nic, e1000_write_command l s = d.run Cpu.popaq
        ∧ d.cpu.reg .rsp = s.cpu.pushaq.reg .rsp
        ∧ d.cpu.mem = s.cpu.pushaq.mem ∧ d.sent = s.sent
        ∧ d.received = s.received ∧ d.updates = s.updates := by
    unfold e1000_write_command
    refine ⟨_, rfl, ?_⟩
    split
    · simp only [Nic.run, Nic.write, load16, Cpu.setLow16, Cpu.set_reg,
        Cpu.reads_reg, Cpu.set_mem, Cpu.reads_mem, reduceCtorEq, if_false,
        and_self]
    · simp only [Nic.run, Nic.write, load16, load32, Cpu.setLow16,
        Cpu.set_reg, Cpu.reads_reg, Cpu.set_mem, Cpu.reads_mem, reduceCtorEq,
        if_false, and_self]
  refine ⟨⟨?_, by rw [heq]; exact hsent, by rw [heq]; exact hrecv,
    by rw [heq]; exact hupd⟩, ?_, ?_⟩
  · rw [heq]
    exact popaq_restores hs hrsp fun a _ => by rw [hmem]
  · intro a ha
    rw [heq]
    show d.cpu.popaq.mem a = _
    rw [Cpu.popaq_mem, hmem]
    exact hpush a (Or.inr (by omega))
  · intro hmapped
    have hflag' : s.cpu.pushaq.mem l.e1000_ioport_flag
        = s.cpu.mem l.e1000_ioport_flag := hpush _ (Or.inr (by omega))
    have h16 : s.cpu.pushaq.mem.read16 l.e1000_rw_address
        = s.cpu.mem.read16 l.e1000_rw_address :=
      pushaq_read (n := 2) hs (by omega) (by omega)
    have h32 : s.cpu.pushaq.mem.read32 l.e1000_rw_data
        = s.cpu.mem.read32 l.e1000_rw_data :=
      pushaq_read (n := 4) hs (by omega) (by omega)
    have h64 : s.cpu.pushaq.mem.read64 l.e1000_vaddress
        = s.cpu.mem.read64 l.e1000_vaddress :=
      pushaq_read (n := 8) hs (by omega) (by omega)
    unfold Mapped at hmapped
    rw [← hflag'] at hmapped
    unfold e1000_write_command
    rw [← h16, ← h32, ← h64]
    simp only [Nic.run, if_neg hmapped, Nic.write, load16, load32,
      Cpu.setLow16, Cpu.low32, Cpu.set_reg, Cpu.reads_reg, Cpu.set_mem, Cpu.reads_mem, reduceCtorEq,
      if_false, if_true, merge16_zero, low32_zeroExtend]

/-- What `e1000_read_command` leaves in the data variable: a card behind
ports has its answer added to what was there. -/
def answered (l : NicLabels L) (answer : BitVec 32) (m : Mem) : BitVec 32 :=
  if m l.e1000_ioport_flag = 0x1#8 then m.read32 l.e1000_rw_data + answer
  else answer

/-- `e1000_read_command`: of the image only the data variable changes, and
what is written to the card is written to ports. -/
theorem read_command_spec (l : NicLabels L) (answer : BitVec 32) {s : Nic}
    (hs : StackOk s.cpu) :
    Traffic s (e1000_read_command l answer s)
      ∧ (∀ a : BitVec 64, 0x10000 ≤ a.toNat →
        a.toNat < l.e1000_rw_data.toNat
          ∨ l.e1000_rw_data.toNat + 4 ≤ a.toNat →
        (e1000_read_command l answer s).cpu.mem a = s.cpu.mem a)
      ∧ (e1000_read_command l answer s).cpu.mem.read32 l.e1000_rw_data
        = answered l answer s.cpu.mem
      ∧ ∃ ws, (e1000_read_command l answer s).out = s.out ++ ws
        ∧ ∀ w ∈ ws, ∃ q, w.addr = .port q := by
  obtain ⟨hroom, hhi⟩ := id hs
  obtain ⟨-, -, hpush, -⟩ := Cpu.pushaq_spec (c := s.cpu) (by omega)
  have hflag := ioport_flag_toNat l
  have hdata := rw_data_toNat l
  have hbase := l.mem_base_in
  have hflag' : s.cpu.pushaq.mem l.e1000_ioport_flag
      = s.cpu.mem l.e1000_ioport_flag := hpush _ (Or.inr (by omega))
  have h32 : s.cpu.pushaq.mem.read32 l.e1000_rw_data
      = s.cpu.mem.read32 l.e1000_rw_data :=
    pushaq_read (n := 4) hs (by omega) (by omega)
  -- the body keeps RSP and stores the data variable
  obtain ⟨d, heq, hrsp, hmem, ⟨hsent, hrecv, hupd⟩, hout⟩ :
      ∃ d : Nic, e1000_read_command l answer s = d.run Cpu.popaq
        ∧ d.cpu.reg .rsp = s.cpu.pushaq.reg .rsp
        ∧ d.cpu.mem = s.cpu.pushaq.mem.write32 l.e1000_rw_data
          (answered l answer s.cpu.mem)
        ∧ (d.sent = s.sent ∧ d.received = s.received
          ∧ d.updates = s.updates)
        ∧ ∃ ws, d.out = s.out ++ ws ∧ ∀ w ∈ ws, ∃ q, w.addr = .port q := by
    unfold e1000_read_command answered
    refine ⟨_, rfl, ?_⟩
    by_cases hport : s.cpu.pushaq.mem l.e1000_ioport_flag = 0x1#8
    · rw [← hflag', ← h32, if_pos hport]
      simp only [Nic.run, if_pos hport, Nic.write, load16, Cpu.setLow16,
        Cpu.low32, Cpu.set_reg, Cpu.reads_reg, Cpu.store32_reg, Cpu.set_mem,
        Cpu.reads_mem, Cpu.store32_mem, reduceCtorEq, if_false, if_true,
        low32_zeroExtend, true_and]
      refine ⟨_, rfl, ?_⟩
      intro w hw
      rw [List.mem_singleton.1 hw]
      exact ⟨_, rfl⟩
    · rw [← hflag', if_neg hport]
      simp only [Nic.run, if_neg hport, Nic.write, load16, Cpu.setLow16,
        Cpu.low32, Cpu.set_reg, Cpu.reads_reg, Cpu.store32_reg, Cpu.set_mem,
        Cpu.reads_mem, Cpu.store32_mem, reduceCtorEq, if_false, if_true,
        low32_zeroExtend, true_and]
      exact ⟨[], (List.append_nil _).symm, by simp⟩
  refine ⟨⟨?_, by rw [heq]; exact hsent, by rw [heq]; exact hrecv,
    by rw [heq]; exact hupd⟩, ?_, ?_, ?_⟩
  · rw [heq]
    refine popaq_restores hs hrsp fun a ha => ?_
    rw [hmem]
    exact write_apply_of_out (n := 4) _ _ (by omega) (by omega)
  · intro a ha hne
    rw [heq]
    show d.cpu.popaq.mem a = _
    rw [Cpu.popaq_mem, hmem, ← hpush a (Or.inr (by omega))]
    exact write_apply_of_out (n := 4) _ _ (by omega) hne
  · rw [heq]
    show d.cpu.popaq.mem.read32 _ = _
    rw [Cpu.popaq_mem, hmem]
    exact read_write_self (n := 4) _ _ _ (by omega)
  · rw [heq]
    exact hout

-- =============================================================== the index

/-- A doubleword by its two words. -/
theorem read32_split (m : Mem) (a : BitVec 64) :
    m.read32 a = m.read16 (a + 2#64) ++ m.read16 a := by
  apply BitVec.eq_of_getLsbD_eq
  intro i hi
  rw [BitVec.getLsbD_append]
  refine (getLsbD_read m 4 a i (by omega)).trans ?_
  by_cases hlow : i < 16
  · rw [if_pos hlow]
    exact (getLsbD_read m 2 a i (by omega)).symm
  · rw [if_neg hlow]
    refine Eq.trans ?_ (getLsbD_read m 2 (a + 2#64) (i - 16)
      (by omega)).symm
    have haddr : a + BitVec.ofNat 64 (i / 8)
        = a + 2#64 + BitVec.ofNat 64 ((i - 16) / 8) := by
      rw [show i / 8 = 2 + (i - 16) / 8 by omega, BitVec.ofNat_add,
        BitVec.add_assoc]
    rw [haddr, show i % 8 = (i - 16) % 8 by omega]

/-- A word's two bytes are zero with it. -/
theorem byte_of_zero16 {m : Mem} {a b : BitVec 64} (h : m.read16 a = 0#16)
    (hlo : a.toNat ≤ b.toNat)
    (hhi : b.toNat < a.toNat + 2) : m b = 0#8 := by
  apply BitVec.eq_of_getLsbD_eq
  intro i hi
  have hb : b = a + BitVec.ofNat 64 (b.toNat - a.toNat) := by
    apply BitVec.eq_of_toNat_eq
    simp only [BitVec.toNat_add, BitVec.toNat_ofNat]
    omega
  have hbit := getLsbD_read m 2 a (8 * (b.toNat - a.toNat) + i) (by omega)
  rw [show (8 * (b.toNat - a.toNat) + i) / 8 = b.toNat - a.toNat by omega,
    show (8 * (b.toNat - a.toNat) + i) % 8 = i by omega, ← hb] at hbit
  rw [← hbit, BitVec.getLsbD_zero]
  exact (congrArg (fun w : BitVec 16 => w.getLsbD _) h).trans
    BitVec.getLsbD_zero

/-- `inc` and the wrap from the last descriptor to the first: the index,
and nothing else unless the wrap clears a word above it that is not
zero. -/
theorem advance_index_spec {cur : BitVec 64} {v : Nat}
    (hcur : cur.toNat + 4 ≤ 2 ^ 64) (hv : v < 0x800)
    (hval : c.mem.read16 cur = BitVec.ofNat 16 v)
    (hclear : c.mem.read16 (cur + 2#64) = 0#16 ∨ v + 1 < 0x800) :
    (advance_index cur c).mem.read16 cur = BitVec.ofNat 16 ((v + 1) % 0x800)
      ∧ (advance_index cur c).reg = c.reg
      ∧ ∀ a : BitVec 64, a.toNat < cur.toNat ∨ cur.toNat + 2 ≤ a.toNat →
        (advance_index cur c).mem a = c.mem a := by
  have hinc : (c.mem.write16 cur (c.mem.read16 cur + 1#16)).read16 cur
      = BitVec.ofNat 16 (v + 1) := by
    refine (read_write_self (n := 2) _ _ _ (by omega)).trans ?_
    rw [hval, BitVec.ofNat_add]
  have hslt : (BitVec.ofNat 16 (v + 1)).slt 0x800#16
      = decide (v + 1 < 0x800) := by
    rw [BitVec.slt_eq_decide, BitVec.toInt_eq_toNat_cond,
      BitVec.toInt_eq_toNat_cond]
    simp only [BitVec.toNat_ofNat]
    rw [if_pos (by omega), if_pos (by omega)]
    exact decide_eq_decide.2 (by omega)
  have hstore : ∀ a : BitVec 64,
      a.toNat < cur.toNat ∨ cur.toNat + 2 ≤ a.toNat →
      c.mem.write16 cur (c.mem.read16 cur + 1#16) a = c.mem a :=
    fun a ha => write_apply_of_out (n := 2) _ _ (by omega) ha
  unfold advance_index
  simp only [Cpu.store16_mem, Cpu.reads_mem, hinc, hslt]
  by_cases hlast : v + 1 < 0x800
  · rw [if_pos (decide_eq_true hlast)]
    refine ⟨?_, rfl, hstore⟩
    rw [Nat.mod_eq_of_lt hlast]
    exact hinc
  · -- the wrap: the doubleword store clears the word above too
    have hzero := hclear.resolve_right hlast
    rw [if_neg (by simpa using hlast)]
    refine ⟨?_, rfl, ?_⟩
    · have hv' : (v + 1) % 0x800 = 0 := by omega
      have hlow : ((c.mem.write16 cur (c.mem.read16 cur + 1#16)).write32 cur
          0#32).read32 cur = 0#32 := read_write_self (n := 4) _ _ _ (by omega)
      rw [read32_split] at hlow
      rw [hv']
      have hpart := congrArg (fun w : BitVec 32 => w.extractLsb' 0 16) hlow
      exact (BitVec.extractLsb'_append_eq_right).symm.trans hpart
    · intro a ha
      show ((c.mem.write16 cur _).write32 cur 0#32) a = c.mem a
      by_cases hin : cur.toNat ≤ a.toNat ∧ a.toNat < cur.toNat + 4
      · have habove : (cur + 2#64).toNat = cur.toNat + 2 :=
          toNat_add_lit (by omega)
        rw [byte_of_zero16 hzero (b := a) (by omega) (by omega)]
        exact write_zero (n := 4) _ (by omega) (by omega) (by omega)
      · rw [← hstore a ha]
        exact write_apply_of_out (n := 4) _ _ (by omega) (by omega)

/-- The wrap clears the index and the word above it. -/
theorem advance_index_wrap {cur : BitVec 64} (hcur : cur.toNat + 4 ≤ 2 ^ 64)
    (hval : c.mem.read16 cur = BitVec.ofNat 16 0x7FF) :
    (advance_index cur c).mem.read16 cur = 0#16
      ∧ (advance_index cur c).mem.read16 (cur + 2#64) = 0#16
      ∧ (advance_index cur c).reg = c.reg
      ∧ ∀ a : BitVec 64, a.toNat < cur.toNat ∨ cur.toNat + 4 ≤ a.toNat →
        (advance_index cur c).mem a = c.mem a := by
  have hinc : (c.mem.write16 cur (c.mem.read16 cur + 1#16)).read16 cur
      = 0x800#16 := by
    refine (read_write_self (n := 2) _ _ _ (by omega)).trans ?_
    rw [hval]
    rfl
  have hlow : (advance_index cur c).mem.read32 cur = 0#32 := by
    unfold advance_index
    simp only [Cpu.store16_mem, Cpu.reads_mem, hinc]
    exact read_write_self (n := 4) _ _ _ (by omega)
  rw [read32_split] at hlow
  refine ⟨?_, ?_, ?_, ?_⟩
  · exact (BitVec.extractLsb'_append_eq_right).symm.trans
      (congrArg (fun w : BitVec 32 => w.extractLsb' 0 16) hlow)
  · exact (BitVec.extractLsb'_append_eq_left).symm.trans
      (congrArg (fun w : BitVec 32 => w.extractLsb' 16 16) hlow)
  · unfold advance_index
    simp only [Cpu.store16_mem, Cpu.reads_mem, hinc]
    rfl
  · intro a ha
    unfold advance_index
    simp only [Cpu.store16_mem, Cpu.reads_mem, hinc]
    refine (write_apply_of_out (n := 4) _ _ (by omega) ha).trans ?_
    exact write_apply_of_out (n := 2) _ _ (by omega) (by omega)

-- ================================================================= copying

/-- A round of a string move of `w` bytes. -/
structure MoveRound (w : Nat) (body : Cpu → Cpu) : Prop where
  rdi : ∀ c, (body c).reg .rdi = c.reg .rdi + BitVec.ofNat 64 w
  reg : ∀ c r, r ≠ .rsi → r ≠ .rdi → r ≠ .rcx → (body c).reg r = c.reg r
  mem : ∀ c, (c.reg .rdi).toNat + w ≤ 2 ^ 64 → ∀ a : BitVec 64,
    a.toNat < (c.reg .rdi).toNat ∨ (c.reg .rdi).toNat + w ≤ a.toNat →
    (body c).mem a = c.mem a

theorem moveRound_movsb : MoveRound 1 movsb where
  rdi := fun c => by
    simp only [movsb, Cpu.set_reg, Cpu.store8_reg, Cpu.reads_reg,
      reduceCtorEq, if_false, if_true]
  reg := fun c r hsi hdi hcx => by
    simp only [movsb, Cpu.set_reg, Cpu.store8_reg, Cpu.reads_reg, hsi, hdi,
      hcx, if_false]
  mem := fun c hend a ha => write_apply_of_out (n := 1) _ _ hend ha

theorem moveRound_movsq : MoveRound 8 movsq where
  rdi := fun c => by
    simp only [movsq, Cpu.set_reg, Cpu.store64_reg, Cpu.reads_reg,
      reduceCtorEq, if_false, if_true]
  reg := fun c r hsi hdi hcx => by
    simp only [movsq, Cpu.set_reg, Cpu.store64_reg, Cpu.reads_reg, hsi, hdi,
      hcx, if_false]
  mem := fun c hend a ha => write_apply_of_out (n := 8) _ _ hend ha

/-- A string move writes its destination only. -/
theorem times_move {w : Nat} {body : Cpu → Cpu} (hb : MoveRound w body)
    (n : Nat) (c : Cpu) (hend : (c.reg .rdi).toNat + n * w < 2 ^ 64) :
    (∀ r, r ≠ .rsi → r ≠ .rdi → r ≠ .rcx →
        (Loop.times body n c).reg r = c.reg r)
      ∧ ∀ a : BitVec 64, a.toNat < (c.reg .rdi).toNat
          ∨ (c.reg .rdi).toNat + n * w ≤ a.toNat →
        (Loop.times body n c).mem a = c.mem a := by
  have hrun := @Loop.times_counted Cpu body
    (fun k (d : Cpu) => (d.reg .rdi).toNat = (c.reg .rdi).toNat + k * w
      ∧ (∀ r, r ≠ .rsi → r ≠ .rdi → r ≠ .rcx → d.reg r = c.reg r)
      ∧ ∀ a : BitVec 64, a.toNat < (c.reg .rdi).toNat
          ∨ (c.reg .rdi).toNat + k * w ≤ a.toNat → d.mem a = c.mem a)
    n ?_ c ⟨by rw [Nat.zero_mul, Nat.add_zero], fun _ _ _ _ => rfl,
      fun _ _ => rfl⟩
  · exact hrun.2
  · rintro k d hk ⟨hdi, hreg, hmem⟩
    have hroom : (k + 1) * w ≤ n * w := Nat.mul_le_mul_right w hk
    rw [Nat.succ_mul] at hroom ⊢
    have hnext : (d.reg .rdi + BitVec.ofNat 64 w).toNat
        = (c.reg .rdi).toNat + (k * w + w) := by
      rw [toNat_add_lit (by omega)]
      omega
    refine ⟨by rw [hb.rdi, hnext], ?_, ?_⟩
    · intro r hsi hdi' hcx
      rw [hb.reg d r hsi hdi' hcx]
      exact hreg r hsi hdi' hcx
    · intro a ha
      rw [hb.mem d (by omega) a (by omega)]
      exact hmem a (by omega)

/-- A round that copies its bytes and moves on in the source too. -/
structure CopyRound (w : Nat) (body : Cpu → Cpu) : Prop
    extends MoveRound w body where
  rsi : ∀ c, (body c).reg .rsi = c.reg .rsi + BitVec.ofNat 64 w
  copied : ∀ c, ∀ b < w, (body c).mem (c.reg .rdi + BitVec.ofNat 64 b)
    = c.mem (c.reg .rsi + BitVec.ofNat 64 b)

theorem copyRound_movsb : CopyRound 1 movsb where
  toMoveRound := moveRound_movsb
  rsi := fun c => by
    simp only [movsb, Cpu.set_reg, Cpu.store8_reg, Cpu.reads_reg,
      reduceCtorEq, if_false, if_true]
  copied := fun c b hb => by
    obtain rfl : b = 0 := by omega
    rw [BitVec.add_zero, BitVec.add_zero]
    exact write8_self _ _ _

theorem copyRound_movsq : CopyRound 8 movsq where
  toMoveRound := moveRound_movsq
  rsi := fun c => by
    simp only [movsq, Cpu.set_reg, Cpu.store64_reg, Cpu.reads_reg,
      reduceCtorEq, if_false, if_true]
  copied := fun _ _ hb =>
    (write_apply_add (n := 8) _ _ _ hb (by omega)).trans
      (extractLsb'_read _ _ (n := 8) hb)

/-- A string move from a source apart from its destination. -/
theorem times_copied {w : Nat} {body : Cpu → Cpu} (hb : CopyRound w body)
    (n : Nat) (c : Cpu) (hsrc : (c.reg .rsi).toNat + n * w < 2 ^ 64)
    (hdst : (c.reg .rdi).toNat + n * w < 2 ^ 64)
    (hapart : (c.reg .rsi).toNat + n * w ≤ (c.reg .rdi).toNat
      ∨ (c.reg .rdi).toNat + n * w ≤ (c.reg .rsi).toNat) :
    ∀ i < n * w, (Loop.times body n c).mem (c.reg .rdi + BitVec.ofNat 64 i)
      = c.mem (c.reg .rsi + BitVec.ofNat 64 i) := by
  have hdst' : ∀ i ≤ n * w, (c.reg .rdi + BitVec.ofNat 64 i).toNat
      = (c.reg .rdi).toNat + i := fun i hi => toNat_add_lit (by omega)
  have hsrc' : ∀ i ≤ n * w, (c.reg .rsi + BitVec.ofNat 64 i).toNat
      = (c.reg .rsi).toNat + i := fun i hi => toNat_add_lit (by omega)
  have hrun := @Loop.times_counted Cpu body
    (fun k (d : Cpu) => d.reg .rdi = c.reg .rdi + BitVec.ofNat 64 (k * w)
      ∧ d.reg .rsi = c.reg .rsi + BitVec.ofNat 64 (k * w)
      ∧ (∀ a : BitVec 64, a.toNat < (c.reg .rdi).toNat
          ∨ (c.reg .rdi).toNat + k * w ≤ a.toNat → d.mem a = c.mem a)
      ∧ ∀ i < k * w, d.mem (c.reg .rdi + BitVec.ofNat 64 i)
        = c.mem (c.reg .rsi + BitVec.ofNat 64 i))
    n ?_ c ⟨by rw [Nat.zero_mul, BitVec.add_zero],
      by rw [Nat.zero_mul, BitVec.add_zero], fun _ _ => rfl,
      fun i hi => by omega⟩
  · exact hrun.2.2.2
  · rintro k d hk ⟨hdi, hsi, hmem, hdone⟩
    have hroom : (k + 1) * w ≤ n * w := Nat.mul_le_mul_right w hk
    rw [Nat.succ_mul] at hroom ⊢
    have hnext : ∀ x : BitVec 64,
        x + BitVec.ofNat 64 (k * w) + BitVec.ofNat 64 w
          = x + BitVec.ofNat 64 (k * w + w) := by
      intro x
      rw [BitVec.add_assoc, ← BitVec.ofNat_add]
    have hdik := hdst' (k * w) (by omega)
    have hout : ∀ a : BitVec 64, a.toNat < (c.reg .rdi).toNat + k * w
        ∨ (c.reg .rdi).toNat + (k * w + w) ≤ a.toNat →
        (body d).mem a = d.mem a := fun a ha =>
      hb.mem d (by rw [hdi]; omega) a (by rw [hdi]; omega)
    refine ⟨?_, ?_, ?_, ?_⟩
    · rw [hb.rdi, hdi]
      exact hnext _
    · rw [hb.rsi, hsi]
      exact hnext _
    · intro a ha
      rw [hout a (by omega)]
      exact hmem a (by omega)
    · intro i hi
      have hi' := hdst' i (by omega)
      rcases Nat.lt_or_ge i (k * w) with hlt | hge
      · rw [hout _ (by omega)]
        exact hdone i hlt
      · -- the byte is one of this round's
        obtain ⟨b, rfl⟩ : ∃ b, i = k * w + b := ⟨i - k * w, by omega⟩
        have hsib := hsrc' (k * w + b) (by omega)
        have hbyte := hb.copied d b (by omega)
        rw [hdi, hsi, BitVec.add_assoc, BitVec.add_assoc, ← BitVec.ofNat_add]
          at hbyte
        rw [hbyte, hmem _ (by omega)]

-- ================================================================ the rings

/-- The rings as `e1000_init_mem` lays them out from `p` on, with the
card's registers at `v`. -/
structure Ready (l : NicLabels L) (p v : BitVec 64) (m : Mem) : Prop where
  vaddress : m.read64 l.e1000_vaddress = v
  rx_desc : m.read64 l.e1000_rx_desc_ptr = p
  tx_desc : m.read64 l.e1000_tx_desc_ptr = p + 0x8000#64
  rx_packets : m.read64 l.e1000_rx_packets_ptr = p + 0x10000#64
  tx_packets : m.read64 l.e1000_tx_packets_ptr = p + 0x410000#64
  recv_packet : m.read64 l.e1000_recv_packet = p + 0x810000#64
  send_packet : m.read64 l.e1000_send_packet = p + 0x810800#64
  buffers : ∀ i < 0x800,
    m.read64 (p + BitVec.ofNat 64 (0x8000 + 16 * i))
      = p + BitVec.ofNat 64 (0x410000 + 0x800 * i)

/-- A variable of the second run is kept. -/
theorem Keeps.var (h : Keeps l p c d) {o n : Nat} (hoff : o + n ≤ 52)
    (hn : n ≤ 8) :
    d.mem.read (l.e1000_rx_cur + BitVec.ofNat 64 o) n
      = c.mem.read (l.e1000_rx_cur + BitVec.ofNat 64 o) n := by
  rcases Nat.eq_zero_or_pos n with rfl | hpos
  · rfl
  have haddr := rx_cur_add_toNat l (n := o) (by omega)
  have hcells := l.rx_cur_in
  refine h.read (by omega) fun b hlo hhi => Or.inl ?_
  omega

theorem Keeps.vaddress (h : Keeps l p c d) :
    d.mem.read64 l.e1000_vaddress = c.mem.read64 l.e1000_vaddress := by
  have haddr := vaddress_toNat l
  have hbase := l.mem_base_in
  refine @Keeps.read L l p c d h _ 8 (by omega) fun b hlo hhi => ?_
  exact Or.inr (Or.inl (by omega))

theorem Keeps.mapped (h : Keeps l p c d) :
    Mapped l d.mem ↔ Mapped l c.mem := by
  unfold Mapped
  rw [h.mem _ (ioport_flag_kept l p)]

/-- The address of a descriptor. -/
theorem desc_toNat (hp : p.toNat + 0x811000 ≤ 2 ^ 64) {n : Nat}
    (hn : n < 0x811000) : (p + BitVec.ofNat 64 n).toNat = p.toNat + n :=
  toNat_add_lit (by omega)

/-- A place in one of the areas. -/
theorem area_toNat (hp : p.toNat + 0x811000 ≤ 2 ^ 64) {b o : Nat}
    (ho : b + o < 0x811000) :
    (p + BitVec.ofNat 64 b + BitVec.ofNat 64 o).toNat = p.toNat + (b + o) := by
  rw [BitVec.add_assoc, ← BitVec.ofNat_add]
  exact desc_toNat hp ho

theorem Keeps.buffer (hp : RingRoom p) (h : Keeps l p c d) {i : Nat}
    (hi : i < 0x800) :
    d.mem.read64 (p + BitVec.ofNat 64 (0x8000 + 16 * i))
      = c.mem.read64 (p + BitVec.ofNat 64 (0x8000 + 16 * i)) := by
  have haddr := desc_toNat hp.2 (n := 0x8000 + 16 * i) (by omega)
  obtain ⟨-, hhi⟩ := hp
  refine @Keeps.read L l p c d h _ 8 (by omega) fun b hlo hhi => ?_
  exact Or.inr (Or.inr (by omega))

theorem Keeps.ready (hp : RingRoom p) {v : BitVec 64} (h : Keeps l p c d)
    (hr : Ready l p v c.mem) : Ready l p v d.mem where
  vaddress := h.vaddress.trans hr.vaddress
  rx_desc := (h.var (o := 4) (n := 8) (by omega) (by omega)).trans hr.rx_desc
  tx_desc := (h.var (o := 12) (n := 8) (by omega) (by omega)).trans
    hr.tx_desc
  rx_packets := (h.var (o := 20) (n := 8) (by omega) (by omega)).trans
    hr.rx_packets
  tx_packets := (h.var (o := 28) (n := 8) (by omega) (by omega)).trans
    hr.tx_packets
  recv_packet := (h.var (o := 36) (n := 8) (by omega) (by omega)).trans
    hr.recv_packet
  send_packet := (h.var (o := 44) (n := 8) (by omega) (by omega)).trans
    hr.send_packet
  buffers := fun i hi => (h.buffer hp hi).trans (hr.buffers i hi)

theorem Keeps.rx_cur (h : Keeps l p c d) :
    d.mem.read16 l.e1000_rx_cur = c.mem.read16 l.e1000_rx_cur := by
  have hvar := h.var (o := 0) (n := 2) (by omega) (by omega)
  rw [BitVec.add_zero] at hvar
  exact hvar

theorem Keeps.tx_cur (h : Keeps l p c d) :
    d.mem.read16 l.e1000_tx_cur = c.mem.read16 l.e1000_tx_cur :=
  h.var (o := 2) (n := 2) (by omega) (by omega)

end BootLoader.ThirdStage
