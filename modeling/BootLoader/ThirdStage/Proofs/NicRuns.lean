/-
Runs of sends and receptions after `e1000_init_mem`.

A call meets its condition (`NicCall.Clear`) when the word above the index
it advances is zero, on a card mapped into memory; a reception with nothing
to process meets it always. Along a run whose calls all meet it the rings
stay as the driver means them (`ring_indices`). A single packet sent where
the rings do not start at a multiple of 64 KB breaks them
(`ring_indices_broken`).
-/
import BootLoader.ThirdStage.Proofs.NicInit

namespace BootLoader.ThirdStage

open FlatMemory Mem Words

variable {L : Layout} {l : NicLabels L} {p v : BitVec 64} {c : Cpu}
  {s s' s₀ : Nic} {calls : List NicCall} {call : NicCall}

-- ==================================================================== runs

/-- What the surroundings owe: room on the stack at a call, and no work on
memory, the card's included, that touches the driver's bookkeeping. -/
def NicCall.Ok (l : NicLabels L) (p : BitVec 64) : NicCall → Prop
  | .work f => Leaves l p f
  | .send regs polls =>
      (0x5400 ≤ (regs .rsp).toNat ∧ (regs .rsp).toNat ≤ 0x10000)
        ∧ ∀ f ∈ polls, Leaves l p f
  | .process regs _ rounds =>
      (0x5400 ≤ (regs .rsp).toNat ∧ (regs .rsp).toNat ≤ 0x10000)
        ∧ ∀ r ∈ rounds, Leaves l p r.arrive ∧ ∀ f ∈ r.reply, Leaves l p f

/-- The condition on a call, in the state before it. -/
def NicCall.Clear (l : NicLabels L) (call : NicCall) (s : Nic) : Prop :=
  match call with
  | .work _ => True
  | .send _ _ => Mapped l s.cpu.mem
      ∧ s.cpu.mem.read16 l.e1000_rx_desc_ptr = 0#16
  | .process _ head _ => Idle l head s.cpu.mem
      ∨ Mapped l s.cpu.mem ∧ s.cpu.mem.read16 l.e1000_tx_cur = 0#16

def NicCall.isSend : NicCall → Bool
  | .send _ _ => true
  | _ => false

/-- `s` after the calls, each from a state that met `ok`. -/
inductive NicReached (l : NicLabels L) (p : BitVec 64)
    (ok : NicCall → Nic → Prop) (s₀ : Nic) : List NicCall → Nic → Prop
  | start : NicReached l p ok s₀ [] s₀
  | call {calls : List NicCall} {call : NicCall} {s s' : Nic} :
      NicReached l p ok s₀ calls s → call.Ok l p → ok call s →
      call.run l s = some s' → NicReached l p ok s₀ (calls ++ [call]) s'

/-- After `e1000_init_mem`, nothing sent and nothing received. -/
def afterInit (l : NicLabels L) (c : Cpu) : Nic :=
  ⟨e1000_init_mem l c, [], 0, 0, 0⟩

-- =============================================================== the claim

/-- The address of a tail register. -/
def tailAddr (v : BitVec 64) (reg : BitVec 16) : DeviceAddr :=
  .mmio (reg.setWidth 64 + v)

/-- A write to a tail register has the index of its time. -/
def DeviceWrite.Exact (v : BitVec 64) (w : DeviceWrite) : Prop :=
  (w.addr = tailAddr v REG_TXDESCTAIL →
      w.value = BitVec.ofNat 32 (w.sent % 0x800))
    ∧ (w.addr = tailAddr v REG_RXDESCTAIL →
      w.value = BitVec.ofNat 32 (w.received % 0x800))

/-- The rings as the driver means them: both indices count modulo 0x800,
the pointers stand, and each packet sent and each update of the receive
ring told the card the index of its time. -/
structure Rings (l : NicLabels L) (p v : BitVec 64) (calls : List NicCall)
    (s : Nic) : Prop where
  rings : RingsAt l p v (s.sent % 0x800) (s.received % 0x800) s.cpu.mem
  sent : s.sent = calls.countP NicCall.isSend
  tails : ∀ w ∈ s.out, w.Exact v
  tx_tails : s.out.countP (·.addr = tailAddr v REG_TXDESCTAIL) = s.sent
  rx_tails : s.out.countP (·.addr = tailAddr v REG_RXDESCTAIL) = s.updates

/-- Registers have their own addresses. -/
theorem tailAddr_inj (v : BitVec 64) {r r' : BitVec 16} :
    tailAddr v r = tailAddr v r' ↔ r = r' := by
  refine ⟨fun heq => ?_, fun heq => by rw [heq]⟩
  injection heq with heq
  have hnat := congrArg BitVec.toNat ((BitVec.add_left_inj v).1 heq)
  have hr := r.isLt
  have hr' := r'.isLt
  simp only [BitVec.toNat_setWidth] at hnat
  apply BitVec.eq_of_toNat_eq
  omega

/-- The two tail registers are two. -/
theorem tailAddr_ne (v : BitVec 64) :
    tailAddr v REG_TXDESCTAIL ≠ tailAddr v REG_RXDESCTAIL :=
  mt (tailAddr_inj v).1 (by decide)

/-- An index under a zero word. -/
theorem zero_append_index (n : Nat) :
    (0#16 ++ BitVec.ofNat 16 (n % 0x800) : BitVec 32)
      = BitVec.ofNat 32 (n % 0x800) := by
  apply BitVec.eq_of_toNat_eq
  rw [BitVec.toNat_append]
  simp only [BitVec.toNat_ofNat, Nat.zero_shiftLeft, Nat.zero_or,
    Nat.zero_mod]
  omega

theorem not_tail_of_port {w : DeviceWrite} (h : ∃ q, w.addr = .port q)
    (reg : BitVec 16) : w.addr ≠ tailAddr v reg := by
  obtain ⟨q, hq⟩ := h
  rw [hq]
  exact DeviceAddr.noConfusion

/-- Writes to ports are no tail writes. -/
theorem countP_ports {ws : List DeviceWrite}
    (h : ∀ w ∈ ws, ∃ q, w.addr = .port q) (reg : BitVec 16) :
    ws.countP (·.addr = tailAddr v reg) = 0 := by
  rw [List.countP_eq_zero]
  intro w hw
  rw [decide_eq_true_iff]
  exact not_tail_of_port (h w hw) reg

-- ================================================================= the step

theorem Rings.work (hp : RingRoom p) {f : Mem → Mem} (hf : Leaves l p f)
    (h : Rings l p v calls s) : Rings l p v (calls ++ [.work f]) (s.dma f) where
  rings := (hf.keeps s).ringsAt hp h.rings
  sent := by
    rw [List.countP_append]
    exact h.sent
  tails := h.tails
  tx_tails := h.tx_tails
  rx_tails := h.rx_tails

/-- A send that meets its condition. -/
theorem Rings.send (hp : RingRoom p) {regs : Reg → BitVec 64}
    {polls : List Dma} (hok : (NicCall.send regs polls).Ok l p)
    (hclear : (NicCall.send regs polls).Clear l s) (h : Rings l p v calls s)
    (hrun : (NicCall.send regs polls).run l s = some s') :
    Rings l p v (calls ++ [.send regs polls]) s' := by
  obtain ⟨⟨hlo, hhi⟩, hpolls⟩ := hok
  obtain ⟨hmapped, hword⟩ := hclear
  obtain ⟨hr, -, hsent, hrecv, hupd, hout⟩ := send_spec (s := s.at regs) hp
    ⟨by show _ ≤ (regs .rsp).toNat; omega, hhi⟩ h.rings
    (Nat.mod_lt _ (by omega)) (Or.inl hword) hmapped hpolls hrun
  have hsent' : s'.sent = s.sent + 1 := hsent
  have hrecv' : s'.received = s.received := hrecv
  have hmod : (s.sent % 0x800 + 1) % 0x800 = s'.sent % 0x800 := by
    rw [hsent', Nat.mod_add_mod]
  have hout' : s'.out = s.out ++ [⟨tailAddr v REG_TXDESCTAIL,
      BitVec.ofNat 32 (s'.sent % 0x800), s'.sent, s.received⟩] := by
    rw [hout]
    show s.out ++ [⟨_, s.cpu.mem.read16 _ ++ _, _, _⟩] = _
    rw [hword, hmod, zero_append_index, hsent']
    rfl
  refine ⟨?_, ?_, ?_, ?_, ?_⟩
  · rw [hmod] at hr
    rw [hrecv']
    exact hr
  · rw [List.countP_append, ← h.sent, hsent']
    rfl
  · intro w hw
    rw [hout'] at hw
    rcases List.mem_append.1 hw with hw | hw
    · exact h.tails w hw
    · rw [List.mem_singleton.1 hw]
      exact ⟨fun _ => rfl, fun heq => absurd heq (tailAddr_ne v)⟩
  · rw [hout', List.countP_append, h.tx_tails, hsent',
      List.countP_singleton, if_pos (decide_eq_true rfl)]
  · rw [hout', List.countP_append, h.rx_tails, List.countP_singleton,
      if_neg (by rw [decide_eq_true_iff]; exact tailAddr_ne v)]
    exact hupd.symm

/-- A reception that meets its condition. -/
theorem Rings.process (hp : RingRoom p) {regs : Reg → BitVec 64}
    {head : BitVec 32} {rounds : List Arrival}
    (hok : (NicCall.process regs head rounds).Ok l p)
    (hclear : (NicCall.process regs head rounds).Clear l s)
    (h : Rings l p v calls s)
    (hrun : (NicCall.process regs head rounds).run l s = some s') :
    Rings l p v (calls ++ [.process regs head rounds]) s' := by
  obtain ⟨⟨hlo, hhi⟩, hrounds⟩ := hok
  -- the condition in terms of the index
  have hclear' : Idle l head s.cpu.mem
      ∨ Mapped l s.cpu.mem ∧ s.sent % 0x800 = 0 := by
    rcases hclear with hidle | ⟨hmapped, hzero⟩
    · exact Or.inl hidle
    · refine Or.inr ⟨hmapped, ?_⟩
      rw [h.rings.tx] at hzero
      have hnat := congrArg BitVec.toNat hzero
      simp only [BitVec.toNat_ofNat] at hnat
      omega
  obtain ⟨k, ws, hr, hsent, hrecv, hws, hlast⟩ := process_spec
    (s := s.at regs) hp ⟨by show _ ≤ (regs .rsp).toNat; omega, hhi⟩ h.rings
    (Nat.mod_lt _ (by omega)) (fun r hr => (hrounds r hr).1) hclear' hrun
  have hsent' : s'.sent = s.sent := hsent
  have hrecv' : s'.received = s.received + k := hrecv
  have hmod : (s.received % 0x800 + k) % 0x800 = s'.received % 0x800 := by
    rw [hrecv', Nat.mod_add_mod]
  have hcount : s'.sent
      = (calls ++ [NicCall.process regs head rounds]).countP
          NicCall.isSend := by
    rw [List.countP_append, ← h.sent, hsent']
    rfl
  have hrings : RingsAt l p v (s'.sent % 0x800) (s'.received % 0x800)
      s'.cpu.mem := by
    rw [hsent', ← hmod]
    exact hr
  have hports : ∀ w ∈ ws, w.Exact v := fun w hw =>
    ⟨fun heq => absurd heq (not_tail_of_port (hws w hw) _),
      fun heq => absurd heq (not_tail_of_port (hws w hw) _)⟩
  rcases hlast with ⟨hupd, hout⟩ | ⟨hupd, hout⟩
  · -- nothing to process
    have hout' : s'.out = s.out ++ ws := hout
    refine ⟨hrings, hcount, ?_, ?_, ?_⟩
    · intro w hw
      rw [hout'] at hw
      rcases List.mem_append.1 hw with hw | hw
      · exact h.tails w hw
      · exact hports w hw
    · rw [hout', List.countP_append, countP_ports hws, h.tx_tails, hsent']
      rfl
    · rw [hout', List.countP_append, countP_ports hws, h.rx_tails]
      exact hupd.symm
  · have hout' : s'.out = s.out ++ ws ++ [⟨tailAddr v REG_RXDESCTAIL,
        BitVec.ofNat 32 (s'.received % 0x800), s.sent, s'.received⟩] := by
      rw [hout, hmod, zero_append_index, hrecv']
      rfl
    refine ⟨hrings, hcount, ?_, ?_, ?_⟩
    · intro w hw
      rw [hout'] at hw
      rcases List.mem_append.1 hw with hw | hw
      · rcases List.mem_append.1 hw with hw | hw
        · exact h.tails w hw
        · exact hports w hw
      · rw [List.mem_singleton.1 hw]
        exact ⟨fun heq => absurd heq.symm (tailAddr_ne v), fun _ => rfl⟩
    · rw [hout', List.countP_append, List.countP_append, countP_ports hws,
        h.tx_tails, hsent', List.countP_singleton,
        if_neg (by rw [decide_eq_true_iff]; exact (tailAddr_ne v).symm)]
      rfl
    · rw [hout', List.countP_append, List.countP_append, countP_ports hws,
        h.rx_tails, List.countP_singleton, if_pos (decide_eq_true rfl)]
      exact hupd.symm

theorem Rings.step (hp : RingRoom p) (hok : call.Ok l p)
    (hclear : call.Clear l s) (h : Rings l p v calls s)
    (hrun : call.run l s = some s') :
    Rings l p v (calls ++ [call]) s' := by
  cases call with
  | work f =>
      obtain rfl := Option.some.inj hrun
      exact h.work hp hok
  | send regs polls => exact h.send hp hok hclear hrun
  | process regs head rounds => exact h.process hp hok hclear hrun

theorem rings_afterInit (h : BeforeInit l c) :
    Rings l (ringBase l c) (c.mem.read64 l.e1000_vaddress) []
      (afterInit l c) :=
  ⟨(e1000_init_mem_spec h).1, rfl, fun _ hw => absurd hw List.not_mem_nil,
    rfl, rfl⟩

-- =============================================================== the result

/-- In every run after `e1000_init_mem` whose calls all meet their
condition, the rings are as the driver means them in every state
reached. -/
theorem ring_indices (l : NicLabels L) (c : Cpu) (h : BeforeInit l c)
    (calls : List NicCall) (s : Nic)
    (hrun : NicReached l (ringBase l c) (NicCall.Clear l) (afterInit l c)
      calls s) :
    Rings l (ringBase l c) (c.mem.read64 l.e1000_vaddress) calls s := by
  induction hrun with
  | start => exact rings_afterInit h
  | call _ hok hclear hrun ih => exact ih.step h.room hok hclear hrun

-- ================================================================= samples

/-- The card marks the descriptor `i` as sent. -/
def markSent (p : BitVec 64) (i : Nat) : Dma := fun m =>
  m.write8 (p + BitVec.ofNat 64 (0x8000 + 16 * i) + descStatus) 0x1#8

theorem markSent_leaves (hp : RingRoom p) {i : Nat} (hi : i < 0x800) :
    Leaves l p (markSent p i) := by
  obtain ⟨hend, hfree⟩ := tx_field_free (l := l) hp hi (o := 12) (n := 1)
    (by omega) (by omega)
  intro m a ha
  refine write_apply_of_out (n := 1) _ _ hend ?_
  by_contra hin
  exact hfree a (by unfold descStatus at hin; omega)
    (by unfold descStatus at hin; omega) ha

/-- A send whose packet the card takes returns. -/
theorem send_returns (hp : RingRoom p) (hs : StackRoom 240 s.cpu) {i j : Nat}
    (hr : RingsAt l p v i j s.cpu.mem) (hi : i < 0x800)
    (hclear : s.cpu.mem.read16 l.e1000_rx_desc_ptr = 0#16
      ∨ i + 1 < 0x800) :
    ∃ s', e1000_send_out_packet l [markSent p i] s = some s' := by
  have hs₁ : StackRoom 120 s.cpu.pushaq := hs.pushaq
  obtain ⟨hr₁, -, hword₁⟩ := pushaq_rings hp hs.stackOk hr
  obtain ⟨hk₂, h9₂⟩ := tx_fill_keeps hp hr₁.ready hi hr₁.tx
  have hword₂ : (tx_fill l s.cpu.pushaq).mem.read16 l.e1000_rx_desc_ptr
      = s.cpu.mem.read16 l.e1000_rx_desc_ptr :=
    (hk₂.var (o := 4) (n := 2) (by omega) (by omega)).trans hword₁
  obtain ⟨-, -, hreg₃, -⟩ := (hk₂.ringsAt hp hr₁).advance_tx hp hi
    (by rw [hword₂]; exact hclear)
  have hs₃ : StackRoom 120 (queued l s).cpu := by
    show StackRoom 120 (advance_index l.e1000_tx_cur _)
    unfold StackRoom
    rw [hreg₃]
    exact hs₁.of_keeps hk₂
  obtain ⟨-, -, hreg₄, -⟩ := update_tail_spec (s := queued l s) hp hs₃.stackOk
    REG_TXDESCTAIL (o := 2) (by omega)
  have h9 : (update_tail l REG_TXDESCTAIL l.e1000_tx_cur
      (queued l s)).cpu.reg .r9
        = p + BitVec.ofNat 64 (0x8000 + 16 * i) := by
    refine (hreg₄ .r9 (by decide)).trans ?_
    show (advance_index l.e1000_tx_cur _).reg .r9 = _
    rw [hreg₃, h9₂]
  rw [send_eq]
  generalize update_tail l REG_TXDESCTAIL l.e1000_tx_cur (queued l s) = s₄
    at h9
  -- the one look finds the mark
  have hmark : (s₄.dma (markSent p i)).cpu.mem
      (s₄.cpu.reg .r9 + descStatus) = 0x1#8 := by
    rw [h9]
    exact write8_self _ _ _
  have hwait : wait_sent [markSent p i] s₄
      = some ((s₄.dma (markSent p i)).run fun c =>
        c.reads (c.reg .r9 + descStatus) 1) := by
    unfold wait_sent
    refine if_neg ?_
    intro hzero
    exact absurd (hmark.symm.trans hzero) (by decide)
  rw [hwait]
  exact ⟨_, rfl⟩

/-- A machine whose memory in use ends at `n`. -/
def usedUpTo (n : BitVec 64) : Cpu where
  reg := fun _ => 0xB000#64
  mem := Mem.write64 (fun _ => 0x0#8) nicLabels.current_memory_address n
  log := []

theorem usedUpTo_clear (n : BitVec 64) {a : BitVec 64} {k : Nat}
    (hk : a.toNat + k ≤ 0x12400) : (usedUpTo n).mem.read a k = 0 := by
  have hcur : nicLabels.current_memory_address.toNat = 0x12400 := rfl
  refine (read_write_of_disjoint (n := 8) _ n (by omega) (by omega)
    (Or.inl (by omega))).trans ?_
  exact read_eq_zero fun _ _ => rfl

theorem ringBase_usedUpTo (n : BitVec 64) :
    ringBase nicLabels (usedUpTo n) = n + 0x10000#64 := by
  unfold ringBase usedUpTo
  rw [read64_write64_self]

theorem beforeInit_usedUpTo {n : BitVec 64} (hlo : 0x100000 ≤ n.toNat)
    (hhi : n.toNat + 0x821000 ≤ 2 ^ 32) :
    BeforeInit nicLabels (usedUpTo n) where
  stack := ⟨by show 0x5100 + 120 ≤ 0xB000; omega,
    by show 0xB000 ≤ 0x10000; omega⟩
  rx_cur := usedUpTo_clear n (k := 2) (by decide)
  tx_cur := usedUpTo_clear n (k := 2) (by decide)
  room := by
    have hbase : (n + 0x10000#64).toNat = n.toNat + 0x10000 :=
      toNat_add_lit (by omega)
    rw [ringBase_usedUpTo]
    exact ⟨by omega, by omega⟩

theorem mapped_usedUpTo (n : BitVec 64) :
    Mapped nicLabels (usedUpTo n).mem := by
  have hcur : nicLabels.current_memory_address.toNat = 0x12400 := rfl
  have hflag : nicLabels.e1000_ioport_flag.toNat = 0x12019 := rfl
  have hzero : (usedUpTo n).mem nicLabels.e1000_ioport_flag = 0x0#8 := by
    refine (write_apply_of_out (n := 8) (fun _ => 0x0#8)
      (a := nicLabels.current_memory_address)
      (b := nicLabels.e1000_ioport_flag) n (by omega)
      (Or.inl (by omega))).trans ?_
    rfl
  unfold Mapped
  rw [hzero]
  decide

/-- The first packet sent, and what the card is told. -/
theorem first_send (hp : RingRoom p) (hr : RingsAt l p v 0 0 s.cpu.mem)
    (hmapped : Mapped l s.cpu.mem) (hout : s.out = []) (hsent : s.sent = 0)
    (hrecv : s.received = 0) :
    ∃ s', (NicCall.send (fun _ => 0xB000#64) [markSent p 0]).run l s
        = some s'
      ∧ s'.out = [⟨tailAddr v REG_TXDESCTAIL, p.extractLsb' 0 16 ++ 1#16, 1,
        0⟩] := by
  have hs : StackRoom 240 (s.at fun _ => 0xB000#64).cpu :=
    ⟨by show 0x5100 + 240 ≤ 0xB000; omega, by show 0xB000 ≤ 0x10000; omega⟩
  obtain ⟨s', hs'⟩ := send_returns (i := 0) hp hs hr (by omega)
    (Or.inr (by omega))
  obtain ⟨-, -, -, -, -, htold⟩ := send_spec hp hs hr (by omega)
    (Or.inr (by omega)) hmapped
    (List.forall_mem_singleton.2 (markSent_leaves hp (by omega))) hs'
  refine ⟨s', hs', htold.trans ?_⟩
  show s.out ++ [DeviceWrite.mk _ (s.cpu.mem.read16 _ ++ _) (s.sent + 1)
    s.received] = _
  rw [read16_of_read64, hr.ready.rx_desc, hout, hsent, hrecv]
  rfl

theorem first_send_ok {n : BitVec 64} (hlo : 0x100000 ≤ n.toNat)
    (hhi : n.toNat + 0x821000 ≤ 2 ^ 32) :
    (NicCall.send (fun _ => 0xB000#64)
        [markSent (ringBase nicLabels (usedUpTo n)) 0]).Ok nicLabels
          (ringBase nicLabels (usedUpTo n)) :=
  ⟨⟨by show 0x5400 ≤ 0xB000; omega, by show 0xB000 ≤ 0x10000; omega⟩,
    List.forall_mem_singleton.2
      (markSent_leaves (beforeInit_usedUpTo hlo hhi).room (by omega))⟩

/-- Rings at 0x210000: the first packet is sent as meant. -/
theorem ring_indices_sample : ∃ s', NicReached nicLabels
      (ringBase nicLabels (usedUpTo 0x200000#64)) (NicCall.Clear nicLabels)
      (afterInit nicLabels (usedUpTo 0x200000#64))
      [.send (fun _ => 0xB000#64)
        [markSent (ringBase nicLabels (usedUpTo 0x200000#64)) 0]] s'
    ∧ Rings nicLabels (ringBase nicLabels (usedUpTo 0x200000#64))
      ((usedUpTo 0x200000#64).mem.read64 nicLabels.e1000_vaddress)
      [.send (fun _ => 0xB000#64)
        [markSent (ringBase nicLabels (usedUpTo 0x200000#64)) 0]] s' := by
  have hb : BeforeInit nicLabels (usedUpTo 0x200000#64) :=
    beforeInit_usedUpTo (by decide) (by decide)
  obtain ⟨hrings, hmap, -⟩ := e1000_init_mem_spec hb
  obtain ⟨s', hs', -⟩ := first_send (s := afterInit nicLabels
    (usedUpTo 0x200000#64)) hb.room hrings (hmap.2 (mapped_usedUpTo _)) rfl
    rfl rfl
  have hclear : (NicCall.send (fun _ => 0xB000#64)
      [markSent (ringBase nicLabels (usedUpTo 0x200000#64)) 0]).Clear
        nicLabels (afterInit nicLabels (usedUpTo 0x200000#64)) := by
    refine ⟨hmap.2 (mapped_usedUpTo _), ?_⟩
    refine (read16_of_read64 _ _).trans ?_
    show BitVec.extractLsb' 0 16 (Mem.read64 (e1000_init_mem _ _).mem _) = _
    rw [hrings.ready.rx_desc, ringBase_usedUpTo]
    decide
  have hrun := NicReached.call NicReached.start
    (first_send_ok (n := 0x200000#64) (by decide) (by decide)) hclear hs'
  exact ⟨s', hrun, ring_indices nicLabels _ hb _ s' hrun⟩

/-- Rings at 0x211000: the card is told 0x10000001 for the index 1. -/
theorem ring_indices_broken : ¬ ∀ (L : Layout) (l : NicLabels L) (c : Cpu),
    BeforeInit l c → Mapped l c.mem → ∀ (calls : List NicCall) (s : Nic),
      NicReached l (ringBase l c) (fun _ _ => True) (afterInit l c) calls s →
      Rings l (ringBase l c) (c.mem.read64 l.e1000_vaddress) calls s := by
  intro h
  have hb : BeforeInit nicLabels (usedUpTo 0x201000#64) :=
    beforeInit_usedUpTo (by decide) (by decide)
  obtain ⟨hat, hmap, -⟩ := e1000_init_mem_spec hb
  obtain ⟨s', hs', hout⟩ := first_send (s := afterInit nicLabels
    (usedUpTo 0x201000#64)) hb.room hat (hmap.2 (mapped_usedUpTo _)) rfl rfl
    rfl
  have hrings := h _ nicLabels (usedUpTo 0x201000#64) hb (mapped_usedUpTo _)
    _ s' (NicReached.call NicReached.start
      (first_send_ok (n := 0x201000#64) (by decide) (by decide)) trivial hs')
  have hexact := hrings.tails _ (by rw [hout]; exact List.mem_singleton_self _)
  have hvalue := hexact.1 rfl
  rw [ringBase_usedUpTo] at hvalue
  revert hvalue
  decide

end BootLoader.ThirdStage
