/-
The card's descriptors over runs of packets and calls.

A call that took what there was leaves its index where the head is, and
writes it as the tail: head and tail are equal, and the card owns no
descriptor any more. Only a packet that arrives between the last look at a
status and the card's taking of the tail (`late`) avoids that, and then the
ring is not empty. A call that finds the head at its index writes no tail.
So the card keeps a descriptor exactly along the runs in which each call
finds nothing or is met by a late packet (`rx_ring_fed_iff`).
-/
import BootLoader.ThirdStage.Proofs.NicReceive

namespace BootLoader.ThirdStage

open FlatMemory Mem Words Ring

variable {L : Layout} {l : NicLabels L} {p v : BitVec 64} {s s' : Nic}
  {cur d e h h' tail : Nat}

-- ================================================================ the runs

/-- A packet, or a call of `e1000_process_packet`: the registers at the
call, its rounds, and the packets between its last look at a status and the
card's taking of the tail. -/
inductive RxEvent
  | deliver (f : Dma)
  | process (regs : Reg → BitVec 64) (rounds : List RxRound)
      (late : List Dma)

/-- One event. The card takes the writes of a call after `late`. -/
inductive RxStep (l : NicLabels L) (p v : BitVec 64) :
    RxSystem → RxEvent → RxSystem → Prop
  | deliver {x : RxSystem} {f : Dma} :
      x.card.Owns x.card.head → Delivers l p x.card.head f →
      RxStep l p v x (.deliver f) ⟨x.nic.dma f, x.card.advance⟩
  | process {x : RxSystem} {regs : Reg → BitVec 64} {rounds : List RxRound}
      {late : List Dma} {s' : Nic} {h h' : Nat} :
      0x5400 ≤ (regs .rsp).toNat → (regs .rsp).toNat ≤ 0x10000 →
      Arrivals l p x.card.tail x.card.head rounds h →
      MakesRounds l (BitVec.ofNat 32 x.card.head) rounds (x.nic.at regs) s' →
      Deliveries l p x.card.tail h late h' →
      RxStep l p v x (.process regs rounds late)
        ⟨s'.dma (deliverAll late), (s'.since x.nic).foldl (RxCard.take v)
          { x.card with head := h' }⟩

/-- An event with the states around it. -/
structure RxMove where
  before : RxSystem
  event : RxEvent
  after : RxSystem

/-- `x` after the moves from `x₀`. -/
inductive RxRun (l : NicLabels L) (p v : BitVec 64) (x₀ : RxSystem) :
    List RxMove → RxSystem → Prop
  | start : RxRun l p v x₀ [] x₀
  | step {ms : List RxMove} {x x' : RxSystem} {ev : RxEvent} :
      RxRun l p v x₀ ms x → RxStep l p v x ev x' →
      RxRun l p v x₀ (ms ++ [⟨x, ev, x'⟩]) x'

/-- The claimed: a call that leaves no descriptor filled leaves the card
one. -/
def RxMove.Fed (p : BitVec 64) (m : RxMove) : Prop :=
  match m.event with
  | .deliver _ => True
  | .process _ _ _ =>
      (∀ n < 0x800, filled p m.after.nic.cpu.mem n = false) →
        ∃ n, m.after.card.Owns n

/-- The condition: the call finds the head at its index, or a packet comes
before the card has the tail. -/
def RxMove.Clear (l : NicLabels L) (m : RxMove) : Prop :=
  match m.event with
  | .deliver _ => True
  | .process _ _ late =>
      m.before.nic.cpu.mem.read16 l.e1000_rx_cur
          = BitVec.ofNat 16 m.before.card.head
        ∨ late ≠ []

-- =============================================================== the system

/-- The driver at `cur`, the head `d` places on, the tail `e` places on. -/
structure RxAt (l : NicLabels L) (p v : BitVec 64) (cur d e : Nat)
    (x : RxSystem) : Prop where
  ring : RxRing l p v cur d x.nic.cpu.mem
  mapped : Mapped l x.nic.cpu.mem
  le : d ≤ e
  room : e ≤ 0x800
  head : x.card.head = slot 0x800 cur d
  tail : x.card.tail = slot 0x800 cur e

variable {x x' x₀ : RxSystem} {ms : List RxMove} {ev : RxEvent}

/-- No descriptor is filled when the head is at the driver's index and the
ring is not full. -/
theorem RxAt.consumed_iff (h : RxAt l p v cur d e x) :
    (∀ n < 0x800, filled p x.nic.cpu.mem n = false) ↔ d = 0 :=
  h.ring.marked.none_iff h.ring.cur_lt

theorem RxAt.owns_iff (h : RxAt l p v cur d e x) :
    (∃ n, x.card.Owns n) ↔ e ≠ d ∧ e ≠ d + 0x800 := by
  unfold RxCard.Owns
  rw [exists_owns_iff (by rw [h.head]; exact slot_lt (by omega) _ _)
    (by rw [h.tail]; exact slot_lt (by omega) _ _), h.head, h.tail, ne_eq,
    slot_eq_iff h.ring.cur_lt h.le h.room, not_or]

theorem take_ports {ws : List DeviceWrite}
    (hws : ∀ w ∈ ws, ∃ q, w.addr = .port q) (r : RxCard) :
    ws.foldl (RxCard.take v) r = r := by
  induction ws generalizing r with
  | nil => rfl
  | cons w ws ih =>
      have hw := hws w List.mem_cons_self
      rw [List.foldl_cons, ih fun w' hw' => hws w' (List.mem_cons_of_mem _ hw')]
      exact (if_neg (not_tail_of_port hw REG_RXDESCHEAD)).trans
        (if_neg (not_tail_of_port hw REG_RXDESCTAIL))

/-- What a write to a register does to the ring's card. -/
theorem take_register (v : BitVec 64) (r : RxCard) (reg : BitVec 16)
    (y : BitVec 32) (k n : Nat) :
    RxCard.take v r ⟨tailAddr v reg, y, k, n⟩
      = if reg = REG_RXDESCHEAD then { r with head := y.toNat % 0x10000 }
        else if reg = REG_RXDESCTAIL then
          { r with tail := y.toNat % 0x10000 }
        else r :=
  if_congr (tailAddr_inj v) rfl (if_congr (tailAddr_inj v) rfl rfl)

/-- The card takes the tail, whatever stands above it. -/
theorem take_tail {ws : List DeviceWrite} (hws : TailWrite v tail ws)
    (ht : tail < 0x800) (r : RxCard) :
    ws.foldl (RxCard.take v) r = { r with tail := tail } := by
  obtain ⟨ps, y, k, q, hps, rfl⟩ := hws
  rw [List.foldl_append, take_ports hps, List.foldl_cons, List.foldl_nil]
  have hvalue : (y ++ BitVec.ofNat 16 tail : BitVec 32).toNat % 0x10000
      = tail := by
    rw [BitVec.toNat_append, ← Nat.shiftLeft_add_eq_or_of_lt
      (BitVec.isLt _), Nat.shiftLeft_eq, BitVec.toNat_ofNat]
    omega
  rw [take_register, if_neg (by decide), if_pos rfl, hvalue]

/-- A packet arrives. -/
theorem RxAt.deliver (hp : RingRoom p) (h : RxAt l p v cur d e x) {f : Dma}
    (ho : x.card.Owns x.card.head) (hf : Delivers l p x.card.head f) :
    RxAt l p v cur (d + 1) e ⟨x.nic.dma f, x.card.advance⟩ := by
  unfold RxCard.Owns at ho
  rw [h.head, h.tail] at ho
  have hlt := lt_of_owns h.le ho
  have hroom := h.room
  refine ⟨?_, ?_, hlt, h.room, ?_, h.tail⟩
  · rw [h.head] at hf
    exact h.ring.deliver hp (by omega) hf
  · exact (hf.leaves.keeps x.nic).mapped.2 h.mapped
  · show (x.card.head + 1) % 0x800 = _
    rw [h.head, slot_succ]

/-- A call of the driver and the packets that come with it. -/
theorem RxAt.process (hp : RingRoom p) (h : RxAt l p v cur d e x)
    {regs : Reg → BitVec 64} {rounds : List RxRound} {late : List Dma}
    {h₁ h₂ : Nat} (hlo : 0x5400 ≤ (regs .rsp).toNat)
    (hhi : (regs .rsp).toNat ≤ 0x10000)
    (harr : Arrivals l p x.card.tail x.card.head rounds h₁)
    (hrun : MakesRounds l (BitVec.ofNat 32 x.card.head) rounds
      (x.nic.at regs) s')
    (hlate : Deliveries l p x.card.tail h₁ late h₂)
    (hx : x' = ⟨s'.dma (deliverAll late), (s'.since x.nic).foldl
      (RxCard.take v) { x.card with head := h₂ }⟩) :
    (x.card.head = cur ∧ RxAt l p v cur (d + late.length) e x')
      ∨ (x.card.head ≠ cur ∧ late = [] ∧ ∃ cur', RxAt l p v cur' 0 0 x')
      ∨ (x.card.head ≠ cur ∧ late ≠ []
        ∧ ∃ cur', RxAt l p v cur' late.length 0x800 x') := by
  subst hx
  have hs : StackRoom 120 (x.nic.at regs).cpu :=
    ⟨by show _ ≤ (regs .rsp).toNat; omega, hhi⟩
  obtain ⟨hmapped, hcases⟩ := process_rx (s := x.nic.at regs) hp hs h.mapped
    h.ring h.head h.tail h.le h.room harr hrun
  have hmapped' : Mapped l (s'.dma (deliverAll late)).cpu.mem :=
    (hlate.leaves.keeps s').mapped.2 hmapped
  rcases hcases with ⟨hsame, rfl, hr, hports⟩ |
    ⟨hdiff, htail, hr, e', he', ht'⟩
  · -- nothing processed, the late packets in the old ring
    left
    obtain ⟨hr', hh', hle⟩ := hlate.ring hp hr h.head h.tail h.le h.room
    have hcard : (s'.since x.nic).foldl (RxCard.take v)
        { x.card with head := h₂ } = ⟨h₂, x.card.tail⟩ :=
      take_ports hports _
    refine ⟨hsame, hr', hmapped', hle, h.room, ?_, ?_⟩
    · rw [hcard]
      exact hh'
    · rw [hcard]
      exact h.tail
  · right
    have hcur' := hr.cur_lt
    obtain ⟨hr', hh', hle⟩ := hlate.ring hp hr (slot_zero hcur').symm ht'
      (Nat.zero_le _) he'
    rw [Nat.zero_add] at hr' hh' hle
    have hcard : (s'.since x.nic).foldl (RxCard.take v)
        { x.card with head := h₂ } = ⟨h₂, h₁⟩ := take_tail htail hcur' _
    by_cases hnone : late = []
    · subst hnone
      refine Or.inl ⟨hdiff, rfl, h₁, hr', hmapped', Nat.le_refl _, by omega,
        ?_, ?_⟩
      · rw [hcard]
        exact hh'
      · rw [hcard]
        exact (slot_zero hcur').symm
    · refine Or.inr ⟨hdiff, hnone, h₁, hr', hmapped', by omega,
        Nat.le_refl _, ?_, ?_⟩
      · rw [hcard]
        exact hh'
      · rw [hcard]
        show h₁ = slot 0x800 h₁ 0x800
        rw [slot_eq hcur' (Nat.le_refl _), if_neg (by omega)]
        omega

-- ================================================================ the runs

/-- Where the ring is when no call took the last packet yet. -/
def Open (d e : Nat) : Prop := 0 < e ∧ (e = 0x800 → 0 < d)

theorem forall_mem_snoc {α : Type} {P : α → Prop} {xs : List α} {y : α} :
    (∀ z ∈ xs ++ [y], P z) ↔ (∀ z ∈ xs, P z) ∧ P y := by
  rw [List.forall_mem_append, List.forall_mem_singleton]

/-- The head read, as the condition has it. -/
theorem RxAt.index_eq_iff (h : RxAt l p v cur d e x) :
    x.nic.cpu.mem.read16 l.e1000_rx_cur = BitVec.ofNat 16 x.card.head
      ↔ x.card.head = cur := by
  obtain ⟨i, hi⟩ := h.ring.rings
  have hcur := h.ring.cur_lt
  have hhead : x.card.head < 0x800 := by
    rw [h.head]
    exact slot_lt (by omega) _ _
  rw [hi.rx]
  refine ⟨fun heq => ?_, fun heq => by rw [heq]⟩
  have hnat := congrArg BitVec.toNat heq
  simp only [BitVec.toNat_ofNat] at hnat
  omega

/-- The condition on a call, in terms of the ring. -/
theorem RxAt.clear_iff (h : RxAt l p v cur d e x)
    (regs : Reg → BitVec 64) (rounds : List RxRound) (late : List Dma)
    (x' : RxSystem) :
    RxMove.Clear l ⟨x, .process regs rounds late, x'⟩
      ↔ x.card.head = cur ∨ late ≠ [] :=
  or_congr h.index_eq_iff Iff.rfl

/-- The claimed of a call, in terms of the ring after it. -/
theorem RxAt.fed_iff (h : RxAt l p v cur d e x') (x : RxSystem)
    (regs : Reg → BitVec 64) (rounds : List RxRound) (late : List Dma) :
    RxMove.Fed p ⟨x, .process regs rounds late, x'⟩
      ↔ (d = 0 → e ≠ d ∧ e ≠ d + 0x800) :=
  imp_congr h.consumed_iff h.owns_iff

/-- Along a run: where the ring is, and that the card kept a descriptor
exactly if every call met the condition. -/
theorem RxRun.fed_iff (hp : RingRoom p) (h₀ : RxAt l p v 0 0 0x7FF x₀)
    (hrun : RxRun l p v x₀ ms x) :
    ∃ cur d e, RxAt l p v cur d e x
      ∧ ((∀ m ∈ ms, m.Fed p) ↔ ∀ m ∈ ms, m.Clear l)
      ∧ ((∀ m ∈ ms, m.Clear l) → Open d e) := by
  induction hrun with
  | start =>
      exact ⟨0, 0, 0x7FF, h₀,
        iff_of_true (fun _ hm => absurd hm List.not_mem_nil)
          (fun _ hm => absurd hm List.not_mem_nil),
        fun _ => ⟨by omega, fun heq => by omega⟩⟩
  | step _ hstep ih =>
      obtain ⟨cur, d, e, hat, hiff, hopen⟩ := ih
      simp only [forall_mem_snoc]
      cases hstep with
      | deliver ho hf =>
          refine ⟨cur, d + 1, e, hat.deliver hp ho hf,
            and_congr hiff Iff.rfl, ?_⟩
          rintro ⟨hclear, -⟩
          exact ⟨(hopen hclear).1, fun _ => Nat.succ_pos d⟩
      | process hlo hhi harr hmakes hlate =>
          rcases hat.process hp hlo hhi harr hmakes hlate rfl with
            ⟨hsame, hat'⟩ | ⟨hdiff, rfl, cur', hat'⟩ |
            ⟨hdiff, hsome, cur', hat'⟩
          · -- nothing was processed
            refine ⟨cur, _, e, hat', ?_, ?_⟩
            · rw [hat.clear_iff, hat'.fed_iff]
              refine ⟨fun hall => ⟨hiff.1 hall.1, Or.inl hsame⟩,
                fun hall => ⟨hiff.2 hall.1, fun hzero => ?_⟩⟩
              obtain ⟨hpos, hfull⟩ := hopen hall.1
              omega
            · rintro ⟨hclear, -⟩
              obtain ⟨hpos, hfull⟩ := hopen hclear
              exact ⟨hpos, fun heq => by have := hfull heq; omega⟩
          · -- everything was processed, the tail is the head
            refine ⟨cur', 0, 0, hat', ?_, ?_⟩
            · rw [hat.clear_iff, hat'.fed_iff]
              refine ⟨fun hall => absurd rfl (hall.2 rfl).1, fun hall => ?_⟩
              exact absurd hall.2 (not_or_intro hdiff (not_not_intro rfl))
            · rintro ⟨-, hclear⟩
              rw [hat.clear_iff] at hclear
              exact absurd hclear (not_or_intro hdiff (not_not_intro rfl))
          · -- a late packet is still to be processed
            have hpos := List.length_pos_iff.2 hsome
            refine ⟨cur', _, _, hat', ?_, fun _ => ⟨by omega,
              fun _ => hpos⟩⟩
            rw [hat.clear_iff, hat'.fed_iff]
            refine ⟨fun hall => ⟨hiff.1 hall.1, Or.inr hsome⟩,
              fun hall => ⟨hiff.2 hall.1, fun hzero => ?_⟩⟩
            omega

-- ============================================================== the start

/-- Register writes of a routine: the driver's bookkeeping and the memory
past the image stay. -/
structure Wrote (l : NicLabels L) (p : BitVec 64) (s s' : Nic)
    (ws : List DeviceWrite) : Prop where
  keeps : Keeps l p s.cpu s'.cpu
  high : ∀ a : BitVec 64, 0x20000 ≤ a.toNat → s'.cpu.mem a = s.cpu.mem a
  out : s'.out = s.out ++ ws
  sent : s'.sent = s.sent
  received : s'.received = s.received

theorem Wrote.refl (s : Nic) : Wrote l p s s [] where
  keeps := Keeps.refl _
  high := fun _ _ => rfl
  out := (List.append_nil _).symm
  sent := rfl
  received := rfl

/-- One register more, its value in EAX. -/
theorem Wrote.register (hp : RingRoom p) {s₁ : Nic} {ws : List DeviceWrite}
    (h : Wrote l p s s₁ ws) (hs : StackRoom 0 s.cpu)
    (hmapped : Mapped l s.cpu.mem)
    (hv : s.cpu.mem.read64 l.e1000_vaddress = v) (reg : BitVec 16)
    (f : Cpu → Cpu) (hmem : (f s₁.cpu).mem = s₁.cpu.mem)
    (hrsp : (f s₁.cpu).reg .rsp = s₁.cpu.reg .rsp) {y : BitVec 32}
    (hy : (f s₁.cpu).low32 .rax = y) :
    Wrote l p s (write_register l reg (s₁.run f))
        (ws ++ [⟨tailAddr v reg, y, s.sent, s.received⟩])
      ∧ (write_register l reg (s₁.run f)).cpu.reg = (f s₁.cpu).reg := by
  have hdata := rw_data_toNat l
  have haddr := rw_address_toNat l
  have hbase := l.mem_base_in
  let c₁ := (f s₁.cpu).store16 l.e1000_rw_address reg
  let c₂ := c₁.store32 l.e1000_rw_data (c₁.low32 .rax)
  have heq : write_register l reg (s₁.run f)
      = e1000_write_command l { s₁ with cpu := c₂ } := rfl
  have hk₀ : Keeps l p s.cpu (f s₁.cpu) :=
    h.keeps.trans ⟨hrsp, fun a _ => congrFun hmem a⟩
  have hk : Keeps l p s.cpu c₂ :=
    (hk₀.store_rw_address hp reg).store_rw_data hp _
  have hs₂ : StackRoom 0 c₂ := hs.of_keeps hk
  obtain ⟨⟨hreg, hsent, hrecv, -⟩, hlow, hout⟩ := write_command_spec l
    (s := { s₁ with cpu := c₂ }) hs₂.stackOk
  have hreg16 : c₂.mem.read16 l.e1000_rw_address = reg :=
    (read_write_of_disjoint (n := 4) (k := 2) _ _ (by omega) (by omega)
      (by omega)).trans (read_write_self (n := 2) _ _ _ (by omega))
  have hval : c₂.mem.read32 l.e1000_rw_data = y :=
    (read_write_self (n := 4) _ _ _ (by omega)).trans hy
  rw [heq]
  refine ⟨⟨?_, ?_, ?_, hsent.trans h.sent, hrecv.trans h.received⟩,
    hreg.trans rfl⟩
  · refine hk.trans ⟨by rw [hreg], fun a ha => hlow a ?_⟩
    have hplace := ha.place hp
    omega
  · intro a ha
    refine (hlow a (by omega)).trans ?_
    refine (write_apply_of_out (n := 4) _ _ (by omega) (by omega)).trans ?_
    refine (write_apply_of_out (n := 2) _ _ (by omega) (by omega)).trans ?_
    rw [hmem]
    exact h.high a ha
  · rw [hout (hk.mapped.2 hmapped)]
    show s₁.out ++ [DeviceWrite.mk (.mmio ((c₂.mem.read16 _).setWidth 64
      + c₂.mem.read64 _)) (c₂.mem.read32 _) s₁.sent s₁.received] = _
    rw [hreg16, hval, hk.vaddress, hv, h.out, h.sent, h.received,
      List.append_assoc]
    rfl

theorem rx_init_msg_length : e1000_rx_init_msg.length ≤ 30 := by
  unfold e1000_rx_init_msg ascii
  rw [List.length_append, List.length_map, String.length_toList]
  decide

/-- The head and the tail as the six writes of `e1000_rx_init` leave
them. -/
theorem take_rx_init (v : BitVec 64) (r : RxCard) (k n : Nat)
    (y z : BitVec 32) :
    [(⟨tailAddr v REG_RXDESCLO, y, k, n⟩ : DeviceWrite),
      ⟨tailAddr v REG_RXDESCHI, 0#32, k, n⟩,
      ⟨tailAddr v REG_RXDESCLEN, 0x8000#32, k, n⟩,
      ⟨tailAddr v REG_RXDESCHEAD, 0#32, k, n⟩,
      ⟨tailAddr v REG_RXDESCTAIL, 0x7FF#32, k, n⟩,
      ⟨tailAddr v REG_RCTRL, z, k, n⟩].foldl (RxCard.take v) r
      = ⟨0, 0x7FF⟩ := by
  simp only [List.foldl_cons, List.foldl_nil, take_register]
  rfl

/-- `e1000_rx_init` leaves the ring and gives the card all descriptors but
one. -/
theorem e1000_rx_init_spec (l : ServiceLabels L) (hp : RingRoom p)
    (hs : StackRoom 240 s.cpu) (hmapped : Mapped l.toNicLabels s.cpu.mem)
    (hr : RxRing l.toNicLabels p v cur d s.cpu.mem) :
    RxRing l.toNicLabels p v cur d (e1000_rx_init l s).cpu.mem
      ∧ Mapped l.toNicLabels (e1000_rx_init l s).cpu.mem
      ∧ ∀ r, ((e1000_rx_init l s).since s).foldl (RxCard.take v) r
        = ⟨0, 0x7FF⟩ := by
  obtain ⟨i, hi⟩ := hr.rings
  obtain ⟨hi₀, hmap₀, -⟩ := pushaq_rings hp hs.stackOk hi
  have hmap : Mapped l.toNicLabels (s.run Cpu.pushaq).cpu.mem :=
    hmap₀.2 hmapped
  have hs₀ : StackRoom 0 (s.run Cpu.pushaq).cpu :=
    (hs.pushaq (n := 120)).mono (Nat.zero_le _)
  have hi₀ : RingsAt l.toNicLabels p v i cur (s.run Cpu.pushaq).cpu.mem :=
    hi₀
  have hpush : ∀ a : BitVec 64, 0x20000 ≤ a.toNat →
      (s.run Cpu.pushaq).cpu.mem a = s.cpu.mem a := by
    intro a ha
    obtain ⟨hsp, hsp'⟩ := hs.stackOk
    obtain ⟨-, -, hpush, -⟩ := Cpu.pushaq_spec (c := s.cpu) (by omega)
    exact hpush a (Or.inr (by omega))
  have hout₀ : (s.run Cpu.pushaq).out = s.out := rfl
  have hv := hi₀.ready.vaddress
  unfold e1000_rx_init
  dsimp only
  generalize s.run Cpu.pushaq = t₀ at *
  -- the six registers
  obtain ⟨h₁, -⟩ := (Wrote.refl (l := l.toNicLabels) (p := p) t₀).register hp
    hs₀ hmap hv REG_RXDESCLO (fun c => c.load64 .rax l.e1000_rx_desc_ptr) rfl
    rfl rfl
  generalize write_register l.toNicLabels REG_RXDESCLO _ = t₁ at h₁ ⊢
  obtain ⟨h₂, -⟩ := h₁.register hp hs₀ hmap hv REG_RXDESCHI
    (fun c => c.set .rax 0#64) rfl rfl rfl
  generalize write_register l.toNicLabels REG_RXDESCHI _ = t₂ at h₂ ⊢
  obtain ⟨h₃, -⟩ := h₂.register hp hs₀ hmap hv REG_RXDESCLEN
    (fun c => c.set .rax e1000_desc_array_size) rfl rfl rfl
  generalize write_register l.toNicLabels REG_RXDESCLEN _ = t₃ at h₃ ⊢
  obtain ⟨h₄, hreg₄⟩ := h₃.register hp hs₀ hmap hv REG_RXDESCHEAD
    (fun c => c.set .rax 0#64) rfl rfl rfl
  generalize write_register l.toNicLabels REG_RXDESCHEAD _ = t₄
    at h₄ hreg₄ ⊢
  obtain ⟨h₅, -⟩ := h₄.register (y := 0x7FF#32) hp hs₀ hmap hv
    REG_RXDESCTAIL
    (fun c => c.set .rax (c.reg .rax ^^^ (e1000_desc_array_count - 1#64)))
    rfl rfl (by
      unfold Cpu.low32
      rw [Cpu.set_reg_self, hreg₄, Cpu.set_reg_self]
      decide)
  generalize write_register l.toNicLabels REG_RXDESCTAIL _ = t₅ at h₅ ⊢
  obtain ⟨h₆, -⟩ := h₅.register hp hs₀ hmap hv REG_RCTRL
    (fun c => c.set .rax (RCTL_EN ||| RCTL_UPE ||| RCTL_MPE
      ||| RCTL_LBM_NONE ||| RTCL_RDMTS_HALF ||| RCTL_BAM ||| RCTL_SECRC
      ||| RCTL_BSIZE_16384)) rfl rfl rfl
  generalize write_register l.toNicLabels REG_RCTRL _ = t at h₆ ⊢
  -- the message
  have hs₆ : StackRoom 0 t.cpu := hs₀.of_keeps h₆.keeps
  obtain ⟨hk, -, hhigh, -⟩ := print_keeps (l := l.toNicLabels) hp hs₆.stackOk
    l.e1000_rx_init_msg e1000_rx_init_msg
    (l.service_strings_in _ (by simp)) rx_init_msg_length
  have hk' := h₆.keeps.trans hk
  refine ⟨?_, ?_, fun r => ?_⟩
  · show RxRing l.toNicLabels p v cur d (Cpu.popaq _).mem
    rw [Cpu.popaq_mem]
    refine hr.congr ⟨i, hk'.ringsAt hp hi₀⟩ fun n hn => ?_
    have haddr := rxStatus_toNat hp.2 hn
    have hlo := hp.1
    refine (hhigh _ (by omega)).trans ((h₆.high _ (by omega)).trans ?_)
    exact hpush _ (by omega)
  · show Mapped l.toNicLabels (Cpu.popaq _).mem
    rw [Cpu.popaq_mem]
    exact hk'.mapped.2 hmap
  · show (t.out.drop s.out.length).foldl _ r = _
    rw [h₆.out, hout₀, List.drop_left]
    exact take_rx_init v r _ _ _ _

-- =============================================================== the result

/-- The driver about to call `e1000_rx_init`: an empty receive ring, a
mapped card, room on the stack. -/
structure BeforeRx (l : NicLabels L) (p v : BitVec 64) (s : Nic) : Prop where
  room : RingRoom p
  stack : StackRoom 240 s.cpu
  mapped : Mapped l s.cpu.mem
  ring : RxRing l p v 0 0 s.cpu.mem

/-- The driver and a card, whatever its registers, after
`e1000_rx_init`. -/
def rxStart (l : ServiceLabels L) (v : BitVec 64) (s : Nic) (r : RxCard) :
    RxSystem :=
  ⟨e1000_rx_init l s, ((e1000_rx_init l s).since s).foldl (RxCard.take v) r⟩

theorem rxStart_at {l : ServiceLabels L} (h : BeforeRx l.toNicLabels p v s)
    (r : RxCard) :
    RxAt l.toNicLabels p v 0 0 0x7FF (rxStart l v s r) := by
  obtain ⟨hr, hmapped, hcard⟩ := e1000_rx_init_spec l h.room h.stack
    h.mapped h.ring
  refine ⟨hr, hmapped, Nat.zero_le _, by omega, ?_, ?_⟩
  · show (List.foldl (RxCard.take v) r _).head = _
    rw [hcard]
    rfl
  · show (List.foldl (RxCard.take v) r _).tail = _
    rw [hcard]
    rfl

/-- An empty ring, at a call. -/
theorem beforeRx_at (hp : RingRoom p) {i : Nat}
    (hr : RingsAt l p v i 0 s.cpu.mem) (hmapped : Mapped l s.cpu.mem)
    (hstatus : ∀ n < 0x800, s.cpu.mem (rxStatus p n) = 0x0#8)
    {regs : Reg → BitVec 64} (hlo : 0x5400 ≤ (regs .rsp).toNat)
    (hhi : (regs .rsp).toNat ≤ 0x10000) : BeforeRx l p v (s.at regs) := by
  refine ⟨hp, ⟨by show _ ≤ (regs .rsp).toNat; omega, hhi⟩, hmapped,
    by omega, ⟨i, hr⟩, fun n hn => ?_⟩
  show (s.cpu.mem (rxStatus _ _)).getLsbD 0 = _
  rw [hstatus _ (slot_lt (by omega) _ _), decide_eq_false (Nat.not_lt_zero n)]
  rfl

/-- `e1000_init_mem` leaves the ring as `e1000_rx_init` needs it. -/
theorem beforeRx_afterInit {c : Cpu} (h : BeforeInit l c)
    (hmapped : Mapped l c.mem) {regs : Reg → BitVec 64}
    (hlo : 0x5400 ≤ (regs .rsp).toNat) (hhi : (regs .rsp).toNat ≤ 0x10000) :
    BeforeRx l (ringBase l c) (c.mem.read64 l.e1000_vaddress)
      ((afterInit l c).at regs) := by
  obtain ⟨hrings, hmap, hstatus, -⟩ := e1000_init_mem_spec h
  exact beforeRx_at (s := afterInit l c) h.room hrings (hmap.2 hmapped)
    hstatus hlo hhi

/-- In every run from `e1000_rx_init`, the card keeps a descriptor after
each call that left none filled exactly if each call found nothing to
process or was met by a late packet. -/
theorem rx_ring_fed_iff (l : ServiceLabels L) (p v : BitVec 64) (s : Nic)
    (r : RxCard) (h : BeforeRx l.toNicLabels p v s) (ms : List RxMove)
    (x : RxSystem)
    (hrun : RxRun l.toNicLabels p v (rxStart l v s r) ms x) :
    (∀ m ∈ ms, m.Fed p) ↔ ∀ m ∈ ms, m.Clear l.toNicLabels := by
  obtain ⟨-, -, -, -, hiff, -⟩ := hrun.fed_iff h.room (rxStart_at h r)
  exact hiff

-- ================================================================= samples

/-- One packet, one call. -/
theorem one_packet_run (hp : RingRoom p) (h₀ : RxAt l p v 0 0 0x7FF x₀) :
    ∃ regs rounds x₁ x₂, RxRun l p v x₀
        [⟨x₀, .deliver (markReceived p 0), x₁⟩,
          ⟨x₁, .process regs rounds [], x₂⟩] x₂
      ∧ x₁.card.head = 1 ∧ RxAt l p v 0 1 0x7FF x₁ := by
  have hhead : x₀.card.head = 0 := h₀.head
  have hf : Delivers l p x₀.card.head (markReceived p 0) := by
    rw [hhead]
    exact markReceived_delivers hp (by omega)
  have ho : x₀.card.Owns x₀.card.head := by
    unfold RxCard.Owns
    rw [h₀.head, h₀.tail]
    exact (owns_head_iff (by decide) (by decide)).2 (by decide)
  have h₁ := h₀.deliver hp ho hf
  generalize hx₁ : (⟨x₀.nic.dma (markReceived p 0), x₀.card.advance⟩ :
    RxSystem) = x₁ at h₁
  have hhead₁ : x₁.card.head = 1 := h₁.head
  obtain ⟨s', hmakes⟩ := process_returns (s := x₁.nic.at fun _ => 0xB000#64)
    hp ⟨by show 0x5100 + 120 ≤ 0xB000; omega, by show 0xB000 ≤ 0x10000; omega⟩
    h₁.mapped h₁.ring (by omega) (h := x₁.card.head) (by omega) (by omega)
  have hrun₁ : RxRun l p v x₀ [⟨x₀, .deliver (markReceived p 0), x₁⟩] x₁ := by
    rw [← hx₁]
    exact RxRun.step RxRun.start (RxStep.deliver ho hf)
  have harr : Arrivals l p x₁.card.tail x₁.card.head
      (List.replicate (1 + 1) quietRound) x₁.card.head :=
    Arrivals.round Deliveries.none
      (Arrivals.round Deliveries.none Arrivals.none)
  exact ⟨fun _ => 0xB000#64, _, x₁, _, RxRun.step hrun₁ (RxStep.process
    (by show 0x5400 ≤ 0xB000; omega) (by show 0xB000 ≤ 0x10000; omega) harr
    hmakes Deliveries.none), hhead₁, h₁⟩

/-- The assembled labels with the service's messages. -/
def serviceLabels : ServiceLabels assembledLayout where
  toNicLabels := nicLabels
  e1000_rx_init_msg := 0x125C0#64
  e1000_link_restarted_int_msg := 0x12600#64
  e1000_good_threshold_int_msg := 0x12640#64
  e1000_process_packet_int_msg := 0x12680#64
  service_strings_in := by simp

/-- The driver with its rings at 0x210000. -/
def beforeRxInit : Nic :=
  (afterInit nicLabels (usedUpTo 0x200000#64)).at fun _ => 0xB000#64

theorem beforeRx_beforeRxInit : BeforeRx serviceLabels.toNicLabels
    (ringBase nicLabels (usedUpTo 0x200000#64))
    ((usedUpTo 0x200000#64).mem.read64 nicLabels.e1000_vaddress)
    beforeRxInit :=
  beforeRx_afterInit (beforeInit_usedUpTo (by decide) (by decide))
    (mapped_usedUpTo _) (by show 0x5400 ≤ 0xB000; omega)
    (by show 0xB000 ≤ 0x10000; omega)

/-- One packet and one call, after `e1000_rx_init` with the rings at
0x210000. -/
theorem rx_ring_fed_iff_sample : ∃ ms x, ms.length = 2
    ∧ RxRun serviceLabels.toNicLabels
      (ringBase nicLabels (usedUpTo 0x200000#64))
      ((usedUpTo 0x200000#64).mem.read64 nicLabels.e1000_vaddress)
      (rxStart serviceLabels
        ((usedUpTo 0x200000#64).mem.read64 nicLabels.e1000_vaddress)
        beforeRxInit ⟨0, 0⟩) ms x
    ∧ ((∀ m ∈ ms, m.Fed (ringBase nicLabels (usedUpTo 0x200000#64)))
      ↔ ∀ m ∈ ms, m.Clear serviceLabels.toNicLabels) := by
  have hb := beforeRx_beforeRxInit
  obtain ⟨regs, rounds, x₁, x₂, hrun, -⟩ := one_packet_run hb.room
    (rxStart_at hb ⟨0, 0⟩)
  exact ⟨_, x₂, rfl, hrun, rx_ring_fed_iff serviceLabels _ _ beforeRxInit
    ⟨0, 0⟩ hb _ x₂ hrun⟩

/-- One packet and one call leave the card no descriptor. -/
theorem rx_ring_starves : ¬ ∀ (L : Layout) (l : ServiceLabels L)
    (p v : BitVec 64) (s : Nic) (r : RxCard),
    BeforeRx l.toNicLabels p v s → ∀ (ms : List RxMove) (x : RxSystem),
      RxRun l.toNicLabels p v (rxStart l v s r) ms x →
      ∀ m ∈ ms, m.Fed p := by
  intro hall
  have hb := beforeRx_beforeRxInit
  obtain ⟨regs, rounds, x₁, x₂, hrun, hhead, hat⟩ := one_packet_run hb.room
    (rxStart_at hb ⟨0, 0⟩)
  have hfed := hall _ serviceLabels _ _ beforeRxInit ⟨0, 0⟩ hb _ x₂ hrun
  obtain ⟨-, -, -, -, hiff, -⟩ := hrun.fed_iff hb.room (rxStart_at hb ⟨0, 0⟩)
  -- the call found a packet, and none came late
  have hclear := hiff.1 hfed _ (List.mem_cons_of_mem _ List.mem_cons_self)
  rcases (hat.clear_iff regs rounds [] x₂).1 hclear with hsame | hlate
  · rw [hhead] at hsame
    exact absurd hsame (by decide)
  · exact hlate rfl

end BootLoader.ThirdStage
