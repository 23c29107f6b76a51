/-
What a run of `e1000_int_handler` serves.

The handler reads the cause register into `e1000_rw_data` and goes through
an exclusive chain of tests: bit 2, bit 4, bit 7. The first bit found set is
the only cause served, and the read has cleared the others in the card.
`e1000_process_packet` is called exactly when bit 7 is set and bits 2 and 4
are not; called, it takes every filled descriptor unless the head it reads
is its own index, which is so for an empty ring and for a completely filled
one.
-/
import BootLoader.ThirdStage.Proofs.NicStarvation

namespace BootLoader.ThirdStage

open FlatMemory Mem Words Ring

variable {L : Layout} {l : NicLabels L} {p v : BitVec 64} {s s' : Nic}
  {i j d : Nat}

-- ========================================================= the card's work

/-- Work of the card on memory: it leaves the driver's variables alone and
never clears a status bit it has set. -/
structure CardWork (l : NicLabels L) (p : BitVec 64) (f : Dma) : Prop where
  leaves : Leaves l p f
  data : ∀ m, (f m).read32 l.e1000_rw_data = m.read32 l.e1000_rw_data
  keeps : ∀ m n, n < 0x800 → filled p m n = true → filled p (f m) n = true

/-- The `d` descriptors from `j` on are filled, and maybe more. -/
def FilledFrom (p : BitVec 64) (j d : Nat) (m : Mem) : Prop :=
  ∀ n < d, filled p m (slot 0x800 j n) = true

theorem FilledFrom.work {f : Dma} {m : Mem} (h : FilledFrom p j d m)
    (hf : CardWork l p f) : FilledFrom p j d (f m) :=
  fun n hn => hf.keeps m _ (slot_lt (by omega) _ _) (h n hn)

/-- Memory that agrees on the statuses. -/
theorem FilledFrom.congr {m m' : Mem} (h : FilledFrom p j d m)
    (hm : ∀ n < 0x800, m' (rxStatus p n) = m (rxStatus p n)) :
    FilledFrom p j d m' := by
  intro n hn
  unfold filled
  rw [hm _ (slot_lt (by omega) _ _)]
  exact h n hn

-- ================================================================ the loop

/-- The receive loop takes at least the packets that were there. -/
theorem receive_loop_takes (hp : RingRoom p) (rounds : List Arrival) :
    ∀ {s s' : Nic} {i j d : Nat}, (∀ r ∈ rounds, CardWork l p r.arrive) →
      StackOk s.cpu → RingsAt l p v i j s.cpu.mem → j < 0x800 →
      d ≤ 0x800 → FilledFrom p j d s.cpu.mem →
      receive_loop l rounds s = some s' → s.received + d ≤ s'.received := by
  induction rounds with
  | nil =>
      intro s s' i j d _ _ _ _ _ _ hrun
      cases hrun
  | cons r rs ih =>
      intro s s' i j d hwork hs hr hj hd hfilled hrun
      have hcard := hwork r List.mem_cons_self
      have hlook := looked_filled (s := s) (a := r) hj
        (hcard.leaves.ringsAt hp hr)
      have hfilled' := hfilled.work hcard
      rw [receive_loop_cons] at hrun
      split at hrun
      next hclear =>
        obtain rfl := Option.some.inj hrun
        -- a filled descriptor at the index would have been seen
        have hzero : d = 0 := by
          by_contra hne
          have hfirst := hfilled' 0 (by omega)
          rw [slot_zero hj] at hfirst
          exact hclear (hlook.2 hfirst)
        subst hzero
        exact Nat.le_refl _
      next hset =>
        obtain ⟨t, i', ht, -, hr', hrsp, -, hsil, hring⟩ := receive_round hp
          hs hr hj (r := r) hcard.leaves (not_not.1 hset)
        rw [ht] at hrun
        have hs' : StackOk (taken l t).cpu := by
          unfold StackOk
          rw [hrsp]
          exact hs
        have hrest : FilledFrom p ((j + 1) % 0x800) (d - 1)
            (taken l t).cpu.mem := by
          intro n hn
          rw [slot_next]
          have hslot : slot 0x800 j (n + 1) ≠ j := by
            rw [slot_eq hj (by omega)]
            split <;> omega
          have hlt : slot 0x800 j (n + 1) < 0x800 := slot_lt (by omega) _ _
          have haddr := rxStatus_toNat hp.2 hj
          have haddr' := rxStatus_toNat hp.2 hlt
          have hhi := hp.2
          have hsame : (taken l t).cpu.mem (rxStatus p (slot 0x800 j (n + 1)))
              = r.arrive s.cpu.mem (rxStatus p (slot 0x800 j (n + 1))) :=
            (hring _ (by omega) (Or.inl (by omega))).trans
              (write_apply_of_out (n := 1) _ _ (by omega) (by omega))
          unfold filled
          rw [hsame]
          exact hfilled' (n + 1) (by omega)
        have hcount := ih
          (fun r' hr' => hwork r' (List.mem_cons_of_mem _ hr')) hs' hr'
          (Nat.mod_lt _ (by omega)) (by omega) hrest hrun
        have hone : (taken l t).received = s.received + 1 :=
          congrArg (· + 1) hsil.received
        omega

/-- A call of `e1000_process_packet` takes what is filled, unless the head
it reads is its index; then it takes nothing. -/
theorem process_takes (hp : RingRoom p) (hs : StackRoom 120 s.cpu)
    (hr : RingsAt l p v i j s.cpu.mem) (hj : j < 0x800) (hd : d ≤ 0x800)
    (hfilled : FilledFrom p j d s.cpu.mem) {head : BitVec 32}
    {rounds : List Arrival} (hwork : ∀ r ∈ rounds, CardWork l p r.arrive)
    (hrun : e1000_process_packet l head rounds s = some s') :
    (Idle l head s.cpu.mem → s'.received = s.received)
      ∧ (¬ Idle l head s.cpu.mem → s.received + d ≤ s'.received) := by
  obtain ⟨hr₁, hrsp₁, -, hasked, -, hrecv₁, -, hhigh₁, -⟩ :=
    headAsked_spec hp hs hr head
  rw [process_eq] at hrun
  have hs₁ : StackRoom 0 (headAsked l head s).cpu := by
    unfold StackRoom
    rw [hrsp₁]
    exact StackRoom.pushaq (n := 0) hs
  have hfilled₁ : FilledFrom p j d (headAsked l head s).cpu.mem := by
    refine hfilled.congr fun n hn => hhigh₁ _ ?_
    have haddr := rxStatus_toNat hp.2 hn
    have hlo := hp.1
    omega
  generalize headAsked l head s = a at *
  split at hrun
  next hsame =>
    obtain rfl := Option.some.inj hrun
    exact ⟨fun _ => hrecv₁, fun hne => absurd (hasked.1 hsame) hne⟩
  next hdiff =>
    obtain ⟨u, hu, rfl⟩ := Option.map_eq_some_iff.1 hrun
    have hcount := receive_loop_takes hp rounds hwork hs₁.stackOk hr₁ hj hd
      hfilled₁ hu
    obtain ⟨k, i', -, -, hrspu, -⟩ := receive_loop_spec hp rounds
      (fun r hr => (hwork r hr).leaves) hs₁.stackOk hr₁ hj hu
    have hsu : StackRoom 0 u.cpu := by
      unfold StackRoom
      rw [hrspu]
      exact hs₁
    obtain ⟨-, -, -, -, hrecv, -⟩ := update_tail_spec (l := l)
      (s := { u with updates := u.updates + 1 }) hp hsu.stackOk
      REG_RXDESCTAIL (o := 0) (by omega)
    have hrx : l.e1000_rx_cur + BitVec.ofNat 64 0 = l.e1000_rx_cur :=
      BitVec.add_zero _
    rw [hrx] at hrecv
    generalize update_tail l REG_RXDESCTAIL l.e1000_rx_cur
      { u with updates := u.updates + 1 } = w at hrecv ⊢
    refine ⟨fun hsame => absurd (hasked.2 hsame) hdiff, fun _ => ?_⟩
    rw [hrecv₁] at hcount
    exact Nat.le_trans hcount (Nat.le_of_eq hrecv.symm)

-- ============================================================== the handler

/-- The test of a bit reads the data variable into RAX. -/
theorem cause_bit_spec (l : NicLabels L) (bit : BitVec 32) (c : Cpu) :
    (cause_bit l bit c).mem = c.mem
      ∧ (cause_bit l bit c).reg .rsp = c.reg .rsp
      ∧ (cause_bit l bit c).low32 .rax
        = c.mem.read32 l.e1000_rw_data &&& bit := by
  refine ⟨rfl, ?_, ?_⟩
  · unfold cause_bit load32
    rw [Cpu.set_reg_of_ne (by decide), Cpu.set_reg_of_ne (by decide)]
    rfl
  · unfold cause_bit load32 Cpu.low32
    rw [Cpu.set_reg_self, low32_zeroExtend, Cpu.set_reg_self,
      low32_zeroExtend]

/-- The cause in the data variable, RAX clear. -/
def caused (l : NicLabels L) (cause : BitVec 32) (s : Nic) : Nic :=
  (register_read l REG_ICR cause s).run fun c => c.set .rax 0#64

/-- The cells after the read of the cause. -/
theorem caused_cells (hp : RingRoom p) (hs : StackRoom 120 s.cpu)
    (cause : BitVec 32) :
    (caused l cause s).cpu.mem.read16 l.e1000_rw_address = REG_ICR
      ∧ (caused l cause s).cpu.mem.read32 l.e1000_rw_data
        = answered l cause s.cpu.mem := by
  have hread := register_read_spec (l := l) hp hs REG_ICR cause
  unfold caused
  generalize register_read l REG_ICR cause s = t at *
  exact ⟨hread.address, hread.data⟩

/-- The tests of bits 2, 4 and 7 made. -/
def tested (l : NicLabels L) (cause : BitVec 32) (s : Nic) : Nic :=
  (((caused l cause s).run (cause_bit l 0x04#32)).run
    (cause_bit l 0x10#32)).run (cause_bit l 0x80#32)

/-- About to call `e1000_process_packet`. -/
def servedAt (l : ServiceLabels L) (cause : BitVec 32) (between : Dma)
    (s : Nic) : Nic :=
  ((tested l.toNicLabels cause s).run
    (print L l.e1000_process_packet_int_msg
      e1000_process_packet_int_msg)).dma between

/-- The handler by its chain of tests. -/
theorem handler_eq (l : ServiceLabels L) (cause : BitVec 32) (between : Dma)
    (head : BitVec 32) (rounds : List Arrival) (s : Nic) :
    e1000_int_handler l cause between head rounds s
      = if (caused l.toNicLabels cause s).cpu.mem.read32 l.e1000_rw_data
            &&& 0x04#32 = 0x04#32 then
          some ((((caused l.toNicLabels cause s).run
            (cause_bit l.toNicLabels 0x04#32)).run
              (print L l.e1000_link_restarted_int_msg
                e1000_link_restarted_int_msg)).run Cpu.popaq, false)
        else if (caused l.toNicLabels cause s).cpu.mem.read32 l.e1000_rw_data
            &&& 0x10#32 = 0x10#32 then
          some (((((caused l.toNicLabels cause s).run
            (cause_bit l.toNicLabels 0x04#32)).run
              (cause_bit l.toNicLabels 0x10#32)).run
                (print L l.e1000_good_threshold_int_msg
                  e1000_good_threshold_int_msg)).run Cpu.popaq, false)
        else if (caused l.toNicLabels cause s).cpu.mem.read32 l.e1000_rw_data
            &&& 0x80#32 = 0x80#32 then
          (e1000_process_packet l.toNicLabels head rounds
            (servedAt l cause between s)).map fun s =>
              (s.run Cpu.popaq, true)
        else some ((tested l.toNicLabels cause s).run Cpu.popaq, false) := by
  unfold e1000_int_handler tested servedAt tested caused register_read asking
  dsimp only
  generalize e1000_read_command l.toNicLabels cause _ = t
  obtain ⟨-, -, h2⟩ := cause_bit_spec l.toNicLabels 0x04#32
    (t.run fun c => c.set .rax 0#64).cpu
  obtain ⟨-, -, h4⟩ := cause_bit_spec l.toNicLabels 0x10#32
    (cause_bit l.toNicLabels 0x04#32 (t.run fun c => c.set .rax 0#64).cpu)
  obtain ⟨-, -, h7⟩ := cause_bit_spec l.toNicLabels 0x80#32
    (cause_bit l.toNicLabels 0x10#32 (cause_bit l.toNicLabels 0x04#32
      (t.run fun c => c.set .rax 0#64).cpu))
  have hmem (bit : BitVec 32) (c : Cpu) :
      (cause_bit l.toNicLabels bit c).mem = c.mem := rfl
  rw [hmem] at h4
  rw [hmem, hmem] at h7
  rw [← h2, ← h4, ← h7]
  refine if_congr Iff.rfl rfl (if_congr Iff.rfl rfl (if_congr Iff.rfl ?_ rfl))
  exact Option.map_eq_bind.symm

theorem process_packet_msg_length :
    e1000_process_packet_int_msg.length ≤ 30 := by
  unfold e1000_process_packet_int_msg ascii
  rw [List.length_append, List.length_map, String.length_toList]
  decide

/-- What the second read of the handler leaves in the data variable: a card
behind ports adds to the first. -/
def headRead (l : NicLabels L) (cause head : BitVec 32) (m : Mem) :
    BitVec 32 :=
  if m l.e1000_ioport_flag = 0x1#8 then
    m.read32 l.e1000_rw_data + cause + head
  else head

/-- The ring as the handler's call of `e1000_process_packet` finds it. -/
theorem servedAt_spec (l : ServiceLabels L) (hp : RingRoom p)
    (hs : StackRoom 240 s.cpu) (hr : RingsAt l.toNicLabels p v i j s.cpu.mem)
    (cause head : BitVec 32) {between : Dma} (hbetween : CardWork l.toNicLabels p between) :
    RingsAt l.toNicLabels p v i j (servedAt l cause between s).cpu.mem
      ∧ StackRoom 120 (servedAt l cause between s).cpu
      ∧ (Mapped l.toNicLabels (servedAt l cause between s).cpu.mem
        ↔ Mapped l.toNicLabels s.cpu.mem)
      ∧ (∃ m, (servedAt l cause between s).cpu.mem = between m
        ∧ ∀ n < 0x800, m (rxStatus p n) = s.cpu.mem (rxStatus p n))
      ∧ (servedAt l cause between s).received = s.received
      ∧ (Idle l.toNicLabels head (servedAt l cause between s).cpu.mem
        ↔ (headRead l.toNicLabels cause head s.cpu.mem).extractLsb' 0 16
          = s.cpu.mem.read16 l.e1000_rx_cur) := by
  obtain ⟨hr₁, -, -⟩ := pushaq_rings hp hs.stackOk hr
  have hs₁ : StackRoom 120 s.cpu.pushaq := StackRoom.pushaq (n := 120) hs
  have hread := register_read_spec (l := l.toNicLabels) (s := s) hp
    (hs.mono (by omega)) REG_ICR cause
  have hflag₁ : s.cpu.pushaq.mem l.e1000_ioport_flag
      = s.cpu.mem l.e1000_ioport_flag :=
    pushaq_kept hp hs.stackOk (ioport_flag_kept l.toNicLabels p)
  unfold servedAt tested caused
  generalize register_read l.toNicLabels REG_ICR cause s = t at *
  obtain ⟨a, ha⟩ : ∃ a, a = (((t.run fun c => c.set .rax 0#64).run
      (cause_bit l.toNicLabels 0x04#32)).run
        (cause_bit l.toNicLabels 0x10#32)).run
          (cause_bit l.toNicLabels 0x80#32) := ⟨_, rfl⟩
  -- the tests change RAX only
  have hamem : a.cpu.mem = t.cpu.mem := by
    rw [ha]
    rfl
  have harsp : a.cpu.reg .rsp = t.cpu.reg .rsp := by
    rw [ha]
    exact (cause_bit_spec _ _ _).2.1.trans ((cause_bit_spec _ _ _).2.1.trans
      ((cause_bit_spec _ _ _).2.1.trans (Cpu.set_reg_of_ne (by decide))))
  have harecv : a.received = t.received := by
    rw [ha]
    rfl
  rw [← ha]
  have hk₂ : Keeps l.toNicLabels p s.cpu.pushaq a.cpu :=
    hread.keeps.trans ⟨harsp, fun b _ => congrFun hamem b⟩
  have hs₂ : StackRoom 120 a.cpu := hs₁.of_keeps hk₂
  obtain ⟨hk₃, -, hhigh₃, hbase₃⟩ := print_keeps (l := l.toNicLabels) hp
    hs₂.stackOk l.e1000_process_packet_int_msg e1000_process_packet_int_msg
    (l.service_strings_in _ (by simp)) process_packet_msg_length
  have hk := hk₂.trans hk₃
  have hr₃ := hk.ringsAt hp hr₁
  -- the data variable is as the first read left it
  have hdata : (print L l.e1000_process_packet_int_msg
      e1000_process_packet_int_msg a.cpu).mem.read32 l.e1000_rw_data
      = answered l.toNicLabels cause s.cpu.mem := by
    have haddr := rw_data_toNat l.toNicLabels
    have hbase := l.mem_base_in
    rw [← hread.data, ← hamem]
    exact read_congr_bytes (n := 4) (by omega) fun b hlo hhi =>
      hbase₃ b (by omega) (by omega)
  have hflag : between (print L l.e1000_process_packet_int_msg
      e1000_process_packet_int_msg a.cpu).mem l.e1000_ioport_flag
      = s.cpu.mem l.e1000_ioport_flag :=
    (hbetween.leaves _ _ (ioport_flag_kept l.toNicLabels p)).trans
      ((hk.mem _ (ioport_flag_kept l.toNicLabels p)).trans hflag₁)
  have hr₄ := hbetween.leaves.ringsAt hp hr₃
  have hs₃ : StackRoom 120 (print L l.e1000_process_packet_int_msg
      e1000_process_packet_int_msg a.cpu) := hs₂.of_keeps hk₃
  refine ⟨hr₄, hs₃, ?_, ⟨_, rfl, fun n hn => ?_⟩,
    harecv.trans hread.received, ?_⟩
  · unfold Mapped
    rw [← hflag]
    exact Iff.rfl
  · have haddr := rxStatus_toNat hp.2 hn
    have hlo := hp.1
    refine (hhigh₃ _ (by omega)).trans ?_
    rw [hamem]
    exact hread.high _ (by omega)
  · unfold Idle headRead
    show (answered _ _ (between (print L l.e1000_process_packet_int_msg
      e1000_process_packet_int_msg a.cpu).mem)).extractLsb' 0 16
      = (between (print L l.e1000_process_packet_int_msg
        e1000_process_packet_int_msg a.cpu).mem).read16 l.e1000_rx_cur ↔ _
    rw [hr₄.rx, ← hr.rx]
    unfold answered at hdata ⊢
    rw [hflag, hbetween.data, hdata]
    split
    · exact Iff.rfl
    · exact Iff.rfl

/-- A test of the chain, as a bit. -/
theorem and_bit_iff (x : BitVec 32) {n : Nat} (hn : n < 32) :
    x &&& BitVec.twoPow 32 n = BitVec.twoPow 32 n
      ↔ x.getLsbD n = true := by
  rw [BitVec.and_twoPow]
  split
  next h => exact iff_of_true rfl h
  next h =>
    refine iff_of_false (fun hzero => ?_) h
    have hbit := congrArg (fun y : BitVec 32 => y.getLsbD n) hzero
    simp only [BitVec.getLsbD_zero, BitVec.getLsbD_twoPow, hn, decide_true,
      Bool.and_self, Bool.false_eq_true] at hbit

-- =============================================================== the result

/-- The condition: of the causes read only the receive bit is in the chain's
way, and the head read is not the driver's index unless nothing is
filled. -/
def Served (l : NicLabels L) (cause head : BitVec 32) (d : Nat) (m : Mem) :
    Prop :=
  (answered l cause m).getLsbD 2 = false
    ∧ (answered l cause m).getLsbD 4 = false
    ∧ (answered l cause m).getLsbD 7 = true
    ∧ (d = 0 ∨ (headRead l cause head m).extractLsb' 0 16
      ≠ m.read16 l.e1000_rx_cur)

/-- A run of the handler calls `e1000_process_packet` and hands at least
the `d` filled descriptors to `network_stack` exactly under the
condition. -/
theorem handler_serves_iff (l : ServiceLabels L) (p v : BitVec 64)
    (s s' : Nic) (i j d : Nat) (cause head : BitVec 32) (between : Dma)
    (rounds : List Arrival) (ran : Bool) (hp : RingRoom p)
    (hs : StackRoom 240 s.cpu) (hr : RingsAt l.toNicLabels p v i j s.cpu.mem)
    (hj : j < 0x800) (hd : d ≤ 0x800) (hfilled : FilledFrom p j d s.cpu.mem)
    (hbetween : CardWork l.toNicLabels p between)
    (hwork : ∀ r ∈ rounds, CardWork l.toNicLabels p r.arrive)
    (hrun : e1000_int_handler l cause between head rounds s
      = some (s', ran)) :
    (ran = true ∧ s.received + d ≤ s'.received)
      ↔ Served l.toNicLabels cause head d s.cpu.mem := by
  obtain ⟨-, hdata⟩ := caused_cells (l := l.toNicLabels) hp
    (hs.mono (by omega)) cause
  have hbit2 := and_bit_iff (answered l.toNicLabels cause s.cpu.mem) (n := 2)
    (by omega)
  have hbit4 := and_bit_iff (answered l.toNicLabels cause s.cpu.mem) (n := 4)
    (by omega)
  have hbit7 := and_bit_iff (answered l.toNicLabels cause s.cpu.mem) (n := 7)
    (by omega)
  rw [handler_eq, hdata] at hrun
  unfold Served
  split at hrun
  next h2 =>
    -- bit 2 is served, the others are lost
    cases hrun
    refine iff_of_false (fun h => Bool.false_ne_true h.1) ?_
    rintro ⟨hclear, -⟩
    rw [hbit2.1 h2] at hclear
    cases hclear
  next h2 =>
    split at hrun
    next h4 =>
      cases hrun
      refine iff_of_false (fun h => Bool.false_ne_true h.1) ?_
      rintro ⟨-, hclear, -⟩
      rw [hbit4.1 h4] at hclear
      cases hclear
    next h4 =>
      split at hrun
      next h7 =>
        obtain ⟨t, ht, heq⟩ := Option.map_eq_some_iff.1 hrun
        cases heq
        obtain ⟨hr₁, hs₁, -, ⟨m, hm, hstatus⟩, hrecv₁, hidle⟩ :=
          servedAt_spec l hp hs hr cause head hbetween
        have hfilled₁ : FilledFrom p j d (servedAt l cause between s).cpu.mem
            := by
          rw [hm]
          exact (hfilled.congr hstatus).work hbetween
        obtain ⟨hnone, hall⟩ := process_takes hp hs₁ hr₁ hj hd hfilled₁
          hwork ht
        rw [hrecv₁, hidle] at hnone hall
        have h2' := Bool.eq_false_iff.2 (mt hbit2.2 h2)
        have h4' := Bool.eq_false_iff.2 (mt hbit4.2 h4)
        have h7' := hbit7.1 h7
        constructor
        · rintro ⟨-, hcount⟩
          refine ⟨h2', h4', h7', ?_⟩
          rcases Nat.eq_zero_or_pos d with hzero | hpos
          · exact Or.inl hzero
          · refine Or.inr fun hsame => ?_
            have heq : t.received = s.received := hnone hsame
            have hcount' : s.received + d ≤ t.received := hcount
            omega
        · rintro ⟨-, -, -, hzero | hdiff⟩
          · refine ⟨rfl, ?_⟩
            show s.received + d ≤ t.received
            by_cases hsame : (headRead l.toNicLabels cause head
                s.cpu.mem).extractLsb' 0 16
              = s.cpu.mem.read16 l.e1000_rx_cur
            · rw [hnone hsame, hzero]
              exact Nat.le_refl _
            · exact hall hsame
          · exact ⟨rfl, hall hdiff⟩
      next h7 =>
        cases hrun
        refine iff_of_false (fun h => Bool.false_ne_true h.1) ?_
        rintro ⟨-, -, hset, -⟩
        exact h7 (hbit7.2 hset)

-- ================================================================= samples

theorem cardWork_id : CardWork l p id :=
  ⟨fun _ _ _ => rfl, fun _ => rfl, fun _ _ _ h => h⟩

/-- The ring of `BeforeRx` with one packet in it. -/
theorem one_packet (h : BeforeRx l p v s) :
    StackRoom 240 (s.dma (markReceived p 0)).cpu
      ∧ Mapped l (s.dma (markReceived p 0)).cpu.mem
      ∧ RxRing l p v 0 1 (s.dma (markReceived p 0)).cpu.mem := by
  have hf : Delivers l p 0 (markReceived p 0) :=
    markReceived_delivers h.room (by omega)
  refine ⟨h.stack, (hf.leaves.keeps s).mapped.2 h.mapped, ?_⟩
  exact h.ring.deliver h.room (by omega) hf

/-- The handler run for the receive cause, one packet in the ring. -/
theorem handler_returns (l : ServiceLabels L) (hp : RingRoom p)
    (hs : StackRoom 240 s.cpu) (hmapped : Mapped l.toNicLabels s.cpu.mem)
    (hr : RxRing l.toNicLabels p v 0 1 s.cpu.mem) :
    ∃ s', e1000_int_handler l 0x80#32 id 1#32
        ((List.replicate 2 quietRound).map RxRound.arrival) s
      = some (s', true) := by
  obtain ⟨i, hi⟩ := hr.rings
  obtain ⟨hr₁, hs₁, hmap₁, ⟨m, hm, hstatus⟩, -, -⟩ := servedAt_spec l hp hs
    hi 0x80#32 1#32 (cardWork_id (l := l.toNicLabels) (p := p))
  obtain ⟨-, hdata⟩ := caused_cells (l := l.toNicLabels) hp
    (hs.mono (by omega)) 0x80#32
  rw [answered, if_neg hmapped] at hdata
  have hring : RxRing l.toNicLabels p v 0 1
      (servedAt l 0x80#32 id s).cpu.mem := by
    refine hr.congr ⟨i, hr₁⟩ fun n hn => ?_
    rw [hm]
    exact hstatus n hn
  obtain ⟨t, ht, -⟩ := process_returns (h := 1) hp hs₁ (hmap₁.2 hmapped)
    hring (by omega) (by omega) (by omega)
  refine ⟨t.run Cpu.popaq, ?_⟩
  rw [handler_eq, hdata, if_neg (by decide), if_neg (by decide),
    if_pos (by decide)]
  exact congrArg (Option.map _) ht

/-- The handler run for the link and the receive cause: it leaves at the
first test. -/
theorem link_returns (l : ServiceLabels L) (hp : RingRoom p)
    (hs : StackRoom 240 s.cpu) (hmapped : Mapped l.toNicLabels s.cpu.mem) :
    ∃ s', e1000_int_handler l 0x84#32 id 1#32 [] s = some (s', false) := by
  obtain ⟨-, hdata⟩ := caused_cells (l := l.toNicLabels) hp
    (hs.mono (by omega)) 0x84#32
  rw [answered, if_neg hmapped] at hdata
  rw [handler_eq, hdata, if_pos (by decide)]
  exact ⟨_, rfl⟩

/-- The receive cause alone, one packet: it is handed over. -/
theorem handler_serves_iff_sample : ∃ s s',
    e1000_int_handler serviceLabels 0x80#32 id 1#32
        ((List.replicate 2 quietRound).map RxRound.arrival) s
      = some (s', true)
    ∧ s.received + 1 ≤ s'.received
    ∧ ((true = true ∧ s.received + 1 ≤ s'.received)
      ↔ Served serviceLabels.toNicLabels 0x80#32 1#32 1 s.cpu.mem) := by
  have hp := beforeRx_beforeRxInit.room
  obtain ⟨hs, hmapped, hr⟩ := one_packet beforeRx_beforeRxInit
  generalize beforeRxInit.dma _ = s at *
  obtain ⟨s', hs'⟩ := handler_returns serviceLabels hp hs hmapped hr
  obtain ⟨i, hi⟩ := hr.rings
  have hiff := handler_serves_iff serviceLabels _ _ s s' i 0 1 0x80#32 1#32
    id _ true hp hs hi (by omega) (by omega)
    (fun n hn => (hr.marked n (by omega)).trans (decide_eq_true hn))
    cardWork_id (List.forall_mem_map.2 fun r hr => by
      rw [List.eq_of_mem_replicate hr]
      exact cardWork_id) hs'
  refine ⟨s, s', hs', (hiff.2 ?_).2, hiff⟩
  have hcause : answered serviceLabels.toNicLabels 0x80#32 s.cpu.mem
      = 0x80#32 := if_neg hmapped
  have hhead : headRead serviceLabels.toNicLabels 0x80#32 1#32 s.cpu.mem
      = 1#32 := if_neg hmapped
  unfold Served
  rw [hcause, hhead, hi.rx]
  exact ⟨by decide, by decide, by decide, Or.inr (by decide)⟩

/-- The link and the receive cause together: the packet stays. -/
theorem handler_loses_receive : ¬ ∀ (L : Layout) (l : ServiceLabels L)
    (p v : BitVec 64) (s s' : Nic) (i j d : Nat) (cause head : BitVec 32)
    (between : Dma) (rounds : List Arrival) (ran : Bool), RingRoom p →
    StackRoom 240 s.cpu → Mapped l.toNicLabels s.cpu.mem →
    RingsAt l.toNicLabels p v i j s.cpu.mem → j < 0x800 → d ≤ 0x800 →
    FilledFrom p j d s.cpu.mem → CardWork l.toNicLabels p between →
    (∀ r ∈ rounds, CardWork l.toNicLabels p r.arrive) →
    cause.getLsbD 7 = true →
    e1000_int_handler l cause between head rounds s = some (s', ran) →
    ran = true ∧ s.received + d ≤ s'.received := by
  intro hall
  have hp := beforeRx_beforeRxInit.room
  obtain ⟨hs, hmapped, hr⟩ := one_packet beforeRx_beforeRxInit
  generalize beforeRxInit.dma _ = s at *
  obtain ⟨i, hi⟩ := hr.rings
  obtain ⟨s', heq⟩ := link_returns serviceLabels hp hs hmapped
  have hserved := hall _ serviceLabels _ _ s s' i 0 1 0x84#32 1#32 id [] false
    hp hs hmapped hi (by omega) (by omega)
    (fun n hn => (hr.marked n (by omega)).trans (decide_eq_true hn))
    cardWork_id (fun _ hr => absurd hr List.not_mem_nil) (by decide) heq
  exact Bool.false_ne_true hserved.1

end BootLoader.ThirdStage
