/-
What one interruption by `e1000_int_handler` does to the driver.

Whatever the handler finds, the card's address, its mode and the rings'
bookkeeping are as before when the main line goes on; the register and the
data variable are not. With a cause none of whose tested bits is set they
hold the cause register's offset and the cause; with the receive cause and
nothing to process, the head register's offset and the head.
-/
import BootLoader.ThirdStage.NicAccess
import BootLoader.ThirdStage.Proofs.Dispatch
import BootLoader.ThirdStage.Proofs.NicHandler

namespace BootLoader.ThirdStage

open FlatMemory Mem Words Ring

variable {L : Layout} {l : ServiceLabels L} {p v : BitVec 64} {s s' : Nic}
  {i j : Nat}

-- =============================================================== the entry

/-- The machine at the call of the handler. -/
def entered (x : Machine) (g : Gate) (n : Fin 16) (s : Nic) : Nic :=
  { s with
    cpu := (stub_entry (irq_pushes n ({ x with cpu := s.cpu }.enter g
      none))).cpu }

/-- RSP rounded down. -/
theorem toNat_rounded (y : BitVec 64) :
    (y &&& ~~~15#64).toNat ≤ y.toNat ∧ y.toNat < (y &&& ~~~15#64).toNat + 16
    := by
  have hbits : y &&& ~~~15#64 = (y >>> 4) <<< 4 := by
    apply BitVec.eq_of_getLsbD_eq
    intro i hi
    have hmask : (15#64).getLsbD i = decide (i < 4) := by
      rw [BitVec.getLsbD_ofNat, show 15 = 2 ^ 4 - 1 from rfl,
        Nat.testBit_two_pow_sub_one]
      simp [hi]
    rw [BitVec.getLsbD_and, BitVec.getLsbD_not, hmask,
      BitVec.getLsbD_shiftLeft, BitVec.getLsbD_ushiftRight]
    by_cases hlow : i < 4
    · simp [hlow]
    · simp [hlow, hi, show 4 + (i - 4) = i by omega]
  rw [hbits, BitVec.toNat_shiftLeft, BitVec.toNat_ushiftRight,
    Nat.shiftRight_eq_div_pow, Nat.shiftLeft_eq]
  have hy := y.isLt
  omega

/-- The entry takes 191 bytes of the stack at most and writes nothing
else. -/
theorem entered_spec (x : Machine) (g : Gate) (n : Fin 16) {k : Nat}
    (hs : StackRoom (k + 191) s.cpu) :
    StackRoom k (entered x g n s).cpu
      ∧ ∀ a : BitVec 64, 0x10000 ≤ a.toNat →
        (entered x g n s).cpu.mem a = s.cpu.mem a := by
  obtain ⟨hroom, hhi⟩ := hs
  have hbase : ({ x with cpu := s.cpu } : Machine).frameBase
      = s.cpu.reg .rsp &&& ~~~15#64 := rfl
  have hround := toNat_rounded (s.cpu.reg .rsp)
  let e : Machine := ({ x with cpu := s.cpu } : Machine).enter g none
  have hpushes := (irq_pushes_holds (m := e) Machine.enter_holds
    (Nat.le_succ 5) n).2
  obtain ⟨hmem, hrsp, -⟩ := stub_entry_cpu (irq_pushes n e)
  have hsp : (entered x g n s).cpu.reg .rsp
      = (s.cpu.reg .rsp &&& ~~~15#64) - 176#64 := by
    show (stub_entry _).cpu.reg .rsp = _
    rw [hrsp, Cpu.pushaq_rsp, hpushes, Machine.enter_rsp, hbase]
    show (s.cpu.reg .rsp &&& ~~~15#64) - 40#64 - 0#64 - 16#64 - 120#64 = _
    simp only [BitVec.sub_sub, BitVec.reduceAdd]
  have hnat : ((s.cpu.reg .rsp &&& ~~~15#64) - 176#64).toNat
      = (s.cpu.reg .rsp &&& ~~~15#64).toNat - 176 := by
    rw [BitVec.toNat_sub]
    simp only [BitVec.toNat_ofNat]
    omega
  refine ⟨⟨?_, ?_⟩, ?_⟩
  · rw [hsp, hnat]
    omega
  · rw [hsp, hnat]
    omega
  · intro a ha
    show (stub_entry _).cpu.mem a = _
    rw [hmem]
    refine irq_pushed_mem { x with cpu := s.cpu } g n fun hunder => ?_
    rw [hbase, under_iff (by omega)] at hunder
    omega

-- ============================================================= what is kept

/-- The bookkeeping and the card's mode, whatever the indices are. -/
structure InPlace (l : NicLabels L) (p v : BitVec 64) (m : Mem) : Prop where
  rings : ∃ i j, j < 0x800 ∧ RingsAt l p v i j m
  mapped : Mapped l m

theorem InPlace.vaddress {l : NicLabels L} {m : Mem} (h : InPlace l p v m) :
    m.read64 l.e1000_vaddress = v := by
  obtain ⟨i, j, -, hr⟩ := h.rings
  exact hr.ready.vaddress

theorem InPlace.keeps {l : NicLabels L} {c d : Cpu} (hp : RingRoom p)
    (h : InPlace l p v c.mem) (hk : Keeps l p c d) : InPlace l p v d.mem := by
  obtain ⟨⟨i, j, hj, hr⟩, hm⟩ := h
  exact ⟨⟨i, j, hj, hk.ringsAt hp hr⟩, hk.mapped.2 hm⟩

/-- Only memory matters. -/
theorem InPlace.congr {l : NicLabels L} {m m' : Mem} (hp : RingRoom p)
    (h : InPlace l p v m) (hm : ∀ a, Booked l p a → m' a = m a) :
    InPlace l p v m' :=
  InPlace.keeps (c := ⟨fun _ => 0#64, m, []⟩)
    (d := ⟨fun _ => 0#64, m', []⟩) hp h ⟨rfl, hm⟩

/-- `e1000_process_packet`. -/
theorem process_keeps {l : NicLabels L} (hp : RingRoom p)
    (hs : StackRoom 120 s.cpu) (h : InPlace l p v s.cpu.mem)
    {head : BitVec 32} {rounds : List Arrival}
    (hleave : ∀ r ∈ rounds, Leaves l p r.arrive)
    (hrun : e1000_process_packet l head rounds s = some s') :
    InPlace l p v s'.cpu.mem := by
  obtain ⟨⟨i, j, hj, hr⟩, hmapped⟩ := h
  obtain ⟨hr₁, hrsp₁, hmap₁, -⟩ := headAsked_spec hp hs hr head
  rw [process_eq] at hrun
  have hs₁ : StackRoom 0 (headAsked l head s).cpu := by
    unfold StackRoom
    rw [hrsp₁]
    exact StackRoom.pushaq (n := 0) hs
  generalize headAsked l head s = a at *
  split at hrun
  · obtain rfl := Option.some.inj hrun
    show InPlace l p v a.cpu.popaq.mem
    rw [Cpu.popaq_mem]
    exact ⟨⟨i, j, hj, hr₁⟩, hmap₁.2 hmapped⟩
  · obtain ⟨t, ht, rfl⟩ := Option.map_eq_some_iff.1 hrun
    obtain ⟨k, i', -, hrk, hrspk, hmapk, -⟩ := receive_loop_spec hp rounds
      hleave hs₁.stackOk hr₁ hj ht
    have hst : StackOk t.cpu := by
      unfold StackOk
      rw [hrspk]
      exact hs₁.stackOk
    obtain ⟨hk, -⟩ := update_tail_spec (l := l)
      (s := { t with updates := t.updates + 1 }) hp hst REG_RXDESCTAIL
      (o := 0) (by omega)
    have hplace : InPlace l p v t.cpu.mem :=
      ⟨⟨i', _, Nat.mod_lt _ (by omega), hrk⟩,
        hmapk.2 (hmap₁.2 hmapped)⟩
    show InPlace l p v (Cpu.popaq _).mem
    rw [Cpu.popaq_mem]
    rw [BitVec.add_zero] at hk
    exact hplace.keeps (c := ({ t with updates := t.updates + 1 } : Nic).cpu)
      hp hk

/-- The cause register read. -/
theorem caused_keeps {l : NicLabels L} (hp : RingRoom p)
    (hs : StackRoom 240 s.cpu) (h : InPlace l p v s.cpu.mem)
    (cause : BitVec 32) :
    InPlace l p v (caused l cause s).cpu.mem
      ∧ StackRoom 120 (caused l cause s).cpu := by
  have hread := register_read_spec (l := l) (s := s) hp (hs.mono (by omega))
    REG_ICR cause
  have hk : Keeps l p s.cpu.pushaq (caused l cause s).cpu :=
    hread.keeps.set (by decide) _
  have hs₁ : StackRoom 120 s.cpu.pushaq := StackRoom.pushaq (n := 120) hs
  exact ⟨(h.congr hp fun a ha => pushaq_kept hp hs.stackOk ha).keeps hp hk,
    hs₁.of_keeps hk⟩

/-- A message after the tests. -/
theorem print_inPlace {l : NicLabels L} {c : Cpu} (hp : RingRoom p)
    (hs : StackOk c) (h : InPlace l p v c.mem) {label : BitVec 64}
    {str : List (BitVec 8)} (hlabel : label.toNat + 30 ≤ 0x20000)
    (hlen : str.length ≤ 30) :
    InPlace l p v (print L label str c).popaq.mem := by
  obtain ⟨hk, -⟩ := print_keeps (l := l) hp hs label str hlabel hlen
  rw [Cpu.popaq_mem]
  exact h.keeps hp hk

theorem link_restarted_msg_length :
    e1000_link_restarted_int_msg.length ≤ 30 := by
  unfold e1000_link_restarted_int_msg ascii
  rw [List.length_append, List.length_map, String.length_toList]
  decide

theorem good_threshold_msg_length :
    e1000_good_threshold_int_msg.length ≤ 30 := by
  unfold e1000_good_threshold_int_msg ascii
  rw [List.length_append, List.length_map, String.length_toList]
  decide

/-- The tests of the chain change RAX only. -/
theorem tested_mem (l : NicLabels L) (cause : BitVec 32) (s : Nic) :
    (tested l cause s).cpu.mem = (caused l cause s).cpu.mem := by
  unfold tested
  generalize caused l cause s = a
  rfl

/-- `e1000_int_handler`. -/
theorem handler_keeps (l : ServiceLabels L) (hp : RingRoom p)
    (hs : StackRoom 240 s.cpu) (h : InPlace l.toNicLabels p v s.cpu.mem)
    {cause head : BitVec 32} {between : Dma} {rounds : List Arrival}
    {ran : Bool} (hbetween : CardWork l.toNicLabels p between)
    (hwork : ∀ r ∈ rounds, CardWork l.toNicLabels p r.arrive)
    (hrun : e1000_int_handler l cause between head rounds s
      = some (s', ran)) : InPlace l.toNicLabels p v s'.cpu.mem := by
  obtain ⟨hplace, hs₁⟩ := caused_keeps hp hs h cause
  obtain ⟨⟨i, j, hj, hr⟩, hmapped⟩ := id h
  obtain ⟨hr₂, hs₂, hmap₂, -⟩ := servedAt_spec l hp hs hr cause head hbetween
  have htested := tested_mem l.toNicLabels cause s
  rw [handler_eq] at hrun
  generalize caused l.toNicLabels cause s = a at *
  generalize tested l.toNicLabels cause s = b at *
  generalize servedAt l cause between s = d at *
  split at hrun
  · obtain rfl := (Prod.mk.inj (Option.some.inj hrun)).1
    obtain ⟨hmem, hrsp, -⟩ := cause_bit_spec l.toNicLabels 0x04#32 a.cpu
    show InPlace l.toNicLabels p v (print L l.e1000_link_restarted_int_msg
      e1000_link_restarted_int_msg
      (cause_bit l.toNicLabels 0x04#32 a.cpu)).popaq.mem
    generalize cause_bit l.toNicLabels 0x04#32 a.cpu = c at *
    refine print_inPlace hp ?_ ?_ (l.service_strings_in _ (by simp))
      link_restarted_msg_length
    · unfold StackOk
      rw [hrsp]
      exact hs₁.stackOk
    · rw [hmem]
      exact hplace
  · split at hrun
    · obtain rfl := (Prod.mk.inj (Option.some.inj hrun)).1
      obtain ⟨hmem, hrsp, -⟩ := cause_bit_spec l.toNicLabels 0x04#32 a.cpu
      obtain ⟨hmem', hrsp', -⟩ := cause_bit_spec l.toNicLabels 0x10#32
        (cause_bit l.toNicLabels 0x04#32 a.cpu)
      show InPlace l.toNicLabels p v (print L l.e1000_good_threshold_int_msg
        e1000_good_threshold_int_msg (cause_bit l.toNicLabels 0x10#32
          (cause_bit l.toNicLabels 0x04#32 a.cpu))).popaq.mem
      generalize cause_bit l.toNicLabels 0x10#32
        (cause_bit l.toNicLabels 0x04#32 a.cpu) = c at *
      refine print_inPlace hp ?_ ?_ (l.service_strings_in _ (by simp))
        good_threshold_msg_length
      · unfold StackOk
        rw [hrsp', hrsp]
        exact hs₁.stackOk
      · rw [hmem', hmem]
        exact hplace
    · split at hrun
      · obtain ⟨t, ht, heq⟩ := Option.map_eq_some_iff.1 hrun
        obtain rfl := (Prod.mk.inj heq).1
        have hprocess := process_keeps hp hs₂
          ⟨⟨i, j, hj, hr₂⟩, hmap₂.2 hmapped⟩
          (fun r hr => (hwork r hr).leaves) ht
        show InPlace l.toNicLabels p v t.cpu.popaq.mem
        rw [Cpu.popaq_mem]
        exact hprocess
      · obtain rfl := (Prod.mk.inj (Option.some.inj hrun)).1
        show InPlace l.toNicLabels p v b.cpu.popaq.mem
        rw [Cpu.popaq_mem, htested]
        exact hplace

-- ================================================================ two runs

/-- One run of the handler at `s`, whatever it finds. -/
def Preempted (l : ServiceLabels L) (p : BitVec 64) (s s' : Nic) : Prop :=
  ∃ (x : Machine) (g : Gate) (n : Fin 16) (cause : BitVec 32)
    (between : Dma) (head : BitVec 32) (rounds : List Arrival),
    CardWork l.toNicLabels p between
      ∧ (∀ r ∈ rounds, CardWork l.toNicLabels p r.arrive)
      ∧ interruption l x g n cause between head rounds s = some s'

/-- The bookkeeping as the handler finds it. -/
theorem entered_inPlace {l : NicLabels L} (hp : RingRoom p) (x : Machine)
    (g : Gate) (n : Fin 16) (hs : StackRoom 431 s.cpu)
    (h : InPlace l p v s.cpu.mem) :
    InPlace l p v (entered x g n s).cpu.mem := by
  obtain ⟨-, hmem⟩ := entered_spec (k := 240) x g n hs
  refine h.congr hp fun a ha => hmem a ?_
  rcases ha.place hp with hlow | hhigh <;> omega

/-- The registers come back. -/
theorem Preempted.reg (hi : Preempted l p s s') : s'.cpu.reg = s.cpu.reg := by
  obtain ⟨x, g, n, cause, between, head, rounds, -, -, hrun⟩ := hi
  obtain ⟨⟨t, ran⟩, -, rfl⟩ := Option.map_eq_some_iff.1 hrun
  rfl

/-- After an interruption the registers are those before it, and the
bookkeeping is in place. -/
theorem Preempted.keeps (hp : RingRoom p) (hs : StackRoom 431 s.cpu)
    (h : InPlace l.toNicLabels p v s.cpu.mem)
    (hi : Preempted l p s s') :
    s'.cpu.reg = s.cpu.reg ∧ InPlace l.toNicLabels p v s'.cpu.mem := by
  obtain ⟨x, g, n, cause, between, head, rounds, hbetween, hwork, hrun⟩ := hi
  obtain ⟨⟨t, ran⟩, ht, rfl⟩ := Option.map_eq_some_iff.1 hrun
  obtain ⟨hroom, -⟩ := entered_spec (k := 240) x g n hs
  have hplace := handler_keeps (s := entered x g n s) l hp hroom
    (entered_inPlace hp x g n hs h) hbetween hwork ht
  exact ⟨rfl, hplace⟩

end BootLoader.ThirdStage
