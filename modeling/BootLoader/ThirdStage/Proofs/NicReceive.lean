/-
A call of `e1000_process_packet` on the receive ring.

The card fills the descriptor at its head and moves the head (`Deliveries`),
also while the call is running; the filled descriptors are always the ones
from `e1000_rx_cur` up to the head (`RxRing`). A call that finds the head at
its index leaves the ring as it is. Any other call takes every filled
descriptor, ends at the head, and writes that index to the tail register
(`process_rx`).
-/
import BootLoader.ThirdStage.NicService
import BootLoader.ThirdStage.Proofs.NicRuns

namespace BootLoader.ThirdStage

open FlatMemory Mem Words Ring

variable {L : Layout} {l : NicLabels L} {p v : BitVec 64} {s s' : Nic}
  {cur d e h h' tail : Nat}

-- ================================================================ the card

/-- The descriptor `n` holds a packet. -/
def filled (p : BitVec 64) (m : Mem) (n : Nat) : Bool :=
  (m (rxStatus p n)).getLsbD 0

/-- A packet put into the descriptor `n`: of all statuses this one's bit 0
changes, and the driver's bookkeeping stays. -/
structure Delivers (l : NicLabels L) (p : BitVec 64) (n : Nat) (f : Dma) :
    Prop where
  leaves : Leaves l p f
  fills : ∀ m, filled p (f m) n = true
  rest : ∀ m i, i < 0x800 → i ≠ n → filled p (f m) i = filled p m i

/-- Packets arriving one after another, each into an owned descriptor, take
the head from `h` to `h'`. -/
inductive Deliveries (l : NicLabels L) (p : BitVec 64) (tail : Nat) :
    Nat → List Dma → Nat → Prop
  | none {h : Nat} : Deliveries l p tail h [] h
  | one {h h' : Nat} {f : Dma} {fs : List Dma} :
      Owns 0x800 h tail h → Delivers l p h f →
      Deliveries l p tail ((h + 1) % 0x800) fs h' →
      Deliveries l p tail h (f :: fs) h'

/-- What arrives before one look at a status, and the card's work while an
answer is sent. -/
structure RxRound where
  arrived : List Dma
  reply : List Dma

def RxRound.arrival (r : RxRound) : Arrival :=
  ⟨deliverAll r.arrived, r.reply⟩

/-- The rounds' packets take the head from `h` to `h'`. -/
inductive Arrivals (l : NicLabels L) (p : BitVec 64) (tail : Nat) :
    Nat → List RxRound → Nat → Prop
  | none {h : Nat} : Arrivals l p tail h [] h
  | round {h h₁ h' : Nat} {r : RxRound} {rs : List RxRound} :
      Deliveries l p tail h r.arrived h₁ → Arrivals l p tail h₁ rs h' →
      Arrivals l p tail h (r :: rs) h'

-- ================================================================ a call

/-- `rounds` is what the call makes, and no more. -/
def MakesRounds (l : NicLabels L) (head : BitVec 32) (rounds : List RxRound)
    (s s' : Nic) : Prop :=
  e1000_process_packet l head (rounds.map RxRound.arrival) s = some s'
    ∧ ∀ n < rounds.length,
      e1000_process_packet l head ((rounds.take n).map RxRound.arrival) s
        = none

-- ============================================================ the ring state

/-- The driver at the descriptor `cur` with `d` filled ones from there. -/
structure RxRing (l : NicLabels L) (p v : BitVec 64) (cur d : Nat)
    (m : Mem) : Prop where
  cur_lt : cur < 0x800
  rings : ∃ i, RingsAt l p v i cur m
  marked : Marked 0x800 cur d (filled p m)

theorem Leaves.ringsAt (hp : RingRoom p) {f : Dma} (hf : Leaves l p f)
    {i j : Nat} {m : Mem} (hr : RingsAt l p v i j m) :
    RingsAt l p v i j (f m) :=
  Keeps.ringsAt (c := ⟨fun _ => 0#64, m, []⟩)
    (d := ⟨fun _ => 0#64, f m, []⟩) hp ⟨rfl, fun a ha => hf m a ha⟩ hr

/-- Memory that agrees on the bookkeeping and on the ring. -/
theorem RxRing.congr {m m' : Mem} (hr : RxRing l p v cur d m)
    (hrings : ∃ i, RingsAt l p v i cur m')
    (hring : ∀ n < 0x800, m' (rxStatus p n) = m (rxStatus p n)) :
    RxRing l p v cur d m' where
  cur_lt := hr.cur_lt
  rings := hrings
  marked := by
    intro n hn
    unfold filled
    rw [hring _ (slot_lt (by omega) _ _)]
    exact hr.marked n hn

/-- One packet more. -/
theorem RxRing.deliver (hp : RingRoom p) {m : Mem} {f : Dma}
    (hr : RxRing l p v cur d m) (hd : d < 0x800)
    (hf : Delivers l p (slot 0x800 cur d) f) :
    RxRing l p v cur (d + 1) (f m) where
  cur_lt := hr.cur_lt
  rings := by
    obtain ⟨i, hi⟩ := hr.rings
    exact ⟨i, hf.leaves.ringsAt hp hi⟩
  marked := hr.marked.fill hr.cur_lt hd (hf.fills m) (hf.rest m)

/-- The head may move while it is not at the tail. -/
theorem lt_of_owns (hd : d ≤ e)
    (ho : Owns 0x800 (slot 0x800 cur d) (slot 0x800 cur e)
      (slot 0x800 cur d)) : d < e := by
  have hne := (owns_head_iff (slot_lt (by omega) _ _)
    (slot_lt (by omega) _ _)).1 ho
  have hde : d ≠ e := fun heq => hne (by rw [heq])
  omega

theorem Deliveries.leaves {fs : List Dma}
    (hf : Deliveries l p tail h fs h') : Leaves l p (deliverAll fs) := by
  induction hf with
  | none => exact fun _ _ _ => rfl
  | one _ hf _ ih =>
      intro m a ha
      exact (ih _ a ha).trans (hf.leaves m a ha)

/-- Packets arriving, up to the tail. -/
theorem Deliveries.ring (hp : RingRoom p) {fs : List Dma}
    (hf : Deliveries l p tail h fs h') :
    ∀ {d : Nat} {m : Mem}, RxRing l p v cur d m → h = slot 0x800 cur d →
      tail = slot 0x800 cur e → d ≤ e → e ≤ 0x800 →
      RxRing l p v cur (d + fs.length) (deliverAll fs m)
        ∧ h' = slot 0x800 cur (d + fs.length) ∧ d + fs.length ≤ e := by
  induction hf with
  | none =>
      intro d m hr hh _ hd _
      exact ⟨hr, hh, hd⟩
  | one ho hf _ ih =>
      intro d m hr hh ht hd he
      subst hh ht
      have hlt := lt_of_owns hd ho
      obtain ⟨hr', hh', hle⟩ := ih (hr.deliver hp (by omega) hf)
        (slot_succ _ _ _).symm rfl (by omega) he
      rw [List.length_cons, Nat.add_comm _ 1, ← Nat.add_assoc]
      exact ⟨hr', hh', hle⟩

-- ================================================================ the loop

theorem and_one_eq_iff (x : BitVec 8) :
    x &&& 1#8 = 1#8 ↔ x.getLsbD 0 = true := by
  refine ⟨status_odd, fun h => ?_⟩
  apply BitVec.eq_of_getLsbD_eq
  intro n hn
  rw [BitVec.getLsbD_and]
  rcases Nat.eq_zero_or_pos n with rfl | hpos
  · rw [h]
    rfl
  · have hone : (1#8).getLsbD n = false := by
      rw [BitVec.getLsbD_one]
      simp only [decide_eq_false (show ¬ n = 0 by omega), Bool.and_false]
    rw [hone, Bool.and_false]

/-- The look at a status finds the bit the card sets. -/
theorem looked_filled (hcur : cur < 0x800) {a : Arrival} {i : Nat}
    (hr : RingsAt l p v i cur (a.arrive s.cpu.mem)) :
    (looked l s a).cpu.low8 .rax = 0x1#8
      ↔ filled p (a.arrive s.cpu.mem) cur = true := by
  obtain ⟨-, -, -, hal⟩ := rx_look_spec (c := (s.dma a.arrive).cpu) hr hcur
  show (rx_look l (s.dma a.arrive).cpu).low8 .rax = _ ↔ _
  rw [hal]
  exact and_one_eq_iff _

/-- The ring after one packet was taken. -/
theorem RxRing.take (hp : RingRoom p) {m m' : Mem}
    (hr : RxRing l p v cur (d + 1) m) (hd : d < 0x800)
    (hrings : ∃ i, RingsAt l p v i ((cur + 1) % 0x800) m')
    (hring : ∀ a : BitVec 64, p.toNat ≤ a.toNat → OffPacket p a →
      m' a = m.write8 (rxStatus p cur) 0x0#8 a) :
    RxRing l p v ((cur + 1) % 0x800) d m' where
  cur_lt := Nat.mod_lt _ (by omega)
  rings := hrings
  marked := by
    have haddr := rxStatus_toNat hp.2 hr.cur_lt
    have hhi := hp.2
    refine hr.marked.take hr.cur_lt ?_ ?_ hd
    · have hcur := hr.cur_lt
      unfold filled
      rw [hring _ (by omega) (Or.inl (by omega)), write8_self]
      rfl
    · intro n hn hne
      have haddr' := rxStatus_toNat hp.2 hn
      unfold filled
      rw [hring _ (by omega) (Or.inl (by omega))]
      exact congrArg (fun x : BitVec 8 => x.getLsbD 0)
        (write_apply_of_out (n := 1) _ _ (by omega) (by omega))

/-- The receive loop empties the ring: it ends at the head. -/
theorem receive_loop_rx (hp : RingRoom p) (rounds : List RxRound) :
    ∀ {s s' : Nic} {cur d e h h' : Nat}, StackOk s.cpu →
      RxRing l p v cur d s.cpu.mem → h = slot 0x800 cur d →
      tail = slot 0x800 cur e → d ≤ e → e ≤ 0x800 →
      Arrivals l p tail h rounds h' →
      receive_loop l (rounds.map RxRound.arrival) s = some s' →
      (∀ n < rounds.length,
        receive_loop l ((rounds.take n).map RxRound.arrival) s = none) →
      ∃ e', RxRing l p v h' 0 s'.cpu.mem ∧ tail = slot 0x800 h' e'
        ∧ e' ≤ 0x800 ∧ s'.cpu.reg .rsp = s.cpu.reg .rsp
        ∧ (Mapped l s'.cpu.mem ↔ Mapped l s.cpu.mem) ∧ s'.out = s.out := by
  induction rounds with
  | nil =>
      intro s s' cur d e h h' _ _ _ _ _ _ _ hrun _
      cases hrun
  | cons r rs ih =>
      intro s s' cur d e h h' hs hr hh ht hd he harr hrun hmin
      cases harr with
      | round hdel hrest =>
      obtain ⟨hr₁, hh₁, hle⟩ := hdel.ring hp hr hh ht hd he
      have hleave := hdel.leaves
      obtain ⟨i, hi⟩ := hr.rings
      have hi₁ := hleave.ringsAt hp hi
      have hcur := hr.cur_lt
      have hlook := looked_filled (a := r.arrival) hcur hi₁
      have hfirst := hr₁.marked.first hcur
      rw [List.map_cons, receive_loop_cons] at hrun
      split at hrun
      next hclear =>
        -- the status is clear: no packet is left, no round follows
        obtain rfl := Option.some.inj hrun
        have hempty : d + r.arrived.length = 0 := by
          have hnot := mt hlook.2 hclear
          rw [show filled p (r.arrival.arrive s.cpu.mem) cur = _
            from hfirst, decide_eq_true_iff] at hnot
          omega
        have hlast : rs = [] := by
          cases rs with
          | nil => rfl
          | cons r' rs' =>
              have hnone := hmin 1 (by simp only [List.length_cons]; omega)
              rw [List.take_succ_cons, List.map_cons, receive_loop_cons,
                if_pos hclear] at hnone
              cases hnone
        subst hlast
        cases hrest
        rw [hempty] at hr₁ hh₁
        rw [slot_zero hcur] at hh₁
        subst hh₁
        obtain ⟨hmem, hrsp, -⟩ := rx_look_spec
          (c := (s.dma r.arrival.arrive).cpu) hi₁ hcur
        have hk : Keeps l p s.cpu (looked l s r.arrival).cpu :=
          (hleave.keeps s).trans ⟨hrsp, fun a _ => congrFun hmem a⟩
        refine ⟨e, ?_, ht, he, hk.rsp, hk.mapped, rfl⟩
        show RxRing l p v _ 0 (rx_look l (s.dma r.arrival.arrive).cpu).mem
        rw [hmem]
        exact hr₁
      next hset =>
        have hstatus := not_not.1 hset
        have hpos : 0 < d + r.arrived.length := by
          have hmark := hlook.1 hstatus
          rw [show filled p (r.arrival.arrive s.cpu.mem) cur = _
            from hfirst, decide_eq_true_iff] at hmark
          exact hmark
        obtain ⟨d₁, hd₁⟩ : ∃ d₁, d + r.arrived.length = d₁ + 1 :=
          ⟨d + r.arrived.length - 1, by omega⟩
        obtain ⟨t, i', ht', -, hi', hrsp, hmap, hsil, hring⟩ :=
          receive_round hp hs hi hcur (r := r.arrival) hleave hstatus
        rw [ht'] at hrun
        rw [hd₁] at hr₁ hh₁ hle
        have hr₂ := hr₁.take hp (by omega) ⟨i', hi'⟩ hring
        have hs' : StackOk (taken l t).cpu := by
          unfold StackOk
          rw [hrsp]
          exact hs
        -- the same places, counted from the next descriptor
        have htail : tail = slot 0x800 ((cur + 1) % 0x800) (e - 1) := by
          rw [slot_next, ht, Nat.sub_add_cancel (by omega)]
        obtain ⟨e', hr', ht'', he', hrsp', hmap', hout'⟩ := ih hs' hr₂
          (hh₁.trans (slot_next _ _ _).symm) htail (by omega) (by omega)
          hrest hrun (by
            intro n hn
            have hnone := hmin (n + 1)
              (by simp only [List.length_cons]; omega)
            rw [List.take_succ_cons, List.map_cons, receive_loop_cons,
              if_neg hset, ht'] at hnone
            exact hnone)
        exact ⟨e', hr', ht'', he', hrsp'.trans hrsp, hmap'.trans hmap,
          hout'.trans hsil.out⟩

-- ================================================================ the call

/-- The head read is the driver's index. -/
theorem idle_iff {m : Mem} (hmapped : Mapped l m) (hcur : cur < 0x800)
    (hh : h < 0x800) (hrx : m.read16 l.e1000_rx_cur = BitVec.ofNat 16 cur) :
    Idle l (BitVec.ofNat 32 h) m ↔ h = cur := by
  have hlow : (BitVec.ofNat 32 h).extractLsb' 0 16 = BitVec.ofNat 16 h := by
    apply BitVec.eq_of_toNat_eq
    simp only [BitVec.extractLsb'_toNat, BitVec.toNat_ofNat,
      Nat.shiftRight_zero]
    omega
  unfold Idle answered
  rw [if_neg hmapped, hlow, hrx]
  refine ⟨fun heq => ?_, fun heq => by rw [heq]⟩
  have hnat := congrArg BitVec.toNat heq
  simp only [BitVec.toNat_ofNat] at hnat
  omega

/-- The writes a call of `e1000_process_packet` may add: accesses through
ports, and the tail. -/
def TailWrite (v : BitVec 64) (tail : Nat) (ws : List DeviceWrite) : Prop :=
  ∃ (ps : List DeviceWrite) (x : BitVec 16) (k r : Nat),
    (∀ w ∈ ps, ∃ q, w.addr = .port q)
      ∧ ws = ps ++ [⟨tailAddr v REG_RXDESCTAIL,
        x ++ BitVec.ofNat 16 tail, k, r⟩]

/-- A call of `e1000_process_packet`. It finds the head at its index and
leaves the ring, or it takes every packet and writes its index, the head,
to the tail register. -/
theorem process_rx (hp : RingRoom p) (hs : StackRoom 120 s.cpu)
    (hmapped : Mapped l s.cpu.mem) (hr : RxRing l p v cur d s.cpu.mem)
    (hh : h = slot 0x800 cur d) (ht : tail = slot 0x800 cur e) (hd : d ≤ e)
    (he : e ≤ 0x800) {rounds : List RxRound}
    (harr : Arrivals l p tail h rounds h')
    (hrun : MakesRounds l (BitVec.ofNat 32 h) rounds s s') :
    Mapped l s'.cpu.mem
      ∧ ((h = cur ∧ h' = h ∧ RxRing l p v cur d s'.cpu.mem
          ∧ ∀ w ∈ s'.since s, ∃ q, w.addr = .port q)
        ∨ h ≠ cur ∧ TailWrite v h' (s'.since s)
          ∧ RxRing l p v h' 0 s'.cpu.mem
          ∧ ∃ e' ≤ 0x800, tail = slot 0x800 h' e') := by
  obtain ⟨i, hi⟩ := hr.rings
  have hcur := hr.cur_lt
  have hh' : h < 0x800 := by
    rw [hh]
    exact slot_lt (by omega) _ _
  have hidle := idle_iff hmapped hcur hh' hi.rx
  obtain ⟨hi₁, hrsp₁, hmap₁, hasked, -, -, -, hhigh₁, ps, hout₁, hps⟩ :=
    headAsked_spec hp hs hi (BitVec.ofNat 32 h)
  have hr₁ : RxRing l p v cur d
      (headAsked l (BitVec.ofNat 32 h) s).cpu.mem := by
    refine hr.congr ⟨i, hi₁⟩ fun n hn => hhigh₁ _ ?_
    have haddr := rxStatus_toNat hp.2 hn
    have hlo := hp.1
    omega
  obtain ⟨hrun, hmin⟩ := hrun
  have hcases : ∀ rs : List RxRound,
      e1000_process_packet l (BitVec.ofNat 32 h) (rs.map RxRound.arrival) s
        = if h = cur then
            some ((headAsked l (BitVec.ofNat 32 h) s).run Cpu.popaq)
          else (receive_loop l (rs.map RxRound.arrival)
            (headAsked l (BitVec.ofNat 32 h) s)).map fun s =>
              (update_tail l REG_RXDESCTAIL l.e1000_rx_cur
                { s with updates := s.updates + 1 }).run Cpu.popaq :=
    fun rs => (process_eq l _ _ s).trans
      (if_congr (hasked.trans hidle) rfl rfl)
  rw [hcases] at hrun
  generalize headAsked l (BitVec.ofNat 32 h) s = a at *
  split at hrun
  next hsame =>
    -- nothing to process: no round is made
    obtain rfl := Option.some.inj hrun
    have hnone : rounds = [] := by
      by_contra hne
      have hfirst := hmin 0 (List.length_pos_iff.2 hne)
      rw [hcases, if_pos hsame] at hfirst
      cases hfirst
    subst hnone
    cases harr
    refine ⟨?_, Or.inl ⟨hsame, rfl, ?_, ?_⟩⟩
    · show Mapped l (Cpu.popaq _).mem
      rw [Cpu.popaq_mem]
      exact hmap₁.2 hmapped
    · show RxRing l p v cur d (Cpu.popaq _).mem
      rw [Cpu.popaq_mem]
      exact hr₁
    · intro w hw
      have hsince : (a.run Cpu.popaq).since s = ps := by
        show a.out.drop s.out.length = ps
        rw [hout₁, List.drop_left]
      rw [hsince] at hw
      exact hps w hw
  next hdiff =>
    obtain ⟨u, hu, rfl⟩ := Option.map_eq_some_iff.1 hrun
    have hs₁ : StackRoom 0 a.cpu := by
      unfold StackRoom
      rw [hrsp₁]
      exact StackRoom.pushaq (n := 0) hs
    obtain ⟨e', hr₂, ht', he', hrsp₂, hmap₂, hout₂⟩ := receive_loop_rx hp
      rounds hs₁.stackOk hr₁ hh ht hd he harr hu (by
        intro n hn
        have hnone := hmin n hn
        rw [hcases, if_neg hdiff] at hnone
        exact Option.map_eq_none_iff.1 hnone)
    -- the tail register
    obtain ⟨i₂, hi₂⟩ := hr₂.rings
    have hs₂ : StackRoom 0 u.cpu := by
      unfold StackRoom
      rw [hrsp₂]
      exact hs₁
    obtain ⟨hk, hhigh, -, -, -, -, hout⟩ := update_tail_spec (l := l)
      (s := { u with updates := u.updates + 1 }) hp hs₂.stackOk
      REG_RXDESCTAIL (o := 0) (by omega)
    have hrx : l.e1000_rx_cur + BitVec.ofNat 64 0 = l.e1000_rx_cur :=
      BitVec.add_zero _
    rw [hrx] at hk hhigh hout
    have hmapu := hmap₂.2 (hmap₁.2 hmapped)
    have hout' := hout hmapu
    generalize update_tail l REG_RXDESCTAIL l.e1000_rx_cur
      { u with updates := u.updates + 1 } = w at *
    refine ⟨?_, Or.inr ⟨hdiff, ?_, ?_, e', he', ht'⟩⟩
    · show Mapped l (Cpu.popaq _).mem
      rw [Cpu.popaq_mem]
      exact hk.mapped.2 hmapu
    · refine ⟨ps, u.cpu.mem.read16 (l.e1000_rx_cur + 2#64), u.sent,
        u.received, hps, ?_⟩
      show w.out.drop s.out.length = _
      have hsplit : w.out = s.out ++ (ps ++ [⟨tailAddr v REG_RXDESCTAIL,
          u.cpu.mem.read16 (l.e1000_rx_cur + 2#64) ++ BitVec.ofNat 16 h',
          u.sent, u.received⟩]) := by
        refine hout'.trans ?_
        show u.out ++ [DeviceWrite.mk (.mmio (_ + u.cpu.mem.read64 _))
          (u.cpu.mem.read32 l.e1000_rx_cur) _ _] = _
        rw [hout₂, hout₁, hi₂.ready.vaddress, read32_split, hi₂.rx,
          List.append_assoc]
        rfl
      rw [hsplit, List.drop_left]
    · show RxRing l p v h' 0 (Cpu.popaq _).mem
      rw [Cpu.popaq_mem]
      refine hr₂.congr ⟨i₂, hk.ringsAt hp hi₂⟩ fun n hn => hhigh _ ?_
      have haddr := rxStatus_toNat hp.2 hn
      have hlo := hp.1
      omega

-- ============================================================ it returns

/-- A round in which nothing arrives. -/
def quietRound : RxRound := ⟨[], []⟩

/-- The loop over `d` filled descriptors ends after one look more. -/
theorem receive_loop_ends (hp : RingRoom p) (d : Nat) :
    ∀ {s : Nic} {cur : Nat}, StackOk s.cpu → d ≤ 0x800 →
      RxRing l p v cur d s.cpu.mem →
      (∃ s', receive_loop l
          ((List.replicate (d + 1) quietRound).map RxRound.arrival) s
        = some s')
      ∧ ∀ n ≤ d, receive_loop l
          ((List.replicate n quietRound).map RxRound.arrival) s = none := by
  induction d with
  | zero =>
      intro s cur _ _ hr
      obtain ⟨i, hi⟩ := hr.rings
      have hlook := looked_filled (s := s) (a := quietRound.arrival)
        hr.cur_lt hi
      have hfirst := hr.marked.first hr.cur_lt
      have hclear : (looked l s quietRound.arrival).cpu.low8 .rax ≠ 0x1#8 :=
        fun heq => absurd (hfirst.symm.trans (hlook.1 heq)) (by decide)
      refine ⟨⟨looked l s quietRound.arrival, ?_⟩, fun n hn => ?_⟩
      · rw [List.replicate_succ, List.map_cons, receive_loop_cons,
          if_pos hclear]
      · obtain rfl := Nat.le_zero.1 hn
        rfl
  | succ d ih =>
      intro s cur hs hd hr
      obtain ⟨i, hi⟩ := hr.rings
      have hlook := looked_filled (s := s) (a := quietRound.arrival)
        hr.cur_lt hi
      have hfirst := hr.marked.first hr.cur_lt
      rw [decide_eq_true (Nat.succ_pos d)] at hfirst
      have hset := hlook.2 hfirst
      obtain ⟨t, i', ht, -, hi', hrsp, -, -, hring⟩ := receive_round hp hs hi
        hr.cur_lt (r := quietRound.arrival) (fun _ _ _ => rfl) hset
      have hs' : StackOk (taken l t).cpu := by
        unfold StackOk
        rw [hrsp]
        exact hs
      obtain ⟨⟨s', hs''⟩, hmin⟩ := ih hs' (by omega)
        (hr.take hp (by omega) ⟨i', hi'⟩ hring)
      refine ⟨⟨s', ?_⟩, fun n hn => ?_⟩
      · rw [List.replicate_succ, List.map_cons, receive_loop_cons,
          if_neg (not_not_intro hset), ht]
        exact hs''
      · cases n with
        | zero => rfl
        | succ n =>
            rw [List.replicate_succ, List.map_cons, receive_loop_cons,
              if_neg (not_not_intro hset), ht]
            exact hmin n (by omega)

/-- A call with packets to process returns. -/
theorem process_returns (hp : RingRoom p) (hs : StackRoom 120 s.cpu)
    (hmapped : Mapped l s.cpu.mem) (hr : RxRing l p v cur d s.cpu.mem)
    (hd : d ≤ 0x800) (hh : h < 0x800) (hne : h ≠ cur) :
    ∃ s', MakesRounds l (BitVec.ofNat 32 h)
      (List.replicate (d + 1) quietRound) s s' := by
  obtain ⟨i, hi⟩ := hr.rings
  obtain ⟨hi₁, hrsp₁, -, hasked, -, -, -, hhigh₁, -⟩ :=
    headAsked_spec hp hs hi (BitVec.ofNat 32 h)
  have hbusy := mt (hasked.trans (idle_iff hmapped hr.cur_lt hh hi.rx)).1 hne
  have hr₁ : RxRing l p v cur d
      (headAsked l (BitVec.ofNat 32 h) s).cpu.mem := by
    refine hr.congr ⟨i, hi₁⟩ fun n hn => hhigh₁ _ ?_
    have haddr := rxStatus_toNat hp.2 hn
    have hlo := hp.1
    omega
  have hs₁ : StackRoom 0 (headAsked l (BitVec.ofNat 32 h) s).cpu := by
    unfold StackRoom
    rw [hrsp₁]
    exact StackRoom.pushaq (n := 0) hs
  obtain ⟨⟨t, ht⟩, hmin⟩ := receive_loop_ends hp d hs₁.stackOk hd hr₁
  refine ⟨(update_tail l REG_RXDESCTAIL l.e1000_rx_cur
    { t with updates := t.updates + 1 }).run Cpu.popaq, ?_, fun n hn => ?_⟩
  · rw [process_eq, if_neg hbusy, ht]
    rfl
  · rw [List.length_replicate] at hn
    rw [process_eq, if_neg hbusy, List.take_replicate,
      Nat.min_eq_left (by omega), hmin n (by omega)]
    rfl

/-- The card marks the descriptor `n` as filled. -/
def markReceived (p : BitVec 64) (n : Nat) : Dma := fun m =>
  m.write8 (rxStatus p n) 0x1#8

theorem markReceived_delivers (hp : RingRoom p) {n : Nat} (hn : n < 0x800) :
    Delivers l p n (markReceived p n) where
  leaves := by
    intro m a ha
    have haddr := rxStatus_toNat hp.2 hn
    have hcells := l.rx_cur_in
    have hbase := l.mem_base_in
    obtain ⟨hlo, hhi⟩ := hp
    refine write_apply_of_out (n := 1) _ _ (by omega) ?_
    rcases ha with ha | ha | ha <;> omega
  fills := by
    intro m
    unfold filled markReceived
    rw [write8_self]
    rfl
  rest := by
    intro m i hi hne
    have haddr := rxStatus_toNat hp.2 hn
    have haddr' := rxStatus_toNat hp.2 hi
    have hhi := hp.2
    exact congrArg (fun y : BitVec 8 => y.getLsbD 0)
      (write_apply_of_out (n := 1) _ _ (by omega) (by omega))

end BootLoader.ThirdStage
