/-
What `e1000_process_packet` hands to `network_stack`.

`handedBy` lists the machines in which a call has `network_stack` called, in
order. The frames the card placed (`RxFrames`) and those that arrive during
the call are handed over one by one in the ring's order (`InRing`), each
with its length, and with its first 64 bytes in the packet area: RCX is
0x800 shifted right by 8, so eight quadwords are copied. What follows in the
packet area is what was there before the call (`Fetched`), so a longer frame
is whole only by accident (`delivered_iff`). A full ring has its head at the
driver's index, and the call takes it for an empty one.
-/
import BootLoader.ThirdStage.Proofs.NicStarvation

namespace BootLoader.ThirdStage

open FlatMemory Mem Words Ring

variable {L : Layout} {l : NicLabels L} {p v : BitVec 64} {s s' : Nic}
  {i j : Nat}

-- ============================================================== the calls

/-- The machines in which the receive loop calls `network_stack`. -/
def handedOver (l : NicLabels L) : List Arrival → Nic → List Nic
  | [], _ => []
  | r :: rs, s =>
      if (looked l s r).cpu.low8 .rax ≠ 0x1#8 then []
      else handed l s r :: match network_stack l r.reply (handed l s r) with
        | none => []
        | some t => handedOver l rs (taken l t)

/-- Those of a call of `e1000_process_packet`. -/
def handedBy (l : NicLabels L) (head : BitVec 32) (rounds : List Arrival)
    (s : Nic) : List Nic :=
  if (headAsked l head s).cpu.low16 .r8
      = (headAsked l head s).cpu.mem.read16 l.e1000_rx_cur then []
  else handedOver l rounds (headAsked l head s)

/-- A round that finds no packet calls nothing. -/
theorem handedOver_clear {r : Arrival} (rs : List Arrival)
    (h : (looked l s r).cpu.low8 .rax ≠ 0x1#8) :
    handedOver l (r :: rs) s = [] := if_pos h

/-- A round that finds one. -/
theorem handedOver_taken {r : Arrival} (rs : List Arrival) {t : Nic}
    (h : (looked l s r).cpu.low8 .rax = 0x1#8)
    (ht : network_stack l r.reply (handed l s r) = some t) :
    handedOver l (r :: rs) s
      = handed l s r :: handedOver l rs (taken l t) := by
  rw [handedOver, if_neg (not_not_intro h), ht]

-- ============================================================= the frames

abbrev Frame := List (BitVec 8)

/-- The receive descriptor `n`. -/
def rxDesc (p : BitVec 64) (n : Nat) : BitVec 64 :=
  p + BitVec.ofNat 64 (16 * n)

/-- The buffer `e1000_init_mem` gives the receive descriptor `n`. -/
def rxBuffer (p : BitVec 64) (n : Nat) : BitVec 64 :=
  p + 0x10000#64 + BitVec.ofNat 64 (0x800 * n)

/-- The frame is in the buffer of the descriptor `n`, its length in the
descriptor. -/
structure HoldsFrame (p : BitVec 64) (n : Nat) (f : Frame) (m : Mem) :
    Prop where
  length : m.read16 (rxDesc p n + descLength) = BitVec.ofNat 16 f.length
  bytes : ∀ i (hi : i < f.length), m (rxBuffer p n + BitVec.ofNat 64 i) = f[i]
  size : 1 ≤ f.length ∧ f.length ≤ 0x800

/-- What the card writes for a packet: the upper half of the descriptor, and
the buffer. -/
def Written (p : BitVec 64) (n : Nat) (a : BitVec 64) : Prop :=
  (p.toNat + 16 * n + 8 ≤ a.toNat ∧ a.toNat < p.toNat + 16 * n + 16)
    ∨ (p.toNat + 0x10000 + 0x800 * n ≤ a.toNat
      ∧ a.toNat < p.toNat + 0x10000 + 0x800 * n + 0x800)

/-- The card puts the frame into the descriptor `n`. -/
structure Places (p : BitVec 64) (n : Nat) (f : Frame) (d : Dma) : Prop where
  lt : n < 0x800
  holds : ∀ m, HoldsFrame p n f (d m)
  fills : ∀ m, filled p (d m) n = true
  rest : ∀ m a, ¬ Written p n a → d m a = m a

theorem rxDesc_toNat (hp : RingRoom p) {n k : Nat} (hn : n < 0x800)
    (hk : k < 16) :
    (rxDesc p n + BitVec.ofNat 64 k).toNat = p.toNat + 16 * n + k := by
  have hdesc := desc_toNat hp.2 (n := 16 * n) (by omega)
  obtain ⟨-, hhi⟩ := hp
  unfold rxDesc
  rw [toNat_add_lit (by omega), hdesc]

theorem rxBuffer_toNat (hp : RingRoom p) {n k : Nat} (hn : n < 0x800)
    (hk : k < 0x800) :
    (rxBuffer p n + BitVec.ofNat 64 k).toNat
      = p.toNat + 0x10000 + 0x800 * n + k := by
  have hbase := desc_toNat hp.2 (n := 0x10000) (by omega)
  obtain ⟨-, hhi⟩ := hp
  have hbuf : (rxBuffer p n).toNat = p.toNat + 0x10000 + 0x800 * n := by
    unfold rxBuffer
    rw [toNat_add_lit (by omega), hbase]
  rw [toNat_add_lit (by omega), hbuf]

/-- A read apart from what the card writes. -/
theorem Places.read {f : Frame} {d : Dma} {n k : Nat}
    (h : Places p n f d) (m : Mem) {a : BitVec 64}
    (hend : a.toNat + k ≤ 2 ^ 64)
    (hout : ∀ b : BitVec 64, a.toNat ≤ b.toNat → b.toNat < a.toNat + k →
      ¬ Written p n b) : (d m).read a k = m.read a k :=
  read_congr_bytes hend fun b hlo hhi => h.rest m b (hout b hlo hhi)

/-- A packet put into a descriptor is a delivery. -/
theorem Places.delivers (hp : RingRoom p) {f : Frame} {d : Dma} {n : Nat}
    (h : Places p n f d) : Delivers l p n d where
  leaves := by
    intro m a ha
    refine h.rest m a ?_
    have hn := h.lt
    have hcells := l.rx_cur_in
    have hbase := l.mem_base_in
    obtain ⟨hlo, hhi⟩ := hp
    unfold Written
    rcases ha with ha | ha | ha <;> omega
  fills := h.fills
  rest := by
    intro m i hi hne
    have hn := h.lt
    have haddr := rxStatus_toNat hp.2 hi
    unfold filled
    rw [h.rest m _ (by unfold Written; omega)]

/-- The frames of the ring from `cur` on, each descriptor with its buffer's
address. -/
structure RxFrames (l : NicLabels L) (p v : BitVec 64) (cur : Nat)
    (fs : List Frame) (m : Mem) : Prop where
  ring : RxRing l p v cur fs.length m
  addressed : ∀ n < 0x800, m.read64 (rxDesc p n) = rxBuffer p n
  held : ∀ k (hk : k < fs.length), HoldsFrame p (slot 0x800 cur k) fs[k] m

/-- Memory that agrees on a descriptor's length and buffer. -/
theorem HoldsFrame.congr (hp : RingRoom p) {m m' : Mem} {n : Nat} {f : Frame}
    (h : HoldsFrame p n f m) (hn : n < 0x800)
    (hdesc : ∀ a : BitVec 64, p.toNat + 16 * n + 8 ≤ a.toNat →
      a.toNat < p.toNat + 16 * n + 10 → m' a = m a)
    (hbuf : ∀ a : BitVec 64, p.toNat + 0x10000 + 0x800 * n ≤ a.toNat →
      a.toNat < p.toNat + 0x10000 + 0x800 * n + 0x800 → m' a = m a) :
    HoldsFrame p n f m' where
  length := by
    have haddr := rxDesc_toNat hp hn (k := 8) (by omega)
    have hhi := hp.2
    rw [← h.length]
    exact read_congr_bytes (n := 2) (a := rxDesc p n + 8#64) (by omega)
      fun a ha ha' => hdesc a (by omega) (by omega)
  bytes := by
    intro i hi
    have hsize := h.size.2
    have haddr := rxBuffer_toNat hp hn (k := i) (by omega)
    rw [hbuf _ (by omega) (by omega)]
    exact h.bytes i hi
  size := h.size

/-- One frame more. -/
theorem RxFrames.place (hp : RingRoom p) {cur : Nat} {fs : List Frame}
    {m : Mem} {f : Frame} {d : Dma} (h : RxFrames l p v cur fs m)
    (hroom : fs.length < 0x800)
    (hd : Places p (slot 0x800 cur fs.length) f d) :
    RxFrames l p v cur (fs ++ [f]) (d m) where
  ring := by
    rw [List.length_append]
    exact h.ring.deliver hp hroom (hd.delivers hp)
  addressed := by
    intro n hn
    have haddr := rxDesc_toNat hp hn (k := 0) (by omega)
    rw [BitVec.add_zero] at haddr
    have hlt := hd.lt
    have hhi := hp.2
    rw [← h.addressed n hn]
    refine hd.read m (k := 8) (by omega) fun b hlo hhi => ?_
    unfold Written
    omega
  held := by
    intro k hk
    rw [List.length_append, List.length_singleton] at hk
    rcases Nat.lt_succ_iff_lt_or_eq.1 hk with hlt | rfl
    · -- an earlier frame, in another descriptor
      rw [List.getElem_append_left hlt]
      have hslot : slot 0x800 cur k ≠ slot 0x800 cur fs.length := by
        intro heq
        have hk' := slot_inj h.ring.cur_lt (by omega) hroom heq
        omega
      have hn : slot 0x800 cur k < 0x800 := slot_lt (by omega) _ _
      have hlt' := hd.lt
      refine (h.held k hlt).congr hp hn (fun a ha ha' => hd.rest m a ?_)
        fun a ha ha' => hd.rest m a ?_
      · unfold Written
        omega
      · unfold Written
        omega
    · rw [List.getElem_append_right (Nat.le_refl _)]
      simp only [Nat.sub_self, List.getElem_cons_zero]
      exact hd.holds m

/-- The first frame taken. -/
theorem RxFrames.take (hp : RingRoom p) {cur : Nat} {fs : List Frame}
    {m m' : Mem} {f : Frame} (h : RxFrames l p v cur (f :: fs) m)
    (hroom : fs.length < 0x800)
    (hrings : ∃ i, RingsAt l p v i ((cur + 1) % 0x800) m')
    (hring : ∀ a : BitVec 64, p.toNat ≤ a.toNat → OffPacket p a →
      m' a = m.write8 (rxStatus p cur) 0x0#8 a) :
    RxFrames l p v ((cur + 1) % 0x800) fs m' := by
  have hcur := h.ring.cur_lt
  have hstatus := rxStatus_toNat hp.2 hcur
  have hhi := hp.2
  -- the descriptors and the buffers, but for the status cleared
  have hkeep : ∀ a : BitVec 64, p.toNat ≤ a.toNat →
      a.toNat < p.toNat + 0x810000 → a.toNat ≠ p.toNat + 16 * cur + 12 →
      m' a = m a := by
    intro a ha ha' hne
    rw [hring a ha (Or.inl ha')]
    exact write_apply_of_out (n := 1) _ _ (by omega) (by omega)
  refine ⟨h.ring.take hp hroom hrings hring, ?_, ?_⟩
  · intro n hn
    have haddr := rxDesc_toNat hp hn (k := 0) (by omega)
    rw [BitVec.add_zero] at haddr
    rw [← h.addressed n hn]
    exact read_congr_bytes (n := 8) (by omega) fun a ha ha' =>
      hkeep a (by omega) (by omega) (by omega)
  · intro k hk
    rw [slot_next]
    have hn : slot 0x800 cur (k + 1) < 0x800 := slot_lt (by omega) _ _
    have hheld := h.held (k + 1) (by rw [List.length_cons]; omega)
    rw [List.getElem_cons_succ] at hheld
    exact hheld.congr hp hn
      (fun a ha ha' => hkeep a (by omega) (by omega) (by omega))
      fun a ha ha' => hkeep a (by omega) (by omega) (by omega)

-- ========================================================== the packet area

/-- The packet area past its first 64 bytes is as in `m₀`. -/
def SameTail (p : BitVec 64) (m₀ m : Mem) : Prop :=
  ∀ i, 64 ≤ i → i < 0x800 → m (p + 0x810000#64 + BitVec.ofNat 64 i)
    = m₀ (p + 0x810000#64 + BitVec.ofNat 64 i)

/-- What `network_stack` is called with for the frame in the descriptor
`n`, when `m₀` was the memory at the call of `e1000_process_packet`. -/
structure Fetched (l : NicLabels L) (p : BitVec 64) (m₀ : Mem) (n : Nat)
    (f : Frame) (h : Nic) : Prop where
  desc : h.cpu.reg .r9 = rxDesc p n
  packet : h.cpu.mem.read64 l.e1000_recv_packet = p + 0x810000#64
  length : h.cpu.mem.read16 l.e1000_recv_packet_len
    = BitVec.ofNat 16 f.length
  copied : ∀ i (hi : i < f.length), i < 64 →
    h.cpu.mem (p + 0x810000#64 + BitVec.ofNat 64 i) = f[i]
  tail : SameTail p m₀ h.cpu.mem
  buffer : h.cpu.mem.read64 (rxDesc p n) = rxBuffer p n
  frame : HoldsFrame p n f h.cpu.mem

/-- The frame in the packet area, whole, with its length. -/
structure Whole (l : NicLabels L) (p : BitVec 64) (n : Nat) (f : Frame)
    (h : Nic) : Prop where
  desc : h.cpu.reg .r9 = rxDesc p n
  bytes : ∀ i (hi : i < f.length),
    h.cpu.mem (h.cpu.mem.read64 l.e1000_recv_packet + BitVec.ofNat 64 i)
      = f[i]
  length : h.cpu.mem.read16 l.e1000_recv_packet_len
    = BitVec.ofNat 16 f.length

/-- What the packet area holds past its first 64 bytes is the frame's. -/
def Remains (l : NicLabels L) (m : Mem) (f : Frame) : Prop :=
  ∀ i (hi : i < f.length), 64 ≤ i →
    m (m.read64 l.e1000_recv_packet + BitVec.ofNat 64 i) = f[i]

/-- A frame fetched is whole if its tail was there before. -/
theorem Fetched.whole_iff {m₀ : Mem} {n : Nat} {f : Frame} {h : Nic}
    (hf : Fetched l p m₀ n f h)
    (hm : m₀.read64 l.e1000_recv_packet = p + 0x810000#64) :
    Whole l p n f h ↔ Remains l m₀ f := by
  have hsize := hf.frame.size.2
  constructor
  · intro hw i hi hge
    have hbyte := hw.bytes i hi
    rw [hf.packet, hf.tail i hge (by omega)] at hbyte
    rw [hm]
    exact hbyte
  · intro hr
    refine ⟨hf.desc, ?_, hf.length⟩
    intro i hi
    rw [hf.packet]
    rcases Nat.lt_or_ge i 64 with hlt | hge
    · exact hf.copied i hi hlt
    · have hbyte := hr i hi hge
      rw [hm] at hbyte
      rw [hf.tail i hge (by omega)]
      exact hbyte

/-- The packet area lies past the rings and their buffers. -/
theorem packet_toNat (hp : RingRoom p) {i : Nat} (hi : i < 0x800) :
    (p + 0x810000#64 + BitVec.ofNat 64 i).toNat = p.toNat + 0x810000 + i := by
  have hbase := desc_toNat hp.2 (n := 0x810000) (by omega)
  obtain ⟨-, hhi⟩ := hp
  rw [toNat_add_lit (by omega), hbase]

/-- The length and the first 64 bytes of the frame in the descriptor R9
points at. -/
theorem rx_fetch_frame {c : Cpu} (hp : RingRoom p)
    (hr : RingsAt l p v i j c.mem) {n : Nat} {f : Frame} (hn : n < 0x800)
    (h9 : c.reg .r9 = rxDesc p n) (haddr : c.mem.read64 (rxDesc p n)
      = rxBuffer p n) (hf : HoldsFrame p n f c.mem) :
    (rx_fetch l c).mem.read16 l.e1000_recv_packet_len
        = BitVec.ofNat 16 f.length
      ∧ ∀ k (hk : k < f.length), k < 64 →
        (rx_fetch l c).mem (p + 0x810000#64 + BitVec.ofNat 64 k) = f[k] := by
  obtain ⟨hmem, -, hr9, hdi, hcx, hsi⟩ := rx_operands_spec hr
  rw [h9, haddr] at hsi
  have hcells := l.rx_cur_in
  have hlen : l.e1000_recv_packet_len.toNat = l.e1000_rx_cur.toNat + 52 :=
    rx_cur_add_toNat l (by omega)
  have hdst := packet_toNat hp (i := 0) (by omega)
  have hsrc := rxBuffer_toNat hp hn (k := 0) (by omega)
  rw [BitVec.add_zero] at hdst hsrc
  have hfield := rxDesc_toNat hp hn (k := 8) (by omega)
  obtain ⟨hlo, hhi⟩ := id hp
  unfold rx_fetch rep_movsq
  generalize rx_operands l c = c₁ at hmem hr9 hdi hcx hsi
  rw [show (c₁.reg .rcx).toNat = 8 by rw [hcx]; rfl]
  obtain ⟨hreg, hout⟩ := times_move moveRound_movsq 8 c₁ (by rw [hdi]; omega)
  have hcopy := times_copied copyRound_movsq 8 c₁ (by rw [hsi]; omega)
    (by rw [hdi]; omega) (by rw [hsi, hdi]; omega)
  have h9' := (hreg .r9 (by decide) (by decide) (by decide)).trans
    (hr9.trans h9)
  rw [hdi, hsi, hmem] at hcopy
  rw [hdi, hmem] at hout
  generalize Loop.times movsq 8 c₁ = c₂ at hcopy hout h9'
  -- the length, from a descriptor the copy did not touch
  have hlength : c₂.mem.read16 (rxDesc p n + descLength)
      = BitVec.ofNat 16 f.length := by
    rw [← hf.length]
    exact read_congr_bytes (n := 2) (a := rxDesc p n + 8#64) (by omega)
      fun a ha ha' => hout a (by omega)
  have hstore : (rx_length l c₂).mem = c₂.mem.write16 l.e1000_recv_packet_len
      (c₂.mem.read16 (rxDesc p n + descLength)) := by
    unfold rx_length
    rw [Cpu.store16_mem]
    unfold load16
    rw [Cpu.low16_setLow16, h9']
    rfl
  rw [hstore, hlength]
  constructor
  · exact read_write_self (n := 2) _ _ _ (by omega)
  · intro k hk hlt
    have hsize := hf.size.2
    have hat := packet_toNat hp (i := k) (by omega)
    have hbyte := hcopy k (by omega)
    rw [hf.bytes k hk] at hbyte
    rw [← hbyte]
    exact write_apply_of_out (n := 2) _ _ (by omega) (by omega)

/-- The machine `network_stack` is called with. -/
theorem handed_fetched (hp : RingRoom p) (hr : RingsAt l p v i j s.cpu.mem)
    (hj : j < 0x800) {r : Arrival} (hleave : Leaves l p r.arrive)
    (hstatus : (looked l s r).cpu.low8 .rax = 0x1#8) {m₀ : Mem} {f : Frame}
    (htail : SameTail p m₀ (r.arrive s.cpu.mem))
    (haddr : (r.arrive s.cpu.mem).read64 (rxDesc p j) = rxBuffer p j)
    (hf : HoldsFrame p j f (r.arrive s.cpu.mem)) :
    Fetched l p m₀ j f (handed l s r) := by
  have hr₁ := (hleave.keeps s).ringsAt hp hr
  obtain ⟨hmem₂, hrsp₂, h9₂, -⟩ := rx_look_spec hr₁ hj
  have hh := handed_spec hp hr hj hleave hstatus
  have hhi := hp.2
  have hlo := hp.1
  obtain ⟨hlength, hcopied⟩ := rx_fetch_frame (l := l)
    (c := (looked l s r).cpu) hp (i := i) (j := j) (v := v)
    (by show RingsAt l p v i j (rx_look l _).mem; rw [hmem₂]; exact hr₁) hj
    h9₂ (by show (rx_look l _).mem.read64 _ = _; rw [hmem₂]; exact haddr)
    (by show HoldsFrame p j f (rx_look l _).mem; rw [hmem₂]; exact hf)
  -- the ring and the buffers are off the packet area
  have hkeep : ∀ a : BitVec 64, p.toNat ≤ a.toNat →
      a.toNat < p.toNat + 0x810000 →
      (handed l s r).cpu.mem a = r.arrive s.cpu.mem a :=
    fun a ha ha' => hh.high a (by omega) (Or.inl ha')
  refine ⟨hh.r9, (hh.keeps.ringsAt hp hr).ready.recv_packet, hlength, hcopied,
    ?_, ?_, ?_⟩
  · intro k hk hlt
    have hat := packet_toNat hp hlt
    rw [← htail k hk hlt]
    exact hh.high _ (by omega) (Or.inr (by omega))
  · have hdesc := rxDesc_toNat hp hj (k := 0) (by omega)
    rw [BitVec.add_zero] at hdesc
    rw [← haddr]
    exact read_congr_bytes (n := 8) (by omega) fun a ha ha' =>
      hkeep a (by omega) (by omega)
  · exact hf.congr hp hj (fun a ha ha' => hkeep a (by omega) (by omega))
      fun a ha ha' => hkeep a (by omega) (by omega)

-- =============================================================== arriving

/-- Frames arriving one after another, each into an owned descriptor. -/
inductive Placements (p : BitVec 64) (tail : Nat) :
    Nat → List (Frame × Dma) → Nat → Prop
  | none {h : Nat} : Placements p tail h [] h
  | one {h h' : Nat} {f : Frame} {d : Dma} {fs : List (Frame × Dma)} :
      Owns 0x800 h tail h → Places p h f d →
      Placements p tail ((h + 1) % 0x800) fs h' →
      Placements p tail h ((f, d) :: fs) h'

/-- The frames that arrive before one look at a status, and the card's work
while an answer is sent. -/
structure FrameRound where
  placed : List (Frame × Dma)
  reply : List Dma

def FrameRound.round (r : FrameRound) : RxRound :=
  ⟨r.placed.map Prod.snd, r.reply⟩

def FrameRound.frames (r : FrameRound) : List Frame := r.placed.map Prod.fst

/-- The rounds' frames take the head from `h` to `h'`. -/
inductive FrameArrivals (p : BitVec 64) (tail : Nat) :
    Nat → List FrameRound → Nat → Prop
  | none {h : Nat} : FrameArrivals p tail h [] h
  | round {h h₁ h' : Nat} {r : FrameRound} {rs : List FrameRound} :
      Placements p tail h r.placed h₁ → FrameArrivals p tail h₁ rs h' →
      FrameArrivals p tail h (r :: rs) h'

variable {cur e h h' tail : Nat} {fs : List Frame} {m m₀ : Mem}

/-- What arriving frames leave. -/
structure Arrived (l : NicLabels L) (p v : BitVec 64) (cur e : Nat)
    (fs : List Frame) (m m' : Mem) (h' : Nat) : Prop where
  frames : RxFrames l p v cur fs m'
  head : h' = slot 0x800 cur fs.length
  le : fs.length ≤ e
  packet : SameTail p m m'
  others : ∀ k, fs.length ≤ k → k < 0x800 →
    m' (rxStatus p (slot 0x800 cur k)) = m (rxStatus p (slot 0x800 cur k))

/-- Frames arriving, up to the tail. -/
theorem Placements.arrived (hp : RingRoom p) {placed : List (Frame × Dma)}
    (hpl : Placements p tail h placed h') :
    ∀ {fs : List Frame} {m : Mem}, RxFrames l p v cur fs m →
      h = slot 0x800 cur fs.length → tail = slot 0x800 cur e →
      fs.length ≤ e → e ≤ 0x800 →
      Arrived l p v cur e (fs ++ placed.map Prod.fst) m
        (deliverAll (placed.map Prod.snd) m) h' := by
  induction hpl with
  | none =>
      intro fs m hf hh _ hle _
      rw [List.map_nil, List.append_nil]
      exact ⟨hf, hh, hle, fun _ _ _ => rfl, fun _ _ _ => rfl⟩
  | @one h h' f d placed ho hd _ ih =>
      intro fs m hf hh ht hle he
      subst hh ht
      have hlt := lt_of_owns hle ho
      have hcur := hf.ring.cur_lt
      have hf' := hf.place hp (by omega) hd
      have hlen : (fs ++ [f]).length = fs.length + 1 := by
        rw [List.length_append, List.length_singleton]
      have harr := ih hf' (by rw [hlen, slot_succ]) rfl (by omega) he
      rw [List.append_assoc, List.singleton_append] at harr
      have hslot : slot 0x800 cur fs.length < 0x800 := slot_lt (by omega) _ _
      refine ⟨harr.frames, harr.head, harr.le, ?_, ?_⟩
      · intro k hk hlt'
        have hat := packet_toNat hp hlt'
        refine (harr.packet k hk hlt').trans (hd.rest m _ ?_)
        unfold Written
        omega
      · intro k hk hlt'
        refine (harr.others k hk hlt').trans (hd.rest m _ ?_)
        rw [List.length_append, List.map_cons, List.length_cons] at hk
        have hne : slot 0x800 cur k ≠ slot 0x800 cur fs.length := by
          intro heq
          have hsame := slot_inj hcur hlt' (by omega) heq
          omega
        have hk' : slot 0x800 cur k < 0x800 := slot_lt (by omega) _ _
        have haddr := rxStatus_toNat hp.2 hk'
        unfold Written
        omega

theorem Placements.leaves (hp : RingRoom p) {placed : List (Frame × Dma)}
    (hpl : Placements p tail h placed h') :
    Leaves l p (deliverAll (placed.map Prod.snd)) := by
  induction hpl with
  | none => exact fun _ _ _ => rfl
  | one _ hd _ ih =>
      intro m a ha
      exact (ih _ a ha).trans ((hd.delivers hp).leaves m a ha)

-- ================================================================ the loop

/-- The calls made for the frames, one for each and in the ring's order. -/
inductive InRing (P : Nat → Frame → Nic → Prop) :
    Nat → List Frame → List Nic → Prop
  | nil {cur : Nat} : InRing P cur [] []
  | cons {cur : Nat} {f : Frame} {fs : List Frame} {h : Nic} {hs : List Nic} :
      P cur f h → InRing P ((cur + 1) % 0x800) fs hs →
      InRing P cur (f :: fs) (h :: hs)

/-- A second property holds along the ring if its condition holds of each
frame. -/
theorem InRing.iff {P Q : Nat → Frame → Nic → Prop} {C : Frame → Prop}
    {hs : List Nic} (hiff : ∀ n f h, P n f h → (Q n f h ↔ C f))
    (hP : InRing P cur fs hs) : InRing Q cur fs hs ↔ ∀ f ∈ fs, C f := by
  induction hP with
  | nil => exact ⟨fun _ _ hf => absurd hf List.not_mem_nil, fun _ => .nil⟩
  | cons hfirst _ ih =>
      rw [List.forall_mem_cons, ← ih, ← hiff _ _ _ hfirst]
      constructor
      · intro hQ
        cases hQ with
        | cons h₁ h₂ => exact ⟨h₁, h₂⟩
      · rintro ⟨h₁, h₂⟩
        exact .cons h₁ h₂

/-- One call for each frame. -/
theorem InRing.length {P : Nat → Frame → Nic → Prop} {hs : List Nic}
    (h : InRing P cur fs hs) : hs.length = fs.length := by
  induction h with
  | nil => rfl
  | cons _ _ ih => rw [List.length_cons, List.length_cons, ih]

/-- The statuses of the descriptors of `n` frames are 0, the others are as
they were. -/
structure Drained (p : BitVec 64) (cur n : Nat) (m m' : Mem) : Prop where
  zero : ∀ k < n, m' (rxStatus p (slot 0x800 cur k)) = 0x0#8
  others : ∀ k, n ≤ k → k < 0x800 →
    m' (rxStatus p (slot 0x800 cur k)) = m (rxStatus p (slot 0x800 cur k))

/-- The receive loop calls `network_stack` for every frame, those that
arrive on the way included. -/
theorem receive_loop_frames (hp : RingRoom p) (rounds : List FrameRound) :
    ∀ {s s' : Nic} {cur e h h' : Nat} {fs : List Frame}, StackOk s.cpu →
      RxFrames l p v cur fs s.cpu.mem → SameTail p m₀ s.cpu.mem →
      h = slot 0x800 cur fs.length → tail = slot 0x800 cur e →
      fs.length ≤ e → e ≤ 0x800 → FrameArrivals p tail h rounds h' →
      receive_loop l ((rounds.map FrameRound.round).map RxRound.arrival) s
        = some s' →
      (∀ n < rounds.length, receive_loop l
        (((rounds.map FrameRound.round).take n).map RxRound.arrival) s
          = none) →
      InRing (Fetched l p m₀) cur (fs ++ rounds.flatMap FrameRound.frames)
          (handedOver l
            ((rounds.map FrameRound.round).map RxRound.arrival) s)
        ∧ Drained p cur (fs ++ rounds.flatMap FrameRound.frames).length
          s.cpu.mem s'.cpu.mem
        ∧ s'.cpu.reg .rsp = s.cpu.reg .rsp
        ∧ (fs ++ rounds.flatMap FrameRound.frames).length ≤ e := by
  induction rounds with
  | nil =>
      intro s s' cur e h h' fs _ _ _ _ _ _ _ _ hrun _
      cases hrun
  | cons r rs ih =>
      intro s s' cur e h h' fs hs hf htail hh ht hle he harr hrun hmin
      cases harr with
      | @round _ h₁ _ _ _ hpl hrest =>
      have ha := hpl.arrived hp hf hh ht hle he
      have hleave : Leaves l p (deliverAll (r.placed.map Prod.snd)) :=
        hpl.leaves hp
      obtain ⟨i, hi⟩ := hf.ring.rings
      have hcur := hf.ring.cur_lt
      have hlook := looked_filled (a := r.round.arrival) hcur
        (hleave.ringsAt hp hi)
      have hfirst := ha.frames.ring.marked.first hcur
      have hpacket : SameTail p m₀ (r.round.arrival.arrive s.cpu.mem) :=
        fun k hk hlt => (ha.packet k hk hlt).trans (htail k hk hlt)
      rw [List.flatMap_cons, ← List.append_assoc]
      rw [List.map_cons, List.map_cons, receive_loop_cons] at hrun
      obtain ⟨hf₁, hh₁, hle₁, -, hothers⟩ := ha
      change RxFrames l p v cur (fs ++ r.frames) _ at hf₁
      change h₁ = slot 0x800 cur (fs ++ r.frames).length at hh₁
      change (fs ++ r.frames).length ≤ e at hle₁
      change ∀ k, (fs ++ r.frames).length ≤ k → _ at hothers
      change filled p _ cur = decide (0 < (fs ++ r.frames).length) at hfirst
      generalize fs ++ r.frames = gs at hf₁ hh₁ hle₁ hothers hfirst ⊢
      split at hrun
      next hclear =>
        -- no frame is left, and no round follows
        obtain rfl := Option.some.inj hrun
        have hempty : gs = [] := by
          have hnot := mt hlook.2 hclear
          rw [show filled p (r.round.arrival.arrive s.cpu.mem) cur = _
            from hfirst, decide_eq_true_iff] at hnot
          exact List.length_eq_zero_iff.1 (Nat.eq_zero_of_not_pos hnot)
        have hlast : rs = [] := by
          cases rs with
          | nil => rfl
          | cons r' rs' =>
              have hnone := hmin 1 (by simp only [List.length_cons]; omega)
              rw [List.map_cons, List.take_succ_cons, List.map_cons,
                receive_loop_cons, if_pos hclear] at hnone
              cases hnone
        subst hempty hlast
        obtain ⟨hmem, hrsp, -⟩ := rx_look_spec
          (c := (s.dma r.round.arrival.arrive).cpu)
          (hleave.ringsAt hp hi) hcur
        refine ⟨?_, ⟨fun k hk => absurd hk (Nat.not_lt_zero k), ?_⟩, hrsp,
          Nat.zero_le e⟩
        · rw [List.map_cons, List.map_cons, handedOver_clear _ hclear]
          exact .nil
        · intro k hk hlt
          show (rx_look l _).mem _ = _
          rw [hmem]
          exact hothers k (Nat.zero_le k) hlt
      next hset =>
        have hstatus := not_not.1 hset
        cases gs with
        | nil =>
            have hmark := hlook.1 hstatus
            rw [show filled p (r.round.arrival.arrive s.cpu.mem) cur = _
              from hfirst] at hmark
            cases hmark
        | cons f gs =>
        rw [List.length_cons] at hh₁ hle₁ hothers
        obtain ⟨t, i', ht', -, hi', hrsp, -, -, hring⟩ := receive_round hp hs
          hi hcur (r := r.round.arrival) hleave hstatus
        rw [ht'] at hrun
        have hf₂ := hf₁.take hp (by omega) ⟨i', hi'⟩ hring
        have hs' : StackOk (taken l t).cpu := by
          unfold StackOk
          rw [hrsp]
          exact hs
        -- the tail of the packet area and the other statuses stay
        have htail₂ : SameTail p m₀ (taken l t).cpu.mem := by
          intro k hk hlt
          have hat := packet_toNat hp hlt
          have haddr := rxStatus_toNat hp.2 hcur
          have hhi := hp.2
          rw [← hpacket k hk hlt, hring _ (by omega) (Or.inr (by omega))]
          exact write_apply_of_out (n := 1) _ _ (by omega) (by omega)
        have hother : ∀ n < 0x800, n ≠ cur →
            (taken l t).cpu.mem (rxStatus p n)
              = r.round.arrival.arrive s.cpu.mem (rxStatus p n) := by
          intro n hn hne
          have haddr := rxStatus_toNat hp.2 hcur
          have haddr' := rxStatus_toNat hp.2 hn
          have hhi := hp.2
          rw [hring _ (by omega) (Or.inl (by omega))]
          exact write_apply_of_out (n := 1) _ _ (by omega) (by omega)
        have hzero : (taken l t).cpu.mem (rxStatus p cur) = 0x0#8 := by
          have haddr := rxStatus_toNat hp.2 hcur
          rw [hring _ (by omega) (Or.inl (by omega))]
          exact write8_self _ _ _
        have htail' : tail = slot 0x800 ((cur + 1) % 0x800) (e - 1) := by
          rw [slot_next, ht, Nat.sub_add_cancel (by omega)]
        obtain ⟨hin, hcl, hrsp', htotal⟩ := ih hs' hf₂ htail₂
          (hh₁.trans (slot_next _ _ _).symm) htail' (by omega) (by omega)
          hrest hrun (by
            intro n hn
            have hnone := hmin (n + 1)
              (by simp only [List.length_cons]; omega)
            rw [List.map_cons, List.take_succ_cons, List.map_cons,
              receive_loop_cons, if_neg hset, ht'] at hnone
            exact hnone)
        rw [List.cons_append]
        refine ⟨?_, ⟨?_, ?_⟩, hrsp'.trans hrsp,
          by rw [List.length_cons]; omega⟩
        · rw [List.map_cons, List.map_cons,
            handedOver_taken _ hstatus ht']
          refine .cons (handed_fetched hp hi hcur hleave hstatus hpacket ?_ ?_)
            hin
          · exact hf₁.addressed cur hcur
          · have hheld := hf₁.held 0 (by rw [List.length_cons]; omega)
            rw [slot_zero hcur] at hheld
            exact hheld
        · intro k hk
          rw [List.length_cons] at hk
          cases k with
          | zero =>
              have hlast := hcl.others 0x7FF (by omega) (by omega)
              rw [slot_next, slot_full hcur] at hlast
              rw [slot_zero hcur, hlast]
              exact hzero
          | succ k =>
              rw [← slot_next]
              exact hcl.zero k (by omega)
        · intro k hk hlt
          rw [List.length_cons] at hk
          obtain ⟨k, rfl⟩ : ∃ k', k = k' + 1 := ⟨k - 1, by omega⟩
          have hne : slot 0x800 cur (k + 1) ≠ cur := by
            intro heq
            have hsame := slot_inj hcur hlt (by omega)
              (heq.trans (slot_zero hcur).symm)
            omega
          rw [← slot_next, hcl.others k (by omega) (by omega), slot_next,
            hother _ (slot_lt (by omega) _ _) hne]
          refine hothers (k + 1) ?_ hlt
          rw [List.length_append] at hk
          omega

-- ================================================================ the call

/-- Memory that agrees above the image. -/
theorem RxFrames.high (hp : RingRoom p) {m' : Mem}
    (hf : RxFrames l p v cur fs m) (hrings : ∃ i, RingsAt l p v i cur m')
    (hhigh : ∀ a : BitVec 64, 0x20000 ≤ a.toNat → m' a = m a) :
    RxFrames l p v cur fs m' := by
  have hlo := hp.1
  refine ⟨hf.ring.congr hrings fun n hn => hhigh _ ?_, ?_, ?_⟩
  · have haddr := rxStatus_toNat hp.2 hn
    omega
  · intro n hn
    have haddr := rxDesc_toNat hp hn (k := 0) (by omega)
    have hhi := hp.2
    rw [BitVec.add_zero] at haddr
    rw [← hf.addressed n hn]
    exact read_congr_bytes (n := 8) (by omega) fun a ha ha' =>
      hhigh a (by omega)
  · intro k hk
    exact (hf.held k hk).congr hp (slot_lt (by omega) _ _)
      (fun a ha ha' => hhigh a (by omega)) fun a ha ha' => hhigh a (by omega)

/-- The frames of the ring and those that arrive, handed over whole and in
order, their descriptors given back. -/
structure Delivered (l : NicLabels L) (p : BitVec 64) (cur : Nat)
    (frames : List Frame) (calls : List Nic) (m : Mem) : Prop where
  whole : InRing (Whole l p) cur frames calls
  back : ∀ k < frames.length, m (rxStatus p (slot 0x800 cur k)) = 0x0#8

/-- The driver at a call of `e1000_process_packet`, with `fs` in its ring
from `cur` on and the tail `e` places on, the rounds the call makes and what
arrives in them. -/
structure FrameCall (l : NicLabels L) (p v : BitVec 64) (cur e : Nat)
    (fs : List Frame) (rounds : List FrameRound) (h' : Nat) (s s' : Nic) :
    Prop where
  room : RingRoom p
  stack : StackRoom 120 s.cpu
  mapped : Mapped l s.cpu.mem
  frames : RxFrames l p v cur fs s.cpu.mem
  le : fs.length ≤ e
  tail_le : e ≤ 0x800
  arrivals : FrameArrivals p (slot 0x800 cur e) (slot 0x800 cur fs.length)
    rounds h'
  makes : MakesRounds l (BitVec.ofNat 32 (slot 0x800 cur fs.length))
    (rounds.map FrameRound.round) s s'

/-- The calls of `network_stack` a call of `e1000_process_packet` makes. -/
def FrameCall.calls (l : NicLabels L) (cur : Nat) (fs : List Frame)
    (rounds : List FrameRound) (s : Nic) : List Nic :=
  handedBy l (BitVec.ofNat 32 (slot 0x800 cur fs.length))
    ((rounds.map FrameRound.round).map RxRound.arrival) s

/-- A call that finds packets fetches all of them. -/
theorem FrameCall.fetched {rounds : List FrameRound}
    (h : FrameCall l p v cur e fs rounds h' s s')
    (hne : slot 0x800 cur fs.length ≠ cur) :
    InRing (Fetched l p s.cpu.mem) cur
        (fs ++ rounds.flatMap FrameRound.frames)
        (FrameCall.calls l cur fs rounds s)
      ∧ ∀ k < (fs ++ rounds.flatMap FrameRound.frames).length,
        s'.cpu.mem (rxStatus p (slot 0x800 cur k)) = 0x0#8 := by
  have hp := h.room
  obtain ⟨i, hi⟩ := h.frames.ring.rings
  have hcur := h.frames.ring.cur_lt
  have hh : slot 0x800 cur fs.length < 0x800 := slot_lt (by omega) _ _
  obtain ⟨hi₁, hrsp₁, hmap₁, hasked, -, -, -, hhigh₁, -⟩ :=
    headAsked_spec hp h.stack hi (BitVec.ofNat 32 (slot 0x800 cur fs.length))
  have hbusy := mt (hasked.trans (idle_iff h.mapped hcur hh hi.rx)).1 hne
  obtain ⟨hrun, hmin⟩ := h.makes
  have hf₁ := h.frames.high hp ⟨i, hi₁⟩ hhigh₁
  have htail₁ : SameTail p s.cpu.mem (headAsked l (BitVec.ofNat 32
      (slot 0x800 cur fs.length)) s).cpu.mem := by
    intro k hk hlt
    have hat := packet_toNat hp hlt
    have hlo := hp.1
    exact hhigh₁ _ (by omega)
  have hs₁ : StackRoom 0 (headAsked l (BitVec.ofNat 32
      (slot 0x800 cur fs.length)) s).cpu := by
    unfold StackRoom
    rw [hrsp₁]
    exact StackRoom.pushaq (n := 0) h.stack
  rw [process_eq, if_neg hbusy] at hrun
  unfold FrameCall.calls handedBy
  rw [if_neg hbusy]
  have hnone : ∀ n < rounds.length, receive_loop l
      (((rounds.map FrameRound.round).take n).map RxRound.arrival)
      (headAsked l (BitVec.ofNat 32 (slot 0x800 cur fs.length)) s) = none := by
    intro n hn
    have hshort := hmin n (by rw [List.length_map]; exact hn)
    rw [process_eq, if_neg hbusy] at hshort
    exact Option.map_eq_none_iff.1 hshort
  generalize headAsked l (BitVec.ofNat 32 (slot 0x800 cur fs.length)) s = a
    at *
  obtain ⟨u, hu, rfl⟩ := Option.map_eq_some_iff.1 hrun
  obtain ⟨hin, hcl, hrsp₂, htotal⟩ := receive_loop_frames hp rounds
    hs₁.stackOk hf₁ htail₁ rfl rfl h.le h.tail_le h.arrivals hu hnone
  refine ⟨hin, fun k hk => ?_⟩
  -- the tail register's write stays below the rings
  have hs₂ : StackRoom 0 u.cpu := by
    unfold StackRoom
    rw [hrsp₂]
    exact hs₁
  obtain ⟨-, hhigh, -⟩ := update_tail_spec (l := l)
    (s := { u with updates := u.updates + 1 }) hp hs₂.stackOk
    REG_RXDESCTAIL (o := 0) (by omega)
  rw [show l.e1000_rx_cur + BitVec.ofNat 64 0 = l.e1000_rx_cur from
    BitVec.add_zero _] at hhigh
  have haddr := rxStatus_toNat hp.2 (n := slot 0x800 cur k)
    (slot_lt (by omega) _ _)
  have hlo := hp.1
  rw [← hcl.zero k hk]
  show (Cpu.popaq _).mem _ = _
  rw [Cpu.popaq_mem]
  exact hhigh _ (by omega)

/-- A call that finds the head at its index makes no round. -/
theorem FrameCall.idle {rounds : List FrameRound}
    (h : FrameCall l p v cur e fs rounds h' s s')
    (heq : slot 0x800 cur fs.length = cur) :
    rounds = [] ∧ FrameCall.calls l cur fs rounds s = [] := by
  obtain ⟨i, hi⟩ := h.frames.ring.rings
  have hcur := h.frames.ring.cur_lt
  obtain ⟨-, -, -, hasked, -⟩ := headAsked_spec h.room h.stack hi
    (BitVec.ofNat 32 (slot 0x800 cur fs.length))
  have hidle := (hasked.trans (idle_iff h.mapped hcur (by rw [heq]; exact hcur)
    hi.rx)).2 heq
  refine ⟨?_, if_pos hidle⟩
  by_contra hne
  have hfirst := h.makes.2 0
    (by rw [List.length_map]; exact List.length_pos_iff.2 hne)
  rw [process_eq, if_pos hidle] at hfirst
  cases hfirst

/-- Every frame is delivered whole exactly if the ring is not full, so that
the call sees there is something to do, and each frame ends within the 64
bytes copied or goes on as the packet area did before. -/
theorem delivered_iff (l : NicLabels L) (p v : BitVec 64) (cur e : Nat)
    (fs : List Frame) (rounds : List FrameRound) (h' : Nat) (s s' : Nic)
    (h : FrameCall l p v cur e fs rounds h' s s') :
    Delivered l p cur (fs ++ rounds.flatMap FrameRound.frames)
        (FrameCall.calls l cur fs rounds s) s'.cpu.mem
      ↔ fs.length < 0x800 ∧ ∀ f ∈ fs ++ rounds.flatMap FrameRound.frames,
        Remains l s.cpu.mem f := by
  have hcur := h.frames.ring.cur_lt
  have hle := Nat.le_trans h.le h.tail_le
  by_cases heq : slot 0x800 cur fs.length = cur
  · obtain ⟨rfl, hcalls⟩ := h.idle heq
    rw [List.flatMap_nil, List.append_nil, hcalls]
    -- an empty ring or a full one
    have hends : fs.length = 0 ∨ fs.length = 0x800 := by
      have hzero := (slot_eq_iff (d := 0) hcur (Nat.zero_le _) hle).1
        ((slot_zero hcur).trans heq.symm)
      omega
    constructor
    · intro hd
      have hlen := hd.whole.length
      rw [List.length_nil] at hlen
      obtain rfl := List.length_eq_zero_iff.1 hlen.symm
      exact ⟨by decide, fun f hf => absurd hf List.not_mem_nil⟩
    · rintro ⟨hlt, -⟩
      obtain rfl := List.length_eq_zero_iff.1 (hends.resolve_right (by omega))
      exact ⟨.nil, fun k hk => absurd hk (Nat.not_lt_zero k)⟩
  · obtain ⟨hin, hback⟩ := h.fetched heq
    obtain ⟨i, hi⟩ := h.frames.ring.rings
    have hlt : fs.length < 0x800 := by
      by_contra hge
      refine heq ?_
      rw [show fs.length = 0x800 by omega]
      exact slot_full hcur
    have hiff := hin.iff (Q := Whole l p) (C := Remains l s.cpu.mem)
      fun n f g hfg => hfg.whole_iff hi.ready.recv_packet
    exact ⟨fun hd => ⟨hlt, hiff.1 hd.whole⟩,
      fun hr => ⟨hiff.2 hr.2, hback⟩⟩

-- ================================================================= samples

/-- The card writes a frame, its length and its status. -/
def placeFrame (p : BitVec 64) (n : Nat) (f : Frame) : Dma := fun m =>
  let m : Mem := fun a => f[(a - rxBuffer p n).toNat]?.getD (m a)
  (m.write16 (rxDesc p n + descLength) (BitVec.ofNat 16 f.length)).write8
    (rxStatus p n) 0x1#8

/-- Placing a frame changes what the card writes and nothing else. -/
theorem placeFrame_places (hp : RingRoom p) {n : Nat} (hn : n < 0x800)
    {f : Frame} (hf : 1 ≤ f.length ∧ f.length ≤ 0x800) :
    Places p n f (placeFrame p n f) := by
  have hlen := rxDesc_toNat hp hn (k := 8) (by omega)
  have hstatus := rxStatus_toNat hp.2 hn
  have hbuf := rxBuffer_toNat hp hn (k := 0) (by omega)
  rw [BitVec.add_zero] at hbuf
  obtain ⟨hlo, hhi⟩ := id hp
  refine ⟨hn, fun m => ⟨?_, ?_, hf⟩, fun m => ?_, fun m a ha => ?_⟩
  · refine (read_write_of_disjoint (n := 1) (k := 2)
      (a := rxStatus p n) (b := rxDesc p n + 8#64) _ _ (by omega) (by omega)
      (by omega)).trans ?_
    exact read_write_self (n := 2) _ _ _ (by omega)
  · intro k hk
    have hat := rxBuffer_toNat hp hn (k := k) (by omega)
    refine (write_apply_of_out (n := 1) _ _ (by omega) (by omega)).trans ?_
    refine (write_apply_of_out (n := 2) (a := rxDesc p n + 8#64) _ _
      (by omega) (by omega)).trans ?_
    have hoff : (rxBuffer p n + BitVec.ofNat 64 k - rxBuffer p n).toNat
        = k := by
      rw [BitVec.toNat_sub]
      omega
    rw [hoff, List.getElem?_eq_getElem hk]
    rfl
  · unfold filled placeFrame
    rw [write8_self]
    rfl
  · unfold Written at ha
    refine (write_apply_of_out (n := 1) _ _ (by omega) (by omega)).trans ?_
    refine (write_apply_of_out (n := 2) (a := rxDesc p n + 8#64) _ _
      (by omega) (by omega)).trans ?_
    have hoff : f.length ≤ (a - rxBuffer p n).toNat := by
      rw [BitVec.toNat_sub]
      omega
    rw [List.getElem?_eq_none hoff]
    rfl

/-- The driver at a call, nothing received so far. -/
structure Fresh (l : NicLabels L) (p v : BitVec 64) (s : Nic) : Prop where
  room : RingRoom p
  stack : StackRoom 120 s.cpu
  mapped : Mapped l s.cpu.mem
  frames : RxFrames l p v 0 [] s.cpu.mem

/-- A round in which no frame arrives. -/
def noFrames : FrameRound := ⟨[], []⟩

theorem dma_mem (s : Nic) (d : Dma) : (s.dma d).cpu.mem = d s.cpu.mem := rfl

/-- A call that finds one frame. -/
theorem Fresh.call (h : Fresh l p v s) {f : Frame}
    (hf : 1 ≤ f.length ∧ f.length ≤ 0x800) :
    ∃ s', FrameCall l p v 0 0x7FF [f] [noFrames, noFrames] 1
      (s.dma (placeFrame p 0 f)) s' := by
  have hplace := placeFrame_places h.room (n := 0) (by omega) hf
  have hleave : Leaves l p (placeFrame p 0 f) :=
    (hplace.delivers h.room).leaves
  have hframes : RxFrames l p v 0 [f] (s.dma (placeFrame p 0 f)).cpu.mem :=
    h.frames.place h.room (Nat.zero_lt_succ _) hplace
  have hmapped : Mapped l (s.dma (placeFrame p 0 f)).cpu.mem := by
    unfold Mapped
    rw [show (s.dma (placeFrame p 0 f)).cpu.mem l.e1000_ioport_flag = _ from
      hleave _ _ (ioport_flag_kept l p)]
    exact h.mapped
  obtain ⟨s', hmakes⟩ := process_returns (h := 1)
    (s := s.dma (placeFrame p 0 f)) h.room h.stack hmapped hframes.ring
    (by rw [List.length_singleton]; omega) (by omega) (by omega)
  exact ⟨s', h.room, h.stack, hmapped, hframes,
    by rw [List.length_singleton]; omega, by omega,
    .round .none (.round .none .none), hmakes⟩

/-- An empty ring, at a call. -/
theorem fresh_at (hp : RingRoom p) (hr : RingsAt l p v i 0 s.cpu.mem)
    (hmapped : Mapped l s.cpu.mem)
    (hstatus : ∀ n < 0x800, s.cpu.mem (rxStatus p n) = 0x0#8)
    (haddr : ∀ n < 0x800, s.cpu.mem.read64 (rxDesc p n) = rxBuffer p n)
    {regs : Reg → BitVec 64} (hlo : 0x5400 ≤ (regs .rsp).toNat)
    (hhi : (regs .rsp).toNat ≤ 0x10000) : Fresh l p v (s.at regs) := by
  refine ⟨hp, ⟨by show _ ≤ (regs .rsp).toNat; omega, hhi⟩, hmapped,
    ⟨by omega, ⟨i, hr⟩, fun n hn => ?_⟩, haddr,
    fun k hk => absurd hk (Nat.not_lt_zero k)⟩
  show (s.cpu.mem (rxStatus _ _)).getLsbD 0 = _
  rw [hstatus _ (slot_lt (by omega) _ _)]
  rfl

theorem fresh_beforeRxInit : Fresh nicLabels
    (ringBase nicLabels (usedUpTo 0x200000#64))
    ((usedUpTo 0x200000#64).mem.read64 nicLabels.e1000_vaddress)
    beforeRxInit := by
  have hb : BeforeInit nicLabels (usedUpTo 0x200000#64) :=
    beforeInit_usedUpTo (by decide) (by decide)
  obtain ⟨hrings, hmap, hstatus, haddr⟩ := e1000_init_mem_spec hb
  exact fresh_at (s := afterInit nicLabels (usedUpTo 0x200000#64)) hb.room
    hrings (hmap.2 (mapped_usedUpTo _)) hstatus haddr
    (by show 0x5400 ≤ 0xB000; omega) (by show 0xB000 ≤ 0x10000; omega)

/-- The instance with one frame, of 60 bytes, with the rings at
0x210000. -/
theorem delivered_iff_sample : ∃ p v s', FrameCall nicLabels p v 0 0x7FF
      [List.replicate 60 0xFF#8] [noFrames, noFrames] 1
      (beforeRxInit.dma (placeFrame p 0 (List.replicate 60 0xFF#8))) s'
    ∧ (Delivered nicLabels p 0 ([List.replicate 60 0xFF#8]
          ++ [noFrames, noFrames].flatMap FrameRound.frames)
        (FrameCall.calls nicLabels 0 [List.replicate 60 0xFF#8]
          [noFrames, noFrames] (beforeRxInit.dma
            (placeFrame p 0 (List.replicate 60 0xFF#8)))) s'.cpu.mem
      ↔ [List.replicate 60 0xFF#8].length < 0x800
        ∧ ∀ f ∈ [List.replicate 60 0xFF#8]
            ++ [noFrames, noFrames].flatMap FrameRound.frames,
          Remains nicLabels (beforeRxInit.dma
            (placeFrame p 0 (List.replicate 60 0xFF#8))).cpu.mem f) := by
  obtain ⟨s', hcall⟩ := fresh_beforeRxInit.call
    (f := List.replicate 60 0xFF#8) (by decide)
  exact ⟨_, _, s', hcall, delivered_iff nicLabels _ _ 0 0x7FF _ _ 1 _ s'
    hcall⟩

/-- A longer frame that is delivered has for its 65th byte what the packet
area held there before. -/
theorem Fresh.byte_64 (h : Fresh l p v s) {f : Frame} (hlt : 64 < f.length)
    (hle : f.length ≤ 0x800)
    (hall : ∀ s', FrameCall l p v 0 0x7FF [f] [noFrames, noFrames] 1
        (s.dma (placeFrame p 0 f)) s' →
      Delivered l p 0 ([f] ++ [noFrames, noFrames].flatMap FrameRound.frames)
        (FrameCall.calls l 0 [f] [noFrames, noFrames]
          (s.dma (placeFrame p 0 f))) s'.cpu.mem) :
    s.cpu.mem (p + 0x810000#64 + BitVec.ofNat 64 64) = f[64] := by
  have hplace := placeFrame_places h.room (n := 0) (f := f) (by omega)
    ⟨by omega, hle⟩
  obtain ⟨s', hcall⟩ := h.call (f := f) ⟨by omega, hle⟩
  obtain ⟨i, hi⟩ := hcall.frames.ring.rings
  have hne : slot 0x800 0 [f].length ≠ 0 := by
    rw [List.length_singleton]
    decide
  obtain ⟨hin, -⟩ := hcall.fetched hne
  have hremains := (hin.iff (Q := Whole l p) (C := Remains l _)
    fun n f g hfg => hfg.whole_iff hi.ready.recv_packet).1 (hall s' hcall).whole
  have hbyte := hremains f List.mem_cons_self 64 hlt (Nat.le_refl 64)
  have hat := packet_toNat h.room (i := 64) (by omega)
  rw [hi.ready.recv_packet, dma_mem, hplace.rest s.cpu.mem _
    (by unfold Written; omega)] at hbyte
  exact hbyte

/-- Of two frames of 65 bytes with different last bytes one is not
delivered whole. -/
theorem Fresh.truncates (h : Fresh l p v s) : ¬ ∀ (f : Frame) (s' : Nic),
    FrameCall l p v 0 0x7FF [f] [noFrames, noFrames] 1
        (s.dma (placeFrame p 0 f)) s' →
      Delivered l p 0 ([f] ++ [noFrames, noFrames].flatMap FrameRound.frames)
        (FrameCall.calls l 0 [f] [noFrames, noFrames]
          (s.dma (placeFrame p 0 f))) s'.cpu.mem := by
  intro hall
  have hlast : ∀ b : BitVec 8,
      s.cpu.mem (p + 0x810000#64 + BitVec.ofNat 64 64) = b := by
    intro b
    have hlen : (List.replicate 65 b).length = 65 := List.length_replicate
    exact (h.byte_64 (f := List.replicate 65 b) (by omega) (by omega)
      fun s' hcall => hall _ s' hcall).trans (List.getElem_replicate _)
  have hff := hlast 0xFF#8
  rw [hlast 0xFE#8] at hff
  exact absurd hff (by decide)

/-- Rings at 0x210000, one frame of 65 bytes in descriptor 0: for some last
byte it is not delivered whole. -/
theorem long_frame_truncated : ¬ ∀ (L : Layout) (l : NicLabels L)
    (p v : BitVec 64) (cur e : Nat) (fs : List Frame)
    (rounds : List FrameRound) (h' : Nat) (s s' : Nic),
    FrameCall l p v cur e fs rounds h' s s' →
      Delivered l p cur (fs ++ rounds.flatMap FrameRound.frames)
        (FrameCall.calls l cur fs rounds s) s'.cpu.mem :=
  fun hall => fresh_beforeRxInit.truncates fun f s' hcall =>
    hall _ nicLabels _ _ 0 0x7FF [f] _ 1 _ s' hcall

end BootLoader.ThirdStage
