/-
What `network_stack` takes for the type of a frame.

R9 is the descriptor when `network_stack` is called, since its caller set it
and `network_stack` loads nothing of its own: the word it takes for the type
is the status and error bytes of the descriptor. The status of a received
packet is odd, so the word is never that of an ARP packet, and `process_arp`
is never called, whatever the frame (`never_callsArp`). What the branch does
is right for the frames that are not ARP packets, and for no other
(`dispatch_follows_iff`).
-/
import BootLoader.ThirdStage.Proofs.NicDelivery

namespace BootLoader.ThirdStage

open FlatMemory Mem Words Ring

variable {L : Layout} {l : NicLabels L} {p v : BitVec 64} {s : Nic}
  {i cur : Nat}

/-- Byte `k` of the frame in the buffer of the descriptor R9 points at. -/
def frameByte (s : Nic) (k : Nat) : BitVec 8 :=
  s.cpu.mem (s.cpu.mem.read64 (s.cpu.reg .r9) + BitVec.ofNat 64 k)

/-- The frame is an ARP packet. -/
def ArpFrame (s : Nic) : Prop :=
  frameByte s 12 = 0x08#8 ∧ frameByte s 13 = 0x06#8

/-- `process_arp` is called exactly for an ARP packet. -/
def DispatchFollows (s : Nic) : Prop := CallsArp s ↔ ArpFrame s

/-- The receive loop never comes to `process_arp`. -/
theorem handedOver_not_callsArp (hp : RingRoom p) (rounds : List Arrival) :
    ∀ {s : Nic} {i cur : Nat}, (∀ r ∈ rounds, Leaves l p r.arrive) →
      StackOk s.cpu → RingsAt l p v i cur s.cpu.mem → cur < 0x800 →
      ∀ h ∈ handedOver l rounds s, ¬ CallsArp h := by
  induction rounds with
  | nil =>
      intro s i cur _ _ _ _ h hh
      cases hh
  | cons r rs ih =>
      intro s i cur hleave hs hr hcur h hh
      have harrive := hleave r List.mem_cons_self
      by_cases hset : (looked l s r).cpu.low8 .rax = 0x1#8
      · obtain ⟨t, i', ht, -, hr', hrsp, -⟩ := receive_round hp hs hr hcur
          harrive hset
        rw [handedOver_taken rs hset ht] at hh
        rcases List.mem_cons.1 hh with rfl | hrest
        · -- the status in the descriptor is odd
          have hat := handed_spec hp hr hcur harrive hset
          have haddr := rxDesc_toNat hp hcur (k := 12) (by omega)
          obtain ⟨hlo, hhi⟩ := id hp
          have hs' : StackOk (handed l s r).cpu := by
            unfold StackOk
            rw [hat.keeps.rsp]
            exact hs
          have h9 : (handed l s r).cpu.reg .r9 + 12#64
              = rxDesc p cur + BitVec.ofNat 64 12 := by
            rw [hat.r9]
            rfl
          refine not_callsArp hs' (by rw [h9]; omega) (by rw [h9]; omega) ?_
          rw [h9]
          exact hat.odd
        · have hs' : StackOk (taken l t).cpu := by
            unfold StackOk
            rw [hrsp]
            exact hs
          exact ih (fun r' hr' => hleave r' (List.mem_cons_of_mem _ hr')) hs'
            hr' (Nat.mod_lt _ (by omega)) h hrest
      · rw [handedOver_clear rs hset] at hh
        cases hh

/-- A call of `e1000_process_packet` never comes to `process_arp`. -/
theorem never_callsArp (hp : RingRoom p) (hs : StackRoom 120 s.cpu)
    (hr : RingsAt l p v i cur s.cpu.mem) (hcur : cur < 0x800)
    (head : BitVec 32) {rounds : List Arrival}
    (hleave : ∀ r ∈ rounds, Leaves l p r.arrive) :
    ∀ h ∈ handedBy l head rounds s, ¬ CallsArp h := by
  intro h hh
  obtain ⟨hr₁, hrsp₁, -⟩ := headAsked_spec hp hs hr head
  have hs₁ : StackRoom 0 (headAsked l head s).cpu := by
    unfold StackRoom
    rw [hrsp₁]
    exact StackRoom.pushaq (n := 0) hs
  unfold handedBy at hh
  split at hh
  · cases hh
  · exact handedOver_not_callsArp hp rounds hleave hs₁.stackOk hr₁ hcur h hh

/-- For every frame handed to `network_stack`, whatever its descriptor
holds: the branch follows the frame exactly if it is no ARP packet. -/
theorem dispatch_follows_iff (l : NicLabels L) (p v : BitVec 64) (i cur : Nat)
    (s : Nic) (hp : RingRoom p) (hs : StackRoom 120 s.cpu)
    (hr : RingsAt l p v i cur s.cpu.mem) (hcur : cur < 0x800)
    (head : BitVec 32) (rounds : List Arrival)
    (hleave : ∀ r ∈ rounds, Leaves l p r.arrive) :
    ∀ h ∈ handedBy l head rounds s, DispatchFollows h ↔ ¬ ArpFrame h := by
  intro h hh
  have hnot := never_callsArp hp hs hr hcur head hleave h hh
  unfold DispatchFollows
  exact ⟨fun hiff harp => hnot (hiff.2 harp),
    fun hno => ⟨fun hcall => absurd hcall hnot, fun harp => absurd harp hno⟩⟩

-- ================================================================= samples

/-- An ARP packet, padded to 60 bytes. -/
def arpFrame : Frame :=
  List.replicate 12 0xFF#8 ++ [0x08#8, 0x06#8] ++ List.replicate 46 0x00#8

/-- A frame handed over is the one in the buffer. -/
theorem Fetched.frameByte {m₀ : Mem} {n : Nat} {f : Frame} {h : Nic}
    (hf : Fetched l p m₀ n f h) {k : Nat} (hk : k < f.length) :
    frameByte h k = f[k] := by
  unfold BootLoader.ThirdStage.frameByte
  rw [hf.desc, hf.buffer]
  exact hf.frame.bytes k hk

/-- A call that hands the frame `g` has over. -/
structure Hands (l : NicLabels L) (p v : BitVec 64) (i cur : Nat) (s : Nic)
    (head : BitVec 32) (rounds : List Arrival) (g : Nic) : Prop where
  room : RingRoom p
  stack : StackRoom 120 s.cpu
  rings : RingsAt l p v i cur s.cpu.mem
  cur_lt : cur < 0x800
  leaves : ∀ r ∈ rounds, Leaves l p r.arrive
  handed : g ∈ handedBy l head rounds s

/-- The ARP packet is handed over. -/
theorem Fresh.arp (h : Fresh l p v s) : ∃ i rounds g,
    Hands l p v i 0 (s.dma (placeFrame p 0 arpFrame)) 1#32 rounds g
      ∧ ArpFrame g := by
  obtain ⟨s', hcall⟩ := h.call (f := arpFrame) (by decide)
  obtain ⟨i, hi⟩ := hcall.frames.ring.rings
  obtain ⟨hin, -⟩ := hcall.fetched (by decide)
  obtain ⟨rounds, hrounds⟩ : ∃ rounds : List Arrival, rounds
      = ([noFrames, noFrames].map FrameRound.round).map RxRound.arrival :=
    ⟨_, rfl⟩
  have hleave : ∀ r ∈ rounds, Leaves l p r.arrive := by
    intro r hr m a _
    rw [hrounds] at hr
    simp only [List.map_cons, List.map_nil, List.mem_cons, List.not_mem_nil,
      or_false, or_self] at hr
    rw [hr]
    rfl
  unfold FrameCall.calls at hin
  rw [← hrounds] at hin
  change InRing _ 0 (arpFrame :: []) (handedBy l 1#32 _ _) at hin
  generalize hgs : handedBy l 1#32 rounds _ = calls at hin
  cases hin with
  | @cons _ _ _ g hs hfirst hrest =>
      refine ⟨i, rounds, g, ⟨h.room, h.stack, hi, by omega, hleave, ?_⟩,
        hfirst.frameByte (k := 12) (by decide),
        hfirst.frameByte (k := 13) (by decide)⟩
      rw [hgs]
      exact List.mem_cons_self

/-- The instance for an ARP packet, with the rings at 0x210000. -/
theorem dispatch_follows_iff_sample : ∃ p v i rounds g,
    Hands nicLabels p v i 0 (beforeRxInit.dma (placeFrame p 0 arpFrame)) 1#32
        rounds g
      ∧ ArpFrame g ∧ (DispatchFollows g ↔ ¬ ArpFrame g) := by
  obtain ⟨i, rounds, g, hg, harp⟩ := fresh_beforeRxInit.arp
  exact ⟨_, _, i, rounds, g, hg, harp, dispatch_follows_iff nicLabels _ _ i 0
    _ hg.room hg.stack hg.rings hg.cur_lt 1#32 rounds hg.leaves g hg.handed⟩

/-- With the rings at 0x210000 an ARP packet is handed over, and not taken
for one. -/
theorem arp_not_dispatched : ¬ ∀ (L : Layout) (l : NicLabels L)
    (p v : BitVec 64) (i cur : Nat) (s : Nic) (head : BitVec 32)
    (rounds : List Arrival) (g : Nic),
    Hands l p v i cur s head rounds g → DispatchFollows g := by
  intro hall
  obtain ⟨i, rounds, g, hg, harp⟩ := fresh_beforeRxInit.arp
  have hcalls := (hall _ nicLabels _ _ i 0 _ 1#32 rounds g hg).2 harp
  exact never_callsArp hg.room hg.stack hg.rings hg.cur_lt 1#32 hg.leaves g
    hg.handed hcalls

end BootLoader.ThirdStage
