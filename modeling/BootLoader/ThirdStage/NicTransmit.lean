/-
The transmit unit: `e1000_tx_init` of `third_stage/nic.asm`, and the card's
side of the transmit ring.

The card fetches the descriptor at its head, puts the bytes it names on the
wire, marks the descriptor done if it was asked to report, and moves the
head on, as long as the head is not at the tail. A frame ends with the
descriptor that has the end-of-packet bit. Padding and the checksum the
card adds are left out, and so are the registers that only shape the
signal.

The driver waits in `e1000_send_out_packet` until its descriptor is marked;
what the card does before each of its looks is a `TxTurn`.
-/
import BootLoader.ThirdStage.NicService

namespace BootLoader.ThirdStage

open FlatMemory Mem

-- ============================================================== the labels

def REG_TCTRL : BitVec 16 := 0x0400#16
def REG_TXDESCLO : BitVec 16 := 0x3800#16
def REG_TXDESCHI : BitVec 16 := 0x3804#16
def REG_TXDESCLEN : BitVec 16 := 0x3808#16
def REG_TXDESCHEAD : BitVec 16 := 0x3810#16

variable {L : Layout}

-- ========================================================== e1000_tx_init

/-- The bytes of a frame. -/
abbrev Packet := List (BitVec 8)

/-- `n` bytes of memory from `a` on. -/
def bytesAt (m : Mem) (a : BitVec 64) (n : Nat) : Packet :=
  (List.range n).map fun k => m (a + BitVec.ofNat 64 k)

/-- The card's transmit registers, the frame it has begun, and what it has
put on the wire. -/
structure TxCard where
  low : BitVec 32
  high : BitVec 32
  length : Nat
  head : Nat
  tail : Nat
  enabled : Bool
  begun : Packet
  wire : List Packet

namespace TxCard

/-- The card with its registers at `v` takes a write. -/
def take (v : BitVec 64) (r : TxCard) (w : DeviceWrite) : TxCard :=
  if w.addr = .mmio (REG_TXDESCLO.setWidth 64 + v) then
    { r with low := w.value &&& 0xFFFFFFF0#32 }
  else if w.addr = .mmio (REG_TXDESCHI.setWidth 64 + v) then
    { r with high := w.value }
  else if w.addr = .mmio (REG_TXDESCLEN.setWidth 64 + v) then
    { r with length := w.value.toNat % 0x100000 / 16 }
  else if w.addr = .mmio (REG_TXDESCHEAD.setWidth 64 + v) then
    { r with head := w.value.toNat % 0x10000 }
  else if w.addr = .mmio (REG_TXDESCTAIL.setWidth 64 + v) then
    { r with tail := w.value.toNat % 0x10000 }
  else if w.addr = .mmio (REG_TCTRL.setWidth 64 + v) then
    { r with enabled := w.value.getLsbD 1 }
  else r

/-- The descriptor at the head. -/
def current (r : TxCard) : BitVec 64 :=
  r.high ++ r.low + BitVec.ofNat 64 (16 * r.head)

/-- The bytes a descriptor names. -/
def named (a : BitVec 64) (m : Mem) : Packet :=
  bytesAt m (m.read64 a) (m.read16 (a + descLength)).toNat

/-- The card takes the bytes of the descriptor at `a`. -/
def fetch (r : TxCard) (a : BitVec 64) (m : Mem) : TxCard :=
  let r := { r with head := (r.head + 1) % r.length }
  if (m (a + descCmd)).getLsbD 0 then
    { r with begun := [], wire := r.wire ++ [r.begun ++ named a m] }
  else { r with begun := r.begun ++ named a m }

/-- The descriptor at `a` marked done, if its command asks for it. -/
def report (a : BitVec 64) (m : Mem) : Mem :=
  if (m (a + descCmd)).getLsbD 3 then
    m.write8 (a + descStatus) (m (a + descStatus) ||| TSTA_DD)
  else m

/-- One descriptor, if the card has one. -/
def transmit (x : TxCard × Mem) : TxCard × Mem :=
  if x.1.enabled ∧ x.1.head ≠ x.1.tail then
    (x.1.fetch x.1.current x.2, report x.1.current x.2)
  else x

end TxCard

/-- What happens before a look of the driver: the card takes up to `count`
descriptors, and something else works on memory. -/
structure TxTurn where
  count : Nat
  other : Dma

def TxTurn.run (t : TxTurn) (x : TxCard × Mem) : TxCard × Mem :=
  let x := Loop.times TxCard.transmit t.count x
  (x.1, t.other x.2)

/-- The turns one after another. -/
def txTurns (ts : List TxTurn) (x : TxCard × Mem) : TxCard × Mem :=
  ts.foldl (fun x t => t.run x) x

/-- Their work on memory as the driver meets it, from a card and a
memory. -/
def txPolls : List TxTurn → TxCard × Mem → List Dma
  | [], _ => []
  | t :: ts, x => (fun m => (t.run (x.1, m)).2) :: txPolls ts (t.run x)

-- =============================================================== the system

/-- The driver and the card. -/
structure TxSystem where
  nic : Nic
  card : TxCard

/-- The packet a send finds in the send buffer. -/
def packetAt (l : NicLabels L) (m : Mem) : Packet :=
  bytesAt m (m.read64 l.e1000_send_packet)
    (m.read16 l.e1000_send_packet_len).toNat

/-- The memory a send leaves before its first look, and the card then. -/
def sendOffered (l : NicLabels L) (v : BitVec 64) (r : TxCard) (s : Nic) :
    TxCard × Mem :=
  let s₁ := s.run Cpu.pushaq
  let s₂ := s₁.run (tx_fill l)
  let s₃ := { s₂.run (advance_index l.e1000_tx_cur) with sent := s₂.sent + 1 }
  let s₄ := update_tail l REG_TXDESCTAIL l.e1000_tx_cur s₃
  ((s₄.since s).foldl (TxCard.take v) r, s₄.cpu.mem)

end BootLoader.ThirdStage
