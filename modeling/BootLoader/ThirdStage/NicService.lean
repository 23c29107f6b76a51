/-
The receive unit and the interrupt: `e1000_rx_init` and
`e1000_int_handler` of `third_stage/nic.asm`, and the card's side of the
receive ring.

The card keeps two registers for the ring, the head and the tail, each of
16 bits. It owns the descriptors from the head up to but excluding the
tail; a packet goes to the descriptor at the head, and the head moves on.
Only what is written to these two registers is looked at here; writes to
the others change nothing of the ring.
-/
import BootLoader.Lib.Ring
import BootLoader.ThirdStage.Nic

namespace BootLoader.ThirdStage

open FlatMemory Mem

-- ============================================================== the labels

/-- The messages of the receive unit and the handler. -/
structure ServiceLabels (L : Layout) extends NicLabels L where
  e1000_rx_init_msg : BitVec 64
  e1000_link_restarted_int_msg : BitVec 64
  e1000_good_threshold_int_msg : BitVec 64
  e1000_process_packet_int_msg : BitVec 64
  service_strings_in : ∀ a ∈ [e1000_rx_init_msg,
    e1000_link_restarted_int_msg, e1000_good_threshold_int_msg,
    e1000_process_packet_int_msg], a.toNat + 30 ≤ 0x20000

def REG_ICR : BitVec 16 := 0x00C0#16
def REG_IMASK : BitVec 16 := 0x00D0#16
def REG_RCTRL : BitVec 16 := 0x0100#16
def REG_RXDESCLO : BitVec 16 := 0x2800#16
def REG_RXDESCHI : BitVec 16 := 0x2804#16
def REG_RXDESCLEN : BitVec 16 := 0x2808#16

def RCTL_EN : BitVec 64 := 0x2#64
def RCTL_UPE : BitVec 64 := 0x8#64
def RCTL_MPE : BitVec 64 := 0x10#64
def RCTL_LBM_NONE : BitVec 64 := 0x0#64
def RTCL_RDMTS_HALF : BitVec 64 := 0x0#64
def RCTL_BAM : BitVec 64 := 0x8000#64
def RCTL_SECRC : BitVec 64 := 0x4000000#64
def RCTL_BSIZE_16384 : BitVec 64 := 0x2010000#64

def e1000_rx_init_msg : List (BitVec 8) :=
  ascii "e1000 init RX" ++ [13, 10, 0]
def e1000_link_restarted_int_msg : List (BitVec 8) :=
  ascii "e1000(int) link restarted" ++ [13, 10, 0]
def e1000_good_threshold_int_msg : List (BitVec 8) :=
  ascii "e1000(int) good threshold" ++ [13, 10, 0]
def e1000_process_packet_int_msg : List (BitVec 8) :=
  ascii "e1000(int) process packet" ++ [13, 10, 0]

variable {L : Layout}

-- ========================================================== e1000_rx_init

/-- `mov word [e1000_rw_address], reg`, `mov dword [e1000_rw_data], eax`
and `call e1000_write_command`. -/
def write_register (l : NicLabels L) (reg : BitVec 16) (s : Nic) : Nic :=
  let s := s.run fun c => c.store16 l.e1000_rw_address reg
  let s := s.run fun c => c.store32 l.e1000_rw_data (c.low32 .rax)
  e1000_write_command l s

/-- `e1000_rx_init`. -/
def e1000_rx_init (l : ServiceLabels L) (s : Nic) : Nic :=
  let s := s.run Cpu.pushaq
  let s := s.run fun c => c.load64 .rax l.e1000_rx_desc_ptr
  let s := write_register l.toNicLabels REG_RXDESCLO s
  let s := s.run fun c => c.set .rax 0#64
  let s := write_register l.toNicLabels REG_RXDESCHI s
  let s := s.run fun c => c.set .rax e1000_desc_array_size
  let s := write_register l.toNicLabels REG_RXDESCLEN s
  let s := s.run fun c => c.set .rax 0#64
  let s := write_register l.toNicLabels REG_RXDESCHEAD s
  let s := s.run fun c =>
    c.set .rax (c.reg .rax ^^^ (e1000_desc_array_count - 1#64))
  let s := write_register l.toNicLabels REG_RXDESCTAIL s
  let s := s.run fun c => c.set .rax (RCTL_EN ||| RCTL_UPE ||| RCTL_MPE
    ||| RCTL_LBM_NONE ||| RTCL_RDMTS_HALF ||| RCTL_BAM ||| RCTL_SECRC
    ||| RCTL_BSIZE_16384)
  let s := write_register l.toNicLabels REG_RCTRL s
  let s := s.run (print L l.e1000_rx_init_msg e1000_rx_init_msg)
  s.run Cpu.popaq

-- ====================================================== e1000_int_handler

/-- `mov eax, dword [e1000_rw_data]` and `and eax, bit`. -/
def cause_bit (l : NicLabels L) (bit : BitVec 32) (c : Cpu) : Cpu :=
  let c := load32 c .rax l.e1000_rw_data
  c.set .rax ((c.low32 .rax &&& bit).setWidth 64)

/-- `e1000_int_handler`, where the card answers `cause` for its cause
register and does `between` before it is asked for its head. The flag says
whether the run called `e1000_process_packet`. -/
def e1000_int_handler (l : ServiceLabels L) (cause : BitVec 32)
    (between : Dma) (head : BitVec 32) (rounds : List Arrival) (s : Nic) :
    Option (Nic × Bool) := do
  let s := s.run Cpu.pushaq
  let s := s.run fun c => c.store16 l.e1000_rw_address REG_ICR
  let s := e1000_read_command l.toNicLabels cause s
  let s := s.run fun c => c.set .rax 0#64
  let s := s.run (cause_bit l.toNicLabels 0x04#32)
  if s.cpu.low32 .rax = 0x04#32 then
    let s := s.run (print L l.e1000_link_restarted_int_msg
      e1000_link_restarted_int_msg)
    return (s.run Cpu.popaq, false)
  let s := s.run (cause_bit l.toNicLabels 0x10#32)
  if s.cpu.low32 .rax = 0x10#32 then
    let s := s.run (print L l.e1000_good_threshold_int_msg
      e1000_good_threshold_int_msg)
    return (s.run Cpu.popaq, false)
  let s := s.run (cause_bit l.toNicLabels 0x80#32)
  if s.cpu.low32 .rax = 0x80#32 then
    let s := s.run (print L l.e1000_process_packet_int_msg
      e1000_process_packet_int_msg)
    let s := s.dma between
    let s ← e1000_process_packet l.toNicLabels head rounds s
    return (s.run Cpu.popaq, true)
  return (s.run Cpu.popaq, false)

-- =========================================================== the ring's card

/-- The registers of the card's receive ring. -/
structure RxCard where
  head : Nat
  tail : Nat
  deriving DecidableEq, Repr

namespace RxCard

/-- The card with its registers at `v` takes a write. -/
def take (v : BitVec 64) (r : RxCard) (w : DeviceWrite) : RxCard :=
  if w.addr = .mmio (REG_RXDESCHEAD.setWidth 64 + v) then
    { r with head := w.value.toNat % 0x10000 }
  else if w.addr = .mmio (REG_RXDESCTAIL.setWidth 64 + v) then
    { r with tail := w.value.toNat % 0x10000 }
  else r

/-- The card may put a packet into the descriptor `n`. -/
def Owns (r : RxCard) (n : Nat) : Prop := Ring.Owns 0x800 r.head r.tail n

/-- The head past one more packet. -/
def advance (r : RxCard) : RxCard :=
  { r with head := (r.head + 1) % 0x800 }

end RxCard

/-- The driver and the card's registers. -/
structure RxSystem where
  nic : Nic
  card : RxCard

/-- The writes made since `s`. -/
def Nic.since (s' s : Nic) : List DeviceWrite := s'.out.drop s.out.length

/-- Packets put into memory one after another. -/
def deliverAll (fs : List Dma) (m : Mem) : Mem := fs.foldl (fun m f => f m) m

end BootLoader.ThirdStage
