/-
The network driver's rings: `e1000_init_mem`, `e1000_send_out_packet`,
`e1000_process_packet` and what they call in `third_stage/nic.asm`.

# The variables

`nic.asm` declares its variables in two runs without gaps, one from
`e1000_mem_base` and one from `e1000_rx_cur`. The model takes the address
of each run's first variable and gives the others as offsets, so what an
access wider than its variable touches is what it touches there.

# The card

The card answers reads of its registers and writes memory on its own. Both
come from outside: a call is given the answer to its register read and the
card's work on memory (`Dma`) before each look the driver takes at a
descriptor's status. A call whose card has nothing left to do before the
driver is satisfied has not returned, which is no result.

Writes to the card are listed in `out`. `sent` and `received` count the
packets put into the transmit ring and taken out of the receive ring,
`updates` the times `e1000_process_packet` came to `.update_tail`; no
instruction reads them. Each write carries the counts it was made at.
-/
import BootLoader.ThirdStage.Video

namespace BootLoader.ThirdStage

open FlatMemory Mem

-- ============================================================== the labels

/-- Addresses of the driver's variables and messages, inside the image and
apart from each other and from the cursor. -/
structure NicLabels (L : Layout) where
  e1000_mem_base : BitVec 64
  e1000_rx_cur : BitVec 64
  current_memory_address : BitVec 64
  e1000_mem_init_msg : BitVec 64
  e1000_sent_packet_msg : BitVec 64
  my_ip_msg : BitVec 64
  mem_base_in :
    0x10000 ≤ e1000_mem_base.toNat ∧ e1000_mem_base.toNat + 35 ≤ 0x20000
  rx_cur_in :
    0x10000 ≤ e1000_rx_cur.toNat ∧ e1000_rx_cur.toNat + 60 ≤ 0x20000
  current_in : 0x10000 ≤ current_memory_address.toNat
    ∧ current_memory_address.toNat + 8 ≤ 0x20000
  runs_apart : e1000_mem_base.toNat + 35 ≤ e1000_rx_cur.toNat
    ∨ e1000_rx_cur.toNat + 60 ≤ e1000_mem_base.toNat
  current_apart : ∀ a, a = e1000_mem_base ∨ a = e1000_rx_cur →
    current_memory_address.toNat + 8 ≤ a.toNat
      ∨ a.toNat + 60 ≤ current_memory_address.toNat
  cursor_apart : ∀ a,
    a = e1000_mem_base ∨ a = e1000_rx_cur ∨ a = current_memory_address →
    L.start_location.toNat + 8 ≤ a.toNat
      ∨ a.toNat + 60 ≤ L.start_location.toNat
  strings_in : ∀ a ∈ [e1000_mem_init_msg, e1000_sent_packet_msg, my_ip_msg],
    a.toNat + 30 ≤ 0x20000

namespace NicLabels

variable {L : Layout} (l : NicLabels L)

def e1000_rw_data : BitVec 64 := l.e1000_mem_base + 8#64
def e1000_rw_address : BitVec 64 := l.e1000_mem_base + 12#64
def e1000_io_base : BitVec 64 := l.e1000_mem_base + 14#64
def e1000_vaddress : BitVec 64 := l.e1000_mem_base + 16#64
def e1000_ioport_flag : BitVec 64 := l.e1000_mem_base + 25#64
def e1000_mac_address : BitVec 64 := l.e1000_mem_base + 26#64

def e1000_tx_cur : BitVec 64 := l.e1000_rx_cur + 2#64
def e1000_rx_desc_ptr : BitVec 64 := l.e1000_rx_cur + 4#64
def e1000_tx_desc_ptr : BitVec 64 := l.e1000_rx_cur + 12#64
def e1000_rx_packets_ptr : BitVec 64 := l.e1000_rx_cur + 20#64
def e1000_tx_packets_ptr : BitVec 64 := l.e1000_rx_cur + 28#64
def e1000_recv_packet : BitVec 64 := l.e1000_rx_cur + 36#64
def e1000_send_packet : BitVec 64 := l.e1000_rx_cur + 44#64
def e1000_recv_packet_len : BitVec 64 := l.e1000_rx_cur + 52#64
def e1000_send_packet_len : BitVec 64 := l.e1000_rx_cur + 54#64
def my_ip_address : BitVec 64 := l.e1000_rx_cur + 56#64

end NicLabels

/-- The variables past the ones the assembled layout has. -/
def nicLabels : NicLabels assembledLayout where
  e1000_mem_base := 0x12000#64
  e1000_rx_cur := 0x12200#64
  current_memory_address := 0x12400#64
  e1000_mem_init_msg := 0x12500#64
  e1000_sent_packet_msg := 0x12540#64
  my_ip_msg := 0x12580#64
  mem_base_in := by decide
  rx_cur_in := by decide
  current_in := by decide
  runs_apart := by decide
  current_apart := by
    rintro a (rfl | rfl)
    · exact Or.inr (by decide)
    · exact Or.inr (by decide)
  cursor_apart := by
    rintro a (rfl | rfl | rfl)
    · exact Or.inl (by decide)
    · exact Or.inl (by decide)
    · exact Or.inl (by decide)
  strings_in := by simp

-- ============================================================ the constants

def e1000_desc_size : BitVec 64 := 16#64
def e1000_desc_array_count : BitVec 64 := 0x800#64
def e1000_desc_array_size : BitVec 64 := 0x8000#64
def e1000_packet_area_size : BitVec 64 := 0x400000#64
def e1000_packet_size : BitVec 64 := 0x800#64

def REG_RXDESCHEAD : BitVec 16 := 0x2810#16
def REG_RXDESCTAIL : BitVec 16 := 0x2818#16
def REG_TXDESCTAIL : BitVec 16 := 0x3818#16

/-- `CMD_EOP | CMD_IFCS | CMD_RS | CMD_RPS`. -/
def txCommand : BitVec 8 := 0x1B#8

/-- `TSTA_DD`. -/
def TSTA_DD : BitVec 8 := 1#8

def ETHERTYPE_IP : BitVec 16 := 0x0800#16
def ETHERTYPE_ARP : BitVec 16 := 0x0806#16
def ARPHRD_ETHER : BitVec 16 := 1#16
def ARPOP_REQUEST : BitVec 16 := 1#16
def ARPOP_REPLY : BitVec 16 := 2#16

/-- Both descriptors: the packet's address at 0, its length at 8, the
status at 12; a transmit descriptor's command at 11. -/
def descLength : BitVec 64 := 8#64
def descCmd : BitVec 64 := 11#64
def descStatus : BitVec 64 := 12#64

def e1000_mem_init_msg : List (BitVec 8) :=
  ascii "e1000 memory setup done" ++ [13, 10, 0]
def e1000_sent_packet_msg : List (BitVec 8) :=
  ascii "e1000 sent packet" ++ [13, 10, 0]
def my_ip_msg : List (BitVec 8) := ascii "got ARP Packet" ++ [13, 10, 0]

/-- Two texts of `third_stage.asm`. -/
def comma : List (BitVec 8) := ascii "," ++ [0]
def newline : List (BitVec 8) := [13, 0]

-- =============================================================== the state

/-- Where a write to the card goes. -/
inductive DeviceAddr
  | mmio (a : BitVec 64)
  | port (p : BitVec 16)
  deriving DecidableEq, Repr

/-- A write to the card, with the packets sent and received until then. -/
structure DeviceWrite where
  addr : DeviceAddr
  value : BitVec 32
  sent : Nat
  received : Nat
  deriving DecidableEq, Repr

/-- The processor and its traffic with the card. -/
structure Nic where
  cpu : Cpu
  out : List DeviceWrite
  sent : Nat
  received : Nat
  updates : Nat

/-- The card's work on memory between two looks of the driver. -/
abbrev Dma := Mem → Mem

namespace Nic

/-- Code that uses the processor only. -/
def run (s : Nic) (f : Cpu → Cpu) : Nic := { s with cpu := f s.cpu }

def dma (s : Nic) (d : Dma) : Nic :=
  s.run fun c => { c with mem := d c.mem }

/-- The card takes a write. -/
def write (s : Nic) (a : DeviceAddr) (v : BitVec 32) : Nic :=
  { s with out := s.out ++ [⟨a, v, s.sent, s.received⟩] }

end Nic

-- ============================================================ instructions

/-- `mov r16, word [a]`. -/
def load16 (c : Cpu) (r : Reg) (a : BitVec 64) : Cpu :=
  (c.reads a 2).setLow16 r (c.mem.read16 a)

/-- `mov r32, dword [a]`. -/
def load32 (c : Cpu) (r : Reg) (a : BitVec 64) : Cpu :=
  (c.reads a 4).set r ((c.mem.read32 a).setWidth 64)

/-- `mov r8, byte [a]`. -/
def load8 (c : Cpu) (r : Reg) (a : BitVec 64) : Cpu :=
  (c.reads a 1).setLow8 r (c.mem a)

/-- `rol r16, 8`. -/
def rol8 (c : Cpu) (r : Reg) : Cpu :=
  c.setLow16 r ((c.low16 r).rotateLeft 8)

/-- One round of `rep movsb`. -/
def movsb (c : Cpu) : Cpu :=
  let a := c.reg .rsi
  let c := (c.reads a 1).store8 (c.reg .rdi) (c.mem a)
  let c := c.set .rsi (c.reg .rsi + 1#64)
  let c := c.set .rdi (c.reg .rdi + 1#64)
  c.set .rcx (c.reg .rcx - 1#64)

/-- `rep movsb`. -/
def rep_movsb (c : Cpu) : Cpu := Loop.times movsb (c.reg .rcx).toNat c

/-- One round of `rep movsq`. -/
def movsq (c : Cpu) : Cpu :=
  let a := c.reg .rsi
  let c := (c.reads a 8).store64 (c.reg .rdi) (c.mem.read64 a)
  let c := c.set .rsi (c.reg .rsi + 8#64)
  let c := c.set .rdi (c.reg .rdi + 8#64)
  c.set .rcx (c.reg .rcx - 1#64)

/-- `rep movsq`. -/
def rep_movsq (c : Cpu) : Cpu := Loop.times movsq (c.reg .rcx).toNat c

/-- `mov rsi, label` and `call video_print`. -/
def print (L : Layout) (label : BitVec 64) (str : List (BitVec 8))
    (c : Cpu) : Cpu :=
  video_print L str (c.set .rsi label)

-- ======================================================= e1000_init_mem

variable {L : Layout} (l : NicLabels L)

/-- `mov [cell], rax` and `add rax, size`. -/
def assign_area (cell size : BitVec 64) (c : Cpu) : Cpu :=
  let c := c.store64 cell (c.reg .rax)
  c.set .rax (c.reg .rax + size)

/-- One round of `.rx_loop`. -/
def rx_loop_round (c : Cpu) : Cpu :=
  let c := c.store64 (c.reg .r8) (c.reg .r9)
  let c := c.store8 (c.reg .r8 + descStatus) 0x0#8
  let c := c.set .r8 (c.reg .r8 + e1000_desc_size)
  let c := c.set .r9 (c.reg .r9 + e1000_packet_size)
  c.set .rcx (c.reg .rcx - 1#64)

/-- One round of `.tx_loop`. -/
def tx_loop_round (c : Cpu) : Cpu :=
  let c := c.store64 (c.reg .r8) (c.reg .r9)
  let c := c.store8 (c.reg .r8 + descCmd) 0x0#8
  let c := c.store8 (c.reg .r8 + descStatus) TSTA_DD
  let c := c.set .r8 (c.reg .r8 + e1000_desc_size)
  let c := c.set .r9 (c.reg .r9 + e1000_packet_size)
  c.set .rcx (c.reg .rcx - 1#64)

/-- Load a ring and its packet area and fill the descriptors: `dec rcx`,
`cmp rcx, 0`, `jg`. -/
def fill_ring (desc packets : BitVec 64) (round : Cpu → Cpu) (c : Cpu) :
    Cpu :=
  let c := c.load64 .r8 desc
  let c := c.load64 .r9 packets
  let c := c.set .rcx e1000_desc_array_count
  Loop.doWhile (fun c => (0#64).slt (c.reg .rcx)) round 0x800 c

/-- `e1000_init_mem` up to its loops: the areas one after another from past
the memory in use. -/
def assign_areas (c : Cpu) : Cpu :=
  let c := (c.reads l.current_memory_address 8).store64
    l.current_memory_address
    (c.mem.read64 l.current_memory_address + 0x10000#64)
  let c := c.load64 .rax l.current_memory_address
  let c := assign_area l.e1000_rx_desc_ptr e1000_desc_array_size c
  let c := assign_area l.e1000_tx_desc_ptr e1000_desc_array_size c
  let c := assign_area l.e1000_rx_packets_ptr e1000_packet_area_size c
  let c := assign_area l.e1000_tx_packets_ptr e1000_packet_area_size c
  let c := assign_area l.e1000_recv_packet e1000_packet_size c
  let c := assign_area l.e1000_send_packet e1000_packet_size c
  c.store64 l.current_memory_address (c.reg .rax)

/-- `e1000_init_mem`. -/
def e1000_init_mem (c : Cpu) : Cpu :=
  let c := c.pushaq
  let c := assign_areas l c
  let c := fill_ring l.e1000_rx_desc_ptr l.e1000_rx_packets_ptr
    rx_loop_round c
  let c := fill_ring l.e1000_tx_desc_ptr l.e1000_tx_packets_ptr
    tx_loop_round c
  let c := print L l.e1000_mem_init_msg e1000_mem_init_msg c
  c.popaq

-- ========================================================= the registers

/-- `e1000_read_command`, where the card answers `answer`. -/
def e1000_read_command (answer : BitVec 32) (s : Nic) : Nic :=
  let s := s.run Cpu.pushaq
  let s :=
    if s.cpu.mem l.e1000_ioport_flag = 0x1#8 then
      let s := s.run fun c => load16 c .rdx l.e1000_io_base
      let s := s.run fun c => c.setLow16 .rax
        (c.low16 .rax + c.mem.read16 l.e1000_rw_address)
      let s := s.write (.port (s.cpu.low16 .rdx)) (s.cpu.low32 .rax)
      let s := s.run fun c => load16 c .rdx (l.e1000_io_base + 4#64)
      let s := s.run fun c => c.set .rax (answer.setWidth 64)
      s.run fun c => c.store32 l.e1000_rw_data
        (c.mem.read32 l.e1000_rw_data + c.low32 .rax)
    else
      let s := s.run fun c => c.set .rax 0#64
      let s := s.run fun c => load16 c .rax l.e1000_rw_address
      let s := s.run fun c => c.set .rax
        (c.reg .rax + c.mem.read64 l.e1000_vaddress)
      let s := s.run fun c => c.set .rbx 0#64
      let s := s.run fun c =>
        (c.reads (c.reg .rax) 4).set .rbx (answer.setWidth 64)
      s.run fun c => c.store32 l.e1000_rw_data (c.low32 .rbx)
  s.run Cpu.popaq

/-- `e1000_write_command`. -/
def e1000_write_command (s : Nic) : Nic :=
  let s := s.run Cpu.pushaq
  let s :=
    if s.cpu.mem l.e1000_ioport_flag = 0x1#8 then
      let s := s.run fun c => load16 c .rdx l.e1000_io_base
      let s := s.run fun c => c.setLow16 .rax
        (c.low16 .rax + c.mem.read16 l.e1000_rw_address)
      let s := s.write (.port (s.cpu.low16 .rdx)) (s.cpu.low32 .rax)
      let s := s.run fun c => load16 c .rdx (l.e1000_io_base + 4#64)
      let s := s.run fun c => c.set .rax
        ((c.low32 .rax + c.mem.read32 l.e1000_rw_data).setWidth 64)
      s.write (.port (s.cpu.low16 .rdx)) (s.cpu.low32 .rax)
    else
      let s := s.run fun c => c.set .rax 0#64
      let s := s.run fun c => load16 c .rax l.e1000_rw_address
      let s := s.run fun c => c.set .rax
        (c.reg .rax + c.mem.read64 l.e1000_vaddress)
      let s := s.run fun c => c.set .rbx 0#64
      let s := s.run fun c => load32 c .rbx l.e1000_rw_data
      s.write (.mmio (s.cpu.reg .rax)) (s.cpu.low32 .rbx)
  s.run Cpu.popaq

/-- `inc word [cur]`, and back to 0 from 0x800 on, by a doubleword. -/
def advance_index (cur : BitVec 64) (c : Cpu) : Cpu :=
  let c := (c.reads cur 2).store16 cur (c.mem.read16 cur + 1#16)
  if (c.mem.read16 cur).slt 0x800#16 then c else c.store32 cur 0x0#32

/-- Write the index, read as a doubleword, to a tail register. -/
def update_tail (reg : BitVec 16) (cur : BitVec 64) (s : Nic) : Nic :=
  let s := s.run fun c => c.store16 l.e1000_rw_address reg
  let s := s.run fun c => load32 c .r8 cur
  let s := s.run fun c => c.store32 l.e1000_rw_data (c.low32 .r8)
  e1000_write_command l s

-- ================================================================= sending

/-- The current transmit descriptor in R9, and the copy's operands. -/
def tx_operands (c : Cpu) : Cpu :=
  let c := c.set .r11 0#64
  let c := load16 c .r11 l.e1000_tx_cur
  let c := c.set .r11 (c.reg .r11 <<< 4)
  let c := c.set .r9 0#64
  let c := c.load64 .r9 l.e1000_tx_desc_ptr
  let c := c.set .r9 (c.reg .r9 + c.reg .r11)
  let c := c.set .rcx e1000_packet_size
  let c := c.load64 .rsi l.e1000_send_packet
  c.load64 .rdi (c.reg .r9)

/-- The descriptor in R9 filled in for the card. -/
def tx_describe (c : Cpu) : Cpu :=
  let c := c.store8 (c.reg .r9 + descStatus) 0x0#8
  let c := c.store8 (c.reg .r9 + descCmd) txCommand
  let c := load16 c .rbx l.e1000_send_packet_len
  c.store16 (c.reg .r9 + descLength) (c.low16 .rbx)

/-- `e1000_send_out_packet` up to the index: the packet into the buffer of
the current descriptor, the descriptor to the card. -/
def tx_fill (c : Cpu) : Cpu := tx_describe l (rep_movsb (tx_operands l c))

/-- `.loop`: look at the status until it is not zero. -/
def wait_sent : List Dma → Nic → Option Nic
  | [], _ => none
  | d :: ds, s =>
      let s := s.dma d
      let s := s.run fun c => c.reads (c.reg .r9 + descStatus) 1
      if s.cpu.mem (s.cpu.reg .r9 + descStatus) = 0x0#8 then wait_sent ds s
      else some s

/-- `e1000_send_out_packet`. -/
def e1000_send_out_packet (polls : List Dma) (s : Nic) : Option Nic := do
  let s := s.run Cpu.pushaq
  let s := s.run (tx_fill l)
  let s := { s.run (advance_index l.e1000_tx_cur) with sent := s.sent + 1 }
  let s := update_tail l REG_TXDESCTAIL l.e1000_tx_cur s
  let s ← wait_sent polls s
  let s := s.run (print L l.e1000_sent_packet_msg e1000_sent_packet_msg)
  return s.run Cpu.popaq

-- ================================================================ receiving

/-- `mov rcx, 6` and `rep movsb`, from `src` to `dst`. -/
def copy_hw_addr (dst src : BitVec 64) (c : Cpu) : Cpu :=
  let c := c.set .rsi src
  let c := c.set .rdi dst
  let c := c.set .rcx 0x6#64
  rep_movsb c

/-- The answer in the send buffer, from R8 with the request to R9. -/
def arp_reply (c : Cpu) : Cpu :=
  let c := copy_hw_addr (c.reg .r9) (c.reg .r8 + 6#64) c
  let c := copy_hw_addr (c.reg .r9 + 6#64) l.e1000_mac_address c
  let c := c.set .rax 0#64
  let c := load16 c .rax (c.reg .r8 + 12#64)
  let c := c.store16 (c.reg .r9 + 12#64) (c.low16 .rax)
  let c := c.setLow16 .rax ARPOP_REPLY
  let c := rol8 c .rax
  let c := c.store16 (c.reg .r9 + 20#64) (c.low16 .rax)
  let c := c.store16 (c.reg .r9 + 14#64) ARPHRD_ETHER
  let c := c.store16 (c.reg .r9 + 16#64) ETHERTYPE_IP
  let c := c.store8 (c.reg .r9 + 18#64) 0x6#8
  let c := c.store8 (c.reg .r9 + 19#64) 0x4#8
  let c := copy_hw_addr (c.reg .r9 + 32#64) (c.reg .r8 + 22#64) c
  let c := copy_hw_addr (c.reg .r9 + 22#64) l.e1000_mac_address c
  let c := load32 c .rax (c.reg .r8 + 28#64)
  let c := c.store32 (c.reg .r9 + 38#64) (c.low32 .rax)
  let c := load32 c .rax (c.reg .r8 + 38#64)
  let c := c.store32 (c.reg .r9 + 28#64) (c.low32 .rax)
  let c := load16 c .rbx l.e1000_recv_packet_len
  c.store16 l.e1000_send_packet_len (c.low16 .rbx)

/-- The word of the received packet at `off`, in host order. -/
def arp_field (off : BitVec 64) (c : Cpu) : Cpu :=
  rol8 (load16 c .rax (c.reg .r9 + off)) .rax

/-- `process_arp`, with the card's work while the answer is sent. -/
def process_arp (reply : List Dma) (s : Nic) : Option Nic := do
  let s := s.run Cpu.pushaq
  let s := s.run fun c => c.load64 .r9 l.e1000_recv_packet
  let s := s.run (arp_field 20#64)
  if s.cpu.low16 .rax ≠ ARPOP_REQUEST then return s.run Cpu.popaq
  let s := s.run (arp_field 14#64)
  if s.cpu.low16 .rax ≠ ARPHRD_ETHER then return s.run Cpu.popaq
  let s := s.run fun c => c.set .r8 0#64
  let s := s.run fun c => c.set .rbx 0#64
  let s := s.run fun c => load32 c .r8 (c.reg .r9 + 38#64)
  let s := s.run fun c => load32 c .rbx l.my_ip_address
  if s.cpu.reg .r8 ≠ s.cpu.reg .rbx then return s.run Cpu.popaq
  let s := s.run (print L l.my_ip_msg my_ip_msg)
  let s := s.run fun c => c.load64 .r8 l.e1000_recv_packet
  let s := s.run fun c => c.load64 .r9 l.e1000_send_packet
  let s := s.run (arp_reply l)
  let s ← e1000_send_out_packet l reply s
  return s.run Cpu.popaq

/-- `network_stack`. The call for IP packets is commented out, so both
other kinds of packet leave. -/
def network_stack (reply : List Dma) (s : Nic) : Option Nic := do
  let s := s.run Cpu.pushaq
  let s := s.run fun c => c.set .rdi 0#64
  let s := s.run fun c => load16 c .rdi (c.reg .r9 + 12#64)
  let s := s.run fun c => rol8 c .rdi
  if s.cpu.low16 .rdi = ETHERTYPE_ARP then
    let s ← process_arp l reply s
    return s.run Cpu.popaq
  else return s.run Cpu.popaq

/-- The card's part in one round of the receive loop: its work before the
status is looked at, and while an answer to the packet is sent. -/
structure Arrival where
  arrive : Dma
  reply : List Dma

/-- The current receive descriptor in R9, its status bit 0 in AL. -/
def rx_look (c : Cpu) : Cpu :=
  let c := c.set .r8 0#64
  let c := load16 c .r8 l.e1000_rx_cur
  let c := c.set .r8 (c.reg .r8 <<< 4)
  let c := c.set .r9 0#64
  let c := c.load64 .r9 l.e1000_rx_desc_ptr
  let c := c.set .r9 (c.reg .r9 + c.reg .r8)
  let c := c.set .rax 0#64
  let c := load8 c .rax (c.reg .r9 + descStatus)
  c.setLow8 .rax (c.low8 .rax &&& 0x1#8)

/-- The operands of the packet's copy. -/
def rx_operands (c : Cpu) : Cpu :=
  let c := c.set .rcx e1000_packet_size
  let c := c.set .rcx (c.reg .rcx >>> 8)
  let c := c.load64 .rsi (c.reg .r9)
  c.load64 .rdi l.e1000_recv_packet

/-- The length of the packet out of the descriptor in R9. -/
def rx_length (c : Cpu) : Cpu :=
  let c := load16 c .rbx (c.reg .r9 + descLength)
  c.store16 l.e1000_recv_packet_len (c.low16 .rbx)

/-- The packet and its length out of the descriptor's buffer. -/
def rx_fetch (c : Cpu) : Cpu := rx_length l (rep_movsq (rx_operands l c))

/-- `.loop`, over what the card does in its rounds. -/
def receive_loop : List Arrival → Nic → Option Nic
  | [], _ => none
  | r :: rs, s => do
      let s := s.dma r.arrive
      let s := s.run (rx_look l)
      if s.cpu.low8 .rax ≠ 0x1#8 then return s
      let s := s.run (rx_fetch l)
      let s ← network_stack l r.reply s
      let s := s.run fun c => c.store8 (c.reg .r9 + descStatus) 0x0#8
      let s := { s.run (advance_index l.e1000_rx_cur) with
        received := s.received + 1 }
      receive_loop rs s

/-- `e1000_process_packet`, where the card answers `head` for its head
register. -/
def e1000_process_packet (head : BitVec 32) (rounds : List Arrival)
    (s : Nic) : Option Nic := do
  let s := s.run Cpu.pushaq
  let s := s.run fun c => c.store16 l.e1000_rw_address REG_RXDESCHEAD
  let s := e1000_read_command l head s
  let s := s.run fun c => c.set .r8 0#64
  let s := s.run fun c => load32 c .r8 l.e1000_rw_data
  if s.cpu.low16 .r8 = s.cpu.mem.read16 l.e1000_rx_cur then
    return s.run Cpu.popaq
  let s ← receive_loop l rounds s
  let s := { s with updates := s.updates + 1 }
  let s := update_tail l REG_RXDESCTAIL l.e1000_rx_cur s
  return s.run Cpu.popaq

-- ==================================================================== calls

/-- What the kernel does: work of its own between the driver's calls, and a
call of one of the two routines with the registers it has then. -/
inductive NicCall
  | work (f : Mem → Mem)
  | send (regs : Reg → BitVec 64) (polls : List Dma)
  | process (regs : Reg → BitVec 64) (head : BitVec 32)
      (rounds : List Arrival)

/-- The registers at a call. -/
def Nic.at (s : Nic) (regs : Reg → BitVec 64) : Nic :=
  s.run fun c => { c with reg := regs }

def NicCall.run (s : Nic) : NicCall → Option Nic
  | .work f => some (s.dma f)
  | .send regs polls => e1000_send_out_packet l polls (s.at regs)
  | .process regs head rounds =>
      e1000_process_packet l head rounds (s.at regs)

end BootLoader.ThirdStage
