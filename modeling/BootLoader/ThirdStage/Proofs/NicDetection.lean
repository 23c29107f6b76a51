/-
`e1000_pci_config` and the header of the scan.

R9 is loaded from `pci_header`, so what is compared and recorded is the
memory at the pointer the header's first eight bytes make. What the
routine records is read off its instructions in the order they read and
write (`config_found`), since for a pointer into the driver's own
variables a field may be read after it was overwritten. Two facts bring
that to one memory: the header of a listed card makes a pointer far above
the variables (`pointer_far`), and a value that is recorded already is not
changed by recording it (`recordedCard_of_held`).

The detection is right exactly when the two headers agree on what matters,
or the variables hold by accident what is wanted (`detected_iff`).
-/
import BootLoader.ThirdStage.NicSetup
import BootLoader.ThirdStage.Proofs.NicCells

namespace BootLoader.ThirdStage

open FlatMemory Mem Words PCI_CONF_SPACE

variable {L : Layout} {l : SetupLabels L} {c d : Cpu} {m : Mem}
  {h : BitVec 64}

-- ============================================================== the property

/-- The variables of the detection. -/
@[ext] structure Card where
  e1000_flag : BitVec 8
  e1000_ioport_flag : BitVec 8
  e1000_mem_base : BitVec 64
  e1000_int_no : BitVec 8
  e1000_bus : BitVec 8
  e1000_device : BitVec 8
  e1000_function : BitVec 8

/-- What they hold. -/
def heldCard (l : SetupLabels L) (m : Mem) : Card where
  e1000_flag := m l.e1000_flag
  e1000_ioport_flag := m l.e1000_ioport_flag
  e1000_mem_base := m.read64 l.e1000_mem_base
  e1000_int_no := m l.e1000_int_no
  e1000_bus := m l.e1000_bus
  e1000_device := m l.e1000_device
  e1000_function := m l.e1000_function

/-- Which bits of a BAR0 are its flags, and where in a header the interrupt
line is. -/
structure HeaderFormat where
  flagBits : BitVec 32 → BitVec 32
  interruptLine : BitVec 64

/-- As the bus has it: two flag bits for ports and four for memory, and the
interrupt line at 0x3C. -/
def busFormat : HeaderFormat where
  flagBits := fun bar => if bar &&& 0x1#32 = 0x1#32 then 0x3#32 else 0xF#32
  interruptLine := 0x3C#64

/-- As `nic.asm` has it: two bits, and the line where `PCI_CONF_SPACE` puts
it. -/
def sourceFormat : HeaderFormat where
  flagBits := fun _ => 0x3#32
  interruptLine := int_line

/-- What the header in `pci_header` asks for. -/
def headerCard (f : HeaderFormat) (l : SetupLabels L) (m : Mem) : Card where
  e1000_flag := 0x1#8
  e1000_ioport_flag := m (l.pci.pci_header + bar0) &&& 0x1#8
  e1000_mem_base :=
    (m.read32 (l.pci.pci_header + bar0)
      &&& ~~~f.flagBits (m.read32 (l.pci.pci_header + bar0))).setWidth 64
  e1000_int_no := m (l.pci.pci_header + f.interruptLine)
  e1000_bus := m l.pci.bus
  e1000_device := m l.pci.device
  e1000_function := m l.pci.function

/-- A listed card is recorded as its header says, and nothing is recorded
for another function. -/
def Detected (f : HeaderFormat) (l : SetupLabels L) (c d : Cpu) : Prop :=
  heldCard l d.mem = if Found c.mem l.pci.pci_header
    then headerCard f l c.mem else heldCard l c.mem

-- ============================================================= the condition

/-- The memory once the port's base is recorded. -/
def portRecorded (l : SetupLabels L) (m : Mem) (h : BitVec 64) : Mem :=
  m.write16 l.e1000_io_base
    ((m.read32 (h + bar1) &&& ~~~0x1#32).extractLsb' 0 16)

/-- What a header at `h` asks for, the way `nic.asm` reads it. -/
def pointerCard (l : SetupLabels L) (m : Mem) (h : BitVec 64) : Card where
  e1000_flag := 0x1#8
  e1000_ioport_flag := m (h + bar0) &&& 0x1#8
  e1000_mem_base :=
    ((portRecorded l m h).read32 (h + bar0) &&& ~~~0x3#32).setWidth 64
  e1000_int_no := portRecorded l m h (h + int_line)
    ||| portRecorded l m h (h + int_pin)
  e1000_bus := m l.pci.bus
  e1000_device := m l.pci.device
  e1000_function := m l.pci.function

/-- The pointer of the header's first eight bytes leads to memory that says
what the header says, with the registers of the call saved; or only one of
the two names a card, and the variables hold what is wanted before. -/
def PointerAgrees (f : HeaderFormat) (l : SetupLabels L) (c : Cpu) : Prop :=
  let m := c.pushaq.mem
  let h := c.mem.read64 l.pci.pci_header
  if Found c.mem l.pci.pci_header then
    if Found m h then pointerCard l m h = headerCard f l c.mem
    else heldCard l c.mem = headerCard f l c.mem
  else Found m h → heldCard l c.mem = pointerCard l m h

-- ============================================================== the variables

theorem mem_base_add_toNat (l : NicLabels L) {n : Nat} (hn : n < 35) :
    (l.e1000_mem_base + BitVec.ofNat 64 n).toNat
      = l.e1000_mem_base.toNat + n := by
  have hbase := l.mem_base_in
  exact toNat_add_lit (by omega)

/-- The three bytes before `e1000_rx_cur`. -/
theorem saved_toNat (l : SetupLabels L) {n : Nat} (hlo : 1 ≤ n)
    (hhi : n ≤ 3) :
    (l.e1000_rx_cur - BitVec.ofNat 64 n).toNat = l.e1000_rx_cur.toNat - n := by
  have hsaved := l.saved_in
  have hlt := l.e1000_rx_cur.isLt
  rw [BitVec.toNat_sub_of_le]
  · rw [toNat_lit (by omega)]
  · rw [BitVec.le_def, toNat_lit (by omega)]
    omega

-- ============================================================== the recording

/-- The memory after the flag and after the port flag. -/
def flagsRecorded (l : SetupLabels L) (m : Mem) (h : BitVec 64) : Mem :=
  let m := m.write8 l.e1000_flag 0x1#8
  m.write8 l.e1000_ioport_flag (m (h + bar0) &&& 0x1#8)

/-- The memory after the base. -/
def baseRecorded (l : SetupLabels L) (m : Mem) (h : BitVec 64) : Mem :=
  let m := portRecorded l (flagsRecorded l m h) h
  m.write64 l.e1000_mem_base
    ((m.read32 (h + bar0) &&& ~~~0x3#32).setWidth 64)

theorem record_header_mem (hr9 : c.reg .r9 = h) :
    (record_header l c).mem
      = (baseRecorded l c.mem h).write8 l.e1000_int_no
        (baseRecorded l c.mem h (h + int_line)
          ||| baseRecorded l c.mem h (h + int_pin)) := by
  subst hr9
  unfold record_header baseRecorded portRecorded flagsRecorded
  simp only [load8, load32, Cpu.setLow8, Cpu.low8, Cpu.low16, Cpu.low32,
    Cpu.set_reg, Cpu.reads_reg, Cpu.store8_reg, Cpu.store16_reg,
    Cpu.store64_reg, Cpu.set_mem, Cpu.reads_mem, Cpu.store8_mem,
    Cpu.store16_mem, Cpu.store64_mem, reduceCtorEq, if_false, if_true,
    BitVec.extractLsb'_append_eq_right, low32_zeroExtend, low16_zeroExtend]

theorem record_header_rsp (l : SetupLabels L) (c : Cpu) :
    (record_header l c).reg .rsp = c.reg .rsp := by
  unfold record_header
  simp only [load8, load32, Cpu.setLow8, Cpu.set_reg, Cpu.reads_reg,
    Cpu.store8_reg, Cpu.store16_reg, Cpu.store64_reg, reduceCtorEq, if_false]

/-- The card as its fields are read, one after the other. -/
def recordedCard (l : SetupLabels L) (m : Mem) (h : BitVec 64) : Card where
  e1000_flag := 0x1#8
  e1000_ioport_flag := m.write8 l.e1000_flag 0x1#8 (h + bar0) &&& 0x1#8
  e1000_mem_base :=
    ((portRecorded l (flagsRecorded l m h) h).read32 (h + bar0)
      &&& ~~~0x3#32).setWidth 64
  e1000_int_no := baseRecorded l m h (h + int_line)
    ||| baseRecorded l m h (h + int_pin)
  e1000_bus := m l.pci.bus
  e1000_device := m l.pci.device
  e1000_function := m l.pci.function

/-- The four fields recorded, and nothing past the driver's variables. -/
theorem record_header_spec (hr9 : c.reg .r9 = h) :
    (record_header l c).mem l.e1000_flag = 0x1#8
      ∧ (record_header l c).mem l.e1000_ioport_flag
        = (recordedCard l c.mem h).e1000_ioport_flag
      ∧ (record_header l c).mem.read64 l.e1000_mem_base
        = (recordedCard l c.mem h).e1000_mem_base
      ∧ (record_header l c).mem l.e1000_int_no
        = (recordedCard l c.mem h).e1000_int_no
      ∧ ∀ a : BitVec 64, a.toNat < l.e1000_mem_base.toNat
          ∨ l.e1000_mem_base.toNat + 35 ≤ a.toNat →
        (record_header l c).mem a = c.mem a := by
  have hbase := l.mem_base_in
  have hflag : l.e1000_flag.toNat = l.e1000_mem_base.toNat + 24 :=
    mem_base_add_toNat l.toNicLabels (by omega)
  have hport : l.e1000_ioport_flag.toNat = l.e1000_mem_base.toNat + 25 :=
    ioport_flag_toNat l.toNicLabels
  have hio : l.e1000_io_base.toNat = l.e1000_mem_base.toNat + 14 :=
    mem_base_add_toNat l.toNicLabels (by omega)
  have hint : l.e1000_int_no.toNat = l.e1000_mem_base.toNat + 33 :=
    mem_base_add_toNat l.toNicLabels (by omega)
  -- a byte that none of the later stores meets
  have hout8 : ∀ (m : Mem) (a b : BitVec 64) (v : BitVec 8),
      a.toNat < 0x20000 → a.toNat ≠ b.toNat → m.write8 a v b = m b :=
    fun m a b v ha hne => write_apply_of_out (n := 1) m v (by omega)
      (by omega)
  have hout16 : ∀ (m : Mem) (b : BitVec 64) (v : BitVec 16),
      b.toNat < l.e1000_io_base.toNat ∨ l.e1000_io_base.toNat + 2 ≤ b.toNat →
      m.write16 l.e1000_io_base v b = m b :=
    fun m b v hb => write_apply_of_out (n := 2) m v (by omega) hb
  have hout64 : ∀ (m : Mem) (b : BitVec 64) (v : BitVec 64),
      b.toNat < l.e1000_mem_base.toNat
        ∨ l.e1000_mem_base.toNat + 8 ≤ b.toNat →
      m.write64 l.e1000_mem_base v b = m b :=
    fun m b v hb => write_apply_of_out (n := 8) m v (by omega) hb
  rw [record_header_mem hr9]
  refine ⟨?_, ?_, ?_, write8_self _ _ _, ?_⟩
  · rw [hout8 _ _ _ _ (by omega) (by omega)]
    unfold baseRecorded portRecorded flagsRecorded
    rw [hout64 _ _ _ (by omega), hout16 _ _ _ (by omega),
      hout8 _ _ _ _ (by omega) (by omega)]
    exact write8_self _ _ _
  · rw [hout8 _ _ _ _ (by omega) (by omega)]
    unfold baseRecorded portRecorded flagsRecorded
    rw [hout64 _ _ _ (by omega), hout16 _ _ _ (by omega)]
    exact write8_self _ _ _
  · refine Eq.trans (read_write_of_disjoint (n := 1) (k := 8) _ _ (by omega)
      (by omega) (by omega)) ?_
    exact read64_write64_self _ _ _
  · intro a ha
    rw [hout8 _ _ _ _ (by omega) (by omega)]
    unfold baseRecorded portRecorded flagsRecorded
    rw [hout64 _ _ _ (by omega), hout16 _ _ _ (by omega),
      hout8 _ _ _ _ (by omega) (by omega),
      hout8 _ _ _ _ (by omega) (by omega)]

/-- `copy_byte` in memory. -/
theorem copy_byte_mem (dst src : BitVec 64) (c : Cpu) :
    (copy_byte dst src c).mem = c.mem.write8 dst (c.mem src) := by
  show c.mem.write8 dst (((c.reads src 1).setLow8 .rax (c.mem src)).low8 .rax)
    = _
  rw [Cpu.low8_setLow8]

/-- The position saved, and nothing else. -/
theorem save_position_spec (l : SetupLabels L) (c : Cpu) :
    (save_position l c).mem l.e1000_bus = c.mem l.pci.bus
      ∧ (save_position l c).mem l.e1000_device = c.mem l.pci.device
      ∧ (save_position l c).mem l.e1000_function = c.mem l.pci.function
      ∧ ∀ a : BitVec 64, a.toNat < l.e1000_rx_cur.toNat - 3
          ∨ l.e1000_rx_cur.toNat ≤ a.toNat →
        (save_position l c).mem a = c.mem a := by
  have hcells := l.rx_cur_in
  have hsaved := l.saved_in
  have hbus : l.e1000_bus.toNat = l.e1000_rx_cur.toNat - 3 :=
    saved_toNat l (by omega) (by omega)
  have hdevice : l.e1000_device.toNat = l.e1000_rx_cur.toNat - 2 :=
    saved_toNat l (by omega) (by omega)
  have hfunction : l.e1000_function.toNat = l.e1000_rx_cur.toNat - 1 :=
    saved_toNat l (by omega) (by omega)
  have hpos : ∀ a ∈ [l.pci.bus, l.pci.device, l.pci.function],
      a.toNat < l.e1000_rx_cur.toNat - 3 ∨ l.e1000_rx_cur.toNat ≤ a.toNat :=
    fun a ha => (l.position_apart a ha).2.1
  have hposd := hpos l.pci.device (by simp)
  have hposf := hpos l.pci.function (by simp)
  have hout : ∀ (m : Mem) (a b : BitVec 64) (v : BitVec 8),
      a.toNat < 0x20000 → a.toNat ≠ b.toNat → m.write8 a v b = m b :=
    fun m a b v ha hne => write_apply_of_out (n := 1) m v (by omega)
      (by omega)
  unfold save_position
  dsimp only
  rw [copy_byte_mem, copy_byte_mem, copy_byte_mem]
  refine ⟨?_, ?_, ?_, ?_⟩
  · rw [hout _ _ _ _ (by omega) (by omega), hout _ _ _ _ (by omega) (by omega)]
    exact write8_self _ _ _
  · rw [hout _ _ _ _ (by omega) (by omega), write8_self]
    exact hout _ _ _ _ (by omega) (by omega)
  · rw [write8_self, hout _ _ _ _ (by omega) (by omega)]
    exact hout _ _ _ _ (by omega) (by omega)
  · intro a ha
    rw [hout _ _ _ _ (by omega) (by omega),
      hout _ _ _ _ (by omega) (by omega)]
    exact hout _ _ _ _ (by omega) (by omega)

-- ================================================================ the routine

/-- Variables of the image are apart from what a register save writes. -/
theorem heldCard_pushaq (hs : StackOk c) :
    heldCard l c.pushaq.mem = heldCard l c.mem := by
  obtain ⟨hlo, hhi⟩ := hs
  obtain ⟨-, -, hpush, -⟩ := Cpu.pushaq_spec (c := c) (by omega)
  have hbase := l.mem_base_in
  have hsaved := l.saved_in
  have hbyte : ∀ n, n < 35 →
      c.pushaq.mem (l.e1000_mem_base + BitVec.ofNat 64 n)
        = c.mem (l.e1000_mem_base + BitVec.ofNat 64 n) := by
    intro n hn
    have haddr := mem_base_add_toNat l.toNicLabels hn
    exact hpush _ (Or.inr (by omega))
  have hpos : ∀ n, 1 ≤ n → n ≤ 3 →
      c.pushaq.mem (l.e1000_rx_cur - BitVec.ofNat 64 n)
        = c.mem (l.e1000_rx_cur - BitVec.ofNat 64 n) := by
    intro n hn hn'
    have haddr := saved_toNat l hn hn'
    exact hpush _ (Or.inr (by omega))
  ext1
  · exact hbyte 24 (by omega)
  · exact hbyte 25 (by omega)
  · exact pushaq_read (n := 8) ⟨hlo, hhi⟩ (by omega) (by omega)
  · exact hbyte 33 (by omega)
  · exact hpos 3 (by omega) (by omega)
  · exact hpos 2 (by omega) (by omega)
  · exact hpos 1 (by omega) (by omega)

/-- R9 is what the header's first eight bytes make. -/
theorem header_pointer (hs : StackOk c) :
    (c.pushaq.load64 .r9 l.pci.pci_header).reg .r9
      = c.mem.read64 l.pci.pci_header := by
  have hin := l.pci.header_in
  unfold imageEnd at hin
  exact (Cpu.set_reg_self _ _ _).trans
    (pushaq_read (n := 8) hs (by omega) (by omega))

/-- Nothing is recorded where the pointer leads to no listed card. -/
theorem config_missed (hs : StackOk c) (hfound : ¬ Found c.pushaq.mem
    (c.mem.read64 l.pci.pci_header)) :
    heldCard l (e1000_pci_config l c).mem = heldCard l c.mem := by
  have hptr := header_pointer (l := l) hs
  unfold e1000_pci_config
  dsimp only
  rw [Cpu.popaq_mem, hptr, Cpu.load64_mem, if_neg hfound]
  exact heldCard_pushaq hs

/-- What is recorded where it leads to one. -/
theorem config_found (hs : StackRoom 120 c) (hfound : Found c.pushaq.mem
    (c.mem.read64 l.pci.pci_header)) :
    heldCard l (e1000_pci_config l c).mem
      = recordedCard l c.pushaq.mem (c.mem.read64 l.pci.pci_header) := by
  have hptr := header_pointer (l := l) hs.stackOk
  unfold e1000_pci_config
  dsimp only
  rw [Cpu.popaq_mem, hptr, Cpu.load64_mem, if_pos hfound]
  have hroom : StackRoom 0 c.pushaq := StackRoom.pushaq (n := 0) hs
  generalize he : c.pushaq.load64 .r9 l.pci.pci_header = e at hptr ⊢
  have hemem : e.mem = c.pushaq.mem := by rw [← he]; rfl
  have hersp : e.reg .rsp = c.pushaq.reg .rsp := by rw [← he]; rfl
  rw [← hemem]
  generalize c.mem.read64 l.pci.pci_header = h at hptr ⊢
  obtain ⟨hflag, hport, hbar, hint, hrest⟩ := record_header_spec (l := l) hptr
  have hrsp := record_header_rsp l e
  generalize record_header l e = d at *
  -- the message keeps the image
  have hsd : StackOk d := by
    have hok := hroom.stackOk
    unfold StackOk at hok ⊢
    rw [hrsp, hersp]
    exact hok
  have hmsg : ∀ a : BitVec 64, 0x10000 ≤ a.toNat → a.toNat < 0x20000 →
      a.toNat < L.start_location.toNat
        ∨ L.start_location.toNat + 2 ≤ a.toNat →
      (print L l.found_intel_e1000_msg found_intel_e1000_msg d).mem a
        = d.mem a := by
    intro a hlo hhi hcursor
    have hsp := hsd.2
    exact print_frame hsd (l.setup_strings_in _ (by simp))
      (by decide +kernel) (Or.inl (by omega)) hcursor (Or.inr (by omega))
  generalize print L l.found_intel_e1000_msg found_intel_e1000_msg d = e'
    at hmsg ⊢
  obtain ⟨hbus, hdevice, hfunction, hsave⟩ := save_position_spec l e'
  generalize save_position l e' = e'' at *
  have hbase := l.mem_base_in
  have hcells := l.rx_cur_in
  have hsaved := l.saved_in
  have hapart := l.saved_apart
  have hcursor := l.cursor_apart l.e1000_mem_base (Or.inl rfl)
  have hbyte : ∀ n, n < 35 →
      e''.mem (l.e1000_mem_base + BitVec.ofNat 64 n)
        = d.mem (l.e1000_mem_base + BitVec.ofNat 64 n) := by
    intro n hn
    have haddr := mem_base_add_toNat l.toNicLabels hn
    rw [hsave _ (by omega)]
    exact hmsg _ (by omega) (by omega) (by omega)
  have hposition : ∀ a ∈ [l.pci.bus, l.pci.device, l.pci.function],
      0x10000 ≤ a.toNat → a.toNat < imageEnd → e'.mem a = e.mem a := by
    intro a ha hlo hhi
    obtain ⟨hvars, -, hcur⟩ := l.position_apart a ha
    unfold imageEnd at hhi
    rw [hmsg a hlo (by omega) hcur]
    exact hrest a hvars
  have hbus_in := l.pci.bus_in
  have hdevice_in := l.pci.device_in
  have hfunction_in := l.pci.function_in
  ext1
  · exact (hbyte 24 (by omega)).trans hflag
  · exact (hbyte 25 (by omega)).trans hport
  · refine Eq.trans ?_ hbar
    refine read_congr_bytes (n := 8) (by omega) fun a ha ha' => ?_
    rw [hsave _ (by omega)]
    exact hmsg _ (by omega) (by omega) (by omega)
  · exact (hbyte 33 (by omega)).trans hint
  · exact hbus.trans (hposition _ (by simp) hbus_in.1 hbus_in.2)
  · exact hdevice.trans (hposition _ (by simp) hdevice_in.1 hdevice_in.2)
  · exact hfunction.trans
      (hposition _ (by simp) hfunction_in.1 hfunction_in.2)

-- ============================================================== the pointers

/-- The first eight bytes of a listed card's header are an address far
above the image. -/
theorem pointer_far {a : BitVec 64} (hfound : Found m a) :
    0x10000000 ≤ (m.read64 a).toNat
      ∧ (m.read64 a).toNat + 0x40 ≤ 2 ^ 64 := by
  have hvendor : m.read16 (a + vendor_id) = (m.read64 a).extractLsb' 0 16 :=
    read_part m a (n := 8) (k := 0) (j := 2) (by omega)
  have hdevice : m.read16 (a + device_id) = (m.read64 a).extractLsb' 16 16 :=
    read_part m a (n := 8) (k := 2) (j := 2) (by omega)
  obtain ⟨hv, hd⟩ := hfound
  rw [hvendor] at hv
  rw [hdevice] at hd
  generalize m.read64 a = x at hv hd ⊢
  have hlt := x.isLt
  have hlow : x.toNat % 2 ^ 16 = 0x8086 := by
    have hnat := congrArg BitVec.toNat hv
    rwa [BitVec.extractLsb'_toNat, Nat.shiftRight_zero] at hnat
  have hhigh : 0x1000 ≤ x.toNat / 2 ^ 16 % 2 ^ 16
      ∧ x.toNat / 2 ^ 16 % 2 ^ 16 ≤ 0x1600 := by
    rw [← Nat.shiftRight_eq_div_pow, ← BitVec.extractLsb'_toNat]
    rcases hd with hd | hd | hd | hd | hd <;> rw [hd] <;> decide
  omega

/-- Nothing the recording writes is at such an address. -/
theorem recordedCard_far (hlo : 0x10000000 ≤ h.toNat)
    (hhi : h.toNat + 0x40 ≤ 2 ^ 64) :
    recordedCard l m h = pointerCard l m h := by
  have hbase := l.mem_base_in
  have hflag : l.e1000_flag.toNat = l.e1000_mem_base.toNat + 24 :=
    mem_base_add_toNat l.toNicLabels (by omega)
  have hport : l.e1000_ioport_flag.toNat = l.e1000_mem_base.toNat + 25 :=
    ioport_flag_toNat l.toNicLabels
  have hio : l.e1000_io_base.toNat = l.e1000_mem_base.toNat + 14 :=
    mem_base_add_toNat l.toNicLabels (by omega)
  have hoff : ∀ n, n < 0x40 → (h + BitVec.ofNat 64 n).toNat = h.toNat + n :=
    fun n hn => toNat_add_lit (by omega)
  have h₁ : (h + bar0).toNat = h.toNat + 0x10 := hoff _ (by omega)
  have h₂ : (h + bar1).toNat = h.toNat + 0x14 := hoff _ (by omega)
  have h₃ : (h + int_line).toNat = h.toNat + 0x30 := hoff _ (by omega)
  have h₄ : (h + int_pin).toNat = h.toNat + 0x31 := hoff _ (by omega)
  have hflags : ∀ a : BitVec 64, 0x10000000 ≤ a.toNat →
      flagsRecorded l m h a = m a := by
    intro a ha
    unfold flagsRecorded
    exact (write_apply_of_out (n := 1) _ _ (by omega) (by omega)).trans
      (write_apply_of_out (n := 1) _ _ (by omega) (by omega))
  have hbar1 : (flagsRecorded l m h).read32 (h + bar1)
      = m.read32 (h + bar1) :=
    read_congr_bytes (n := 4) (by omega) fun a ha _ => hflags a (by omega)
  have hports : ∀ a : BitVec 64, 0x10000000 ≤ a.toNat →
      portRecorded l (flagsRecorded l m h) h a = portRecorded l m h a := by
    intro a ha
    unfold portRecorded
    rw [hbar1]
    exact (write_apply_of_out (n := 2) _ _ (by omega) (by omega)).trans
      ((hflags a ha).trans
        (write_apply_of_out (n := 2) _ _ (by omega) (by omega)).symm)
  have hbases : ∀ a : BitVec 64, 0x10000000 ≤ a.toNat →
      baseRecorded l m h a = portRecorded l m h a := by
    intro a ha
    unfold baseRecorded
    exact (write_apply_of_out (n := 8) _ _ (by omega) (by omega)).trans
      (hports a ha)
  ext1
  · rfl
  · show m.write8 _ _ (h + bar0) &&& _ = m (h + bar0) &&& _
    rw [show m.write8 l.e1000_flag 0x1#8 (h + bar0) = m (h + bar0) from
      write_apply_of_out (n := 1) _ _ (by omega) (by omega)]
  · have hbar0 : (portRecorded l (flagsRecorded l m h) h).read32 (h + bar0)
        = (portRecorded l m h).read32 (h + bar0) :=
      read_congr_bytes (n := 4) (by omega) fun a ha _ => hports a (by omega)
    unfold recordedCard pointerCard
    dsimp only
    rw [hbar0]
  · unfold recordedCard pointerCard
    dsimp only
    rw [hbases _ (by omega), hbases _ (by omega)]
  · rfl
  · rfl
  · rfl

/-- What is held already stays as it is, and so does what is read after
it. -/
theorem recordedCard_of_held (hflag : m l.e1000_flag = 0x1#8)
    (hport : m l.e1000_ioport_flag = m (h + bar0) &&& 0x1#8)
    (hbase : m.read64 l.e1000_mem_base
      = ((portRecorded l m h).read32 (h + bar0) &&& ~~~0x3#32).setWidth 64) :
    recordedCard l m h = pointerCard l m h := by
  have hin := l.mem_base_in
  have hio : l.e1000_io_base.toNat = l.e1000_mem_base.toNat + 14 :=
    mem_base_add_toNat l.toNicLabels (by omega)
  have hwritten : m.write8 l.e1000_flag 0x1#8 = m := write8_of_eq hflag
  have hflags : flagsRecorded l m h = m := by
    unfold flagsRecorded
    rw [hwritten]
    exact write8_of_eq hport
  have hbar : (portRecorded l m h).read64 l.e1000_mem_base
      = m.read64 l.e1000_mem_base :=
    read_write_of_disjoint (n := 2) (k := 8) _ _ (by omega) (by omega)
      (by omega)
  have hbases : baseRecorded l m h = portRecorded l m h := by
    unfold baseRecorded
    dsimp only
    rw [hflags, ← hbase, ← hbar]
    exact write_read_self _ _ 8
  unfold recordedCard pointerCard
  rw [hwritten, hflags, hbases]

/-- So a card that is not to be recorded leaves the variables as they were
exactly when they hold it. -/
theorem recordedCard_held_iff :
    recordedCard l m h = heldCard l m ↔ heldCard l m = pointerCard l m h := by
  constructor
  · intro heq
    have hflag : m l.e1000_flag = 0x1#8 :=
      (congrArg Card.e1000_flag heq).symm
    have hport : m.write8 l.e1000_flag 0x1#8 (h + bar0) &&& 0x1#8
        = m l.e1000_ioport_flag := congrArg Card.e1000_ioport_flag heq
    have hbase : ((portRecorded l (flagsRecorded l m h) h).read32 (h + bar0)
        &&& ~~~0x3#32).setWidth 64 = m.read64 l.e1000_mem_base :=
      congrArg Card.e1000_mem_base heq
    rw [write8_of_eq hflag] at hport
    have hflags : flagsRecorded l m h = m := by
      unfold flagsRecorded
      rw [write8_of_eq hflag]
      exact write8_of_eq hport.symm
    rw [hflags] at hbase
    exact heq.symm.trans
      (recordedCard_of_held hflag hport.symm hbase.symm)
  · intro heq
    rw [recordedCard_of_held (congrArg Card.e1000_flag heq)
      (congrArg Card.e1000_ioport_flag heq)
      (congrArg Card.e1000_mem_base heq)]
    exact heq.symm

-- =============================================================== the result

/-- The detection is right exactly when the pointer agrees with the
header. -/
theorem detected_iff (f : HeaderFormat) (l : SetupLabels L) (c : Cpu)
    (hs : StackRoom 120 c) :
    Detected f l c (e1000_pci_config l c) ↔ PointerAgrees f l c := by
  have hheld := heldCard_pushaq (l := l) hs.stackOk
  have hin := l.pci.header_in
  unfold imageEnd at hin
  unfold Detected PointerAgrees
  dsimp only
  by_cases hheader : Found c.mem l.pci.pci_header
  · rw [if_pos hheader, if_pos hheader]
    by_cases hpointer : Found c.pushaq.mem (c.mem.read64 l.pci.pci_header)
    · obtain ⟨hlo, hhi⟩ := pointer_far hheader
      rw [if_pos hpointer, config_found hs hpointer,
        recordedCard_far hlo hhi]
    · rw [if_neg hpointer, config_missed hs.stackOk hpointer]
  · rw [if_neg hheader, if_neg hheader]
    by_cases hpointer : Found c.pushaq.mem (c.mem.read64 l.pci.pci_header)
    · rw [config_found hs hpointer, ← hheld, recordedCard_held_iff]
      exact ⟨fun heq _ => heq, fun heq => heq hpointer⟩
    · rw [config_missed hs.stackOk hpointer]
      exact ⟨fun _ hfound => absurd hfound hpointer, fun _ => rfl⟩

-- ============================================================== two machines

/-- The header of an 82540EM with nothing configured. -/
theorem found_of_read64 {a : BitVec 64} (ha : m.read64 a = 0x100E8086#64) :
    Found m a := by
  have hvendor : m.read16 (a + vendor_id) = (m.read64 a).extractLsb' 0 16 :=
    read_part m a (n := 8) (k := 0) (j := 2) (by omega)
  have hdevice : m.read16 (a + device_id) = (m.read64 a).extractLsb' 16 16 :=
    read_part m a (n := 8) (k := 2) (j := 2) (by omega)
  unfold Found
  rw [hvendor, hdevice, ha]
  decide

/-- A call with that header over the memory `m`. -/
def headerOver (m : Mem) : Cpu where
  reg := fun _ => 0xB000#64
  mem := m.write64 assembledPci.pci_header 0x100E8086#64
  log := []

theorem headerOver_stack (m : Mem) : StackRoom 120 (headerOver m) :=
  ⟨by show 0x5100 + 120 ≤ (0xB000#64).toNat; decide,
    by show (0xB000#64).toNat ≤ 0x10000; decide⟩

theorem headerOver_read (m : Mem) :
    (headerOver m).mem.read64 assembledPci.pci_header = 0x100E8086#64 :=
  read64_write64_self _ _ _

theorem headerOver_mem (m : Mem) {a : BitVec 64}
    (ha : a.toNat < 0x10A61 ∨ 0x10A69 ≤ a.toNat) :
    (headerOver m).mem a = m a := by
  have hheader : assembledPci.pci_header.toNat = 0x10A61 := rfl
  exact write_apply_of_out (n := 8) m _ (by omega) (by omega)

/-- Memory where the pointer of that header leads to its copy. -/
def copyAtPointer : Mem :=
  write64 (fun _ => 0x0#8) 0x100E8086#64 0x100E8086#64

theorem copyAtPointer_zero {a : BitVec 64}
    (ha : a.toNat < 0x100E8086 ∨ 0x100E808E ≤ a.toNat) :
    copyAtPointer a = 0x0#8 := by
  have hbase : (0x100E8086#64).toNat = 0x100E8086 := rfl
  exact write_apply_of_out (n := 8) (fun _ => 0x0#8) _ (by omega) (by omega)

theorem pointerAgrees_copy :
    PointerAgrees busFormat setupLabels (headerOver copyAtPointer) := by
  have hs := (headerOver_stack copyAtPointer).stackOk
  have hread := headerOver_read copyAtPointer
  have hcalled : ∀ a : BitVec 64, a.toNat < 0x10A61 ∨ 0x10A69 ≤ a.toNat →
      a.toNat < 0x100E8086 ∨ 0x100E808E ≤ a.toNat →
      (headerOver copyAtPointer).mem a = 0x0#8 :=
    fun a ha ha' => (headerOver_mem _ ha).trans (copyAtPointer_zero ha')
  have hsaved : ∀ a : BitVec 64, 0x10000 ≤ a.toNat →
      (headerOver copyAtPointer).pushaq.mem a
        = (headerOver copyAtPointer).mem a := by
    intro a hlo
    obtain ⟨hsp, hsp'⟩ := id hs
    obtain ⟨-, -, hpush, -⟩ := Cpu.pushaq_spec
      (c := headerOver copyAtPointer) (by omega)
    exact hpush a (Or.inr (by omega))
  have hcopy : (headerOver copyAtPointer).pushaq.mem.read64 0x100E8086#64
      = 0x100E8086#64 := by
    refine Eq.trans (read_congr_bytes (m := copyAtPointer) (n := 8)
      (by decide) fun a ha _ => ?_) (read64_write64_self _ _ _)
    have hbase : (0x100E8086#64).toNat = 0x100E8086 := rfl
    exact (hsaved a (by omega)).trans (headerOver_mem _ (by omega))
  generalize headerOver copyAtPointer = c at *
  unfold PointerAgrees
  dsimp only
  have hptr : c.mem.read64 setupLabels.pci.pci_header = 0x100E8086#64 := hread
  rw [hptr, if_pos (found_of_read64 hptr), if_pos (found_of_read64 hcopy)]
  -- the rest of both headers is zero
  have hio : setupLabels.e1000_io_base.toNat = 0x1200E := rfl
  have hfield : ∀ a : BitVec 64, 0x100E808E ≤ a.toNat →
      portRecorded setupLabels c.pushaq.mem 0x100E8086#64 a = 0x0#8 := by
    intro a ha
    unfold portRecorded
    refine (write_apply_of_out (n := 2) _ _ (by omega) (by omega)).trans ?_
    exact (hsaved a (by omega)).trans (hcalled a (by omega) (by omega))
  have hbus := hsaved setupLabels.pci.bus setupLabels.pci.bus_in.1
  have hdevice := hsaved setupLabels.pci.device setupLabels.pci.device_in.1
  have hfunction :=
    hsaved setupLabels.pci.function setupLabels.pci.function_in.1
  have hbar : (portRecorded setupLabels c.pushaq.mem 0x100E8086#64).read32
      (0x100E8086#64 + bar0) = 0#32 :=
    read_congr_bytes (m := fun _ => 0x0#8) (n := 4) (by decide)
      fun a ha _ => hfield a (Nat.le_trans (by decide) ha)
  have hbar' : c.mem.read32 (setupLabels.pci.pci_header + bar0) = 0#32 := by
    have haddr : (setupLabels.pci.pci_header + bar0).toNat = 0x10A71 := rfl
    exact read_congr_bytes (m := fun _ => 0x0#8) (n := 4) (by decide)
      fun a ha ha' => hcalled a (by omega) (by omega)
  ext1
  · rfl
  · show c.pushaq.mem _ &&& _ = c.mem _ &&& _
    rw [hsaved _ (by decide), hcalled _ (by decide) (by decide),
      hcalled _ (by decide) (by decide)]
  · unfold pointerCard headerCard
    dsimp only
    rw [hbar, hbar']
    decide
  · show portRecorded _ _ _ _ ||| portRecorded _ _ _ _ = c.mem _
    rw [hfield _ (by decide), hfield _ (by decide),
      hcalled _ (by decide) (by decide)]
    decide
  · unfold pointerCard headerCard
    dsimp only
    exact hbus
  · unfold pointerCard headerCard
    dsimp only
    exact hdevice
  · unfold pointerCard headerCard
    dsimp only
    exact hfunction

/-- The instance with the header's copy where its pointer leads. -/
theorem detected_iff_sample :
    Detected busFormat setupLabels (headerOver copyAtPointer)
      (e1000_pci_config setupLabels (headerOver copyAtPointer)) :=
  (detected_iff busFormat setupLabels (headerOver copyAtPointer)
    (headerOver_stack _)).2 pointerAgrees_copy

/-- Over cleared memory the card is missed. -/
theorem card_missed : ¬ ∀ (L : Layout) (l : SetupLabels L) (c : Cpu),
    StackRoom 120 c → Detected busFormat l c (e1000_pci_config l c) := by
  intro hall
  have hs := headerOver_stack fun _ => 0x0#8
  have hdetected := hall assembledLayout setupLabels _ hs
  have hptr : (headerOver fun _ => 0x0#8).mem.read64
      setupLabels.pci.pci_header = 0x100E8086#64 := headerOver_read _
  have hflag : (headerOver fun _ => 0x0#8).mem setupLabels.e1000_flag
      = 0x0#8 := headerOver_mem _ (by decide)
  have hmissed : ¬ Found (headerOver fun _ => 0x0#8).pushaq.mem
      ((headerOver fun _ => 0x0#8).mem.read64
        setupLabels.pci.pci_header) := by
    have hzero : (headerOver fun _ => 0x0#8).pushaq.mem.read16
        (0x100E8086#64 + vendor_id) = 0#16 := by
      refine (pushaq_read (n := 2) hs.stackOk (by decide) (by decide)).trans ?_
      refine read_congr_bytes (m := fun _ => 0x0#8) (n := 2) (by decide)
        fun a ha _ => headerOver_mem _ ?_
      have hbase : (0x100E8086#64 + vendor_id).toNat = 0x100E8086 := rfl
      omega
    rw [hptr]
    rintro ⟨hvendor, -⟩
    exact absurd (hzero.symm.trans hvendor) (by decide)
  unfold Detected at hdetected
  rw [config_missed hs.stackOk hmissed, if_pos (found_of_read64 hptr)]
    at hdetected
  exact absurd (hflag.symm.trans (congrArg Card.e1000_flag hdetected))
    (by decide)

end BootLoader.ThirdStage
