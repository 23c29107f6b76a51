/-
The two ways to the card's registers compared.

Through ports, the commands put `eax` with the register's offset added to
its low word on the address port, with whatever the caller left in `eax`;
they take the data port from the word four bytes after `e1000_io_base`,
which is in the middle of `e1000_vaddress`; they write the data added to
the offset, and add what they read to what `e1000_rw_data` held. The two
ways agree only where each of these makes no difference.
-/
import BootLoader.ThirdStage.NicAccess
import BootLoader.ThirdStage.Proofs.NicRuns

namespace BootLoader.ThirdStage

open FlatMemory Mem Words

variable {L : Layout} {l : NicLabels L} {s : Nic}

-- =========================================================== what is wanted

/-- The same machine with its card in memory. -/
def inMemory (l : NicLabels L) (s : Nic) : Nic :=
  s.run fun c => { c with mem := c.mem.write8 l.e1000_ioport_flag 0x0#8 }

/-- The register an access names. -/
def named (l : NicLabels L) (m : Mem) : BitVec 32 :=
  (m.read16 l.e1000_rw_address).setWidth 32

/-- The write agrees with the one through memory: the data goes into the
named register and nothing else changes. -/
def WriteAgrees (l : NicLabels L) (s : Nic) : Prop :=
  ∀ c : Window,
    (writeOn l s c).2.file = (writeOn l (inMemory l s) c).2.file
      ∧ (writeOn l s c).2.file = Function.update c.file
        (named l s.cpu.mem) (s.cpu.mem.read32 l.e1000_rw_data)
      ∧ (writeOn l s c).1.cpu.mem.read32 l.e1000_rw_data
        = (writeOn l (inMemory l s) c).1.cpu.mem.read32 l.e1000_rw_data

/-- The read agrees with the one through memory: the data becomes the named
register's value and no register changes. -/
def ReadAgrees (l : NicLabels L) (s : Nic) : Prop :=
  ∀ (other : BitVec 16 → BitVec 32) (c : Window),
    (readOn l other s c).1.cpu.mem.read32 l.e1000_rw_data
        = (readOn l other (inMemory l s) c).1.cpu.mem.read32
          l.e1000_rw_data
      ∧ (readOn l other s c).1.cpu.mem.read32 l.e1000_rw_data
        = c.file (named l s.cpu.mem)
      ∧ (readOn l other s c).2.file = c.file
      ∧ (readOn l other (inMemory l s) c).2.file = c.file

/-- The word the commands take for the data port is the data port. -/
def DataPort (l : NicLabels L) (m : Mem) : Prop :=
  m.read16 (l.e1000_io_base + 4#64) = m.read16 l.e1000_io_base + 4#16

-- ============================================================== the writes

/-- What the commands put on the address port. -/
def portAddress (l : NicLabels L) (c : Cpu) : BitVec 32 :=
  (c.reg .rax).extractLsb' 16 16
    ++ (c.low16 .rax + c.mem.read16 l.e1000_rw_address)

theorem io_base_toNat (l : NicLabels L) :
    l.e1000_io_base.toNat = l.e1000_mem_base.toNat + 14
      ∧ (l.e1000_io_base + 4#64).toNat = l.e1000_mem_base.toNat + 18 := by
  have hbase := l.mem_base_in
  have haddr : l.e1000_io_base.toNat = l.e1000_mem_base.toNat + 14 :=
    toNat_add_lit (by omega)
  exact ⟨haddr, by rw [toNat_add_lit (by omega), haddr]⟩

/-- The low doubleword of a register whose low word was replaced. -/
theorem low32_merge16 (x : BitVec 64) (v : BitVec 16) :
    (x.extractLsb' 16 48 ++ v : BitVec 64).extractLsb' 0 32
      = x.extractLsb' 16 16 ++ v := by
  apply BitVec.eq_of_getLsbD_eq
  intro i hi
  rw [BitVec.getLsbD_extractLsb', BitVec.getLsbD_append,
    BitVec.getLsbD_append]
  by_cases hlow : i < 16
  · simp [hlow, hi]
  · simp [hlow, hi, show i - 16 < 48 by omega, show i - 16 < 16 by omega]

/-- The low word of a register whose low word was replaced. -/
theorem low16_merge16 (x : BitVec 64) (v : BitVec 16) :
    (x.extractLsb' 16 48 ++ v : BitVec 64).extractLsb' 0 16 = v := by
  apply BitVec.eq_of_getLsbD_eq
  intro i hi
  rw [BitVec.getLsbD_extractLsb', BitVec.getLsbD_append]
  simp [hi]

/-- A register save leaves the driver's cells and EAX. -/
structure SaveKeeps (l : NicLabels L) (c : Cpu) : Prop where
  rax : c.pushaq.reg .rax = c.reg .rax
  flag : c.pushaq.mem l.e1000_ioport_flag = c.mem l.e1000_ioport_flag
  address : c.pushaq.mem.read16 l.e1000_rw_address
    = c.mem.read16 l.e1000_rw_address
  data : c.pushaq.mem.read32 l.e1000_rw_data
    = c.mem.read32 l.e1000_rw_data
  base : c.pushaq.mem.read16 l.e1000_io_base
    = c.mem.read16 l.e1000_io_base
  next : c.pushaq.mem.read16 (l.e1000_io_base + 4#64)
    = c.mem.read16 (l.e1000_io_base + 4#64)

theorem save_keeps (l : NicLabels L) {c : Cpu} (hs : StackOk c) :
    SaveKeeps l c := by
  obtain ⟨hroom, hhi⟩ := id hs
  obtain ⟨-, hreg, hpush, -⟩ := Cpu.pushaq_spec (c := c) (by omega)
  have hflag := ioport_flag_toNat l
  have hdata := rw_data_toNat l
  have haddr := rw_address_toNat l
  obtain ⟨hio, hnext⟩ := io_base_toNat l
  have hbase := l.mem_base_in
  exact ⟨hreg _ (by decide), hpush _ (Or.inr (by omega)),
    pushaq_read (n := 2) hs (by omega) (by omega),
    pushaq_read (n := 4) hs (by omega) (by omega),
    pushaq_read (n := 2) hs (by omega) (by omega),
    pushaq_read (n := 2) hs (by omega) (by omega)⟩

/-- A card behind ports gets the address and the data added to it. -/
theorem write_command_ports (hs : StackOk s.cpu)
    (hport : s.cpu.mem l.e1000_ioport_flag = 0x1#8) :
    (e1000_write_command l s).out = s.out
      ++ [⟨.port (s.cpu.mem.read16 l.e1000_io_base), portAddress l s.cpu,
          s.sent, s.received⟩,
        ⟨.port (s.cpu.mem.read16 (l.e1000_io_base + 4#64)),
          portAddress l s.cpu + s.cpu.mem.read32 l.e1000_rw_data,
          s.sent, s.received⟩] := by
  have hk := save_keeps l hs
  have hflag := hk.flag.trans hport
  unfold e1000_write_command portAddress Cpu.low16
  rw [← hk.address, ← hk.data, ← hk.base, ← hk.next, ← hk.rax]
  simp only [Nic.run, if_pos hflag, Nic.write, load16, Cpu.setLow16,
    Cpu.low16, Cpu.low32, Cpu.set_reg, Cpu.reads_reg, Cpu.set_mem,
    Cpu.reads_mem, reduceCtorEq, if_false, if_true, low32_merge16,
    low16_merge16, low32_zeroExtend, List.append_assoc, List.cons_append,
    List.nil_append]

/-- A card behind ports gets the address before it is read. -/
theorem read_command_ports (hs : StackOk s.cpu)
    (hport : s.cpu.mem l.e1000_ioport_flag = 0x1#8) (answer : BitVec 32) :
    (e1000_read_command l answer s).out = s.out
      ++ [⟨.port (s.cpu.mem.read16 l.e1000_io_base), portAddress l s.cpu,
          s.sent, s.received⟩] := by
  have hk := save_keeps l hs
  have hflag := hk.flag.trans hport
  unfold e1000_read_command portAddress Cpu.low16
  rw [← hk.address, ← hk.base, ← hk.rax]
  simp only [Nic.run, if_pos hflag, Nic.write, load16, Cpu.setLow16,
    Cpu.low16, Cpu.low32, Cpu.set_reg, Cpu.reads_reg, Cpu.set_mem,
    Cpu.reads_mem, reduceCtorEq, if_false, if_true, low32_merge16,
    low16_merge16]

/-- A card in memory gets nothing before it is read. -/
theorem read_command_mapped (hs : StackOk s.cpu)
    (hmapped : Mapped l s.cpu.mem) (answer : BitVec 32) :
    (e1000_read_command l answer s).out = s.out := by
  have hflag : ¬ s.cpu.pushaq.mem l.e1000_ioport_flag = 0x1#8 := by
    rw [(save_keeps l hs).flag]
    exact hmapped
  unfold e1000_read_command
  simp only [Nic.run, if_neg hflag, load16, Cpu.setLow16, Cpu.set_reg,
    Cpu.reads_reg, Cpu.set_mem, Cpu.reads_mem]

-- ================================================================ the card

theorem takenSince_of_out {s' : Nic} {ws : List DeviceWrite} (c : Window)
    (h : s'.out = s.out ++ ws) :
    takenSince l s s' c = ws.foldl (Window.take
      (s.cpu.mem.read16 l.e1000_io_base)
      (s.cpu.mem.read64 l.e1000_vaddress)) c := by
  unfold takenSince Nic.since
  rw [h, List.drop_left]

/-- The two ports differ. -/
theorem port_ne (io : BitVec 16) : io + 4#16 ≠ io :=
  fun heq => absurd (BitVec.add_right_eq_self.1 heq) (by decide)

/-- The offset of a register in memory. -/
theorem offset_named (v : BitVec 64) (reg : BitVec 16) :
    Window.offset v (reg.setWidth 64 + v) = reg.setWidth 32 := by
  unfold Window.offset
  rw [BitVec.add_sub_cancel, BitVec.setWidth_setWidth_of_le _ (by decide)]

/-- The write through memory. -/
theorem writeOn_mapped (hs : StackOk s.cpu) (hmapped : Mapped l s.cpu.mem)
    (c : Window) :
    (writeOn l s c).2.file = Function.update c.file (named l s.cpu.mem)
      (s.cpu.mem.read32 l.e1000_rw_data) := by
  obtain ⟨-, -, hout⟩ := write_command_spec l hs
  show (takenSince l s (e1000_write_command l s) c).file = _
  unfold named
  rw [takenSince_of_out c (hout hmapped), ← offset_named
    (s.cpu.mem.read64 l.e1000_vaddress)]
  rfl

/-- The write through ports. -/
theorem writeOn_ports (hs : StackOk s.cpu)
    (hport : s.cpu.mem l.e1000_ioport_flag = 0x1#8) (c : Window) :
    (DataPort l s.cpu.mem → (writeOn l s c).2.file
        = Function.update c.file (portAddress l s.cpu)
          (portAddress l s.cpu + s.cpu.mem.read32 l.e1000_rw_data))
      ∧ (¬ DataPort l s.cpu.mem → (writeOn l s c).2.file = c.file) := by
  have hfile : (writeOn l s c).2
      = takenSince l s (e1000_write_command l s) c := rfl
  unfold DataPort
  rw [hfile, takenSince_of_out c (write_command_ports hs hport)]
  simp only [List.foldl_cons, List.foldl_nil, Window.take, if_pos]
  refine ⟨fun hdata => ?_, fun hdata => ?_⟩
  · rw [hdata, if_neg (port_ne _), if_pos rfl]
  · rw [if_neg hdata]
    split <;> rfl

/-- The read through memory. -/
theorem readOn_mapped (hs : StackOk s.cpu) (hmapped : Mapped l s.cpu.mem)
    (other : BitVec 16 → BitVec 32) (c : Window) :
    (readOn l other s c).1.cpu.mem.read32 l.e1000_rw_data
        = c.file (named l s.cpu.mem)
      ∧ (readOn l other s c).2.file = c.file := by
  have hout := read_command_mapped hs hmapped 0#32
  rw [← List.append_nil s.out] at hout
  have hnone := takenSince_of_out (l := l) c hout
  obtain ⟨-, -, hdata, -⟩ := read_command_spec l
    (c.answer (s.cpu.mem.read16 l.e1000_io_base)
      (s.cpu.mem.read64 l.e1000_vaddress) other
      (readSource l s.cpu.mem)) hs
  unfold readOn
  simp only [hnone, List.foldl_nil]
  refine ⟨hdata.trans ?_, trivial⟩
  unfold answered readSource named
  rw [if_neg hmapped, if_neg hmapped, ← offset_named
    (s.cpu.mem.read64 l.e1000_vaddress)]
  rfl

/-- The read through ports. -/
theorem readOn_ports (hs : StackOk s.cpu)
    (hport : s.cpu.mem l.e1000_ioport_flag = 0x1#8)
    (other : BitVec 16 → BitVec 32) (c : Window) :
    (DataPort l s.cpu.mem →
        (readOn l other s c).1.cpu.mem.read32 l.e1000_rw_data
          = s.cpu.mem.read32 l.e1000_rw_data
            + c.file (portAddress l s.cpu))
      ∧ (¬ DataPort l s.cpu.mem →
        (readOn l other s c).1.cpu.mem.read32 l.e1000_rw_data
          = s.cpu.mem.read32 l.e1000_rw_data
            + other (s.cpu.mem.read16 (l.e1000_io_base + 4#64)))
      ∧ (readOn l other s c).2.file = c.file := by
  have hone := takenSince_of_out (l := l) c (read_command_ports hs hport 0#32)
  simp only [List.foldl_cons, List.foldl_nil, Window.take, if_true] at hone
  unfold readOn DataPort
  simp only [hone]
  refine ⟨fun hdata => ?_, fun hdata => ?_, trivial⟩
  · obtain ⟨-, -, hread, -⟩ := read_command_spec l (s := s)
      (c.file (portAddress l s.cpu)) hs
    unfold readSource Window.answer
    simp only [if_pos hport, if_pos hdata]
    rw [hread]
    exact if_pos hport
  · obtain ⟨-, -, hread, -⟩ := read_command_spec l (s := s)
      (other (s.cpu.mem.read16 (l.e1000_io_base + 4#64))) hs
    unfold readSource Window.answer
    simp only [if_pos hport, if_neg hdata]
    rw [hread]
    exact if_pos hport

-- ============================================================== the twin

/-- The twin has its card in memory and everything else as before. -/
theorem inMemory_cells (l : NicLabels L) (s : Nic) :
    Mapped l (inMemory l s).cpu.mem
      ∧ named l (inMemory l s).cpu.mem = named l s.cpu.mem
      ∧ (inMemory l s).cpu.mem.read32 l.e1000_rw_data
        = s.cpu.mem.read32 l.e1000_rw_data := by
  have hflag := ioport_flag_toNat l
  have hdata := rw_data_toNat l
  have haddr := rw_address_toNat l
  have hbase := l.mem_base_in
  refine ⟨?_, ?_, ?_⟩
  · intro hport
    have hzero : (inMemory l s).cpu.mem l.e1000_ioport_flag = 0x0#8 :=
      write8_self _ _ _
    rw [hzero] at hport
    exact absurd hport (by decide)
  · exact congrArg (BitVec.setWidth 32) (read_write_of_disjoint (n := 1)
      (k := 2) _ _ (by omega) (by omega) (by omega))
  · exact read_write_of_disjoint (n := 1) (k := 4) _ _ (by omega) (by omega)
      (by omega)

/-- The write agrees exactly when its effect is the wanted one. -/
theorem writeAgrees_iff_file (hs : StackOk s.cpu) :
    WriteAgrees l s ↔ ∀ c : Window, (writeOn l s c).2.file
      = Function.update c.file (named l s.cpu.mem)
        (s.cpu.mem.read32 l.e1000_rw_data) := by
  obtain ⟨hmapped, hnamed, hdata⟩ := inMemory_cells l s
  have hdata' := rw_data_toNat l
  have hbase := l.mem_base_in
  refine ⟨fun h c => (h c).2.1, fun h c => ⟨?_, h c, ?_⟩⟩
  · rw [h c, writeOn_mapped (s := inMemory l s) hs hmapped, hnamed, hdata]
  · -- neither command stores to the driver's cells
    have hkept : ∀ {t : Nic}, StackOk t.cpu →
        (e1000_write_command l t).cpu.mem.read32 l.e1000_rw_data
          = t.cpu.mem.read32 l.e1000_rw_data := by
      intro t ht
      obtain ⟨-, hmem, -⟩ := write_command_spec l ht
      exact read_congr_bytes (n := 4) (by omega)
        fun b hlo _ => hmem b (by omega)
    exact (hkept hs).trans (hdata.symm.trans (hkept (t := inMemory l s)
      hs).symm)

/-- The read agrees exactly when it gives the named register. -/
theorem readAgrees_iff_data (hs : StackOk s.cpu)
    (hport : s.cpu.mem l.e1000_ioport_flag = 0x1#8) :
    ReadAgrees l s ↔ ∀ other (c : Window),
      (readOn l other s c).1.cpu.mem.read32 l.e1000_rw_data
        = c.file (named l s.cpu.mem) := by
  obtain ⟨hmapped, hnamed, -⟩ := inMemory_cells l s
  refine ⟨fun h other c => (h other c).2.1, fun h other c => ?_⟩
  obtain ⟨hdata, hfile⟩ := readOn_mapped (s := inMemory l s) hs hmapped
    other c
  obtain ⟨-, -, hports⟩ := readOn_ports hs hport other c
  exact ⟨(h other c).trans (by rw [hdata, hnamed]), h other c, hports, hfile⟩

-- ========================================================== the conditions

/-- The address port gets the named register only with EAX clear. -/
theorem portAddress_eq_iff {c : Cpu} :
    portAddress l c = named l c.mem ↔ c.low32 .rax = 0#32 := by
  have hx := (c.reg .rax).isLt
  have hr := (c.mem.read16 l.e1000_rw_address).isLt
  unfold portAddress named Cpu.low16 Cpu.low32
  rw [← BitVec.toNat_inj, ← BitVec.toNat_inj, BitVec.toNat_append,
    ← Nat.shiftLeft_add_eq_or_of_lt (BitVec.isLt _), Nat.shiftLeft_eq]
  simp only [BitVec.toNat_add, BitVec.extractLsb'_toNat,
    BitVec.toNat_setWidth, BitVec.toNat_ofNat, Nat.shiftRight_eq_div_pow]
  omega

theorem named_eq_zero {m : Mem} :
    named l m = 0#32 ↔ m.read16 l.e1000_rw_address = 0#16 := by
  have hr := (m.read16 l.e1000_rw_address).isLt
  unfold named
  rw [← BitVec.toNat_inj, ← BitVec.toNat_inj, BitVec.toNat_setWidth]
  simp only [BitVec.toNat_ofNat]
  omega

/-- An update is the one wanted for every file only if it is made at the
register wanted, with the value wanted. -/
theorem update_eq_iff (r v r' v' : BitVec 32) :
    (∀ f : BitVec 32 → BitVec 32,
        Function.update f r v = Function.update f r' v') ↔ r = r' ∧ v = v' := by
  constructor
  · intro h
    have hat := congrFun (h fun _ => v' + 1#32) r'
    rw [Function.update_self] at hat
    by_cases hr : r' = r
    · rw [hr, Function.update_self] at hat
      exact ⟨hr.symm, hat⟩
    · rw [Function.update_of_ne hr] at hat
      exact absurd (BitVec.add_right_eq_self.1 hat) (by decide)
  · rintro ⟨rfl, rfl⟩ f
    rfl

/-- No effect at all is never the one wanted. -/
theorem update_ne {r v : BitVec 32} :
    ¬ ∀ f : BitVec 32 → BitVec 32, f = Function.update f r v := by
  intro h
  have hat := congrFun (h fun _ => v + 1#32) r
  rw [Function.update_self] at hat
  exact absurd (BitVec.add_right_eq_self.1 hat) (by decide)

/-- What is added to the register read is the wanted value for every file
only if it is zero and the register the wanted one. -/
theorem add_file_iff (d r r' : BitVec 32) :
    (∀ f : BitVec 32 → BitVec 32, d + f r = f r') ↔ d = 0#32 ∧ r = r' := by
  constructor
  · intro h
    have hzero : d = 0#32 := BitVec.add_left_eq_self.1 (h fun _ => 0#32)
    refine ⟨hzero, ?_⟩
    have hat := h id
    rw [hzero, BitVec.zero_add] at hat
    exact hat
  · rintro ⟨rfl, rfl⟩ f
    exact BitVec.zero_add _

-- ============================================================ the two ways

theorem writeAgrees_iff (hs : StackOk s.cpu)
    (hport : s.cpu.mem l.e1000_ioport_flag = 0x1#8) :
    WriteAgrees l s ↔ s.cpu.low32 .rax = 0#32 ∧ DataPort l s.cpu.mem
      ∧ s.cpu.mem.read16 l.e1000_rw_address = 0#16 := by
  rw [writeAgrees_iff_file hs]
  by_cases hp : DataPort l s.cpu.mem
  · have hfile : ∀ c : Window, (writeOn l s c).2.file = _ :=
      fun c => (writeOn_ports hs hport c).1 hp
    have hiff := update_eq_iff (portAddress l s.cpu)
      (portAddress l s.cpu + s.cpu.mem.read32 l.e1000_rw_data)
      (named l s.cpu.mem) (s.cpu.mem.read32 l.e1000_rw_data)
    constructor
    · intro h
      have hupdate := hiff.1 fun f => (hfile ⟨f, 0#32⟩).symm.trans
        (h ⟨f, 0#32⟩)
      -- the data is the offset plus the data, so the offset is zero
      have hzero := BitVec.add_left_eq_self.1 hupdate.2
      rw [hupdate.1] at hzero
      exact ⟨portAddress_eq_iff.1 hupdate.1, hp, named_eq_zero.1 hzero⟩
    · rintro ⟨hrax, -, hreg⟩ c
      have haddr := (portAddress_eq_iff (l := l)).2 hrax
      have hzero := named_eq_zero.2 hreg
      rw [hfile c]
      refine hiff.2 ⟨haddr, ?_⟩ c.file
      rw [haddr, hzero, BitVec.zero_add]
  · refine iff_of_false (fun h => update_ne (r := named l s.cpu.mem)
        (v := s.cpu.mem.read32 l.e1000_rw_data) fun f => ?_) fun h => hp h.2.1
    have hnone := (writeOn_ports hs hport ⟨f, 0#32⟩).2 hp
    exact hnone.symm.trans (h ⟨f, 0#32⟩)

theorem readAgrees_iff (hs : StackOk s.cpu)
    (hport : s.cpu.mem l.e1000_ioport_flag = 0x1#8) :
    ReadAgrees l s ↔ s.cpu.low32 .rax = 0#32 ∧ DataPort l s.cpu.mem
      ∧ s.cpu.mem.read32 l.e1000_rw_data = 0#32 := by
  rw [readAgrees_iff_data hs hport]
  by_cases hp : DataPort l s.cpu.mem
  · have hdata : ∀ other (c : Window),
        (readOn l other s c).1.cpu.mem.read32 l.e1000_rw_data = _ :=
      fun other c => (readOn_ports hs hport other c).1 hp
    have hiff := add_file_iff (s.cpu.mem.read32 l.e1000_rw_data)
      (portAddress l s.cpu) (named l s.cpu.mem)
    constructor
    · intro h
      obtain ⟨hzero, haddr⟩ := hiff.1 fun f =>
        (hdata (fun _ => 0#32) ⟨f, 0#32⟩).symm.trans (h _ ⟨f, 0#32⟩)
      exact ⟨portAddress_eq_iff.1 haddr, hp, hzero⟩
    · rintro ⟨hrax, -, hzero⟩ other c
      have haddr := (portAddress_eq_iff (l := l)).2 hrax
      rw [hdata other c]
      exact hiff.2 ⟨hzero, haddr⟩ c.file
  · refine iff_of_false (fun h => ?_) fun h => hp h.2.1
    -- an answer of the other port that is not the register's value
    have hread := (readOn_ports hs hport
      (fun _ => 1#32 - s.cpu.mem.read32 l.e1000_rw_data)
      ⟨fun _ => 0#32, 0#32⟩).2.1 hp
    rw [h, BitVec.add_comm, BitVec.sub_add_cancel] at hread
    exact absurd (show (0#32) = 1#32 from hread) (by decide)

/-- Through ports the write does what the write through memory does exactly
when EAX is clear, the named register is at offset 0, and the word after
the base port is the data port; the read exactly when EAX and the data
variable are clear and the word is the data port. -/
theorem ports_agree_iff (l : NicLabels L) (s : Nic) (hs : StackOk s.cpu)
    (hport : s.cpu.mem l.e1000_ioport_flag = 0x1#8) :
    (WriteAgrees l s ↔ s.cpu.low32 .rax = 0#32 ∧ DataPort l s.cpu.mem
        ∧ s.cpu.mem.read16 l.e1000_rw_address = 0#16)
      ∧ (ReadAgrees l s ↔ s.cpu.low32 .rax = 0#32 ∧ DataPort l s.cpu.mem
        ∧ s.cpu.mem.read32 l.e1000_rw_data = 0#32) :=
  ⟨writeAgrees_iff hs hport, readAgrees_iff hs hport⟩

-- ================================================================= samples

/-- A card at port 0xC000, the interrupt mask about to be set. -/
def portCard : Nic where
  cpu :=
    { reg := fun r => if r = .rsp then 0xB000#64 else 0#64
      mem := (((write8 (fun _ => 0#8) nicLabels.e1000_ioport_flag
        0x1#8).write16 nicLabels.e1000_io_base 0xC000#16).write16
        nicLabels.e1000_rw_address REG_IMASK).write32
        nicLabels.e1000_rw_data 0x1F6DC#32
      log := [] }
  out := []
  sent := 0
  received := 0
  updates := 0

theorem portCard_stack : StackOk portCard.cpu :=
  ⟨by show 0x5100 ≤ 0xB000; omega, by show 0xB000 ≤ 0x10000; omega⟩

theorem portCard_port :
    portCard.cpu.mem nicLabels.e1000_ioport_flag = 0x1#8 := by decide

theorem ports_agree_iff_sample :
    StackOk portCard.cpu
      ∧ portCard.cpu.mem nicLabels.e1000_ioport_flag = 0x1#8
      ∧ (WriteAgrees nicLabels portCard ↔ portCard.cpu.low32 .rax = 0#32
        ∧ DataPort nicLabels portCard.cpu.mem
        ∧ portCard.cpu.mem.read16 nicLabels.e1000_rw_address = 0#16)
      ∧ (ReadAgrees nicLabels portCard ↔ portCard.cpu.low32 .rax = 0#32
        ∧ DataPort nicLabels portCard.cpu.mem
        ∧ portCard.cpu.mem.read32 nicLabels.e1000_rw_data = 0#32) :=
  ⟨portCard_stack, portCard_port,
    ports_agree_iff nicLabels portCard portCard_stack portCard_port⟩

/-- The interrupt mask does not reach its register. -/
theorem ports_disagree : ¬ ∀ (L : Layout) (l : NicLabels L) (s : Nic),
    StackOk s.cpu → s.cpu.mem l.e1000_ioport_flag = 0x1#8 →
    WriteAgrees l s ∧ ReadAgrees l s := by
  intro hall
  have hagrees := (hall _ nicLabels portCard portCard_stack
    portCard_port).1
  have hreg := ((writeAgrees_iff portCard_stack portCard_port).1
    hagrees).2.2
  exact absurd hreg (by decide)

end BootLoader.ThirdStage
