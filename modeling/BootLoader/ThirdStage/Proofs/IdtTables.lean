/-
What the two interrupt tables hold.

# The tables as functions

`Tables` is the abstract state: the address set up for each vector, if
any, and the handler registered for it. `Represents` relates it to memory,
through the gates as the processor decodes them and the handler array as
the stubs read it. `init_idt` represents the empty tables, and each call
changes one entry and no other byte but its stack.

# A gate is written by halves

`setup_idt_entry` stores the selector as one byte, so the gate decodes
with selector 8 only because the byte above it is still zero: that byte
(`GateAt.selector_high`) is part of what the representation keeps.
-/
import BootLoader.ThirdStage.Proofs.Stubs

namespace BootLoader.ThirdStage

open FlatMemory Mem Words

variable {c : Cpu} {m m' : Mem} {a b h : BitVec 64} {n : Nat}

-- =============================================================== one gate

/-- The gate of vector `n`. -/
def gateAddr (n : Nat) : BitVec 64 :=
  IDT_BASE_ADDRESS + BitVec.ofNat 64 (16 * n)

theorem gateAddr_toNat (hn : n < 256) :
    (gateAddr n).toNat = 0x40000 + 16 * n := by
  unfold gateAddr IDT_BASE_ADDRESS
  rw [toNat_add_lit (by rw [toNat_lit (by omega)]; omega), toNat_lit (by omega)]

/-- The fields of a gate for the code at `h`. -/
structure GateAt (m : Mem) (a h : BitVec 64) : Prop where
  low : m.read16 (a + 0#64) = h.extractLsb' 0 16
  selector : m (a + 2#64) = 0x8#8
  selector_high : m (a + 3#64) = 0#8
  ist : m (a + 4#64) = 0#8
  flags : m (a + 5#64) = 0x8E#8
  mid : m.read16 (a + 6#64) = h.extractLsb' 16 16
  high : m.read32 (a + 8#64) = h.extractLsb' 32 32
  reserved : m.read32 (a + 12#64) = 0#32

/-- Two bytes as a word. -/
theorem read16_of_bytes {lo hi : BitVec 8} (h0 : m a = lo)
    (h1 : m (a + 1#64) = hi) : m.read16 a = hi ++ lo := by
  apply BitVec.eq_of_getLsbD_eq
  intro i hi16
  have hread : (m.read16 a).getLsbD i
      = (m (a + BitVec.ofNat 64 (i / 8))).getLsbD (i % 8) :=
    getLsbD_read m 2 a i hi16
  rw [hread, BitVec.getLsbD_append]
  by_cases h8 : i < 8
  · rw [if_pos h8, show i / 8 = 0 by omega, show i % 8 = i by omega,
      BitVec.add_zero, h0]
  · rw [if_neg h8, show i / 8 = 1 by omega, show i % 8 = i - 8 by omega, h1]

/-- The processor decodes such a gate to the code's address. -/
theorem GateAt.decode (hg : GateAt m a h) :
    Gate.decode m a = ⟨h, 0x8#16, 0#3, 0x8E#8⟩ := by
  have hlow : m.read16 a = h.extractLsb' 0 16 := by
    rw [← hg.low, BitVec.add_zero]
  have hupper : m (a + 2#64 + 1#64) = 0#8 := by
    rw [BitVec.add_assoc]
    exact hg.selector_high
  have hsel : m.read16 (a + 2#64) = 0x8#16 :=
    read16_of_bytes hg.selector hupper
  have hoff : h.extractLsb' 32 32 ++ (h.extractLsb' 16 16
      ++ h.extractLsb' 0 16 : BitVec 32) = h := by
    rw [BitVec.extractLsb'_append_extractLsb'_eq_extractLsb'
        (show 16 = 0 + 16 from rfl),
      BitVec.extractLsb'_append_extractLsb'_eq_extractLsb'
        (show 32 = 0 + (16 + 16) from rfl)]
    exact BitVec.extractLsb'_eq_self
  unfold Gate.decode
  rw [hlow, hsel, hg.mid, hg.high, hoff, hg.ist, hg.flags]
  rfl

/-- Sixteen zero bytes decode to a gate that is not present. -/
theorem decode_zero (hz : ∀ k < 16, m (a + BitVec.ofNat 64 k) = 0) :
    Gate.decode m a = ⟨0#64, 0#16, 0#3, 0#8⟩ := by
  have hbyte : ∀ j k, j + k < 16 →
      m (a + BitVec.ofNat 64 j + BitVec.ofNat 64 k) = 0 := by
    intro j k hjk
    rw [BitVec.add_assoc, ← BitVec.ofNat_add]
    exact hz (j + k) hjk
  have h0 : m.read16 a = 0#16 := read_eq_zero (n := 2) fun k hk =>
    hz k (by omega)
  have h2 : m.read16 (a + 2#64) = 0#16 := read_eq_zero (n := 2) fun k hk =>
    hbyte 2 k (by omega)
  have h6 : m.read16 (a + 6#64) = 0#16 := read_eq_zero (n := 2) fun k hk =>
    hbyte 6 k (by omega)
  have h8 : m.read32 (a + 8#64) = 0#32 := read_eq_zero (n := 4) fun k hk =>
    hbyte 8 k (by omega)
  unfold Gate.decode
  rw [h0, h2, h6, h8, hz 4 (by omega), hz 5 (by omega)]
  rfl

/-- What a gate decodes to depends on its bytes. -/
theorem decode_congr
    (hs : ∀ k < 16, m' (a + BitVec.ofNat 64 k) = m (a + BitVec.ofNat 64 k)) :
    Gate.decode m' a = Gate.decode m a := by
  have hread : ∀ j n, j + n ≤ 16 → m'.read (a + BitVec.ofNat 64 j) n
      = m.read (a + BitVec.ofNat 64 j) n := by
    intro j n hjn
    refine read_congr fun k hk => ?_
    rw [BitVec.add_assoc, ← BitVec.ofNat_add]
    exact hs (j + k) (by omega)
  have h0 : m'.read16 a = m.read16 a := by
    have hzero := hread 0 2 (by omega)
    rw [BitVec.add_zero] at hzero
    exact hzero
  have h2 : m'.read16 (a + 2#64) = m.read16 (a + 2#64) :=
    hread 2 2 (by omega)
  have h6 : m'.read16 (a + 6#64) = m.read16 (a + 6#64) :=
    hread 6 2 (by omega)
  have h8 : m'.read32 (a + 8#64) = m.read32 (a + 8#64) :=
    hread 8 4 (by omega)
  unfold Gate.decode
  rw [h0, h2, h6, h8, hs 4 (by omega), hs 5 (by omega)]

-- ======================================================== setup_idt_entry

/-- The bytes of a gate are outside anything that ends before it or
starts after it. -/
theorem GateAt.congr (hg : GateAt m a h)
    (hs : ∀ k < 16, m' (a + BitVec.ofNat 64 k) = m (a + BitVec.ofNat 64 k)) :
    GateAt m' a h := by
  have hread : ∀ j n, j + n ≤ 16 → m'.read (a + BitVec.ofNat 64 j) n
      = m.read (a + BitVec.ofNat 64 j) n := by
    intro j n hjn
    refine read_congr fun k hk => ?_
    rw [BitVec.add_assoc, ← BitVec.ofNat_add]
    exact hs (j + k) (by omega)
  exact ⟨(hread 0 2 (by omega)).trans hg.low,
    (hs 2 (by omega)).trans hg.selector,
    (hs 3 (by omega)).trans hg.selector_high,
    (hs 4 (by omega)).trans hg.ist, (hs 5 (by omega)).trans hg.flags,
    (hread 6 2 (by omega)).trans hg.mid, (hread 8 4 (by omega)).trans hg.high,
    (hread 12 4 (by omega)).trans hg.reserved⟩

/-- The stores of `setup_idt_entry`, in its order. -/
def gateStores (m : Mem) (a h : BitVec 64) : Mem :=
  let m := m.write16 (a + IDT_ENTRY.base_low) (h.extractLsb' 0 16)
  let m := m.write16 (a + IDT_ENTRY.base_mid) (h.extractLsb' 16 16)
  let m := m.write32 (a + IDT_ENTRY.base_high) (h.extractLsb' 32 32)
  let m := m.write8 (a + IDT_ENTRY.selector) 0x8#8
  let m := m.write8 (a + IDT_ENTRY.reserved_ist) 0x0#8
  let m := m.write32 (a + IDT_ENTRY.reserved) 0x0#32
  m.write8 (a + IDT_ENTRY.flags) IDT_P_KERNEL_INTERRUPT_GATE

/-- The body is those stores, at the gate RDI names. -/
theorem setup_idt_entry_body_spec (c : Cpu) :
    (setup_idt_entry_body c).mem
        = gateStores c.mem ((c.reg .rdi) <<< 4 + IDT_BASE_ADDRESS) (c.reg .rsi)
      ∧ (setup_idt_entry_body c).reg .rsp = c.reg .rsp := by
  have hmid : (c.reg .rsi >>> 16).extractLsb' 0 16
      = (c.reg .rsi).extractLsb' 16 16 := by
    apply BitVec.eq_of_getLsbD_eq
    intro i hi
    simp [BitVec.getLsbD_extractLsb', BitVec.getLsbD_ushiftRight]
  have hhigh : (((c.reg .rsi >>> 32).extractLsb' 0 32
      &&& 0xFFFFFFFF#32).setWidth 64).extractLsb' 0 32
      = (c.reg .rsi).extractLsb' 32 32 := by
    apply BitVec.eq_of_getLsbD_eq
    intro i hi
    rw [show (0xFFFFFFFF#32) = BitVec.allOnes 32 by decide, BitVec.and_allOnes]
    simp only [BitVec.getLsbD_extractLsb', BitVec.getLsbD_setWidth,
      BitVec.getLsbD_ushiftRight, hi, decide_true, Bool.true_and,
      Nat.zero_add, show i < 64 by omega]
  have hmask : ∀ v : BitVec 16, v &&& 0xFFFF#16 = v := by
    intro v
    rw [show (0xFFFF#16) = BitVec.allOnes 16 by decide, BitVec.and_allOnes]
  refine ⟨?_, ?_⟩
  · unfold setup_idt_entry_body gateStores
    simp only [BitVec.extractLsb'_append_eq_right, hmask, Cpu.low16, Cpu.low32, Cpu.store8_mem,
      Cpu.store16_mem, Cpu.store32_mem, Cpu.set_mem, Cpu.setLow16_mem,
      Cpu.store8_reg, Cpu.store16_reg, Cpu.store32_reg, Cpu.setLow16_reg,
      Cpu.set_reg, reduceCtorEq, if_true, if_false, hmid, hhigh]
  · unfold setup_idt_entry_body
    simp only [Cpu.store8_reg, Cpu.store16_reg, Cpu.store32_reg,
      Cpu.setLow16_reg, Cpu.set_reg, reduceCtorEq, if_false]

/-- The stores make a gate, if the byte above the selector was zero. -/
theorem gateStores_gateAt (h3 : m (a + 3#64) = 0#8) :
    GateAt (gateStores m a h) a h := by
  unfold gateStores IDT_ENTRY.base_low IDT_ENTRY.base_mid IDT_ENTRY.base_high
    IDT_ENTRY.selector IDT_ENTRY.reserved_ist IDT_ENTRY.reserved
    IDT_ENTRY.flags
  refine ⟨?_, ?_, ?_, ?_, ?_, ?_, ?_, ?_⟩
  · simp (disch := omega) only [read16, write16, write8, write32,
      read_write_off]
    exact read_write_self m _ _ (by omega)
  · simp (disch := omega) only [write16, write8, write32, write_off]
    exact write8_self _ _ _
  · simp (disch := omega) only [write16, write8, write32, write_off]
    exact h3
  · simp (disch := omega) only [write16, write8, write32, write_off]
    exact write8_self _ _ _
  · exact write8_self _ _ _
  · simp (disch := omega) only [read16, write16, write8, write32,
      read_write_off]
    exact read_write_self _ _ _ (by omega)
  · simp (disch := omega) only [read32, write16, write8, write32,
      read_write_off]
    exact read_write_self _ _ _ (by omega)
  · simp (disch := omega) only [read32, write8, write32, read_write_off]
    exact read_write_self _ _ _ (by omega)

/-- They write in the gate only. -/
theorem gateStores_frame (ha : a.toNat + 16 ≤ 2 ^ 64)
    (hb : b.toNat < a.toNat ∨ a.toNat + 16 ≤ b.toNat) :
    gateStores m a h b = m b := by
  have hfar : ∀ (m : Mem) (j n : Nat) (v : BitVec (8 * n)), j + n ≤ 16 →
      m.write (a + BitVec.ofNat 64 j) n v b = m b := by
    intro m j n v hjn
    refine write_apply_of_far m v ?_
    simp only [BitVec.toNat_sub, BitVec.toNat_add, BitVec.toNat_ofNat]
    omega
  unfold gateStores IDT_ENTRY.base_low IDT_ENTRY.base_mid IDT_ENTRY.base_high
    IDT_ENTRY.selector IDT_ENTRY.reserved_ist IDT_ENTRY.reserved
    IDT_ENTRY.flags
  simp (disch := omega) only [write16, write8, write32, hfar]

-- ============================================================ the routines

/-- The `n` bytes under this stack pointer are in neither table, nor in
the rest of what `init_idt` clears. -/
def ClearStack (sp : BitVec 64) (n : Nat) : Prop :=
  ∀ b, Under sp n b → b.toNat < 0x40000 ∨ 0x42000 ≤ b.toNat

theorem ClearStack.mono {sp : BitVec 64} {k : Nat} (hs : ClearStack sp n)
    (hk : k ≤ n) : ClearStack sp k :=
  fun b hu => hs b (hu.mono hk)

/-- What a routine that writes in `[lo, hi)` leaves alone. -/
structure WritesIn (lo hi : Nat) (c d : Cpu) : Prop where
  reg : d.reg = c.reg
  rest : ∀ b : BitVec 64, ¬ Under (c.reg .rsp) 120 b →
    b.toNat < lo ∨ hi ≤ b.toNat → d.mem b = c.mem b

/-- `setup_idt_entry` writes the gate of the number in RDI. -/
theorem setup_idt_entry_spec (hn : n < 256)
    (hrdi : c.reg .rdi = BitVec.ofNat 64 n)
    (hs : ClearStack (c.reg .rsp) 120) :
    WritesIn (0x40000 + 16 * n) (0x40000 + 16 * n + 16) c (setup_idt_entry c)
      ∧ (c.mem (gateAddr n + 3#64) = 0#8 →
        GateAt (setup_idt_entry c).mem (gateAddr n) (c.reg .rsi)) := by
  have haddr := gateAddr_toNat hn
  have hgate : (c.pushaq.reg .rdi) <<< 4 + IDT_BASE_ADDRESS = gateAddr n := by
    rw [Cpu.pushaq_reg _ (by decide), hrdi, BitVec.add_comm]
    unfold gateAddr
    congr 1
    apply BitVec.eq_of_toNat_eq
    rw [BitVec.toNat_shiftLeft, Nat.shiftLeft_eq, toNat_lit (by omega),
      toNat_lit (by omega)]
    omega
  obtain ⟨hmem, hrsp⟩ := setup_idt_entry_body_spec c.pushaq
  rw [hgate, Cpu.pushaq_reg _ (by decide)] at hmem
  obtain ⟨hreg, hkeep, hrest⟩ := Cpu.popaq_after (c := c)
    (d := setup_idt_entry_body c.pushaq) (0x40000 + 16 * n)
    (0x40000 + 16 * n + 16) (fun b hu => by have := hs b hu; omega) hrsp
    (fun b hb => by
      rw [hmem]
      exact gateStores_frame (by omega) (by omega))
  refine ⟨⟨hreg, hrest⟩, fun hzero => ?_⟩
  show GateAt (setup_idt_entry_body c.pushaq).popaq.mem _ _
  rw [hkeep, hmem]
  refine gateStores_gateAt ?_
  rw [Cpu.pushaq_mem c, hzero]
  intro hu
  have hout := hs _ hu
  rw [toNat_add_lit (by omega)] at hout
  omega

theorem register_idt_handler_body_spec (c : Cpu) :
    (register_idt_handler_body c).mem
        = c.mem.write64 ((c.reg .rdi) <<< 3 + IDT_HANDLERS_BASE_ADDRESS)
          (c.reg .rsi)
      ∧ (register_idt_handler_body c).reg .rsp = c.reg .rsp := by
  unfold register_idt_handler_body
  simp only [Cpu.store64_mem, Cpu.store64_reg, Cpu.set_mem, Cpu.set_reg,
    reduceCtorEq, if_true, if_false, and_self]

/-- `register_idt_handler` writes the entry of the number in RDI. -/
theorem register_idt_handler_spec (hn : n < 256)
    (hrdi : c.reg .rdi = BitVec.ofNat 64 n)
    (hs : ClearStack (c.reg .rsp) 120) :
    WritesIn (0x41000 + 8 * n) (0x41000 + 8 * n + 8) c
        (register_idt_handler c)
      ∧ handlerEntry (register_idt_handler c).mem n = c.reg .rsi := by
  have haddr := handlerAddr_toNat hn
  have hentry : (c.pushaq.reg .rdi) <<< 3 + IDT_HANDLERS_BASE_ADDRESS
      = handlerAddr n := by
    rw [Cpu.pushaq_reg _ (by decide), hrdi, BitVec.add_comm]
    unfold handlerAddr
    congr 1
    apply BitVec.eq_of_toNat_eq
    rw [BitVec.toNat_shiftLeft, Nat.shiftLeft_eq, toNat_lit (by omega),
      toNat_lit (by omega)]
    omega
  obtain ⟨hmem, hrsp⟩ := register_idt_handler_body_spec c.pushaq
  rw [hentry, Cpu.pushaq_reg _ (by decide)] at hmem
  obtain ⟨hreg, hkeep, hrest⟩ := Cpu.popaq_after (c := c)
    (d := register_idt_handler_body c.pushaq) (0x41000 + 8 * n)
    (0x41000 + 8 * n + 8) (fun b hu => by have := hs b hu; omega) hrsp
    (fun b hb => by
      rw [hmem]
      exact @write_apply_of_out c.pushaq.mem (handlerAddr n) b 8 _ (by omega)
        (by omega))
  refine ⟨⟨hreg, hrest⟩, ?_⟩
  show (register_idt_handler_body c.pushaq).popaq.mem.read64 _ = _
  rw [hkeep, hmem]
  exact read64_write64_self _ _ _

-- =============================================================== init_idt

/-- `d` is `c` with `k` quadwords from 0x40000 cleared. -/
structure Stored (c : Cpu) (k : Nat) (d : Cpu) : Prop where
  rdi : (d.reg .rdi).toNat = 0x40000 + 8 * k
  rax : d.reg .rax = 0#64
  rsp : d.reg .rsp = c.reg .rsp
  zero : ∀ b : BitVec 64, 0x40000 ≤ b.toNat → b.toNat < 0x40000 + 8 * k →
    d.mem b = 0
  rest : ∀ b : BitVec 64, b.toNat < 0x40000 ∨ 0x40000 + 8 * k ≤ b.toNat →
    d.mem b = c.mem b

/-- One round of `stosq` clears eight more bytes. -/
theorem Stored.step {d : Cpu} {k : Nat} (hk : k < 0x400)
    (hd : Stored c k d) : Stored c (k + 1) (stosq d) := by
  have hrdi := hd.rdi
  have hmem : (stosq d).mem = d.mem.write64 (d.reg .rdi) 0#64 := by
    rw [← hd.rax]
    rfl
  have hreg : ∀ r, r ≠ .rdi → r ≠ .rcx → (stosq d).reg r = d.reg r := by
    intro r h1 h2
    exact (Cpu.set_reg_of_ne h2).trans (Cpu.set_reg_of_ne h1)
  refine ⟨?_, (hreg _ (by decide) (by decide)).trans hd.rax,
    (hreg _ (by decide) (by decide)).trans hd.rsp, ?_, ?_⟩
  · have hnext : (stosq d).reg .rdi = d.reg .rdi + 8#64 :=
      (Cpu.set_reg_of_ne (by decide)).trans (Cpu.set_reg_self _ _ _)
    rw [hnext, toNat_add_lit (by omega)]
    omega
  · intro b hlo hhi
    rw [hmem]
    by_cases hold : b.toNat < 0x40000 + 8 * k
    · rw [← hd.zero b hlo hold]
      exact @write_apply_of_out d.mem (d.reg .rdi) b 8 0#64 (by omega)
        (by omega)
    · exact write64_zero (a := d.reg .rdi) d.mem (by omega) (by omega)
        (by omega)
  · intro b hb
    rw [hmem, ← hd.rest b (by omega)]
    exact @write_apply_of_out d.mem (d.reg .rdi) b 8 0#64 (by omega)
      (by omega)

/-- `init_idt` clears [0x40000, 0x42000). -/
theorem init_idt_spec (hs : ClearStack (c.reg .rsp) 120) :
    WritesIn 0x40000 0x42000 c (init_idt c)
      ∧ ∀ b : BitVec 64, 0x40000 ≤ b.toNat → b.toNat < 0x42000 →
        (init_idt c).mem b = 0 := by
  have hstart : Stored c.pushaq 0 (((c.pushaq.set .rdi IDT_BASE_ADDRESS).set
      .rcx 0x400#64).set .rax 0#64) := by
    refine ⟨?_, Cpu.set_reg_self _ _ _, ?_, fun b _ _ => by omega,
      fun _ _ => rfl⟩
    · simp only [Cpu.set_reg, reduceCtorEq, if_true, if_false]
      exact toNat_lit (by omega)
    · simp only [Cpu.set_reg, reduceCtorEq, if_false]
  have hinit : init_idt c = (Loop.times stosq 0x400 (((c.pushaq.set .rdi
      IDT_BASE_ADDRESS).set .rcx 0x400#64).set .rax 0#64)).popaq := by
    unfold init_idt rep_stosq
    simp only [Cpu.set_reg, reduceCtorEq, if_true, if_false]
    rw [show (0x400#64).toNat = 0x400 from rfl]
  have hend := Loop.times_counted (Stored c.pushaq) (n := 0x400)
    (fun k d hk hd => hd.step hk) hstart
  rw [hinit]
  generalize Loop.times stosq 0x400 _ = d at hend ⊢
  obtain ⟨hreg, hkeep, hrest⟩ := Cpu.popaq_after (c := c) 0x40000 0x42000
    hs hend.rsp hend.rest
  refine ⟨⟨hreg, hrest⟩, ?_⟩
  intro b hlo hhi
  rw [hkeep]
  exact hend.zero b hlo hhi

-- ============================================================= the tables

/-- The tables as the program means them: the code set up for each vector,
if any, and the handler registered for it. -/
structure Tables where
  gate : Fin 256 → Option (BitVec 64)
  handler : Fin 256 → Option (BitVec 64)

def Tables.empty : Tables := ⟨fun _ => none, fun _ => none⟩

/-- One call. -/
def Tables.step (t : Tables) : IdtCall → Tables
  | .setup n h => { t with gate := fun k => if k = n then some h else t.gate k }
  | .register n h =>
      { t with handler := fun k => if k = n then some h else t.handler k }

/-- A sequence of calls, from the empty tables. -/
def tables (calls : List IdtCall) : Tables := calls.foldl Tables.step .empty

/-- Memory holds these tables. -/
structure Represents (m : Mem) (t : Tables) : Prop where
  gate : ∀ (n : Fin 256) h, t.gate n = some h → GateAt m (gateAddr n) h
  absent : ∀ n : Fin 256, t.gate n = none →
    ∀ k < 16, m (gateAddr n + BitVec.ofNat 64 k) = 0
  handler : ∀ n : Fin 256, handlerEntry m n = (t.handler n).getD 0#64

variable {t : Tables} {lo hi : Nat} {d : Cpu}

/-- What the tables are depends on their bytes. -/
theorem Represents.congr (hr : Represents m t)
    (hs : ∀ b : BitVec 64, 0x40000 ≤ b.toNat → b.toNat < 0x41800 →
      m' b = m b) : Represents m' t := by
  have hgate : ∀ n : Fin 256, ∀ k < 16,
      m' (gateAddr n + BitVec.ofNat 64 k)
        = m (gateAddr n + BitVec.ofNat 64 k) := by
    intro n k hk
    have haddr := gateAddr_toNat n.isLt
    have hbyte := toNat_add_lit (x := gateAddr n) (n := k) (by omega)
    exact hs _ (by omega) (by omega)
  refine ⟨fun n h hn => (hr.gate n h hn).congr (hgate n), ?_, ?_⟩
  · intro n hn k hk
    rw [hgate n k hk]
    exact hr.absent n hn k hk
  · intro n
    have hn := n.isLt
    rw [handlerEntry_congr n.isLt fun b hlo hhi =>
      hs b (by omega) (by omega)]
    exact hr.handler n

/-- A byte of the tables that a routine does not write. -/
theorem WritesIn.keep (ht : WritesIn lo hi c d)
    (hs : ClearStack (c.reg .rsp) 120) (hb : 0x40000 ≤ b.toNat)
    (hb' : b.toNat < 0x42000) (hout : b.toNat < lo ∨ hi ≤ b.toNat) :
    d.mem b = c.mem b := by
  refine ht.rest b (fun hu => ?_) hout
  have hclear := hs b hu
  omega

/-- A gate whose bytes a routine does not write. -/
theorem WritesIn.gate (ht : WritesIn lo hi c d)
    (hs : ClearStack (c.reg .rsp) 120) (hn : n < 256)
    (hout : 0x40000 + 16 * n + 16 ≤ lo ∨ hi ≤ 0x40000 + 16 * n) {k : Nat}
    (hk : k < 16) :
    d.mem (gateAddr n + BitVec.ofNat 64 k)
      = c.mem (gateAddr n + BitVec.ofNat 64 k) := by
  have haddr := gateAddr_toNat hn
  have hbyte : (gateAddr n + BitVec.ofNat 64 k).toNat = 0x40000 + 16 * n + k :=
    by rw [toNat_add_lit (by omega), haddr]
  exact ht.keep hs (by omega) (by omega) (by omega)

/-- An entry whose bytes a routine does not write. -/
theorem WritesIn.entry (ht : WritesIn lo hi c d)
    (hs : ClearStack (c.reg .rsp) 120) (hn : n < 256)
    (hout : 0x41000 + 8 * n + 8 ≤ lo ∨ hi ≤ 0x41000 + 8 * n) :
    handlerEntry d.mem n = handlerEntry c.mem n := by
  exact handlerEntry_congr hn fun b hlo hhi =>
    ht.keep hs (by omega) (by omega) (by omega)

/-- After `init_idt` the tables are empty. -/
theorem represents_init (hs : ClearStack (c.reg .rsp) 120) :
    Represents (init_idt c).mem .empty := by
  obtain ⟨-, hzero⟩ := init_idt_spec hs
  refine ⟨fun n h hgate => by simp [Tables.empty] at hgate, ?_, ?_⟩
  · intro n _ k hk
    have haddr := gateAddr_toNat n.isLt
    have hbyte := toNat_add_lit (x := gateAddr n) (n := k) (by omega)
    exact hzero _ (by omega) (by omega)
  · intro n
    have haddr := handlerAddr_toNat n.isLt
    refine read64_eq_zero fun k hk => ?_
    have hbyte := toNat_add_lit (x := handlerAddr n) (n := k) (by omega)
    exact hzero _ (by omega) (by omega)

/-- The byte above every selector is zero. -/
theorem Represents.selector_high (hr : Represents m t) (n : Fin 256) :
    m (gateAddr n + 3#64) = 0#8 := by
  cases hgate : t.gate n with
  | none => exact hr.absent n hgate 3 (by omega)
  | some h => exact (hr.gate n h hgate).selector_high

/-- One `setup_idt_entry`. -/
theorem Represents.setup (hr : Represents c.mem t)
    (hs : ClearStack (c.reg .rsp) 120) (n : Fin 256)
    (ht : WritesIn (0x40000 + 16 * n) (0x40000 + 16 * n + 16) c d)
    (hg : GateAt d.mem (gateAddr n) h) :
    Represents d.mem (t.step (.setup n h)) := by
  have hother : ∀ k : Fin 256, k ≠ n → ∀ j < 16,
      d.mem (gateAddr k + BitVec.ofNat 64 j)
        = c.mem (gateAddr k + BitVec.ofNat 64 j) := by
    intro k hne j hj
    have hne' : (k : Nat) ≠ n := fun hv => hne (Fin.ext hv)
    exact ht.gate hs k.isLt (by omega) hj
  refine ⟨?_, ?_, ?_⟩
  · intro k h' hk
    by_cases hkn : k = n
    · subst hkn
      have hh : some h = some h' := by
        rw [← hk]
        exact (if_pos rfl).symm
      rw [← Option.some.inj hh]
      exact hg
    · have hold : t.gate k = some h' := (if_neg hkn).symm.trans hk
      exact (hr.gate k h' hold).congr fun j hj => hother k hkn j hj
  · intro k hk j hj
    by_cases hkn : k = n
    · have hh : some h = none := by
        rw [← hk]
        exact (if_pos hkn).symm
      exact absurd hh (by simp)
    · have hold : t.gate k = none := (if_neg hkn).symm.trans hk
      rw [hother k hkn j hj]
      exact hr.absent k hold j hj
  · intro k
    rw [ht.entry hs k.isLt (by omega)]
    exact hr.handler k

/-- One `register_idt_handler`. -/
theorem Represents.register (hr : Represents c.mem t)
    (hs : ClearStack (c.reg .rsp) 120) (n : Fin 256)
    (ht : WritesIn (0x41000 + 8 * n) (0x41000 + 8 * n + 8) c d)
    (he : handlerEntry d.mem n = h) :
    Represents d.mem (t.step (.register n h)) := by
  have hsame : ∀ k : Fin 256, ∀ j < 16,
      d.mem (gateAddr k + BitVec.ofNat 64 j)
        = c.mem (gateAddr k + BitVec.ofNat 64 j) :=
    fun k j hj => ht.gate hs k.isLt (by omega) hj
  refine ⟨?_, ?_, ?_⟩
  · intro k h' hk
    exact (hr.gate k h' hk).congr fun j hj => hsame k j hj
  · intro k hk j hj
    rw [hsame k j hj]
    exact hr.absent k hk j hj
  · intro k
    show _ = (if k = n then some h else t.handler k).getD 0#64
    by_cases hkn : k = n
    · rw [if_pos hkn, hkn, he]
      rfl
    · have hne : (k : Nat) ≠ n := fun hv => hkn (Fin.ext hv)
      rw [if_neg hkn, ht.entry hs k.isLt (by omega)]
      exact hr.handler k

-- ============================================================ the calls

/-- RSP at a call is the caller's. -/
theorem args_rsp (c : Cpu) (v w : BitVec 64) :
    ((c.set .rsi v).set .rdi w).reg .rsp = c.reg .rsp := by
  simp only [Cpu.set_reg, reduceCtorEq, if_false]

/-- One call takes memory from the tables before to the tables after, and
touches nothing else but its stack. -/
theorem IdtCall.run_spec (hr : Represents c.mem t)
    (hs : ClearStack (c.reg .rsp) 120) (call : IdtCall) :
    Represents (call.run c).mem (t.step call)
      ∧ ∀ b : BitVec 64, ¬ Under (c.reg .rsp) 120 b →
        b.toNat < 0x40000 ∨ 0x41800 ≤ b.toNat →
        (call.run c).mem b = c.mem b := by
  cases call with
  | setup n h =>
      have hsp := args_rsp c h (BitVec.ofNat 64 n)
      obtain ⟨ht, hg⟩ := setup_idt_entry_spec
        (c := (c.set .rsi h).set .rdi (BitVec.ofNat 64 n)) n.isLt
        (Cpu.set_reg_self _ _ _) (hsp ▸ hs)
      refine ⟨Represents.setup (c := (c.set .rsi h).set .rdi _) hr
        (hsp ▸ hs) n ht (hg (hr.selector_high n)), ?_⟩
      intro b hu hout
      refine ht.rest b (by rw [hsp]; exact hu) ?_
      have hn := n.isLt
      omega
  | register n h =>
      have hsp := args_rsp c h (BitVec.ofNat 64 n)
      obtain ⟨ht, he⟩ := register_idt_handler_spec
        (c := (c.set .rsi h).set .rdi (BitVec.ofNat 64 n)) n.isLt
        (Cpu.set_reg_self _ _ _) (hsp ▸ hs)
      refine ⟨Represents.register (c := (c.set .rsi h).set .rdi _) hr
        (hsp ▸ hs) n ht he, ?_⟩
      intro b hu hout
      refine ht.rest b (by rw [hsp]; exact hu) ?_
      have hn := n.isLt
      omega

/-- No byte is on the stack of one of these calls. -/
def OffStacks (calls : List ((Reg → BitVec 64) × IdtCall)) (b : BitVec 64) :
    Prop :=
  ∀ x ∈ calls, ¬ Under (x.1 .rsp) 120 b

/-- Every call has its stack clear of the tables. -/
def ClearStacks (calls : List ((Reg → BitVec 64) × IdtCall)) : Prop :=
  ∀ x ∈ calls, ClearStack (x.1 .rsp) 120

/-- A sequence of calls. -/
theorem idt_calls_spec (calls : List ((Reg → BitVec 64) × IdtCall))
    (hr : Represents c.mem t) (hs : ClearStacks calls) :
    Represents (idt_calls c calls).mem
        ((calls.map Prod.snd).foldl Tables.step t)
      ∧ ∀ b : BitVec 64, OffStacks calls b →
        b.toNat < 0x40000 ∨ 0x41800 ≤ b.toNat →
        (idt_calls c calls).mem b = c.mem b := by
  induction calls generalizing c t with
  | nil => exact ⟨hr, fun _ _ _ => rfl⟩
  | cons x calls ih =>
      obtain ⟨hstep, hrest⟩ := IdtCall.run_spec (c := { c with reg := x.1 }) hr
        (hs x List.mem_cons_self) x.2
      obtain ⟨hrun, hframe⟩ := ih hstep fun y hy =>
        hs y (List.mem_cons_of_mem _ hy)
      refine ⟨hrun, ?_⟩
      intro b hoff hout
      have hlater : OffStacks calls b := fun y hy =>
        hoff y (List.mem_cons_of_mem _ hy)
      exact (hframe b hlater hout).trans
        (hrest b (hoff x List.mem_cons_self) hout)

-- ============================================================ the result

/-- The gate the processor decodes for what was set up. -/
def decoded : Option (BitVec 64) → Gate
  | some h => ⟨h, 0x8#16, 0#3, 0x8E#8⟩
  | none => ⟨0#64, 0#16, 0#3, 0#8⟩

theorem Represents.decode (hr : Represents m t) (n : Fin 256) :
    Gate.decode m (gateAddr n) = decoded (t.gate n) := by
  cases hgate : t.gate n with
  | none => exact decode_zero (hr.absent n hgate)
  | some h => exact (hr.gate n h hgate).decode

/-- After `init_idt` and any calls, each gate decodes to the last address
set up for it, or is all zero; each entry of the handler array is the last
address registered, or zero; and beside what `init_idt` clears only the
stacks change, of which the calls change the two tables at most. -/
theorem idt_tables (c : Cpu) (calls : List ((Reg → BitVec 64) × IdtCall))
    (hs : ClearStack (c.reg .rsp) 120) (hcalls : ClearStacks calls) :
    (∀ n : Fin 256,
      Gate.decode (idt_calls (init_idt c) calls).mem (gateAddr n)
        = decoded ((tables (calls.map Prod.snd)).gate n))
    ∧ (∀ n : Fin 256, (tables (calls.map Prod.snd)).gate n = none →
      ∀ k < 16, (idt_calls (init_idt c) calls).mem
        (gateAddr n + BitVec.ofNat 64 k) = 0)
    ∧ (∀ n : Fin 256,
      handlerEntry (idt_calls (init_idt c) calls).mem n
        = ((tables (calls.map Prod.snd)).handler n).getD 0#64)
    ∧ (∀ b : BitVec 64, OffStacks calls b →
      b.toNat < 0x40000 ∨ 0x41800 ≤ b.toNat →
      (idt_calls (init_idt c) calls).mem b = (init_idt c).mem b)
    ∧ (∀ b : BitVec 64, ¬ Under (c.reg .rsp) 120 b → OffStacks calls b →
      b.toNat < 0x40000 ∨ 0x42000 ≤ b.toNat →
      (idt_calls (init_idt c) calls).mem b = c.mem b) := by
  obtain ⟨hr, hframe⟩ := idt_calls_spec calls (represents_init hs) hcalls
  refine ⟨hr.decode, hr.absent, hr.handler, hframe, ?_⟩
  intro b hu hoff hout
  rw [hframe b hoff (by omega)]
  exact (init_idt_spec hs).1.rest b hu hout

/-- A stack below the tables is clear of them; the kernel's starts at
0xB000. -/
theorem clearStack_of_le {sp : BitVec 64} (hn : n ≤ sp.toNat)
    (hsp : sp.toNat ≤ 0x40000) : ClearStack sp n := by
  intro b hu
  rw [under_iff hn] at hu
  omega

/-- The registers of a caller on the kernel's stack. -/
def kernelRegs : Reg → BitVec 64 := fun _ => 0xB000#64

theorem clearStack_kernel : ClearStack 0xB000#64 120 :=
  clearStack_of_le (by decide) (by decide)

/-- A gate set up twice, with a handler registered in between. -/
def sampleCalls : List ((Reg → BitVec 64) × IdtCall) :=
  [(kernelRegs, .setup 32 0x11000#64),
    (kernelRegs, .register 32 0x12000#64),
    (kernelRegs, .setup 32 0x13000#64)]

/-- Their instance, over memory full of ones. -/
theorem idt_tables_sample :
    Gate.decode (idt_calls (init_idt ⟨kernelRegs, fun _ => 0xFF#8, []⟩)
        sampleCalls).mem (gateAddr 32) = ⟨0x13000#64, 0x8#16, 0#3, 0x8E#8⟩
      ∧ Gate.decode (idt_calls (init_idt ⟨kernelRegs, fun _ => 0xFF#8, []⟩)
        sampleCalls).mem (gateAddr 33) = ⟨0#64, 0#16, 0#3, 0#8⟩
      ∧ handlerEntry (idt_calls (init_idt ⟨kernelRegs, fun _ => 0xFF#8, []⟩)
        sampleCalls).mem 32 = 0x12000#64 := by
  have hcalls : ClearStacks sampleCalls := by
    intro x hx
    simp only [sampleCalls, List.mem_cons, List.not_mem_nil, or_false] at hx
    rcases hx with rfl | rfl | rfl <;> exact clearStack_kernel
  obtain ⟨hgate, -, hentry, -, -⟩ := idt_tables
    ⟨kernelRegs, fun _ => 0xFF#8, []⟩ sampleCalls clearStack_kernel hcalls
  exact ⟨hgate 32, hgate 33, hentry 32⟩

end BootLoader.ThirdStage
