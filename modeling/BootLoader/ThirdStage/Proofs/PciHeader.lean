/-
What `get_pci_device` captures.

The composed address is the sum of fields that do not overlap (`base`), and
the offset fills in the low byte the composition leaves 0, so the `and` with
0xFC changes nothing. A round puts its base back from the stack, which holds
because the header buffer is no part of the stack (`Captured`, the rounds'
invariant). The bound 0xFF is no multiple of 4, but the offset 0xFC is below
it and 0x100 is not: 64 rounds, the last one on the last doubleword.

The configuration space is a function of bus, device, function and
doubleword; `selects` is that function behind CONFIG_ADDRESS.
-/
import Mathlib.Data.List.Nodup
import BootLoader.ThirdStage.Proofs.Pci

namespace BootLoader.ThirdStage

open FlatMemory Mem Words

variable {l : PciLabels} {space : ConfigSpace} {s s₀ : Scan} {k : Nat}

-- ============================================================ the address

/-- The composed address of a function, with bus, device and function as
bytes. -/
def base (b d f : BitVec 8) : BitVec 32 :=
  b.setWidth 32 <<< 16 ||| d.setWidth 32 <<< 11 ||| f.setWidth 32 <<< 8
    ||| 0x80000000#32

/-- The sum of a multiple of a power of two and something below it. -/
theorem toNat_or_below {w : Nat} {x y : BitVec w} {n : Nat}
    (hx : x.toNat % 2 ^ n = 0) (hy : y.toNat < 2 ^ n) :
    (x ||| y).toNat = x.toNat + y.toNat := by
  have hsplit : 2 ^ n * (x.toNat / 2 ^ n) = x.toNat :=
    Nat.mul_div_cancel' (Nat.dvd_of_mod_eq_zero hx)
  rw [BitVec.toNat_or, ← hsplit]
  exact (Nat.two_pow_add_eq_or_of_lt hy _).symm

/-- A round at its `out`. -/
def atOut (s : Scan) : Scan :=
  let s := s.run fun c => c.push .rax
  let s := s.run fun c => c.set .rax (c.reg .rax ||| c.reg .rsi)
  let s := s.run fun c => c.setLow8 .rax (c.low8 .rax &&& 0xFC#8)
  s.run fun c => c.setLow16 .rdx CONFIG_ADDRESS

/-- What the `out` writes to CONFIG_ADDRESS. -/
def addressOut (s : Scan) : List (BitVec 32) :=
  if (atOut s).cpu.low16 .rdx = CONFIG_ADDRESS then [(atOut s).cpu.low32 .rax]
  else []

/-- A word whose low byte is a multiple of 4 is left by the `and`. -/
theorem mask_offset (x : BitVec 64) (hx : x.toNat % 4 = 0) :
    x.extractLsb' 8 56 ++ (x.extractLsb' 0 8 &&& 0xFC#8) = x := by
  have hbyte : ∀ v : BitVec 8, v.toNat % 4 = 0 → v &&& 0xFC#8 = v := by
    decide
  rw [hbyte]
  · refine BitVec.eq_of_toNat_eq ?_
    rw [BitVec.toNat_append, ← Nat.shiftLeft_add_eq_or_of_lt (BitVec.isLt _),
      BitVec.extractLsb'_toNat, BitVec.extractLsb'_toNat, Nat.shiftLeft_eq,
      Nat.shiftRight_eq_div_pow]
    have hlt := x.isLt
    omega
  · rw [BitVec.extractLsb'_toNat]
    omega

/-- The `out` of a round with its base and its offset in place. -/
theorem outEax_atOut {a : BitVec 32} (hrax : s.cpu.reg .rax = a.setWidth 64)
    (hrsi : s.cpu.reg .rsi = BitVec.ofNat 64 (4 * k)) (hk : k < 64)
    (ha : a.toNat % 0x100 = 0) :
    addressOut s = [a + BitVec.ofNat 32 (4 * k)]
      ∧ (atOut s).outEax
        = { atOut s with address := a + BitVec.ofNat 32 (4 * k) } := by
  have hmask : (a.setWidth 64 ||| BitVec.ofNat 64 (4 * k)).toNat
      = a.toNat + 4 * k := by
    have ha' : (a.setWidth 64).toNat = a.toNat := by
      rw [BitVec.toNat_setWidth]
      omega
    have hk' : (BitVec.ofNat 64 (4 * k)).toNat = 4 * k := toNat_lit (by omega)
    rw [toNat_or_below (n := 8) (by omega) (by omega), ha', hk']
  have hreg : (atOut s).cpu.reg .rax
      = a.setWidth 64 ||| BitVec.ofNat 64 (4 * k) := by
    simp only [atOut, Scan.run, Cpu.push, Cpu.setLow8, Cpu.setLow16, Cpu.low8,
      Cpu.set_reg, Cpu.store64_reg, reduceCtorEq, if_true, if_false, hrax,
      hrsi]
    exact mask_offset _ (by omega)
  have hout : (atOut s).cpu.low32 .rax = a + BitVec.ofNat 32 (4 * k) := by
    refine BitVec.eq_of_toNat_eq ?_
    unfold Cpu.low32
    rw [hreg, BitVec.extractLsb'_toNat, hmask, BitVec.toNat_add,
      BitVec.toNat_ofNat]
    omega
  have hport : (atOut s).cpu.low16 .rdx = CONFIG_ADDRESS :=
    Cpu.low16_setLow16 _ _ _
  constructor
  · unfold addressOut
    rw [if_pos hport, hout]
  · unfold Scan.outEax
    rw [if_pos hport, hout]

/-- `in eax, dx` at CONFIG_DATA. -/
theorem inEax_data (space : ConfigSpace) (t : Scan) :
    (t.run fun c => (c.setLow16 .rdx CONFIG_DATA).set .rax 0#64).inEax space
      = t.run fun c => ((c.setLow16 .rdx CONFIG_DATA).set .rax 0#64).set .rax
          ((space t.address).setWidth 64) := by
  have hdata : (t.run fun c =>
      (c.setLow16 .rdx CONFIG_DATA).set .rax 0#64).cpu.low16 .rdx
      = CONFIG_DATA := Cpu.low16_setLow16 t.cpu .rdx CONFIG_DATA
  unfold Scan.inEax
  rw [if_pos hdata]
  rfl

/-- What a round stores, and that its base comes back from the stack. -/
theorem pci_config_space_read_round_mem (space : ConfigSpace)
    {a : BitVec 32}
    (hrax : s.cpu.reg .rax = a.setWidth 64)
    (hrsi : s.cpu.reg .rsi = BitVec.ofNat 64 (4 * k)) (hk : k < 64)
    (ha : a.toNat % 0x100 = 0) (hs : StackOk s.cpu) :
    (pci_config_space_read_round l space s).cpu.mem
        = (s.cpu.mem.write64 (s.cpu.reg .rsp - 8#64)
            (s.cpu.reg .rax)).write32 (l.pci_header + s.cpu.reg .rsi)
              (space (a + BitVec.ofNat 32 (4 * k)))
      ∧ (pci_config_space_read_round l space s).cpu.reg .rax
        = a.setWidth 64 := by
  have houtEax := (outEax_atOut hrax hrsi hk ha).2
  have hround : pci_config_space_read_round l space s
      = (((((atOut s).outEax.run fun c =>
            (c.setLow16 .rdx CONFIG_DATA).set .rax 0#64).inEax space).run
          fun c => c.store32 (l.pci_header + c.reg .rsi) (c.low32 .rax)).run
          fun c => (c.set .rsi (c.reg .rsi + 4#64)).pop .rax) := rfl
  rw [inEax_data, houtEax] at hround
  have hmem : (pci_config_space_read_round l space s).cpu.mem
      = (s.cpu.mem.write64 (s.cpu.reg .rsp - 8#64)
          (s.cpu.reg .rax)).write32 (l.pci_header + s.cpu.reg .rsi)
            (((space (a + BitVec.ofNat 32 (4 * k))).setWidth 64).extractLsb'
              0 32) := by
    rw [hround]
    rfl
  rw [low32_zeroExtend] at hmem
  refine ⟨hmem, ?_⟩
  have hpop : (pci_config_space_read_round l space s).cpu.reg .rax
      = (pci_config_space_read_round l space s).cpu.mem.read64
          (s.cpu.reg .rsp - 8#64) := by
    rw [hround]
    rfl
  obtain ⟨hlo, hhi⟩ := hs
  have hheader := l.header_in
  unfold imageEnd at hheader
  have hsp : (s.cpu.reg .rsp - 8#64).toNat + 8 ≤ 0x10000 := by
    simp only [BitVec.toNat_sub, BitVec.toNat_ofNat]
    omega
  have hslot : (l.pci_header + s.cpu.reg .rsi).toNat
      = l.pci_header.toNat + 4 * k := by
    rw [hrsi]
    exact toNat_add_lit (by omega)
  rw [hpop, hmem, ← hrax]
  exact (read_write_of_disjoint (n := 4) (k := 8) _ _ (by omega) (by omega)
    (by omega)).trans (read64_write64_self _ _ _)

-- =============================================================== the rounds

/-- `s` is `s₀` after `k` rounds: the first `k` doublewords are in the
header buffer. -/
structure Captured (l : PciLabels) (space : ConfigSpace) (a : BitVec 32)
    (s₀ : Scan) (k : Nat) (s : Scan) : Prop where
  reading : Reading l s₀ k s
  rax : s.cpu.reg .rax = a.setWidth 64
  stored : ∀ i < k, s.cpu.mem.read32 (l.pci_header + BitVec.ofNat 64 (4 * i))
    = space (a + BitVec.ofNat 32 (4 * i))
  elsewhere : ∀ b : BitVec 64,
    b.toNat < l.pci_header.toNat ∨ l.pci_header.toNat + 4 * k ≤ b.toNat →
    b.toNat < (s₀.cpu.reg .rsp - 8#64).toNat
      ∨ (s₀.cpu.reg .rsp).toNat ≤ b.toNat →
    s.cpu.mem b = s₀.cpu.mem b

/-- One more doubleword. -/
theorem Captured.step {a : BitVec 32} (hs : StackOk s₀.cpu)
    (ha : a.toNat % 0x100 = 0) (hk : k < 64)
    (h : Captured l space a s₀ k s) :
    Captured l space a s₀ (k + 1)
      (pci_config_space_read_round l space s) := by
  have hrsp := h.reading.rsp
  have hstack : StackOk s.cpu := by
    unfold StackOk
    rw [hrsp]
    exact hs
  obtain ⟨hmem, hrax⟩ := pci_config_space_read_round_mem (l := l)
    space h.rax h.reading.rsi hk ha hstack
  rw [h.reading.rsi, hrsp] at hmem
  obtain ⟨hlo, hhi⟩ := hs
  have hheader := l.header_in
  unfold imageEnd at hheader
  have hsp : (s₀.cpu.reg .rsp - 8#64).toNat = (s₀.cpu.reg .rsp).toNat - 8 := by
    simp only [BitVec.toNat_sub, BitVec.toNat_ofNat]
    omega
  have hslot : ∀ i ≤ k, (l.pci_header + BitVec.ofNat 64 (4 * i)).toNat
      = l.pci_header.toNat + 4 * i := fun i hi => toNat_add_lit (by omega)
  have hslotk := hslot k (Nat.le_refl k)
  refine ⟨h.reading.step ⟨hlo, hhi⟩ hk, hrax, ?_, ?_⟩
  · intro i hi
    rw [hmem]
    rcases Nat.lt_succ_iff_lt_or_eq.1 hi with hi | rfl
    · have hsloti := hslot i (Nat.le_of_lt hi)
      rw [← h.stored i hi]
      exact (read_write_of_disjoint (n := 4) (k := 4) _ _ (by omega)
        (by omega) (by omega)).trans (read_write_of_disjoint (n := 8)
          (k := 4) _ _ (by omega) (by omega) (by omega))
    · exact read_write_self (n := 4) _ _ _ (by omega)
  · intro b hb hout
    rw [hmem, ← h.elsewhere b (by omega) hout]
    exact (write_apply_of_out (n := 4) _ _ (by omega) (by omega)).trans
      (write_apply_of_out (n := 8) _ _ (by omega) (by omega))

end BootLoader.ThirdStage
