/-
Where the memory test starts, and what it finds.

# The start

Its comment says "last physical address of the page table", and R15 is
what it takes for that. But R15 is the base address `page_walk` loads for
its own use, so at the end of `start_here` it is 0x100000 (`Held.root`),
the first byte of the PML4 page. The test writes there first, whatever
the map and however the memory reads back.

# The compare

A round reads the byte into CL and compares CL with the byte read once
more, not with the 5 it wrote. A byte that reads back some fixed value is
equal to itself, so no round goes to `error_msg` (`test_round`): the test
runs through the whole range on any memory, and is right about it exactly
where there is nothing to find.
-/
import BootLoader.ThirdStage.Tester
import BootLoader.ThirdStage.Proofs.SoftwareTables

namespace BootLoader.ThirdStage

open FlatMemory Words

/-- The page-table pages of the run: the PML4 page and what `page_walk`
has allocated. -/
def Boot.tablePages (s : Boot) : List (BitVec 64) :=
  0x100000#64 :: s.tables.map Prod.snd

/-- The test, started as `start_here` returns, writes no byte of a table
page. -/
def TesterSafe (stuck : BitVec 64 → Option (BitVec 8)) (s : Boot) : Prop :=
  ∀ x ∈ (tester stuck { s.cpu with log := [] }).log, x.write = true →
    ∀ p ∈ s.tablePages, x.addr.toNat + x.size ≤ p.toNat
      ∨ p.toNat + 0x1000 ≤ x.addr.toNat

variable {L : Layout} {c : Cpu} {s : Boot}
  {stuck : BitVec 64 → Option (BitVec 8)} {x : Access}

/-- A round adds to the access history. -/
theorem mem_log_test {t : Testing} (hx : x ∈ t.cpu.log) :
    x ∈ (test stuck t).cpu.log := by
  unfold test
  dsimp only
  split
  · exact List.mem_cons_of_mem _
      (List.mem_cons_of_mem _ (List.mem_cons_of_mem _ hx))
  · exact List.mem_cons_of_mem _
      (List.mem_cons_of_mem _ (List.mem_cons_of_mem _ hx))

/-- The first round writes the byte at RAX. -/
theorem test_writes (stuck : BitVec 64 → Option (BitVec 8)) (t : Testing) :
    ⟨true, t.cpu.reg .rax, 1⟩ ∈ (test stuck t).cpu.log := by
  unfold test
  dsimp only
  split
  · exact List.mem_cons_of_mem _ (List.mem_cons_of_mem _ (List.mem_cons_self ..))
  · exact List.mem_cons_of_mem _ (List.mem_cons_of_mem _ (List.mem_cons_self ..))

/-- Before the loop RAX is what R15 was. -/
theorem tester_start_rax (hroom : 120 ≤ (c.reg .rsp).toNat) :
    (tester_start c).reg .rax = c.reg .r15 := by
  obtain ⟨-, hpreg, -, -⟩ := Cpu.pushaq_spec hroom
  rw [← hpreg .r15 (by decide)]
  unfold tester_start
  simp only [Cpu.set_reg, reduceCtorEq, if_true, if_false]

/-- The test writes the byte R15 points at. -/
theorem tester_writes (stuck : BitVec 64 → Option (BitVec 8))
    (hroom : 120 ≤ (c.reg .rsp).toNat) :
    ⟨true, c.reg .r15, 1⟩ ∈ (tester stuck c).log := by
  unfold tester testing
  refine Cpu.mem_log_popaq ?_
  -- the first round, then however many
  have hpow : (2 : Nat) ^ 64 = 2 ^ 64 - 1 + 1 := by omega
  rw [hpow]
  generalize (2 : Nat) ^ 64 - 1 = fuel
  have hfirst := test_writes stuck
    { cpu := tester_start c, error_msg := false }
  rw [tester_start_rax hroom] at hfirst
  rw [Loop.doWhile]
  split
  · exact Loop.doWhile_preserves (P := fun t : Testing =>
      (⟨true, c.reg .r15, 1⟩ : Access) ∈ t.cpu.log)
      (fun _ ht => mem_log_test ht) fuel hfirst
  · exact hfirst

-- ============================================================ the result

/-- When `start_here` returns, R15 is the PML4's address. -/
theorem Held.tester_hits_root {m₀ : Mem} (h : Held m₀ s) (hpc : s.pc = .done) :
    ¬ TesterSafe stuck s := by
  intro hsafe
  have h15 : s.cpu.reg .r15 = 0x100000#64 := h.root (by simp [hpc])
  have hroom : 120 ≤ (({ s.cpu with log := [] } : Cpu).reg .rsp).toNat :=
    Nat.le_trans (by omega) h.core.stack.1
  have hwrite := tester_writes stuck hroom
  have hclear := hsafe _ hwrite rfl 0x100000#64 (List.mem_cons_self ..)
  have hbase : (0x100000#64).toNat = 0x100000 := toNat_lit (by omega)
  change (s.cpu.reg .r15).toNat + 1 ≤ _ ∨ _ ≤ (s.cpu.reg .r15).toNat
    at hclear
  rw [h15] at hclear
  omega

/-- The memory test is never safe: whenever `start_here` returns, the
test writes into the PML4 page. -/
theorem tester_overwrites_tables (hs : StackOk c) (h : Reached L c s)
    (hpc : s.pc = .done) : ¬ TesterSafe stuck s :=
  (Reached.held hs h).tester_hits_root hpc

/-- The instance on the wide map, with sound memory. -/
theorem tester_overwrites_tables_wideMap : ∃ s,
    Reached assembledLayout (checkCpu wideMap 0#64) s ∧ s.pc = .done
      ∧ ¬ TesterSafe (fun _ => none) s := by
  obtain ⟨n, hdone, hr⟩ := done_wideMap (L := assembledLayout)
    fun _ => false
  exact ⟨_, hr, hdone,
    tester_overwrites_tables (stackOk_checkCpu wideMap 0#64) hr hdone⟩

/-- On 1 TiB of sound, usable memory it writes into the PML4 page. -/
theorem tester_not_safe : ¬ ∀ (L : Layout) (c : Cpu) (s : Boot),
    StackOk c → Reached L c s → s.pc = .done →
      TesterSafe (fun _ => none) s := by
  intro h
  have hs := stackOk_checkCpu wideMap 0#64
  obtain ⟨n, hdone, hr⟩ := done_wideMap (L := assembledLayout)
    fun _ => false
  exact (Reached.held hs hr).tester_hits_root hdone (h _ _ _ hs hr hdone)

-- ============================================================ the faults

/-- The last byte tested. -/
def testEnd : Nat := 0x10019FC00

/-- A 5 written to the byte reads back as a 5. -/
def Sound (stuck : BitVec 64 → Option (BitVec 8)) (a : BitVec 64) : Prop :=
  (stuck a).getD 0x5#8 = 0x5#8

instance (stuck : BitVec 64 → Option (BitVec 8)) (a : BitVec 64) :
    Decidable (Sound stuck a) := inferInstanceAs (Decidable (_ = _))

/-- The byte is one of those to test from `s` on. -/
def InTest (s a : BitVec 64) : Prop :=
  s.toNat ≤ a.toNat ∧ a.toNat ≤ testEnd

/-- The accesses of `n` rounds from `s` on, the last first. -/
def rounds (s : BitVec 64) : Nat → List Access
  | 0 => []
  | n + 1 =>
      let a := s + BitVec.ofNat 64 n
      ⟨false, a, 1⟩ :: ⟨false, a, 1⟩ :: ⟨true, a, 1⟩ :: rounds s n

/-- The test tells a memory with an unsound byte in its range from one
without, and has been through all of a range it finds sound, once. -/
structure DetectsFaults (stuck : BitVec 64 → Option (BitVec 8)) (c : Cpu) :
    Prop where
  detects : (testing stuck c).error_msg = true
    ↔ ∃ a, InTest (c.reg .r15) a ∧ ¬ Sound stuck a
  covers : (testing stuck c).error_msg = false →
    (testing stuck c).cpu.log
      = rounds (c.reg .r15) (testEnd - (c.reg .r15).toNat + 1)
        ++ (tester_start c).log

/-- A round never goes to `error_msg`: both reads are of the same byte. -/
theorem test_round (stuck : BitVec 64 → Option (BitVec 8)) (t : Testing) :
    (test stuck t).error_msg = false
      ∧ (test stuck t).cpu.reg .rax = t.cpu.reg .rax + 1#64
      ∧ (test stuck t).cpu.reg .rbx = t.cpu.reg .rbx
      ∧ (test stuck t).cpu.log
        = ⟨false, t.cpu.reg .rax, 1⟩ :: ⟨false, t.cpu.reg .rax, 1⟩
          :: ⟨true, t.cpu.reg .rax, 1⟩ :: t.cpu.log := by
  unfold test
  dsimp only
  rw [if_neg]
  · refine ⟨rfl, rfl, ?_, rfl⟩
    simp [Cpu.setLow8, Cpu.set_reg, Cpu.store8]
  · rw [not_not]
    exact Cpu.low8_setLow8 _ _ _

/-- The test after `k` rounds. -/
structure Tested (c : Cpu) (k : Nat) (t : Testing) : Prop where
  passed : t.error_msg = false
  rax : t.cpu.reg .rax = c.reg .r15 + BitVec.ofNat 64 k
  rbx : t.cpu.reg .rbx = 0x10019FC00#64
  log : t.cpu.log = rounds (c.reg .r15) k ++ (tester_start c).log

/-- Every run goes through the whole range. -/
theorem testing_passes (stuck : BitVec 64 → Option (BitVec 8))
    (hs : (c.reg .r15).toNat ≤ testEnd) :
    Tested c (testEnd - (c.reg .r15).toNat + 1) (testing stuck c) := by
  unfold testEnd at hs ⊢
  have hrax : ∀ k, k ≤ 0x10019FC00 - (c.reg .r15).toNat + 1 →
      (c.reg .r15 + BitVec.ofNat 64 k).toNat = (c.reg .r15).toNat + k := by
    intro k hk
    rw [BitVec.toNat_add, BitVec.toNat_ofNat]
    omega
  -- the signed compare, on addresses this small
  have hslt : ∀ x : BitVec 64, x.toNat < 2 ^ 63 →
      (0x10019FC00#64).slt x = decide (0x10019FC00 < x.toNat) :=
    fun x hx => slt_of_small (by decide) hx
  refine Loop.doWhile_counted (Tested c) (by omega) ?_ ?_ ?_ (by omega) ?_
  · intro k t _ ht
    obtain ⟨h1, h2, h3, h4⟩ := test_round stuck t
    refine ⟨h1, ?_, h3.trans ht.rbx, ?_⟩
    · rw [h2, ht.rax, BitVec.add_assoc, BitVec.ofNat_add]
    · rw [h4, ht.log, ht.rax]
      rfl
  · intro k t _ hk ht
    unfold goesOn
    rw [ht.passed, ht.rbx, ht.rax, hslt _ (by rw [hrax k (by omega)]; omega),
      hrax k (by omega)]
    simp only [Bool.not_false, Bool.true_and, Bool.not_eq_true',
      decide_eq_false_iff_not]
    omega
  · intro t ht
    unfold goesOn
    rw [ht.passed, ht.rbx, ht.rax,
      hslt _ (by rw [hrax _ (Nat.le_refl _)]; omega), hrax _ (Nat.le_refl _)]
    simp only [Bool.not_false, Bool.true_and, Bool.not_eq_false',
      decide_eq_true_eq]
    omega
  · refine ⟨rfl, ?_, ?_, rfl⟩
    · rw [BitVec.add_zero]
      show (tester_start c).reg .rax = _
      rw [← c.pushaq_reg (r := .r15) (by decide)]
      unfold tester_start
      simp only [Cpu.set_reg, reduceCtorEq, if_true, if_false]
    · show (tester_start c).reg .rbx = _
      unfold tester_start
      simp only [Cpu.set_reg, reduceCtorEq, if_true, if_false]

/-- The test is right about a memory exactly where every byte of the range
is sound. -/
theorem detects_faults_iff (stuck : BitVec 64 → Option (BitVec 8))
    (hs : (c.reg .r15).toNat ≤ testEnd) :
    DetectsFaults stuck c ↔ ∀ a, InTest (c.reg .r15) a → Sound stuck a := by
  have ht := testing_passes stuck hs
  constructor
  · intro hd a ha
    by_contra hbad
    have hfound := hd.detects.2 ⟨a, ha, hbad⟩
    rw [ht.passed] at hfound
    cases hfound
  · intro hall
    refine ⟨⟨fun he => ?_, ?_⟩, fun _ => ht.log⟩
    · rw [ht.passed] at he
      cases he
    · rintro ⟨a, ha, hbad⟩
      exact absurd (hall a ha) hbad

/-- The instance from 0x100000 on, all bytes sound. -/
theorem detects_faults_iff_sound :
    DetectsFaults (fun _ => none) ((checkCpu [] 0#64).set .r15 0x100000#64)
      ↔ ∀ a, InTest 0x100000#64 a → Sound (fun _ => none) a :=
  detects_faults_iff (c := (checkCpu [] 0#64).set .r15 0x100000#64) _
    (by decide)

/-- A byte that always reads 0 is not found. -/
theorem stuck_byte_missed :
    ¬ DetectsFaults (fun a => if a = 0x200000#64 then some 0#8 else none)
      ((checkCpu [] 0#64).set .r15 0x100000#64) := by
  intro hd
  have ht := testing_passes
    (c := (checkCpu [] 0#64).set .r15 0x100000#64)
    (fun a => if a = 0x200000#64 then some 0#8 else none) (by decide)
  have hfound := hd.detects.2 ⟨0x200000#64, ⟨by decide, by decide⟩, by decide⟩
  rw [ht.passed] at hfound
  cases hfound

end BootLoader.ThirdStage
