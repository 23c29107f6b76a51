/-
The two steps of `e1000_init` that talk to the card first.

# Bus mastering

`pci_bus_master` does its work and then runs on into `e1000_bus_master`,
which calls it again before its own `ret` is reached. Each call opens one
more and none of them is the last, so no bound on their number is enough
for a result (`e1000_bus_master_none`, by induction on the bound).

# The EEPROM

A value with bit 4 set says that there is an EEPROM. The loop compares
with it, but the `dec rcx` that follows sets the flags once more before
the jump looks at them: every round but the last goes back, whatever was
read, and the last falls through (`eeprom_loop_counts`). So all the values
of the budget are read and the flag is set at the end, which is right
when the last value is the first with the bit, and then only
(`detect_truthful_iff`).
-/
import BootLoader.ThirdStage.NicSetup
import BootLoader.ThirdStage.Proofs.NicRuns

namespace BootLoader.ThirdStage

open FlatMemory Mem Words

variable {L : Layout} {l : SetupLabels L} {answers : Nat → BitVec 32}
  {p : Probe} {s : Nic}

-- ============================================================= bus mastering

/-- The configuration address of the command register of the card
recorded. -/
def cardCommand (l : SetupLabels L) (m : Mem) : BitVec 32 :=
  0x80000000#32 ||| (m l.e1000_bus).setWidth 32 <<< 16
    ||| (m l.e1000_device).setWidth 32 <<< 11
    ||| (m l.e1000_function).setWidth 32 <<< 8 ||| 0x4#32

/-- The call returns with the registers as they were, and has written the
card's command register only, with bits 1 and 2 set. -/
def MastersCardOnly (l : SetupLabels L) (s : BusState) : Prop :=
  ∃ fuel s', e1000_bus_master l fuel s = some s'
    ∧ s'.cpu.reg = s.cpu.reg
    ∧ s'.written = s.written ++ [(cardCommand l s.cpu.mem,
        s.space (cardCommand l s.cpu.mem) ||| 0x6#32)]

/-- However many calls there may be, one in another, none returns. -/
theorem e1000_bus_master_none (l : SetupLabels L) (fuel : Nat) :
    ∀ s, e1000_bus_master l fuel s = none := by
  induction fuel with
  | zero => exact fun _ => rfl
  | succ fuel ih =>
      intro s
      unfold e1000_bus_master
      dsimp only
      -- the work may stop on its own; the call after it does not return
      cases hwork : pci_bus_master l fuel
          ((s.run Cpu.pushaq).run (load_position l)) with
      | none => rfl
      | some t =>
          show (e1000_bus_master l fuel t).bind _ = none
          rw [ih t]
          rfl

/-- No call of `e1000_bus_master` does what it is for. -/
theorem bus_mastering_never (l : SetupLabels L) (s : BusState) :
    ¬ MastersCardOnly l s := by
  rintro ⟨fuel, s', hsome, -⟩
  rw [e1000_bus_master_none] at hsome
  cases hsome

/-- A machine with no card at all is one where it does not. -/
theorem bus_mastering_fails : ¬ ∀ (L : Layout) (l : SetupLabels L)
    (s : BusState), MastersCardOnly l s := by
  intro hall
  obtain ⟨fuel, s', hsome, -⟩ := hall assembledLayout setupLabels
    ⟨usedUpTo 0x200000#64, 0#32, fun _ => 0xFFFFFFFF#32, []⟩
  rw [e1000_bus_master_none] at hsome
  cases hsome

-- ================================================================ the EEPROM

/-- The value says that there is an EEPROM. -/
def EepromSeen (v : BitVec 32) : Prop := v &&& 0x10#32 = 0x10#32

instance (v : BitVec 32) : Decidable (EepromSeen v) :=
  inferInstanceAs (Decidable (_ = _))

/-- The values the loop may read. -/
def retryBudget : Nat := 0xFFFFFFFF

/-- The value number `k` says so, and none before it. -/
def FirstSeen (answers : Nat → BitVec 32) (k : Nat) : Prop :=
  EepromSeen (answers k) ∧ ∀ j < k, ¬ EepromSeen (answers j)

/-- The flag is what the answers say, and the reads stop at the first that
says there is an EEPROM. -/
structure Truthful (l : SetupLabels L) (answers : Nat → BitVec 32)
    (p : Probe) : Prop where
  detected : p.nic.cpu.mem l.e1000_eeprom_flag = 0x1#8 ↔
    ∃ k < retryBudget, EepromSeen (answers k)
  missing : p.nic.cpu.mem l.e1000_eeprom_flag = 0x0#8 ↔
    ∀ k < retryBudget, ¬ EepromSeen (answers k)
  stops : ∀ k < retryBudget, FirstSeen answers k → p.reads = k + 1

/-- It ends, and truthfully. -/
def DetectsTruly (l : SetupLabels L) (answers : Nat → BitVec 32) (s : Nic) :
    Prop :=
  ∃ n, ∀ fuel ≥ n, ∃ p,
    e1000_detect_eeprom l answers fuel s = some p ∧ Truthful l answers p

-- ================================================================ the rounds

/-- A round counts down by one and up by one. -/
theorem eeprom_round_spec (hs : StackOk p.nic.cpu) :
    (eeprom_round l answers p).nic.cpu.reg .rcx
        = p.nic.cpu.reg .rcx - 1#64
      ∧ (eeprom_round l answers p).nic.cpu.reg .rsp = p.nic.cpu.reg .rsp
      ∧ (eeprom_round l answers p).reads = p.reads + 1 := by
  have hs₁ : StackOk (p.nic.run fun c =>
      c.store16 l.e1000_rw_address REG_EEPROM).cpu := hs
  obtain ⟨htraffic, -⟩ := read_command_spec l.toNicLabels (answers p.reads) hs₁
  have hreg : ∀ r, (e1000_read_command l.toNicLabels (answers p.reads)
      (p.nic.run fun c => c.store16 l.e1000_rw_address REG_EEPROM)).cpu.reg r
        = p.nic.cpu.reg r := fun r => congrFun htraffic.reg r
  simp only [Nic.run] at hreg
  refine ⟨?_, ?_, rfl⟩
  · simp only [eeprom_round, Nic.run, load32, Cpu.set_reg, Cpu.reads_reg,
      reduceCtorEq, if_false, if_true, hreg]
  · simp only [eeprom_round, Nic.run, load32, Cpu.set_reg, Cpu.reads_reg,
      reduceCtorEq, if_false, hreg]

/-- The loop reads as many values as RCX says and falls through, whatever
they are. -/
theorem eeprom_loop_counts (l : SetupLabels L) (answers : Nat → BitVec 32)
    (n : Nat) : ∀ (fuel : Nat) (p : Probe), n < fuel → n + 1 < 2 ^ 64 →
    StackOk p.nic.cpu → p.nic.cpu.reg .rcx = BitVec.ofNat 64 (n + 1) →
    ∃ q, eeprom_loop l answers fuel p = some (q, true)
      ∧ q.reads = p.reads + (n + 1) := by
  induction n with
  | zero =>
      intro fuel p hfuel _ hs hrcx
      obtain ⟨fuel, rfl⟩ : ∃ m, fuel = m + 1 := ⟨fuel - 1, by omega⟩
      obtain ⟨hcount, -, hreads⟩ := @eeprom_round_spec L l answers p hs
      refine ⟨eeprom_round l answers p, ?_, hreads⟩
      rw [hrcx] at hcount
      unfold eeprom_loop
      rw [hrcx, if_neg (by decide)]
      dsimp only
      rw [hcount, if_neg (by decide)]
  | succ n ih =>
      intro fuel p hfuel hn hs hrcx
      obtain ⟨fuel, rfl⟩ : ∃ m, fuel = m + 1 := ⟨fuel - 1, by omega⟩
      obtain ⟨hcount, hrsp, hreads⟩ := @eeprom_round_spec L l answers p hs
      have hnext : (eeprom_round l answers p).nic.cpu.reg .rcx
          = BitVec.ofNat 64 (n + 1) := by
        rw [hcount, hrcx]
        apply BitVec.eq_of_toNat_eq
        simp only [BitVec.toNat_sub, BitVec.toNat_ofNat]
        omega
      have hs' : StackOk (eeprom_round l answers p).nic.cpu := by
        unfold StackOk
        rw [hrsp]
        exact hs
      obtain ⟨q, hq, hqreads⟩ := ih fuel _ (by omega) (by omega) hs' hnext
      have hzero : ∀ m, 0 < m → m < 2 ^ 64 → BitVec.ofNat 64 m ≠ 0x0#64 := by
        intro m hpos hm heq
        have hnat := congrArg BitVec.toNat heq
        rw [toNat_lit hm] at hnat
        exact absurd hnat (Nat.ne_of_gt hpos)
      refine ⟨q, ?_, by omega⟩
      unfold eeprom_loop
      rw [hrcx, if_neg (hzero _ (by omega) hn)]
      dsimp only
      rw [hnext, if_pos (hzero _ (by omega) (by omega))]
      exact hq

/-- The stack and the count before the loop. -/
theorem eeprom_start_spec (hs : StackOk s.cpu.pushaq) :
    StackOk (eeprom_start l s).cpu
      ∧ (eeprom_start l s).cpu.reg .rcx = 0xFFFFFFFF#64 := by
  refine ⟨?_, Cpu.set_reg_self _ _ _⟩
  obtain ⟨t, ht⟩ : ∃ t, ((s.run Cpu.pushaq).run fun c =>
      c.store16 l.e1000_rw_address REG_EEPROM).run (fun c =>
        c.store32 l.e1000_rw_data 0x1#32) = t := ⟨_, rfl⟩
  have hreg : t.cpu.reg .rsp = s.cpu.pushaq.reg .rsp := by
    rw [← ht]
    rfl
  have hs₁ : StackOk t.cpu := by
    unfold StackOk
    rw [hreg]
    exact hs
  obtain ⟨htraffic, -⟩ := write_command_spec l.toNicLabels hs₁
  have hrsp : (eeprom_start l s).cpu.reg .rsp = t.cpu.reg .rsp := by
    unfold eeprom_start
    dsimp only
    rw [ht]
    exact (Cpu.set_reg_of_ne (by decide)).trans
      (congrFun htraffic.reg .rsp)
  unfold StackOk
  rw [hrsp, hreg]
  exact hs

/-- The routine reads its whole budget and sets the flag. -/
theorem detect_eeprom_spec (l : SetupLabels L) (answers : Nat → BitVec 32)
    (hs : StackRoom 120 s.cpu) {fuel : Nat} (hfuel : retryBudget ≤ fuel) :
    ∃ p, e1000_detect_eeprom l answers fuel s = some p
      ∧ p.nic.cpu.mem l.e1000_eeprom_flag = 0x1#8
      ∧ p.reads = retryBudget := by
  have hroom : StackRoom 0 s.cpu.pushaq := StackRoom.pushaq (n := 0) hs
  obtain ⟨hstart, hrcx⟩ := eeprom_start_spec (l := l) hroom.stackOk
  obtain ⟨n, hn⟩ : ∃ n, n + 1 = retryBudget := ⟨retryBudget - 1, by decide⟩
  have hlt : retryBudget < 2 ^ 64 := by decide
  have hcount : (eeprom_start l s).cpu.reg .rcx = BitVec.ofNat 64 (n + 1) := by
    rw [hrcx, hn]
    rfl
  obtain ⟨q, hq, hreads⟩ := eeprom_loop_counts l answers n fuel
    ⟨eeprom_start l s, 0⟩ (by omega) (by omega) hstart hcount
  rw [Nat.zero_add, hn] at hreads
  refine ⟨{ q with nic := eeprom_done l true q.nic }, ?_, ?_, hreads⟩
  · unfold e1000_detect_eeprom
    rw [hq]
    rfl
  · show (Cpu.popaq _).mem _ = _
    rw [Cpu.popaq_mem]
    exact write8_self _ _ _

-- =============================================================== the result

/-- Where some value says so, one is the first. -/
theorem firstSeen_of_seen {k : Nat} (h : EepromSeen (answers k)) :
    ∃ j ≤ k, FirstSeen answers j := by
  induction k using Nat.strongRecOn with
  | ind k ih =>
      by_cases hbefore : ∃ j < k, EepromSeen (answers j)
      · obtain ⟨j, hj, hseen⟩ := hbefore
        obtain ⟨i, hi, hfirst⟩ := ih j hj hseen
        exact ⟨i, by omega, hfirst⟩
      · exact ⟨k, Nat.le_refl _, h, fun j hj hseen =>
          hbefore ⟨j, hj, hseen⟩⟩

/-- What truth there is, is about the run that reads everything. -/
theorem DetectsTruly.read_all (h : DetectsTruly l answers s)
    (hs : StackRoom 120 s.cpu) :
    ∃ p, Truthful l answers p ∧ p.nic.cpu.mem l.e1000_eeprom_flag = 0x1#8
      ∧ p.reads = retryBudget := by
  obtain ⟨n, hn⟩ := h
  obtain ⟨p, hp, htruth⟩ := hn (max n retryBudget) (Nat.le_max_left _ _)
  obtain ⟨q, hq, hflag, hreads⟩ := detect_eeprom_spec l answers hs
    (Nat.le_max_right n retryBudget)
  obtain rfl := Option.some.inj (hp.symm.trans hq)
  exact ⟨p, htruth, hflag, hreads⟩

/-- The detection is truthful exactly for a card whose last value of the
budget is its first with the bit. -/
theorem detect_truthful_iff (l : SetupLabels L) (answers : Nat → BitVec 32)
    (s : Nic) (hs : StackRoom 120 s.cpu) :
    DetectsTruly l answers s ↔ FirstSeen answers (retryBudget - 1) := by
  constructor
  · intro htruly
    obtain ⟨p, htruth, hflag, hreads⟩ := htruly.read_all hs
    obtain ⟨k, hk, hseen⟩ := htruth.detected.1 hflag
    obtain ⟨j, hj, hfirst⟩ := firstSeen_of_seen hseen
    have hstop := htruth.stops j (by omega) hfirst
    rw [hreads] at hstop
    rwa [show retryBudget - 1 = j by omega]
  · intro hfirst
    refine ⟨retryBudget, fun fuel hfuel => ?_⟩
    obtain ⟨p, hp, hflag, hreads⟩ := detect_eeprom_spec l answers hs hfuel
    have hlast : retryBudget - 1 < retryBudget := by decide
    refine ⟨p, hp, ⟨?_, ?_, ?_⟩⟩
    · exact ⟨fun _ => ⟨_, hlast, hfirst.1⟩, fun _ => hflag⟩
    · rw [hflag]
      exact ⟨fun h => absurd h (by decide),
        fun h => absurd hfirst.1 (h _ hlast)⟩
    · intro k hk hkfirst
      rw [hreads]
      -- two values that are both the first are one
      rcases Nat.lt_trichotomy k (retryBudget - 1) with hlt | heq | hgt
      · exact absurd hkfirst.1 (hfirst.2 k hlt)
      · omega
      · omega

/-- A driver that has done nothing, on the kernel's stack. -/
def idleNic : Nic := ⟨usedUpTo 0x200000#64, [], 0, 0, 0⟩

theorem stackRoom_idleNic : StackRoom 120 idleNic.cpu :=
  ⟨by show 0x5100 + 120 ≤ (0xB000#64).toNat; decide,
    by show (0xB000#64).toNat ≤ 0x10000; decide⟩

/-- A card that answers 0x10 to the reader number `n` and 0 to the
others. -/
def answersAt (n : Nat) (k : Nat) : BitVec 32 :=
  if k = n then 0x10#32 else 0#32

theorem firstSeen_answersAt (n k : Nat) :
    FirstSeen (answersAt n) k ↔ k = n := by
  have hseen : ∀ j, EepromSeen (answersAt n j) ↔ j = n := by
    intro j
    unfold EepromSeen answersAt
    split
    · exact ⟨fun _ => ‹j = n›, fun _ => rfl⟩
    · exact ⟨fun h => absurd h (by decide), fun h => absurd h ‹¬ j = n›⟩
  unfold FirstSeen
  rw [hseen]
  refine ⟨And.left, fun h => ⟨h, fun j hj hj' => ?_⟩⟩
  have heq := (hseen j).1 hj'
  omega

/-- The instance for a card that answers with the last value. -/
theorem detect_truthful_iff_sample :
    DetectsTruly setupLabels (answersAt (retryBudget - 1)) idleNic :=
  (detect_truthful_iff setupLabels (answersAt (retryBudget - 1)) idleNic
    stackRoom_idleNic).2 ((firstSeen_answersAt _ _).2 rfl)

/-- A card that answers at once is read on, to the end of the budget. -/
theorem detection_not_truthful : ¬ ∀ (L : Layout) (l : SetupLabels L)
    (answers : Nat → BitVec 32) (s : Nic), StackRoom 120 s.cpu →
    DetectsTruly l answers s := by
  intro hall
  obtain ⟨p, htruth, -, hreads⟩ := (hall assembledLayout setupLabels
    (answersAt 0) idleNic stackRoom_idleNic).read_all stackRoom_idleNic
  have hstop := htruth.stops 0 (by decide) ((firstSeen_answersAt 0 0).2 rfl)
  rw [hreads] at hstop
  exact absurd hstop (by decide)

end BootLoader.ThirdStage
