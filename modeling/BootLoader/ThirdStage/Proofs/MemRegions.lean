/-
What `loop_over_mem_regions` decides.

`loop_over_mem_regions_spec` is the routine's contract: it is quiet, and
`flag` ends as `usable` of the table and R14. `usable_iff` reads the
verdict off the table: the first of seven entries that hits has type 1.
-/
import BootLoader.Lib.Words
import BootLoader.ThirdStage.MemRegions

namespace BootLoader.ThirdStage

open FlatMemory Words

variable {L : Layout} {c d : Cpu} {m m' : Mem} {a : BitVec 64}

-- ==================================================== the table's verdict

theorem entryAddr_toNat {i : Nat} (hi : i < 2560) :
    (entryAddr i).toNat = 0x21018 + 24 * i :=
  toNat_lit (by omega)

/-- An entry of the map depends only on the map's memory. -/
theorem regionAt_congr (hag : Mem.AgreeOn m m' 0x21018 0xB0000) {i : Nat}
    (hi : i < 2560) : regionAt m' i = regionAt m i := by
  have haddr := entryAddr_toNat hi
  have h8 : (entryAddr i + 8#64).toNat = 0x21018 + 24 * i + 8 := by
    rw [toNat_add_lit (by omega), haddr]
  have h16 : (entryAddr i + 16#64).toNat = 0x21018 + 24 * i + 16 := by
    rw [toNat_add_lit (by omega), haddr]
  have h1 : m'.read64 (entryAddr i) = m.read64 (entryAddr i) :=
    Mem.read64_congr_of_range hag (by omega) (by omega) (by omega)
  have h2 : m'.read64 (entryAddr i + 8#64) = m.read64 (entryAddr i + 8#64) :=
    Mem.read64_congr_of_range hag (by omega) (by omega) (by omega)
  have h3 : m'.read32 (entryAddr i + 16#64) = m.read32 (entryAddr i + 16#64) :=
    Mem.read_congr_of_range (n := 4) hag (by omega) (by omega) (by omega)
  unfold regionAt
  rw [h1, h2, h3]

theorem usableFrom_congr (hag : Mem.AgreeOn m m' 0x21018 0xB0000) :
    ∀ (n i : Nat), i + n < 2560 → usableFrom m' a i n = usableFrom m a i n := by
  intro n
  induction n with
  | zero => intro i _; rfl
  | succ n ih =>
      intro i hi
      rw [usableFrom, usableFrom, regionAt_congr hag (by omega),
        ih (i + 1) (by omega)]

/-- The verdict depends only on the map's memory. -/
theorem usable_congr (hag : Mem.AgreeOn m m' 0x20000 0xB0000) :
    usable m' a = usable m a :=
  usableFrom_congr (hag.mono (by omega) (Nat.le_refl _)) 7 0 (by omega)

theorem usableFrom_iff : ∀ (n i : Nat),
    usableFrom m a i n = true ↔
      ∃ k < n, (regionAt m (i + k)).hits a = true
        ∧ (regionAt m (i + k)).type = 1#32
        ∧ ∀ j < k, (regionAt m (i + j)).hits a = false := by
  intro n
  induction n with
  | zero =>
      intro i
      simp [usableFrom]
  | succ n ih =>
      intro i
      rw [usableFrom]
      cases hit : (regionAt m i).hits a with
      | true =>
          rw [if_pos rfl, beq_iff_eq]
          constructor
          · intro ht
            exact ⟨0, by omega, hit, ht, fun j hj => by omega⟩
          · rintro ⟨k, -, -, ht, hfirst⟩
            rcases Nat.eq_zero_or_pos k with rfl | hk
            · exact ht
            · have h0 := hfirst 0 hk
              rw [Nat.add_zero, hit] at h0
              cases h0
      | false =>
          rw [if_neg (by decide), ih (i + 1)]
          constructor
          · rintro ⟨k, hk, hh, ht, hfirst⟩
            refine ⟨k + 1, by omega, ?_, ?_, ?_⟩
            · rw [show i + (k + 1) = i + 1 + k by omega]
              exact hh
            · rw [show i + (k + 1) = i + 1 + k by omega]
              exact ht
            · intro j hj
              rcases Nat.eq_zero_or_pos j with rfl | hj0
              · exact hit
              · rw [show i + j = i + 1 + (j - 1) by omega]
                exact hfirst (j - 1) (by omega)
          · rintro ⟨k, hk, hh, ht, hfirst⟩
            rcases Nat.eq_zero_or_pos k with rfl | hk0
            · exact absurd hh (by rw [Nat.add_zero, hit]; decide)
            · refine ⟨k - 1, by omega, ?_, ?_, ?_⟩
              · rw [show i + 1 + (k - 1) = i + k by omega]
                exact hh
              · rw [show i + 1 + (k - 1) = i + k by omega]
                exact ht
              · intro j hj
                rw [show i + 1 + j = i + (j + 1) by omega]
                exact hfirst (j + 1) (by omega)

/-- The verdict, read off the table: the first of the seven entries that
hits has type 1. -/
theorem usable_iff : usable m a = true ↔
    ∃ k < 7, (regionAt m k).hits a = true ∧ (regionAt m k).type = 1#32
      ∧ ∀ j < k, (regionAt m j).hits a = false := by
  have h := usableFrom_iff (m := m) (a := a) 7 0
  simp only [Nat.zero_add] at h
  exact h

-- =========================================================== the routine

/-- The routine's compares are the interval test. -/
theorem in_bounds_eq {r : Region} (h9 : c.reg .r9 = r.base)
    (h11 : c.reg .r11 = r.len + r.base) (h14 : c.reg .r14 = a) :
    in_bounds c = r.hits a := by
  unfold in_bounds second_compare Region.hits
  rw [h9, h11, h14, BitVec.add_comm r.len]
  by_cases h1 : r.base.slt a = true
  · -- signed order is asymmetric
    have h2 : a.slt r.base = false := by
      rw [BitVec.slt_eq_decide] at h1 ⊢
      simp only [decide_eq_true_eq, decide_eq_false_iff_not] at h1 ⊢
      omega
    simp [h1, h2]
  · rw [if_neg h1]
    cases h2 : a.slt r.base <;> simp

/-- A store of the verdict is low-memory work. -/
theorem LowWork.store_flag (h : LowWork c d) (v : BitVec 8) :
    LowWork c (d.store8 L.flag v) := by
  have hin := L.flag_in
  unfold imageEnd at hin
  exact h.store (n := 1) rfl rfl rfl (Or.inl (by omega))

theorem store8_self (c : Cpu) (a : BitVec 64) (v : BitVec 8) :
    (c.store8 a v).mem a = v := by
  show Mem.write c.mem a 1 v a = v
  have h := Mem.write_apply_add (n := 1) c.mem a v (k := 0) (by omega) (by omega)
  rw [BitVec.add_zero] at h
  rw [h]
  apply BitVec.eq_of_getLsbD_eq
  intro i hi
  rw [BitVec.getLsbD_extractLsb']
  simp [hi]

/-- `within_range` records whether the entry's type is 1. -/
theorem within_range_spec {i : Nat} (h : LowWork c d) (hi : i < 2560)
    (h8 : d.reg .r8 = entryAddr i + 8#64) :
    LowWork c (within_range L d)
      ∧ (within_range L d).mem L.flag
        = if (regionAt d.mem i).type == 1#32 then 1#8 else 0#8 := by
  have haddr := entryAddr_toNat hi
  have h16 : entryAddr i + 8#64 + 8#64 = entryAddr i + 16#64 := by
    rw [BitVec.add_assoc]
    rfl
  have hty : (regionAt d.mem i).type = d.mem.read32 (d.reg .r8 + 8#64) := by
    rw [h8, h16]
    rfl
  have hlow : LowWork c (((d.set .r8 (d.reg .r8 + 8#64)).reads
      (d.reg .r8 + 8#64) 4).set .r9
        ((d.mem.read32 (d.reg .r8 + 8#64)).zeroExtend 64)) := by
    refine LowWork.set (LowWork.reads (h.set (by decide) _) ?_) (by decide) _
    rw [h8, h16, toNat_add_lit (by omega)]
    omega
  -- the zero-extended doubleword is 1 exactly when the type is
  have hone : ((d.mem.read32 (d.reg .r8 + 8#64)).zeroExtend 64 = 1#64)
      ↔ (regionAt d.mem i).type = 1#32 := by
    rw [← hty]
    generalize (regionAt d.mem i).type = t
    rw [← BitVec.toNat_inj, ← BitVec.toNat_inj, BitVec.zeroExtend,
      BitVec.toNat_setWidth, BitVec.toNat_ofNat, BitVec.toNat_ofNat]
    omega
  have hunf : within_range L d
      = if (d.mem.read32 (d.reg .r8 + 8#64)).zeroExtend 64 = 1#64
        then make_flag_1 L _ else make_flag_0 L _ := rfl
  by_cases ht : (regionAt d.mem i).type = 1#32
  · rw [hunf, if_pos (hone.2 ht), ht]
    exact ⟨hlow.store_flag _, store8_self _ _ _⟩
  · rw [hunf, if_neg (fun h => ht (hone.1 h)), if_neg (by simpa using ht)]
    exact ⟨hlow.store_flag _, store8_self _ _ _⟩

/-- One round of the loop up to its branch: R9 and R11 hold the entry's
bounds, R8 its length field. -/
theorem check_type_load {i : Nat} (h : LowWork c d) (hi : i < 2560)
    (h8 : d.reg .r8 = entryAddr i) {e : Cpu}
    (he : e = (((d.load64 .r9 (d.reg .r8)).set .r8 (d.reg .r8 + 8#64)).load64
      .r11 (d.reg .r8 + 8#64)).set .r11
        (d.mem.read64 (d.reg .r8 + 8#64) + d.mem.read64 (d.reg .r8))) :
    LowWork c e ∧ e.mem = d.mem ∧ e.reg .r8 = entryAddr i + 8#64
      ∧ e.reg .r10 = d.reg .r10 ∧ e.reg .r14 = d.reg .r14
      ∧ in_bounds e = (regionAt d.mem i).hits (d.reg .r14) := by
  have haddr := entryAddr_toNat hi
  subst he
  refine ⟨?_, rfl, by rw [← h8]; rfl, rfl, rfl, ?_⟩
  · refine LowWork.set (LowWork.set (LowWork.reads (LowWork.set
      (LowWork.set (h.reads ?_) (by decide) _) (by decide) _) ?_)
        (by decide) _) (by decide) _
    · rw [h8]
      omega
    · rw [h8, toNat_add_lit (by omega)]
      omega
  · refine in_bounds_eq ?_ ?_ rfl
    · show d.mem.read64 (d.reg .r8) = _
      rw [h8]
      rfl
    · show d.mem.read64 (d.reg .r8 + 8#64) + d.mem.read64 (d.reg .r8) = _
      rw [h8]
      rfl

/-- The scan from entry `i` with `n` entries before the stopping address:
low-memory work, and the flag ends as the verdict from there. -/
theorem check_type_loop_spec : ∀ (n i fuel : Nat) {d : Cpu}, LowWork c d →
    i + n = 7 → 0 < n → n ≤ fuel → d.reg .r8 = entryAddr i →
    d.reg .r10 = 0x210C0#64 → d.reg .r14 = a →
    LowWork c (check_type_loop L fuel d)
      ∧ (check_type_loop L fuel d).mem L.flag
        = if usableFrom d.mem a i n then 1#8 else 0#8 := by
  intro n
  induction n with
  | zero => intro i fuel d _ _ h0; omega
  | succ n ih =>
      intro i fuel d hw hin _ hfuel h8 h10 h14
      obtain ⟨fuel, rfl⟩ : ∃ f, fuel = f + 1 := ⟨fuel - 1, by omega⟩
      obtain ⟨e, he⟩ : ∃ e, e = (((d.load64 .r9 (d.reg .r8)).set .r8
          (d.reg .r8 + 8#64)).load64 .r11 (d.reg .r8 + 8#64)).set .r11
          (d.mem.read64 (d.reg .r8 + 8#64) + d.mem.read64 (d.reg .r8)) :=
        ⟨_, rfl⟩
      obtain ⟨hew, hem, he8, he10, he14, hhit⟩ :=
        check_type_load hw (by omega) h8 he
      have hunf : check_type_loop L (fuel + 1) d
          = if in_bounds e then within_range L e
            else if ((e.set .r8 (e.reg .r8 + 0x10#64)).reg .r8).slt
                (e.reg .r10)
              then check_type_loop L fuel (e.set .r8 (e.reg .r8 + 0x10#64))
              else make_flag_0 L (e.set .r8 (e.reg .r8 + 0x10#64)) := by
        rw [he]
        rfl
      rw [hunf, hhit, h14, usableFrom]
      split
      case isTrue hyes =>
        -- the entry hits: its type decides
        obtain ⟨hlow, hflag⟩ := within_range_spec (L := L) hew
          (by omega : i < 2560) he8
        rw [hem] at hflag
        exact ⟨hlow, hflag⟩
      case isFalse hno =>
        have haddr := entryAddr_toNat (i := i) (by omega)
        have haddr' := entryAddr_toNat (i := i + 1) (by omega)
        have hnext : (e.set .r8 (e.reg .r8 + 0x10#64)).reg .r8
            = entryAddr (i + 1) := by
          rw [Cpu.set_reg_self, he8]
          apply BitVec.eq_of_toNat_eq
          rw [haddr', BitVec.add_assoc]
          show (entryAddr i + 24#64).toNat = _
          rw [toNat_add_lit (by omega), haddr]
          omega
        have hmore : ((e.set .r8 (e.reg .r8 + 0x10#64)).reg .r8).slt
            (e.reg .r10) = decide (0 < n) := by
          rw [hnext, he10, h10, slt_lit (by omega) (by omega), haddr']
          exact decide_eq_decide.2 (by omega)
        rw [hmore]
        have hlow := hew.set (r := .r8) (by decide) (e.reg .r8 + 0x10#64)
        by_cases hn : 0 < n
        · rw [if_pos (decide_eq_true hn)]
          obtain ⟨h1, h2⟩ := ih (i + 1) fuel hlow (by omega) hn (by omega)
            hnext (by rw [← h10, ← he10]; rfl) (by rw [← h14, ← he14]; rfl)
          refine ⟨h1, ?_⟩
          rw [h2, Cpu.set_mem, hem]
        · -- the stopping address
          rw [if_neg (by simpa using hn)]
          obtain rfl : n = 0 := by omega
          exact ⟨hlow.store_flag _, store8_self _ _ _⟩

/-- The routine's contract: registers are back, memory changes only low
down and outside the map, and `flag` holds the verdict on R14. -/
theorem loop_over_mem_regions_spec (hs : StackOk c) :
    Quiet c (loop_over_mem_regions L c)
      ∧ (loop_over_mem_regions L c).mem L.flag
        = if usable c.mem (c.reg .r14) then 1#8 else 0#8 := by
  obtain ⟨hlo, hhi⟩ := hs
  obtain ⟨-, hpreg, hpmem, -⟩ := Cpu.pushaq_spec (c := c) (by omega)
  have h14 := hpreg .r14 (by decide)
  have hmap : Mem.AgreeOn c.mem c.pushaq.mem 0x20000 0xB0000 :=
    fun b h1 _ => hpmem b (Or.inr (by omega))
  obtain ⟨e, he⟩ : ∃ e, e = (((((((c.pushaq.set .r8 0x21000#64).set .r9
      0x8#64).set .r12 0x18#64).set .rax 0x8#64).mul .r12).set .r10
      192#64).set .r10 (192#64 + 0x21000#64)).set .r8
      (0x21000#64 + 0x18#64) := ⟨_, rfl⟩
  have hunf : loop_over_mem_regions L c = (check_type_loop L 8 e).popaq := by
    rw [he]
    rfl
  have hew : LowWork c.pushaq e := by
    rw [he]
    unfold Cpu.mul
    refine LowWork.set (LowWork.set (LowWork.set (LowWork.set (LowWork.set
      (LowWork.set (LowWork.set (LowWork.set (LowWork.set
        (LowWork.refl _) ?_ _) ?_ _) ?_ _) ?_ _) ?_ _) ?_ _) ?_ _) ?_ _) ?_ _
    all_goals decide
  have hem : e.mem = c.pushaq.mem := by
    rw [he]
    rfl
  obtain ⟨h1, h2⟩ := check_type_loop_spec (L := L) (a := c.reg .r14) 7 0 8
    hew (by omega) (by omega) (by omega) (by rw [he]; rfl) (by rw [he]; rfl)
    (by rw [he, ← h14]; rfl)
  obtain ⟨hquiet, hmem⟩ := quiet_of_lowWork ⟨hlo, hhi⟩ h1
  rw [hunf]
  refine ⟨hquiet, ?_⟩
  rw [hmem, h2, hem]
  show (if usable c.pushaq.mem (c.reg .r14) then 1#8 else 0#8) = _
  rw [usable_congr hmap]

end BootLoader.ThirdStage
