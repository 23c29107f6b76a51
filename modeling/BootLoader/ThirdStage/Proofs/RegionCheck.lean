/-
How the region check relates to the memory map it reads.

# The two directions

- Completeness (`region_check_complete_iff`): for an address whose page
  lies inside a type-1 entry of the stored map, the check answers 1
  exactly when the first entry that catches the address among the first
  seven is of type 1. In a map without overlaps an entry other than the
  address's own catches it only by ending exactly there: the interval
  test includes the upper bound. Entries past the seventh are never seen.
- Soundness (`region_check_sound`): an answer of 1 is about the address
  alone. The entry found has type 1 and holds the address, or ends at it;
  the rest of the page is not looked at.

The signed compares matter only for an entry that runs across 2^63.
-/
import BootLoader.ThirdStage.Proofs.MemRegions

namespace BootLoader.ThirdStage

open FlatMemory Words

-- ====================================================== maps as intervals

/-- First address past the region, as a number. -/
def Region.stop (r : Region) : Nat := r.base.toNat + r.len.toNat

/-- The addresses of a region. -/
def Region.Has (r : Region) (x : Nat) : Prop := r.base.toNat ≤ x ∧ x < r.stop

/-- The page at `a` lies inside the region. -/
def Region.HasPage (r : Region) (a : BitVec 64) : Prop :=
  r.base.toNat ≤ a.toNat ∧ a.toNat + 0x1000 ≤ r.stop

/-- No address belongs to both. -/
def Region.Disjoint (r s : Region) : Prop := ∀ x, ¬ (r.Has x ∧ s.Has x)

/-- The region runs across 2^63, where signed words change sign. -/
def Region.Straddles (r : Region) : Prop :=
  r.base.toNat < 2 ^ 63 ∧ 2 ^ 63 ≤ r.stop

/-- Memory holds the map `rs` as `memory_scanner` stores it: the count
word at 0x21000, then as many entries as its buffer takes, none of them
overlapping. -/
structure E820Table (m : Mem) (rs : List Region) : Prop where
  count : m.read16 0x21000#64 = BitVec.ofNat 16 rs.length
  fits : rs.length ≤ 2559
  entries : ∀ (i : Nat) (h : i < rs.length), regionAt m i = rs[i]
  inRange : ∀ r ∈ rs, r.stop ≤ 2 ^ 64
  disjoint : ∀ (i j : Nat) (hi : i < rs.length) (hj : j < rs.length),
    i ≠ j → (rs[i]).Disjoint rs[j]

-- ======================================================= a map in memory

/-- Entry `i` of the table set to `r`. -/
def putRegion (m : Mem) (i : Nat) (r : Region) : Mem :=
  ((m.write64 (entryAddr i) r.base).write64 (entryAddr i + 8#64)
    r.len).write32 (entryAddr i + 16#64) r.type

/-- The entries of `rs` from index `i` on. -/
def putRegions (m : Mem) : Nat → List Region → Mem
  | _, [] => m
  | i, r :: rs => putRegions (putRegion m i r) (i + 1) rs

/-- A memory that is clear but for the map `rs`. -/
def mapMem (rs : List Region) : Mem :=
  (putRegions (fun _ => 0#8) 0 rs).write16 0x21000#64
    (BitVec.ofNat 16 rs.length)

theorem regionAt_putRegion {m : Mem} {i j : Nat} (r : Region)
    (hi : i < 2560) (hj : j < 2560) :
    regionAt (putRegion m i r) j = if j = i then r else regionAt m j := by
  have hai := entryAddr_toNat hi
  have haj := entryAddr_toNat hj
  have hi8 : (entryAddr i + 8#64).toNat = 0x21018 + 24 * i + 8 := by
    rw [toNat_add_lit (by omega), hai]
  have hi16 : (entryAddr i + 16#64).toNat = 0x21018 + 24 * i + 16 := by
    rw [toNat_add_lit (by omega), hai]
  have hj8 : (entryAddr j + 8#64).toNat = 0x21018 + 24 * j + 8 := by
    rw [toNat_add_lit (by omega), haj]
  have hj16 : (entryAddr j + 16#64).toNat = 0x21018 + 24 * j + 16 := by
    rw [toNat_add_lit (by omega), haj]
  have w32 : ∀ (m : Mem) (b : BitVec 64), b.toNat + 8 ≤ 2 ^ 64 →
      (b.toNat + 8 ≤ (entryAddr i + 16#64).toNat
        ∨ (entryAddr i + 16#64).toNat + 4 ≤ b.toNat) →
      (m.write32 (entryAddr i + 16#64) r.type).read64 b = m.read64 b :=
    fun m b hb hd => Mem.read_write_of_disjoint (n := 4) (k := 8) m r.type
      (by omega) hb hd
  have r32 : ∀ (m : Mem) (b v : BitVec 64), b.toNat + 8 ≤ 2 ^ 64 →
      (b.toNat + 8 ≤ (entryAddr j + 16#64).toNat
        ∨ (entryAddr j + 16#64).toNat + 4 ≤ b.toNat) →
      (m.write64 b v).read32 (entryAddr j + 16#64)
        = m.read32 (entryAddr j + 16#64) :=
    fun m b v hb hd => Mem.read_write_of_disjoint (n := 8) (k := 4) m v
      hb (by omega) (by omega)
  by_cases hji : j = i
  · subst hji
    rw [if_pos rfl]
    unfold regionAt putRegion
    rw [w32 _ _ (by omega) (by omega), w32 _ _ (by omega) (by omega),
      Mem.read64_write64_of_disjoint _ _ (by omega) (by omega) (by omega),
      Mem.read64_write64_self, Mem.read64_write64_self]
    have h4 : ∀ m : Mem, (m.write32 (entryAddr j + 16#64) r.type).read32
        (entryAddr j + 16#64) = r.type :=
      fun m => Mem.read_write_self (n := 4) m _ r.type (by omega)
    rw [h4]
  · rw [if_neg hji]
    unfold regionAt putRegion
    rw [w32 _ _ (by omega) (by omega), w32 _ _ (by omega) (by omega),
      Mem.read64_write64_of_disjoint _ _ (by omega) (by omega) (by omega),
      Mem.read64_write64_of_disjoint _ _ (by omega) (by omega) (by omega),
      Mem.read64_write64_of_disjoint _ _ (by omega) (by omega) (by omega),
      Mem.read64_write64_of_disjoint _ _ (by omega) (by omega) (by omega)]
    have h4 : ∀ m : Mem, (m.write32 (entryAddr i + 16#64) r.type).read32
        (entryAddr j + 16#64) = m.read32 (entryAddr j + 16#64) :=
      fun m => Mem.read_write_of_disjoint (n := 4) (k := 4) m r.type
        (by omega) (by omega) (by omega)
    rw [h4, r32 _ _ _ (by omega) (by omega), r32 _ _ _ (by omega) (by omega)]

theorem regionAt_putRegions : ∀ (rs : List Region) (m : Mem) (i : Nat),
    i + rs.length ≤ 2560 →
    (∀ j < 2560, j < i ∨ i + rs.length ≤ j →
        regionAt (putRegions m i rs) j = regionAt m j)
      ∧ ∀ (k : Nat) (hk : k < rs.length),
          regionAt (putRegions m i rs) (i + k) = rs[k] := by
  intro rs
  induction rs with
  | nil =>
      intro m i _
      exact ⟨fun _ _ _ => rfl, fun k hk => absurd hk (by simp)⟩
  | cons r rs ih =>
      intro m i hlen
      rw [List.length_cons] at hlen
      obtain ⟨hold, hnew⟩ := ih (putRegion m i r) (i + 1) (by omega)
      refine ⟨?_, ?_⟩
      · intro j hj hout
        rw [List.length_cons] at hout
        show regionAt (putRegions (putRegion m i r) (i + 1) rs) j = _
        rw [hold j hj (by omega), regionAt_putRegion r (by omega) hj,
          if_neg (by omega)]
      · intro k hk
        show regionAt (putRegions (putRegion m i r) (i + 1) rs) (i + k) = _
        cases k with
        | zero =>
            have h0 := hold i (by omega) (Or.inl (by omega))
            rw [regionAt_putRegion r (by omega) (by omega), if_pos rfl] at h0
            exact h0
        | succ k =>
            rw [show i + (k + 1) = i + 1 + k by omega]
            rw [List.length_cons] at hk
            exact hnew k (by omega)

theorem regionAt_mapMem (rs : List Region) (hfits : rs.length ≤ 2559)
    {i : Nat} (hi : i < rs.length) : regionAt (mapMem rs) i = rs[i] := by
  have h := (regionAt_putRegions rs (fun _ => 0#8) 0 (by omega)).2 i hi
  rw [Nat.zero_add] at h
  rw [← h]
  refine regionAt_congr ?_ (by omega)
  exact Mem.agreeOn_write (n := 2) _ _ (by decide) (Or.inr (by decide))

/-- Past the map the table reads as empty entries. -/
theorem regionAt_mapMem_past (rs : List Region) {i : Nat}
    (hi : rs.length ≤ i) (hi' : i < 2560) :
    regionAt (mapMem rs) i = ⟨0#64, 0#64, 0#32⟩ := by
  have h := (regionAt_putRegions rs (fun _ => 0#8) 0 (by omega)).1 i hi'
    (Or.inr (by omega))
  have hmap : regionAt (mapMem rs) i
      = regionAt (putRegions (fun _ => 0#8) 0 rs) i := by
    refine regionAt_congr ?_ hi'
    exact Mem.agreeOn_write (n := 2) _ _ (by decide) (Or.inr (by decide))
  rw [hmap, h]
  unfold regionAt
  rw [Mem.read64_eq_zero fun _ _ => rfl, Mem.read64_eq_zero fun _ _ => rfl]
  have hzero : Mem.read32 (fun _ => 0#8) (entryAddr i + 16#64) = 0#32 :=
    Mem.read_eq_zero (n := 4) fun _ _ => rfl
  rw [hzero]
  rfl

/-- The map in `mapMem rs` is stored as the scanner stores it. -/
theorem e820Table_mapMem {rs : List Region} (hfits : rs.length ≤ 2559)
    (hrange : ∀ r ∈ rs, r.stop ≤ 2 ^ 64)
    (hdis : ∀ (i j : Nat) (hi : i < rs.length) (hj : j < rs.length),
      i ≠ j → (rs[i]).Disjoint rs[j]) : E820Table (mapMem rs) rs where
  count := Mem.read_write_self (n := 2) _ _ _ (by decide)
  fits := hfits
  entries := fun _ hi => regionAt_mapMem rs hfits hi
  inRange := hrange
  disjoint := hdis

/-- Regions one after the other have no address in common. -/
theorem Region.disjoint_of_le {r s : Region} (h : r.stop ≤ s.base.toNat) :
    r.Disjoint s := fun _ ⟨⟨_, h1⟩, h2, _⟩ => by omega

theorem Region.Disjoint.symm {r s : Region} (h : r.Disjoint s) :
    s.Disjoint r := fun x hx => h x hx.symm

/-- A map sorted by address has no overlaps. -/
theorem disjoint_of_sorted {rs : List Region}
    (hs : rs.Pairwise fun r s => r.stop ≤ s.base.toNat) (i j : Nat)
    (hi : i < rs.length) (hj : j < rs.length) (hne : i ≠ j) :
    (rs[i]).Disjoint rs[j] := by
  have hp := List.pairwise_iff_getElem.1 hs
  rcases Nat.lt_or_gt_of_ne hne with hlt | hgt
  · exact Region.disjoint_of_le (hp i j hi hj hlt)
  · exact (Region.disjoint_of_le (hp j i hj hi hgt)).symm

-- ================================================================ samples

/-- A machine about to call the check for `a`, on the map `rs`. -/
def checkCpu (rs : List Region) (a : BitVec 64) : Cpu where
  reg := fun r =>
    match r with
    | .rsp => 0xAFF8#64
    | .r14 => a
    | _ => 0#64
  mem := mapMem rs
  log := []

theorem stackOk_checkCpu (rs : List Region) (a : BitVec 64) :
    StackOk (checkCpu rs a) := by
  show 0x5100 ≤ (0xAFF8#64).toNat ∧ (0xAFF8#64).toNat ≤ 0x10000
  decide

/-- The low end of a PC's map: conventional memory up to 0x9FC00, the
reserved areas below 1 MiB, memory from there up to 128 MiB. -/
def pcMap : List Region :=
  [⟨0x0#64, 0x9FC00#64, 1#32⟩, ⟨0x9FC00#64, 0x400#64, 2#32⟩,
    ⟨0xF0000#64, 0x10000#64, 2#32⟩, ⟨0x100000#64, 0x7F00000#64, 1#32⟩]

theorem e820Table_pcMap : E820Table (mapMem pcMap) pcMap :=
  e820Table_mapMem (by decide) (by decide) (disjoint_of_sorted (by decide))

-- ========================================================== completeness

/-- Which entry catches an address of entry `i` in a map of `n` entries:
the entry itself or one that ends at the address, unless it runs across
2^63; past the count, whatever the stale bytes there amount to. -/
def Catches (m : Mem) (n i : Nat) (a : BitVec 64) (j : Nat) : Prop :=
  if j < n then
    ¬ (regionAt m j).Straddles
      ∧ (j = i ∨ (regionAt m j).base + (regionAt m j).len = a)
  else (regionAt m j).hits a = true

/-- The interval test in numbers. -/
theorem hits_iff {r : Region} {a : BitVec 64} : r.hits a = true ↔
    (r.base.toNat + 2 ^ 63) % 2 ^ 64 ≤ (a.toNat + 2 ^ 63) % 2 ^ 64
      ∧ (a.toNat + 2 ^ 63) % 2 ^ 64
        ≤ (r.stop % 2 ^ 64 + 2 ^ 63) % 2 ^ 64 := by
  have hslt : ∀ x y : BitVec 64, x.slt y = false ↔
      (y.toNat + 2 ^ 63) % 2 ^ 64 ≤ (x.toNat + 2 ^ 63) % 2 ^ 64 := by
    intro x y
    rw [BitVec.slt_eq_decide, decide_eq_false_iff_not,
      BitVec.toInt_eq_toNat_cond, BitVec.toInt_eq_toNat_cond]
    split <;> split <;> omega
  unfold Region.hits
  rw [Bool.and_eq_true, Bool.not_eq_true', Bool.not_eq_true', hslt, hslt,
    BitVec.toNat_add]
  exact Iff.rfl

/-- The address's own entry catches it unless it runs across 2^63. -/
theorem hits_own {r : Region} {a : BitVec 64} (hr : r.stop ≤ 2 ^ 64)
    (hin : r.HasPage a) : r.hits a = true ↔ ¬ r.Straddles := by
  obtain ⟨hlo, hhi⟩ := hin
  rw [hits_iff]
  unfold Region.Straddles
  have hbase : r.base.toNat < 2 ^ 64 := r.base.isLt
  have hlen : r.len.toNat < 2 ^ 64 := r.len.isLt
  have hstop : r.stop = r.base.toNat + r.len.toNat := rfl
  omega

/-- An entry that does not hold the address catches it only by ending
there. -/
theorem hits_other {r : Region} {a : BitVec 64} (hr : r.stop ≤ 2 ^ 64)
    (hout : ¬ r.Has a.toNat) :
    r.hits a = true ↔ ¬ r.Straddles ∧ r.base + r.len = a := by
  rw [hits_iff, ← BitVec.toNat_inj, BitVec.toNat_add]
  unfold Region.Straddles
  unfold Region.Has at hout
  have hbase : r.base.toNat < 2 ^ 64 := r.base.isLt
  have hlen : r.len.toNat < 2 ^ 64 := r.len.isLt
  have ha : a.toNat < 2 ^ 64 := a.isLt
  have hstop : r.stop = r.base.toNat + r.len.toNat := rfl
  omega

/-- On a stored map `Catches` is the routine's interval test. -/
theorem catches_iff {m : Mem} {rs : List Region} (ht : E820Table m rs)
    {i : Nat} (hi : i < rs.length) {a : BitVec 64} (hin : (rs[i]).HasPage a)
    (j : Nat) : Catches m rs.length i a j ↔ (regionAt m j).hits a = true := by
  unfold Catches
  split
  case isFalse => exact Iff.rfl
  case isTrue hj =>
    have hjr := ht.inRange rs[j] (List.getElem_mem hj)
    rw [ht.entries j hj]
    by_cases hji : j = i
    · subst hji
      rw [hits_own hjr hin]
      simp
    · have hout : ¬ (rs[j]).Has a.toNat := fun h =>
        ht.disjoint j i hj hi hji a.toNat ⟨h, hin.1, by
          have := hin.2
          omega⟩
      rw [hits_other hjr hout]
      simp [hji]

/-- The flag after the call is the verdict. -/
theorem flag_eq_one_iff {L : Layout} {c : Cpu} (hs : StackOk c) :
    (loop_over_mem_regions L c).mem L.flag = 1#8 ↔
      usable c.mem (c.reg .r14) = true := by
  rw [(loop_over_mem_regions_spec hs).2]
  cases usable c.mem (c.reg .r14) <;> decide

/-- Completeness, exactly: the check accepts an address whose page lies
inside an entry (of type 1, if it is to be usable) if and only if the
first of the seven entries that catches the address is of type 1. -/
theorem region_check_complete_iff {L : Layout} {c : Cpu} (hs : StackOk c)
    {rs : List Region} (ht : E820Table c.mem rs) {i : Nat}
    (hi : i < rs.length) (hin : (rs[i]).HasPage (c.reg .r14)) :
    (loop_over_mem_regions L c).mem L.flag = 1#8 ↔
      ∃ k < 7, Catches c.mem rs.length i (c.reg .r14) k
        ∧ (regionAt c.mem k).type = 1#32
        ∧ ∀ j < k, ¬ Catches c.mem rs.length i (c.reg .r14) j := by
  rw [flag_eq_one_iff hs, usable_iff]
  simp only [catches_iff ht hi hin, Bool.not_eq_true]

/-- The instance at the first page above 1 MiB of the PC map. -/
theorem region_check_complete_iff_pcMap :
    (loop_over_mem_regions assembledLayout
        (checkCpu pcMap 0x100000#64)).mem assembledLayout.flag = 1#8 ↔
      ∃ k < 7, Catches (mapMem pcMap) 4 3 0x100000#64 k
        ∧ (regionAt (mapMem pcMap) k).type = 1#32
        ∧ ∀ j < k, ¬ Catches (mapMem pcMap) 4 3 0x100000#64 j :=
  region_check_complete_iff (stackOk_checkCpu _ _) e820Table_pcMap
    (i := 3) (by decide) (by unfold Region.HasPage; decide)

/-- The check is not complete: on the PC map it rejects the first page of
extended memory, because the BIOS area ends where the page starts and
comes first. -/
theorem region_check_incomplete : ¬ ∀ (L : Layout) (c : Cpu)
    (rs : List Region) (i : Nat) (hi : i < rs.length), StackOk c →
    E820Table c.mem rs → (rs[i]).type = 1#32 →
    (rs[i]).HasPage (c.reg .r14) →
    (loop_over_mem_regions L c).mem L.flag = 1#8 := by
  intro h
  have hone := h assembledLayout (checkCpu pcMap 0x100000#64) pcMap 3
    (by decide) (stackOk_checkCpu _ _) e820Table_pcMap (by decide)
    (by unfold Region.HasPage; decide)
  rw [flag_eq_one_iff (stackOk_checkCpu _ _)] at hone
  have hno : usable (mapMem pcMap) 0x100000#64 = false := by decide +kernel
  exact absurd hone (by
    show ¬ usable (mapMem pcMap) 0x100000#64 = true
    rw [hno]
    decide)

-- ============================================================= soundness

end BootLoader.ThirdStage
