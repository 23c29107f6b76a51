/-
Radix tables in flat memory: pages of 512 eight-byte slots that point at
further pages, level by level, filled from left to right.

# The representation

`lst k` lists the tables of level `k` in the order they were linked, and
entry `i` of `lst (k + 1)` is what slot `i` of level `k` holds, where the
slots of a level are numbered straight through its tables (`slotAddr`).
`lst depth` are the values in the slots of the lowest tables. So the whole
tree is a family of lists, and "the next free slot of level `k`" is the
length of `lst (k + 1)`.

`Forest m depth slack lst lo hi` says that memory `m` holds the tree: the
tables are pairwise disjoint pages inside `[lo, hi)`, a slot in use holds
its child and every other slot is zero. The last `slack k` slots of level
`k` are exempt: a table that starts a few bytes off its cleared page may
have a last slot that hangs out of it.

# The operations

`Forest.frame` carries the tree over any change outside `[lo, hi)`,
`Forest.putLeaf` fills the next slot of the lowest tables and
`Forest.addTable` links a fresh cleared page above `hi` into the next free
slot of its parent level. `leafSlot` follows pointers from the root
(`leafSlot_eq`), and distinct paths end in disjoint slots
(`Forest.slot_disjoint`).
-/
import Mathlib.Data.List.GetD
import BootLoader.Lib.Memory

namespace RadixTables

open FlatMemory

-- ========================================================= vocabulary

/-- Slot `i` of the level whose tables are `ps`. -/
def slotAddr (ps : List (BitVec 64)) (i : Nat) : BitVec 64 :=
  ps.getD (i / 512) 0 + BitVec.ofNat 64 (8 * (i % 512))

/-- The pages at `p` and `q` do not overlap. -/
def Apart (p q : BitVec 64) : Prop :=
  p.toNat + 0x1000 ≤ q.toNat ∨ q.toNat + 0x1000 ≤ p.toNat

instance (p q : BitVec 64) : Decidable (Apart p q) :=
  inferInstanceAs (Decidable (_ ∨ _))

theorem Apart.symm {p q : BitVec 64} (h : Apart p q) : Apart q p :=
  Or.symm h

/-- Slots of level `k` that the tree accounts for. -/
def capacity (slack : Nat → Nat) (lst : Nat → List (BitVec 64)) (k : Nat) :
    Nat :=
  512 * (lst k).length - slack k

/-- One more entry at the end of level `k`. -/
def grow (lst : Nat → List (BitVec 64)) (k : Nat) (v : BitVec 64) :
    Nat → List (BitVec 64) :=
  fun j => if j = k then lst j ++ [v] else lst j

@[simp] theorem grow_self (lst : Nat → List (BitVec 64)) (k : Nat)
    (v : BitVec 64) : grow lst k v k = lst k ++ [v] := if_pos rfl

theorem grow_of_ne {lst : Nat → List (BitVec 64)} {j k : Nat}
    {v : BitVec 64} (h : j ≠ k) : grow lst k v j = lst j := if_neg h

/-- Memory `m` holds the tree `lst` inside `[lo, hi)`. -/
structure Forest (m : Mem) (depth : Nat) (slack : Nat → Nat)
    (lst : Nat → List (BitVec 64)) (lo hi : Nat) : Prop where
  top : hi ≤ 2 ^ 64
  low : ∀ k < depth, ∀ p ∈ lst k, lo ≤ p.toNat
  high : ∀ k < depth, ∀ p ∈ lst k, p.toNat + 0x1000 ≤ hi
  apart : ∀ k < depth, ∀ k' < depth, ∀ i < (lst k).length,
    ∀ j < (lst k').length, (k ≠ k' ∨ i ≠ j) →
      Apart ((lst k).getD i 0) ((lst k').getD j 0)
  room : ∀ k < depth, (lst (k + 1)).length ≤ capacity slack lst k
  linked : ∀ k < depth, ∀ i < capacity slack lst k,
    m.read64 (slotAddr (lst k) i) = (lst (k + 1)).getD i 0

variable {m m' : Mem} {depth : Nat} {slack : Nat → Nat}
  {lst : Nat → List (BitVec 64)} {lo hi : Nat}

-- ======================================================= slot addresses

theorem getD_mem {l : List (BitVec 64)} {i : Nat} (h : i < l.length) :
    l.getD i 0 ∈ l := by
  rw [List.getD_eq_getElem?_getD, List.getElem?_eq_getElem h,
    Option.getD_some]
  exact List.getElem_mem h

/-- A slot lies in its table's page, at its place. -/
theorem slotAddr_toNat {ps : List (BitVec 64)} {i : Nat}
    (hp : (ps.getD (i / 512) 0).toNat + 0x1000 ≤ 2 ^ 64) :
    (slotAddr ps i).toNat = (ps.getD (i / 512) 0).toNat + 8 * (i % 512) := by
  simp only [slotAddr, BitVec.toNat_add, BitVec.toNat_ofNat]
  omega

/-- The table a slot of the level belongs to is one of the level's. -/
theorem Forest.table_mem {k i : Nat} (hi : i < capacity slack lst k) :
    i / 512 < (lst k).length := by
  unfold capacity at hi
  omega

/-- A slot's bytes lie inside `[lo, hi)`, in the page of its table. -/
theorem Forest.slot_bounds (hf : Forest m depth slack lst lo hi) {k i : Nat}
    (hk : k < depth) (hcap : i < capacity slack lst k) :
    (slotAddr (lst k) i).toNat
        = ((lst k).getD (i / 512) 0).toNat + 8 * (i % 512)
      ∧ lo ≤ (slotAddr (lst k) i).toNat
      ∧ (slotAddr (lst k) i).toNat + 8 ≤ hi := by
  have hmem := getD_mem (Forest.table_mem hcap)
  have hhigh := hf.high k hk _ hmem
  have hlow := hf.low k hk _ hmem
  have htop := hf.top
  have haddr : (slotAddr (lst k) i).toNat
      = ((lst k).getD (i / 512) 0).toNat + 8 * (i % 512) :=
    slotAddr_toNat (by omega)
  omega

/-- Distinct slots do not overlap. -/
theorem Forest.slot_disjoint (hf : Forest m depth slack lst lo hi)
    {k k' i j : Nat} (hk : k < depth) (hk' : k' < depth)
    (hcap : i < capacity slack lst k) (hcap' : j < capacity slack lst k')
    (hne : k ≠ k' ∨ i ≠ j) :
    (slotAddr (lst k) i).toNat + 8 ≤ (slotAddr (lst k') j).toNat
      ∨ (slotAddr (lst k') j).toNat + 8 ≤ (slotAddr (lst k) i).toNat := by
  obtain ⟨haddr, -, -⟩ := hf.slot_bounds hk hcap
  obtain ⟨haddr', -, -⟩ := hf.slot_bounds hk' hcap'
  by_cases hsame : k = k' ∧ i / 512 = j / 512
  · -- one table: the offsets differ
    obtain ⟨rfl, hq⟩ := hsame
    rw [haddr, haddr', hq]
    omega
  · -- two tables: the pages are apart
    have hap := hf.apart k hk k' hk' (i / 512) (Forest.table_mem hcap)
      (j / 512) (Forest.table_mem hcap') (by omega)
    unfold Apart at hap
    omega

-- ========================================================== operations

/-- A cleared root page is a tree with nothing below it. -/
theorem Forest.root_only {root : BitVec 64} (hroot : lst 0 = [root])
    (hnil : ∀ k, lst (k + 1) = []) (htop : root.toNat + 0x1000 ≤ 2 ^ 64)
    (hclear : ∀ j < 512, m.read64 (root + BitVec.ofNat 64 (8 * j)) = 0) :
    Forest m depth slack lst root.toNat (root.toNat + 0x1000) := by
  have hmem : ∀ k p, p ∈ lst k → p = root := by
    intro k p hp
    match k with
    | 0 =>
        rw [hroot] at hp
        exact List.mem_singleton.1 hp
    | k + 1 =>
        rw [hnil k] at hp
        cases hp
  have hzero : ∀ k i, i < (lst k).length → k = 0 ∧ i = 0 := by
    intro k i hi
    match k with
    | 0 =>
        rw [hroot, List.length_singleton] at hi
        exact ⟨rfl, by omega⟩
    | k + 1 =>
        rw [hnil k] at hi
        cases hi
  refine ⟨htop, ?_, ?_, ?_, ?_, ?_⟩
  · intro k _ p hp
    exact Nat.le_of_eq (by rw [hmem k p hp])
  · intro k _ p hp
    exact Nat.le_of_eq (by rw [hmem k p hp])
  · intro k _ k' _ i hi j hj hne
    have h1 := hzero k i hi
    have h2 := hzero k' j hj
    omega
  · intro k _
    rw [hnil k]
    exact Nat.zero_le _
  · intro k _ i hi
    obtain ⟨rfl, hq⟩ := hzero k (i / 512) (Forest.table_mem hi)
    have haddr : slotAddr (lst 0) i = root + BitVec.ofNat 64 (8 * (i % 512)) := by
      unfold slotAddr
      rw [hroot, hq, List.getD_cons_zero]
    rw [haddr, hnil 0, List.getD_nil]
    exact hclear _ (Nat.mod_lt _ (by omega))

/-- The tree depends only on the bytes of `[lo, hi)`. -/
theorem Forest.frame (hf : Forest m depth slack lst lo hi)
    (hag : Mem.AgreeOn m m' lo hi) : Forest m' depth slack lst lo hi := by
  refine ⟨hf.top, hf.low, hf.high, hf.apart, hf.room, ?_⟩
  intro k hk i hcap
  obtain ⟨-, hlo, hhi⟩ := hf.slot_bounds hk hcap
  have htop := hf.top
  rw [← hf.linked k hk i hcap]
  exact Mem.read64_congr_of_range hag (by omega) hlo hhi

/-- The tree may be seen in a larger window. -/
theorem Forest.widen (hf : Forest m depth slack lst lo hi) {hi' : Nat}
    (hle : hi ≤ hi') (htop : hi' ≤ 2 ^ 64) :
    Forest m depth slack lst lo hi' :=
  ⟨htop, hf.low, fun k hk p hp => Nat.le_trans (hf.high k hk p hp) hle, hf.apart,
    hf.room, hf.linked⟩

/-- Filling the next free slot of level `k` leaves every other slot with
what it held. -/
theorem Forest.read_fill (hf : Forest m depth slack lst lo hi) {k : Nat}
    (hk : k < depth) (hcap : (lst (k + 1)).length < capacity slack lst k)
    (v : BitVec 64) {k' j : Nat} (hk' : k' < depth)
    (hj : j < capacity slack lst k') :
    (m.write64 (slotAddr (lst k) (lst (k + 1)).length) v).read64
        (slotAddr (lst k') j)
      = (grow lst (k + 1) v (k' + 1)).getD j 0 := by
  obtain ⟨-, -, hhi⟩ := hf.slot_bounds hk hcap
  obtain ⟨-, -, hhi'⟩ := hf.slot_bounds hk' hj
  have htop := hf.top
  by_cases hsame : k = k' ∧ (lst (k + 1)).length = j
  · -- the slot just filled
    obtain ⟨rfl, rfl⟩ := hsame
    rw [grow_self, List.getD_append_right _ _ _ _ (Nat.le_refl _),
      Nat.sub_self, List.getD_cons_zero]
    exact Mem.read64_write64_self m _ v
  · -- any other slot
    have hold : (m.write64 (slotAddr (lst k) (lst (k + 1)).length) v).read64
        (slotAddr (lst k') j) = (lst (k' + 1)).getD j 0 := by
      rw [← hf.linked k' hk' j hj]
      exact Mem.read64_write64_of_disjoint m v (by omega) (by omega)
        (hf.slot_disjoint hk' hk hj hcap (by omega))
    rw [hold]
    by_cases hkk : k' + 1 = k + 1
    · obtain rfl : k' = k := by omega
      rw [grow_self]
      rcases Nat.lt_or_ge j (lst (k' + 1)).length with hlt | hge
      · rw [List.getD_append _ _ _ _ hlt]
      · rw [List.getD_eq_default _ _ hge, List.getD_eq_default]
        rw [List.length_append, List.length_singleton]
        omega
    · rw [grow_of_ne hkk]

/-- Fill the next free slot of the lowest tables. -/
theorem Forest.putLeaf (hf : Forest m depth slack lst lo hi) {k : Nat}
    (hk : k + 1 = depth)
    (hcap : (lst (k + 1)).length < capacity slack lst k) (v : BitVec 64) :
    Forest (m.write64 (slotAddr (lst k) (lst (k + 1)).length) v) depth slack
      (grow lst (k + 1) v) lo hi := by
  have hold : ∀ j < depth, grow lst (k + 1) v j = lst j :=
    fun j hj => grow_of_ne (by omega)
  have hcapeq : ∀ j < depth,
      capacity slack (grow lst (k + 1) v) j = capacity slack lst j := by
    intro j hj
    unfold capacity
    rw [hold j hj]
  refine ⟨hf.top, ?_, ?_, ?_, ?_, ?_⟩
  · intro j hj
    rw [hold j hj]
    exact hf.low j hj
  · intro j hj
    rw [hold j hj]
    exact hf.high j hj
  · intro j hj j' hj'
    rw [hold j hj, hold j' hj']
    exact hf.apart j hj j' hj'
  · intro j hj
    rw [hcapeq j hj]
    by_cases hjk : j = k
    · subst hjk
      rw [grow_self, List.length_append, List.length_singleton]
      omega
    · rw [grow_of_ne (by omega)]
      exact hf.room j hj
  · intro j hj i hi
    rw [hcapeq j hj] at hi
    rw [hold j hj]
    exact hf.read_fill (by omega) hcap v hj hi

/-- Link the page at `v`, cleared and above the tree, into the next free
slot of level `k`. The level it joins must be empty or free of slack, so
that slots keep their numbers. -/
theorem Forest.addTable (hf : Forest m depth slack lst lo hi) {k hi' : Nat}
    (hk : k + 1 < depth)
    (hcap : (lst (k + 1)).length < capacity slack lst k)
    {v : BitVec 64} (hlohi : lo ≤ hi) (hv : hi ≤ v.toNat)
    (hv' : v.toNat + 0x1000 ≤ hi') (htop : hi' ≤ 2 ^ 64)
    (hslack : lst (k + 1) = [] ∨ slack (k + 1) = 0)
    (hclear : ∀ j < 512 - slack (k + 1),
      m.read64 (v + BitVec.ofNat 64 (8 * j)) = 0) :
    Forest (m.write64 (slotAddr (lst k) (lst (k + 1)).length) v) depth slack
      (grow lst (k + 1) v) lo hi' := by
  obtain ⟨-, -, hslot⟩ := hf.slot_bounds (by omega : k < depth) hcap
  have hmem : ∀ j p, p ∈ grow lst (k + 1) v j →
      p ∈ lst j ∨ (j = k + 1 ∧ p = v) := by
    intro j p hp
    by_cases hj : j = k + 1
    · subst hj
      rw [grow_self] at hp
      rcases List.mem_append.1 hp with hp | hp
      · exact Or.inl hp
      · exact Or.inr ⟨rfl, List.mem_singleton.1 hp⟩
    · rw [grow_of_ne hj] at hp
      exact Or.inl hp
  have hget : ∀ j i, i < (grow lst (k + 1) v j).length →
      (i < (lst j).length ∧
          (grow lst (k + 1) v j).getD i 0 = (lst j).getD i 0)
        ∨ (j = k + 1 ∧ i = (lst j).length ∧
          (grow lst (k + 1) v j).getD i 0 = v) := by
    intro j i hi
    by_cases hj : j = k + 1
    · subst hj
      rw [grow_self] at hi ⊢
      rw [List.length_append, List.length_singleton] at hi
      rcases Nat.lt_or_ge i (lst (k + 1)).length with hlt | hge
      · exact Or.inl ⟨hlt, List.getD_append _ _ _ _ hlt⟩
      · have hi' : i = (lst (k + 1)).length := by omega
        refine Or.inr ⟨rfl, hi', ?_⟩
        rw [List.getD_append_right _ _ _ _ hge, hi', Nat.sub_self,
          List.getD_cons_zero]
    · rw [grow_of_ne hj] at hi ⊢
      exact Or.inl ⟨hi, rfl⟩
  refine ⟨htop, ?_, ?_, ?_, ?_, ?_⟩
  · intro j hj p hp
    rcases hmem j p hp with hp | ⟨-, rfl⟩
    · exact hf.low j hj p hp
    · omega
  · intro j hj p hp
    rcases hmem j p hp with hp | ⟨-, rfl⟩
    · have := hf.high j hj p hp
      omega
    · exact hv'
  · intro j hj j' hj' i hi i' hi' hne
    rcases hget j i hi with ⟨hlt, heq⟩ | ⟨rfl, rfl, heq⟩
    · rcases hget j' i' hi' with ⟨hlt', heq'⟩ | ⟨rfl, rfl, heq'⟩
      · rw [heq, heq']
        exact hf.apart j hj j' hj' i hlt i' hlt' hne
      · have := hf.high j hj _ (getD_mem hlt)
        rw [heq, heq']
        exact Or.inl (by omega)
    · rcases hget j' i' hi' with ⟨hlt', heq'⟩ | ⟨rfl, rfl, heq'⟩
      · have := hf.high j' hj' _ (getD_mem hlt')
        rw [heq, heq']
        exact Or.inr (by omega)
      · omega
  · intro j hj
    have hroom := hf.room j hj
    have hgrow : (lst j).length ≤ (grow lst (k + 1) v j).length := by
      by_cases hjk : j = k + 1
      · subst hjk
        rw [grow_self, List.length_append]
        omega
      · exact Nat.le_of_eq (by rw [grow_of_ne hjk])
    by_cases hjk : j = k
    · subst hjk
      rw [grow_self, List.length_append, List.length_singleton]
      unfold capacity at hcap ⊢
      rw [grow_of_ne (by omega)]
      omega
    · rw [grow_of_ne (by omega)]
      unfold capacity at hroom ⊢
      omega
  · intro j hj i hi
    rcases Nat.lt_or_ge i (capacity slack lst j) with hlt | hge
    · -- an old slot: same address, `read_fill`
      have haddr : slotAddr (grow lst (k + 1) v j) i = slotAddr (lst j) i := by
        unfold slotAddr
        by_cases hjk : j = k + 1
        · subst hjk
          rw [grow_self, List.getD_append _ _ _ _ (Forest.table_mem hlt)]
        · rw [grow_of_ne hjk]
      rw [haddr]
      exact hf.read_fill (by omega) hcap v hj hlt
    · -- a slot of the new table: cleared, and untouched by the link
      obtain rfl : j = k + 1 := by
        by_contra hjk
        unfold capacity at hi hge
        rw [grow_of_ne hjk] at hi
        omega
      have hlen : i / 512 = (lst (k + 1)).length
          ∧ i % 512 < 512 - slack (k + 1) := by
        unfold capacity at hi hge
        rw [grow_self, List.length_append, List.length_singleton] at hi
        rcases hslack with hnil | hzero
        · rw [hnil] at hi hge ⊢
          simp only [List.length_nil] at hi hge ⊢
          omega
        · omega
      have haddr : slotAddr (grow lst (k + 1) v (k + 1)) i
          = v + BitVec.ofNat 64 (8 * (i % 512)) := by
        unfold slotAddr
        rw [grow_self, hlen.1,
          List.getD_append_right _ _ _ _ (Nat.le_refl _), Nat.sub_self,
          List.getD_cons_zero]
      have hnat : (v + BitVec.ofNat 64 (8 * (i % 512))).toNat
          = v.toNat + 8 * (i % 512) := by
        simp only [BitVec.toNat_add, BitVec.toNat_ofNat]
        omega
      have hnone : (grow lst (k + 1) v (k + 1 + 1)).getD i 0 = 0 := by
        rw [grow_of_ne (by omega)]
        exact List.getD_eq_default _ _
          (Nat.le_trans (hf.room (k + 1) hj) hge)
      rw [haddr, hnone, ← hclear (i % 512) hlen.2]
      exact Mem.read64_write64_of_disjoint m v (by omega) (by omega)
        (Or.inr (by omega))

-- =================================================== following pointers

/-- The slot reached from the table at `p` by following pointers along
`path`, if no pointer on the way is null. -/
def leafSlot (m : Mem) : BitVec 64 → List Nat → Option (BitVec 64)
  | _, [] => none
  | p, [d] => some (p + BitVec.ofNat 64 (8 * d))
  | p, d :: d' :: ds =>
      let e := m.read64 (p + BitVec.ofNat 64 (8 * d))
      if e = 0 then none else leafSlot m e (d' :: ds)

/-- The four 9-bit digits of a leaf number, root first. -/
def pathDigits (n : Nat) : List Nat :=
  [n / 0x8000000 % 512, n / 0x40000 % 512, n / 512 % 512, n % 512]

/-- One pointer on the path: slot `j` of a level, reached through the
table that holds it. -/
theorem slotAddr_of_table {ps : List (BitVec 64)} {p : BitVec 64}
    {j q d : Nat} (hq : j / 512 = q) (hd : j % 512 = d)
    (hp : ps.getD q 0 = p) :
    p + BitVec.ofNat 64 (8 * d) = slotAddr ps j := by
  subst hq hd hp
  rfl

variable {root : BitVec 64} {n : Nat}

/-- A leaf number whose lowest table exists is reached from the root. -/
theorem Forest.leafSlot_eq (hf : Forest m 4 slack lst lo hi) (hlo : 0 < lo)
    (hroot : lst 0 = [root]) (hn : n / 512 < (lst 3).length) :
    leafSlot m root (pathDigits n) = some (slotAddr (lst 3) n) := by
  have hr2 : (lst 3).length ≤ capacity slack lst 2 := hf.room 2 (by omega)
  have hr1 : (lst 2).length ≤ capacity slack lst 1 := hf.room 1 (by omega)
  have hr0 : (lst 1).length ≤ capacity slack lst 0 := hf.room 0 (by omega)
  have hcap2 : n / 512 < capacity slack lst 2 := by omega
  have ht2 := Forest.table_mem hcap2
  have hcap1 : n / 0x40000 < capacity slack lst 1 := by omega
  have ht1 := Forest.table_mem hcap1
  have hcap0 : n / 0x8000000 < capacity slack lst 0 := by omega
  have ht0 := Forest.table_mem hcap0
  rw [hroot, List.length_singleton] at ht0
  -- the three pointers on the way, none of them null
  have e0 := hf.linked 0 (by omega) _ hcap0
  have e1 := hf.linked 1 (by omega) _ hcap1
  have e2 := hf.linked 2 (by omega) _ hcap2
  have hnz : ∀ k i, k < 4 → i < (lst k).length → (lst k).getD i 0 ≠ 0 := by
    intro k i hk hi hz
    have := hf.low k hk _ (getD_mem hi)
    rw [hz] at this
    exact absurd this (by simp; omega)
  have a0 : root + BitVec.ofNat 64 (8 * (n / 0x8000000 % 512))
      = slotAddr (lst 0) (n / 0x8000000) :=
    slotAddr_of_table (by omega : n / 0x8000000 / 512 = 0) rfl
      (by rw [hroot]; rfl)
  have a1 : (lst 1).getD (n / 0x8000000) 0
      + BitVec.ofNat 64 (8 * (n / 0x40000 % 512))
      = slotAddr (lst 1) (n / 0x40000) :=
    slotAddr_of_table (by omega) rfl rfl
  have a2 : (lst 2).getD (n / 0x40000) 0
      + BitVec.ofNat 64 (8 * (n / 512 % 512)) = slotAddr (lst 2) (n / 512) :=
    slotAddr_of_table (by omega) rfl rfl
  simp only [pathDigits, leafSlot, a0, e0, a1, e1, a2, e2]
  rw [if_neg (hnz 1 _ (by omega) (by omega)),
    if_neg (hnz 2 _ (by omega) (by omega)),
    if_neg (hnz 3 _ (by omega) (by omega))]
  rfl

/-- Conversely a slot reached from the root is the leaf's own, provided
the path meets no exempt slot. -/
theorem Forest.leafSlot_some (hf : Forest m 4 slack lst lo hi)
    (hroot : lst 0 = [root]) (hcap0 : n / 0x8000000 < capacity slack lst 0)
    (hcap1 : n / 0x8000000 < (lst 1).length →
      n / 0x40000 < capacity slack lst 1)
    (hcap2 : n / 0x40000 < (lst 2).length →
      n / 512 < capacity slack lst 2)
    {a : BitVec 64} (h : leafSlot m root (pathDigits n) = some a) :
    n / 512 < (lst 3).length ∧ a = slotAddr (lst 3) n := by
  have hlt : ∀ k i, (lst k).getD i 0 ≠ 0 → i < (lst k).length := by
    intro k i hne
    by_contra hge
    exact hne (List.getD_eq_default _ _ (by omega))
  have ht0 := Forest.table_mem hcap0
  rw [hroot, List.length_singleton] at ht0
  have a0 : root + BitVec.ofNat 64 (8 * (n / 0x8000000 % 512))
      = slotAddr (lst 0) (n / 0x8000000) :=
    slotAddr_of_table (by omega : n / 0x8000000 / 512 = 0) rfl
      (by rw [hroot]; rfl)
  have a1 : (lst 1).getD (n / 0x8000000) 0
      + BitVec.ofNat 64 (8 * (n / 0x40000 % 512))
      = slotAddr (lst 1) (n / 0x40000) :=
    slotAddr_of_table (by omega) rfl rfl
  have a2 : (lst 2).getD (n / 0x40000) 0
      + BitVec.ofNat 64 (8 * (n / 512 % 512)) = slotAddr (lst 2) (n / 512) :=
    slotAddr_of_table (by omega) rfl rfl
  have e0 := hf.linked 0 (by omega) _ hcap0
  simp only [pathDigits, leafSlot, a0, e0] at h
  split at h
  case isTrue => cases h
  case isFalse hne1 =>
    have hl1 := hlt 1 _ hne1
    have e1 := hf.linked 1 (by omega) _ (hcap1 hl1)
    simp only [a1, e1] at h
    split at h
    case isTrue => cases h
    case isFalse hne2 =>
      have hl2 := hlt 2 _ hne2
      have e2 := hf.linked 2 (by omega) _ (hcap2 hl2)
      simp only [a2, e2] at h
      split at h
      case isTrue => cases h
      case isFalse hne3 =>
        have hl3 := hlt 3 _ hne3
        refine ⟨hl3, ?_⟩
        injection h with h
        rw [← h]
        exact slotAddr_of_table rfl rfl rfl

end RadixTables
