/-
What the third stage touches while stage two's page tables are in force.

Those map the addresses below 0x200000 and nothing else. Everything the
run touches is low memory, an entry of one of its own tables, or the page
it is clearing at RCX. So the one thing that decides whether an access
leaves the map is where a new table's page ends: `FitsIdentity` asks for
that before each table is taken. It is enough, over any run, because the
tables taken under it stay inside (`LowTables`), and it is needed, because
the clearing reaches the last byte of the page.

The run to the end needs 2566 tables, and there is room for 255.
-/
import BootLoader.ThirdStage.Proofs.SoftwareTables

namespace BootLoader.ThirdStage

open FlatMemory RadixTables Words

/-- Every access so far was below 0x200000. -/
def InIdentityMap (s : Boot) : Prop := ∀ x ∈ s.cpu.log, x.Below 0x200000

/-- If the next step takes a table page, that page ends in the map. -/
def FitsIdentity (s : Boot) : Prop :=
  ∀ k, s.pc = .approve_allocate k → (s.cpu.reg .rcx).toNat + 0x1000 ≤ 0x200000

-- ===================================================== tables in the map

namespace Alloc

variable {U : Nat → Bool} {zf : Bool} {a : Alloc} {k : Level}

/-- Behind the first table the pointer already has its flag bits. -/
theorem Inv.tag_ptr (h : Inv U a) (hpc : a.pc = .approve_allocate k)
    (hk : k ≠ .l1) : tag a.ptr = a.ptr := by
  have hres := h.tables.residue
  have hne : a.tables ≠ [] := by
    intro hnil
    have hcount := h.counts.count .l1
    have hprog : Level.l1.num ≤ a.pc.progress := by
      rw [hpc]
      cases k with
      | l1 => exact absurd rfl hk
      | l2 => exact Nat.le_refl _
      | l3 => exact Nat.le_succ _
    rw [if_pos hprog] at hcount
    unfold Alloc.count at hcount
    rw [hnil] at hcount
    exact absurd hcount (by simp)
  rw [if_neg hne] at hres
  unfold tag
  omega

/-- The entries of every table lie below 0x200000; the first table's last
entry is not used. -/
def LowTables (a : Alloc) : Prop :=
  ∀ x ∈ a.tables, x.2 + (if x.1 = .l1 then 0xFFD else 0x1000) ≤ 0x200000

theorem LowTables.step (h : LowTables a) (hi : Inv U a)
    (hfit : ∀ k, a.pc = .approve_allocate k → a.ptr + 0x1000 ≤ 0x200000) :
    LowTables (a.step U zf) := by
  have hsame : ∀ b : Alloc, b.tables = a.tables → LowTables b := by
    intro b htab
    unfold LowTables
    rw [htab]
    exact h
  unfold Alloc.step
  cases hpc : a.pc with
  | approve_allocate k =>
      have hend := hfit k hpc
      intro x hx
      rcases List.mem_append.1 hx with hx | hx
      · exact h x hx
      · obtain rfl := List.mem_singleton.1 hx
        show tag a.ptr + (if k = .l1 then 0xFFD else 0x1000) ≤ 0x200000
        by_cases hk : k = .l1
        · have htag : tag a.ptr ≤ a.ptr + 3 := by
            unfold tag
            omega
          rw [if_pos hk]
          omega
        · rw [if_neg hk, hi.tag_ptr hpc hk]
          exact hend
  | page_walk => exact hsame _ rfl
  | allocate k => cases k <;> exact hsame _ rfl
  | adjust_then_call k => exact hsame _ rfl
  | skip k => cases k <;> exact hsame _ rfl
  | allocate4 => exact hsame _ rfl
  | adjust_then_call4 => exact hsame _ rfl
  | approve_allocate4 => exact hsame _ rfl
  | skip4 => exact hsame _ rfl
  | returned => exact hsame _ rfl
  | done => exact h

end Alloc

-- =============================================================== one step

variable {m₀ : Mem} {L : Layout} {zf : Bool} {s : Boot} {c : Cpu}

/-- With its tables in the map, the entries of the page in hand are. -/
theorem Held.entry_below (h : Held m₀ s) (hlow : s.abs.LowTables) {l : Nat}
    (hl : 1 ≤ l) (hl' : l ≤ 4)
    (hin : s.abs.page / span l < capacity slack s.lst (l - 1)) :
    (slotAddr (s.lst (l - 1)) (s.abs.page / span l)).toNat + 8
      ≤ 0x200000 := by
  obtain ⟨haddr, -, -⟩ := h.core.forest.slot_bounds (by omega) hin
  have hmem := getD_mem (Forest.table_mem hin)
  generalize hp : (s.lst (l - 1)).getD (s.abs.page / span l / 512) 0 = p
    at haddr hmem
  -- a table of level `k` ends in the map
  have htable : ∀ k : Level, p ∈ s.lst k.num →
      p.toNat + (if k = .l1 then 0xFFD else 0x1000) ≤ 0x200000 :=
    fun k hk => hlow (k, p.toNat) (mem_abs_tables (mem_lst_num.1 hk))
  match l, hl, hl' with
  | 1, _, _ =>
      obtain rfl : p = 0x100000#64 := List.mem_singleton.1 hmem
      have hbase : (0x100000#64).toNat = 0x100000 := toNat_lit (by omega)
      omega
  | 2, _, _ =>
      have hend := htable .l1 hmem
      rw [if_pos rfl] at hend
      have hpage : s.abs.page ≤ 0x140000 := by
        have hcount := h.alloc.counts.page
        unfold Alloc.pageCount at hcount
        split at hcount <;> omega
      have hspan : span 2 = 0x40000 := rfl
      rw [hspan] at haddr ⊢
      omega
  | 3, _, _ =>
      have hend := htable .l2 hmem
      rw [if_neg (by decide)] at hend
      omega
  | 4, _, _ =>
      have hend := htable .l3 hmem
      rw [if_neg (by decide)] at hend
      omega

/-- A step that fits stays in the map. -/
theorem Held.in_map (h : Held m₀ s) (hb : Bounded s)
    (hlow : s.abs.LowTables) (hfit : FitsIdentity s)
    (hmap : InIdentityMap s) : InIdentityMap (step L zf s) := by
  intro x hx
  rcases (step_ok h hb).log x hx with hold | hlow' | ⟨l, hl, hl', hin, haddr,
    hsize⟩ | ⟨k, hpc, -, hend⟩
  · exact hmap x hold
  · exact hlow'.mono (by omega)
  · have hbelow := h.entry_below hlow hl hl' hin
    unfold Access.Below
    rw [haddr, hsize]
    exact hbelow
  · exact Nat.le_trans hend (hfit k hpc)

/-- A step that does not fit leaves it: the page's last quadword. -/
theorem Held.leaves_map (h : Held m₀ s) (hb : Bounded s)
    (hfit : ¬ FitsIdentity s) : ¬ InIdentityMap (step L zf s) := by
  unfold FitsIdentity at hfit
  push Not at hfit
  obtain ⟨k, hpc, hout⟩ := hfit
  have hrcx := hb.2
  have hstart : 0x101000 ≤ (s.cpu.reg .rcx).toNat := h.alloc.tables.start
  obtain ⟨-, -, -, -, x, hx, hend⟩ := build_page_table2_spec
    h.core.stack (by omega) (by omega)
  have hlog : x ∈ (step L zf s).cpu.log := by
    have hstep : step L zf s = approve_allocate k s := by
      unfold step
      rw [hpc]
      cases k <;> rfl
    rw [hstep]
    have happ : x ∈ (approve_allocate k s).cpu.log := by
      unfold approve_allocate
      exact List.mem_cons_of_mem _ hx
    exact happ
  intro hmap
  have hbelow := hmap x hlog
  unfold Access.Below at hbelow
  omega

-- ================================================================ the run

/-- The invariant along a run whose pointers stay bounded. -/
theorem run_held (hs : StackOk c) {z : Nat → Bool} {n : Nat}
    (hb : ∀ i < n, Bounded (bigRun L c z i)) :
    ∀ i ≤ n, Held c.mem (bigRun L c z i) := by
  intro i
  induction i with
  | zero => exact fun _ => held_start hs
  | succ i ih =>
      intro hi
      exact (step_ok (ih (by omega)) (hb i (by omega))).held

/-- While every table taken fits, all accesses and all tables are in the
map. -/
theorem run_in_map (hs : StackOk c) {z : Nat → Bool} {n : Nat}
    (hb : ∀ i < n, Bounded (bigRun L c z i))
    (hfit : ∀ i < n, FitsIdentity (bigRun L c z i)) :
    ∀ i ≤ n, InIdentityMap (bigRun L c z i)
      ∧ (bigRun L c z i).abs.LowTables := by
  intro i
  induction i with
  | zero =>
      intro _
      exact ⟨fun x hx => (List.not_mem_nil hx).elim,
        fun x hx => (List.not_mem_nil hx).elim⟩
  | succ i ih =>
      intro hi
      obtain ⟨hmap, hlow⟩ := ih (by omega)
      have hh := run_held hs hb i (by omega)
      have hf := hfit i (by omega)
      refine ⟨hh.in_map (hb i (by omega)) hlow hf hmap, ?_⟩
      have hok : StepOk c.mem L (z i) (bigRun L c z i) :=
        step_ok hh (hb i (by omega))
      have hsim : (bigRun L c z (i + 1)).abs
          = (bigRun L c z i).abs.step (accepts c.mem) (z i) := hok.sim
      rw [hsim]
      exact hlow.step hh.alloc hf

/-- A run in the map takes only tables that fit. -/
theorem run_fits (hs : StackOk c) {z : Nat → Bool} {n : Nat}
    (hb : ∀ i < n, Bounded (bigRun L c z i))
    (hmap : ∀ i ≤ n, InIdentityMap (bigRun L c z i)) :
    ∀ i < n, FitsIdentity (bigRun L c z i) := by
  intro i hi
  by_contra hfit
  exact (run_held hs hb i (by omega)).leaves_map (hb i hi) hfit
    (hmap (i + 1) hi)

/-- Over a run: in the map exactly as long as every table taken fits. -/
theorem in_identity_map_iff (hs : StackOk c) (z : Nat → Bool) (n : Nat)
    (hb : ∀ i < n, Bounded (bigRun L c z i)) :
    (∀ i ≤ n, InIdentityMap (bigRun L c z i))
      ↔ ∀ i < n, FitsIdentity (bigRun L c z i) := by
  constructor
  · exact run_fits hs hb
  · intro hfit i hi
    exact (run_in_map hs hb hfit i hi).1

/-- On the wide map the pointers stay bounded. -/
theorem bounded_wideMap (z : Nat → Bool) (i : Nat) :
    Bounded (bigRun L (checkCpu wideMap 0#64) z i) := by
  have hb := room_bounded room_wideMap (by omega) z
  have habs := (run_sim (L := L) (stackOk_checkCpu wideMap 0#64) z i
    fun j _ => hb j).2
  have hi := hb i
  rw [← show _ = allocRun (mapMem wideMap) z i from habs] at hi
  exact hi

/-- The instance there, for the first thousand steps. -/
theorem in_identity_map_iff_wideMap :
    (∀ i ≤ 1000, InIdentityMap
        (bigRun assembledLayout (checkCpu wideMap 0#64) (fun _ => false) i))
      ↔ ∀ i < 1000, FitsIdentity
        (bigRun assembledLayout (checkCpu wideMap 0#64) (fun _ => false) i) :=
  in_identity_map_iff (stackOk_checkCpu wideMap 0#64) _ 1000 fun i _ =>
    bounded_wideMap _ i

-- ==================================================== runs to the end

/-- Pages one above the other take as much room as there are of them. -/
theorem pages_span : ∀ (l : List (Level × Nat)) (lo : Nat),
    (∀ x ∈ l, lo ≤ x.2) → (l.Pairwise fun x y => x.2 + 0x1000 ≤ y.2) →
    l = [] ∨ ∃ x ∈ l, lo + 0x1000 * (l.length - 1) ≤ x.2 := by
  intro l
  induction l with
  | nil => exact fun _ _ _ => Or.inl rfl
  | cons y l ih =>
      intro lo hlo hp
      obtain ⟨hy, hp⟩ := List.pairwise_cons.1 hp
      have hylo := hlo y (List.mem_cons_self ..)
      refine Or.inr ?_
      rcases ih (y.2 + 0x1000) hy hp with rfl | ⟨x, hx, hle⟩
      · exact ⟨y, List.mem_cons_self .., by simpa using hylo⟩
      · have hpos := List.length_pos_of_mem hx
        refine ⟨x, List.mem_cons_of_mem _ hx, ?_⟩
        rw [List.length_cons]
        omega

/-- A finished run has taken a table that ends outside the map. -/
theorem done_overruns {m : Mem} (h : Held m s) (hpc : s.pc = .done) :
    ¬ s.abs.LowTables := by
  intro hlow
  have hlen : s.abs.tables.length = Alloc.tableCount :=
    (h.alloc.counts.done_length hpc).1
  have hup := h.alloc.tables
  have hcount : Alloc.tableCount = 2566 := rfl
  rcases pages_span s.abs.tables 0x101003 (fun x hx => (hup.page x hx).2.1)
    hup.rising with hnil | ⟨x, hx, hle⟩
  · rw [hnil] at hlen
    exact absurd hlen (by decide)
  · have := hlow x hx
    split at this <;> omega

/-- On 1 TiB of usable memory the run does leave the map. -/
theorem leaves_identity_map : ¬ ∀ (L : Layout) (c : Cpu) (s : Boot),
    StackOk c → Reached L c s → InIdentityMap s := by
  intro h
  have hs := stackOk_checkCpu wideMap 0#64
  have hE : 0x10000000000 + 0x3000 < 2 ^ 63 := by omega
  obtain ⟨n, hdone, -⟩ := done_wideMap (L := assembledLayout) fun _ => false
  have hb : ∀ i < n, Bounded (bigRun assembledLayout (checkCpu wideMap 0#64)
      (fun _ => false) i) := fun i _ => bounded_wideMap _ i
  have hfit := run_fits hs hb fun i _ => h _ _ _ hs
    (reached_bigRun hs _ i fun j _ => room_bounded room_wideMap hE _ j)
  exact done_overruns (run_held hs hb n (Nat.le_refl n)) hdone
    (run_in_map hs hb hfit n (Nat.le_refl n)).2

end BootLoader.ThirdStage
