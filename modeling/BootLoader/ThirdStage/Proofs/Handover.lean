/-
The third stage on what the second hands over.

# Two ends of the memory map

`memory_scanner` stores the regions in real mode, by segment and offset;
`loop_over_mem_regions` reads them in long mode, by address. It looks at
seven entries, so its verdict is that of the first seven regions
(`usable_scanned`); where there are fewer, what lies behind them decides
the rest.

# Two ends of the page tables

`start_here` is modelled on flat memory. On the tables the second stage
leaves, that is the machine only while every access goes to the address it
names (`Through`), which is to say below 0x200000. `build_page_table2`
clears a page up to its last byte, so an access goes astray as soon as a
table does not fit (`page_cleared`), and 255 fit of the 2566 the run needs.
-/
import BootLoader.SecondStage.Proofs.Main
import BootLoader.ThirdStage.Proofs.IdentityMap

namespace BootLoader.ThirdStage

open FlatMemory RadixTables Words Segment Paging ModeSwitch
open SecondStage (SecondLabels Entered HandedOver)

variable {ω : Type _} {K : SecondLabels} {es : List SecondStage.Region}
  {s : SecondStage.Machine ω} {e : Entered ω} {L : Layout} {c : Cpu} {m : Mem}
  {a : BitVec 64} {z : Nat → Bool} {n : Nat}

/-- The processor at 10000h: memory as it was handed over, and the stack
where the first stage put it. -/
structure Begins (e : Entered ω) (c : Cpu) : Prop where
  mem : c.mem = e.machine.pc.mem
  stack : StackOk c

-- ========================================================== the regions

/-- A region as the check reads it. -/
def scanned (r : SecondStage.Region) : Region := ⟨r.base, r.length, r.type⟩

/-- The verdict of a list of entries: the first that hits decides. -/
def verdict (rs : List Region) (a : BitVec 64) : Option Bool :=
  (rs.find? fun r => r.hits a).map fun r => r.type == 1#32

/-- The scan over known entries, and what it goes on with. -/
theorem usableFrom_entries : ∀ {rs : List Region} {i n : Nat},
    rs.length ≤ n →
    (∀ j (h : j < rs.length), regionAt m (i + j) = rs[j]) →
    usableFrom m a i n
      = (verdict rs a).getD
        (usableFrom m a (i + rs.length) (n - rs.length)) := by
  intro rs
  induction rs with
  | nil => exact fun _ _ => rfl
  | cons r rs ih =>
      intro i n hn h
      rw [List.length_cons] at hn
      obtain ⟨n, rfl⟩ : ∃ k, n = k + 1 := ⟨n - 1, by omega⟩
      have hfirst : regionAt m i = r := h 0 (Nat.succ_pos _)
      have hrest := ih (i := i + 1) (n := n) (by omega) fun j hj => by
        rw [Nat.add_assoc, Nat.add_comm 1 j]
        exact h (j + 1) (Nat.succ_lt_succ hj)
      have hscan : usableFrom m a i (n + 1)
          = if r.hits a then r.type == 1#32 else usableFrom m a (i + 1) n := by
        rw [← hfirst]
        rfl
      rw [hscan, List.length_cons, Nat.add_sub_add_right]
      cases hhit : r.hits a with
      | true =>
          unfold verdict
          rw [List.find?_cons, hhit]
          rfl
      | false =>
          have hskip : verdict (r :: rs) a = verdict rs a := by
            unfold verdict
            rw [List.find?_cons, hhit]
          rw [if_neg Bool.false_ne_true, hrest, hskip,
            show i + 1 + rs.length = i + (rs.length + 1) by omega]

/-- What the scanner stored is what the check reads. -/
theorem regionAt_scanned (h : SecondStage.Mapped es m) {i : Nat}
    (hi : i < es.length) (hfits : i < 2559) :
    regionAt m i = scanned es[i] := by
  have hslot := SecondStage.slot_toNat hfits
  have haddr : linear SecondStage.MEM_REGIONS_SEGMENT (SecondStage.slot i)
      = entryAddr i := by
    apply BitVec.eq_of_toNat_eq
    rw [linear_toNat, hslot, entryAddr_toNat (by omega)]
    show 16 * 0x2000 + _ = _
    omega
  obtain ⟨hbase, hlength, htype⟩ := h.regions i hi
  -- a field of the entry, at its offset and at its address
  have hfield : ∀ (k n : Nat), k + n ≤ 20 →
      load m SecondStage.MEM_REGIONS_SEGMENT
          (SecondStage.slot i + BitVec.ofNat 16 k) n
        = m.read (entryAddr i + BitVec.ofNat 64 k) n := by
    intro k n hk
    have hoff : (SecondStage.slot i + BitVec.ofNat 16 k).toNat
        = 0x1018 + 24 * i + k := by
      rw [BitVec.toNat_add, hslot, BitVec.toNat_ofNat]
      omega
    rw [load_eq_read _ _ _ (by omega), linear_add (by omega), haddr]
  have hbase' := hfield 0 8 (by omega)
  rw [BitVec.add_zero, BitVec.add_zero, hbase] at hbase'
  have hlength' := hlength.symm.trans (hfield 8 8 (by omega))
  have htype' := htype.symm.trans (hfield 16 4 (by omega))
  unfold regionAt scanned
  rw [hbase', hlength', htype']
  rfl

/-- The verdict on what the scanner stored. -/
theorem usable_scanned (h : SecondStage.Mapped es m) (a : BitVec 64) :
    usable m a = (verdict ((es.take 7).map scanned) a).getD
      (usableFrom m a es.length (7 - es.length)) := by
  have hlen : ((es.take 7).map scanned).length = min 7 es.length := by
    rw [List.length_map, List.length_take]
  have hscan : usableFrom m a 0 7 = (verdict ((es.take 7).map scanned) a).getD
      (usableFrom m a (0 + ((es.take 7).map scanned).length)
        (7 - ((es.take 7).map scanned).length)) :=
    usableFrom_entries (by omega) fun j hj => by
      rw [List.getElem_map, List.getElem_take, Nat.zero_add]
      exact regionAt_scanned h (by omega) (by omega)
  have htail : usableFrom m a (0 + min 7 es.length) (7 - min 7 es.length)
      = usableFrom m a es.length (7 - es.length) := by
    rcases Nat.le_total es.length 7 with hle | hge
    · rw [Nat.min_eq_right hle, Nat.zero_add]
    · rw [Nat.min_eq_left hge, Nat.sub_eq_zero_of_le hge]
      rfl
  unfold usable
  rw [hscan, hlen, htail]

/-- From the hand-over on, wherever the run of `start_here` stands: the
region check accepts an address exactly when the first of the first seven
regions of the BIOS that hits it is of type 1, or none does and the memory
behind fewer than seven regions says so. -/
theorem region_check_reads_scan (h : HandedOver K es s e)
    (hbegins : Begins e c) (hb : ∀ i < n, Bounded (bigRun L c z i)) :
    ∀ i ≤ n, ∀ a : BitVec 64,
      (loop_over_mem_regions L ((bigRun L c z i).cpu.set .r14 a)).mem L.flag
          = 1#8
        ↔ (verdict ((es.take 7).map scanned) a).getD
          (usableFrom c.mem a es.length (7 - es.length)) = true := by
  intro i hi a
  have hcore := (run_held hbegins.stack hb i hi).core
  have hmap : SecondStage.Mapped es c.mem := hbegins.mem ▸ h.map
  have hag : c.mem.AgreeOn (bigRun L c z i).cpu.mem 0x21018 0xB0000 :=
    hcore.map.mono (by omega) (by omega)
  have hsame : usable (bigRun L c z i).cpu.mem a = usable c.mem a :=
    usableFrom_congr hag 7 0 (by omega)
  have hstack : StackOk ((bigRun L c z i).cpu.set .r14 a) := hcore.stack
  rw [flag_eq_one_iff hstack, ← usable_scanned hmap, ← hsame]
  rfl

/-- A hand-over there is. -/
theorem handed_over_sample : ∃ e : Entered Unit,
    HandedOver SecondStage.secondLabels [SecondStage.lowRegion]
      SecondStage.secondMachine e := by
  obtain ⟨e, -, hover⟩ := SecondStage.second_stage_arrives
    (L := SecondStage.secondLabels)
    (P := SecondStage.cpuWith 0x80000008#32)
    (s := SecondStage.secondMachine) SecondStage.secondBios_second
    SecondStage.secondMachine_room
    ⟨rfl, rfl, rfl, SecondStage.laidOut_imaged⟩ ⟨rfl, rfl⟩ rfl (by decide)
    rfl (by decide)
  exact ⟨e, hover⟩

/-- A processor there, with zero in the other registers. -/
def enteredCpu (e : Entered ω) : Cpu where
  reg := fun r => if r = .rsp then 0xAFFE#64 else 0#64
  mem := e.machine.pc.mem
  log := []

theorem enteredCpu_begins (e : Entered ω) : Begins e (enteredCpu e) where
  mem := rfl
  stack := by
    show 0x5100 ≤ (0xAFFE#64).toNat ∧ (0xAFFE#64).toNat ≤ 0x10000
    decide

/-- The pointers start low. -/
theorem bounded_start (L : Layout) (c : Cpu) (z : Nat → Bool) :
    ∀ i < 1, Bounded (bigRun L c z i) := by
  intro i hi
  obtain rfl : i = 0 := by omega
  show (0x0#64).toNat < 2 ^ 63 ∧ (0x100000#64 + 0x1000#64).toNat < 2 ^ 63
  decide

/-- Behind a single region six stale entries are looked at. -/
theorem region_check_reads_scan_sample : ∃ e : Entered Unit,
    HandedOver SecondStage.secondLabels [SecondStage.lowRegion]
        SecondStage.secondMachine e
      ∧ ∀ a : BitVec 64,
        (loop_over_mem_regions assembledLayout
            ((bigRun assembledLayout (enteredCpu e) (fun _ => false) 1).cpu.set
              .r14 a)).mem assembledLayout.flag = 1#8
          ↔ (verdict [scanned SecondStage.lowRegion] a).getD
            (usableFrom (enteredCpu e).mem a 1 6) = true := by
  obtain ⟨e, hover⟩ := handed_over_sample
  exact ⟨e, hover, region_check_reads_scan hover (enteredCpu_begins e)
    (bounded_start _ _ _) 1 (Nat.le_refl 1)⟩

-- ====================================================== the page tables

/-- A walk looks at the four indices and the offset only. -/
theorem walkFrom_congr {v w : BitVec 64} (ho : pageOffset v = pageOffset w) :
    ∀ (l : Nat) (base : BitVec 64),
      (∀ j < l, levelIndex v j = levelIndex w j) →
      walkFrom m v l base = walkFrom m w l base := by
  intro l
  induction l with
  | zero =>
      intro base _
      unfold walkFrom
      rw [ho]
  | succ l ih =>
      intro base h
      have hrest : ∀ b, walkFrom m v l b = walkFrom m w l b :=
        fun b => ih b fun j hj => h j (Nat.lt_succ_of_lt hj)
      simp only [walkFrom, h l (Nat.lt_succ_self l), hrest]

/-- So the upper sixteen bits do not matter. -/
theorem walk_low48 (m : Mem) (cr3 v : BitVec 64) :
    walk m cr3 v = walk m cr3 ((v.setWidth 48).setWidth 64) := by
  have hnat : ((v.setWidth 48).setWidth 64).toNat = v.toNat % 2 ^ 48 := by
    rw [BitVec.toNat_setWidth, BitVec.toNat_setWidth]
    omega
  unfold walk
  refine walkFrom_congr (BitVec.eq_of_toNat_eq ?_) 4 _ fun j hj =>
    BitVec.eq_of_toNat_eq ?_
  · rw [pageOffset_toNat, pageOffset_toNat, hnat]
    omega
  · rw [levelIndex_toNat, levelIndex_toNat, hnat]
    obtain rfl | rfl | rfl | rfl : j = 0 ∨ j = 1 ∨ j = 2 ∨ j = 3 := by omega
    · omega
    · omega
    · omega
    · omega

/-- The addresses that are their own translation. -/
theorem translate_self_iff (h : HandedOver K es s e) (a : BitVec 64) :
    e.machine.control.translate e.machine.pc.mem a = .ok a
      ↔ a.toNat < 0x200000 := by
  have hwalk := walk_low48 e.machine.pc.mem
    (e.machine.control.cr3.setWidth 64) a
  rw [h.identity] at hwalk
  have hnat : (a.setWidth 48).toNat = a.toNat % 2 ^ 48 :=
    BitVec.toNat_setWidth _ _
  unfold Control.translate
  rw [if_pos h.control.paging, hwalk]
  rcases Nat.lt_or_ge (a.setWidth 48).toNat 0x200000 with hlow | hhigh
  · have hback : ((a.setWidth 48).setWidth 64).toNat = a.toNat % 2 ^ 48 := by
      rw [BitVec.toNat_setWidth, hnat]
      omega
    rw [if_pos hlow]
    show Except.ok ((a.setWidth 48).setWidth 64) = Except.ok a ↔ _
    constructor
    · intro heq
      have hself := congrArg BitVec.toNat (Except.ok.inj heq)
      omega
    · intro ha
      refine congrArg Except.ok (BitVec.eq_of_toNat_eq ?_)
      omega
  · rw [if_neg (by omega)]
    show Except.error Fault.pageFault = Except.ok a ↔ _
    constructor
    · intro heq
      cases heq
    · intro ha
      omega

/-- Every access so far has gone to the address it names, by the tables
handed over. -/
def Through (e : Entered ω) (b : Boot) : Prop :=
  ∀ x ∈ b.cpu.log, ∀ k < x.size,
    e.machine.control.translate e.machine.pc.mem
        (x.addr + BitVec.ofNat 64 k)
      = .ok (x.addr + BitVec.ofNat 64 k)

theorem through_of_inIdentityMap (h : HandedOver K es s e) {b : Boot}
    (hmap : InIdentityMap b) : Through e b := by
  intro x hx k hk
  have hbelow : x.addr.toNat + x.size ≤ 0x200000 := hmap x hx
  rw [translate_self_iff h, BitVec.toNat_add, BitVec.toNat_ofNat]
  omega

/-- The last store of the clearing. -/
theorem page_cleared (hs : StackOk c)
    (hroom : (c.reg .rcx).toNat + 0x1000 < 2 ^ 64) :
    ∃ x ∈ (build_page_table2 c).log, x.size = 8
      ∧ x.addr.toNat + 8 = (c.reg .rcx).toNat + 0x1000 := by
  obtain ⟨hlo, -⟩ := hs
  obtain ⟨-, hpreg, -⟩ := Cpu.pushaq_spec (c := c) (by omega)
  have hrcx : (c.pushaq.set .r8 0x200#64).reg .rcx = c.reg .rcx :=
    hpreg .rcx (by decide)
  have hloop := (@Loop.doWhile_counted Cpu (fun c => c.reg .r8 != 0#64)
    clear_round
    (fun k d => (d.reg .rcx).toNat = (c.reg .rcx).toNat + 8 * k
      ∧ (d.reg .r8).toNat = 0x200 - k
      ∧ (0 < k → ∃ x ∈ d.log, x.size = 8
        ∧ x.addr.toNat + 8 = (c.reg .rcx).toNat + 8 * k))
    0x200 (by omega) ?_ ?_ ?_ 0x200 (c.pushaq.set .r8 0x200#64)
    (Nat.le_refl _) ⟨by rw [hrcx, Nat.mul_zero, Nat.add_zero], rfl,
      fun h => absurd h (Nat.lt_irrefl 0)⟩).2.2 (by omega)
  · obtain ⟨x, hx, hsize, hend⟩ := hloop
    exact ⟨x, Cpu.mem_log_popaq hx, hsize, hend⟩
  · intro k d hk ⟨hptr, hcnt, hlast⟩
    clear hlast
    refine ⟨?_, ?_, fun _ => ⟨⟨true, d.reg .rcx, 8⟩, List.mem_cons_self, rfl,
      ?_⟩⟩
    · show (d.reg .rcx + 0x8#64).toNat = _
      rw [toNat_add_lit (by omega), hptr]
      omega
    · show (d.reg .r8 - 1#64).toNat = _
      simp only [BitVec.toNat_sub, BitVec.toNat_ofNat]
      omega
    · show (d.reg .rcx).toNat + 8 = _
      omega
  · intro k d _ hk ⟨_, hcnt, hlast⟩
    clear hlast
    rw [bne_iff_ne]
    intro hz
    rw [hz] at hcnt
    simp only [BitVec.toNat_ofNat] at hcnt
    omega
  · intro d ⟨_, hcnt, _⟩
    have hz : d.reg .r8 = 0#64 := BitVec.eq_of_toNat_eq (by rw [hcnt]; rfl)
    rw [hz]
    rfl

/-- A table that does not fit is cleared through no translation. -/
theorem Held.goes_astray {b : Boot} {zf : Bool} (h : HandedOver K es s e)
    (hh : Held m b) (hb : Bounded b) (hfit : ¬ FitsIdentity b) :
    ¬ Through e (step L zf b) := by
  unfold FitsIdentity at hfit
  push Not at hfit
  obtain ⟨k, hpc, hout⟩ := hfit
  have hrcx := hb.2
  obtain ⟨x, hx, hsize, hend⟩ := page_cleared hh.core.stack (by omega)
  have hlog : x ∈ (step L zf b).cpu.log := by
    have hstep : step L zf b = approve_allocate k b := by
      unfold step
      rw [hpc]
      cases k <;> rfl
    rw [hstep]
    have happ : x ∈ (approve_allocate k b).cpu.log := by
      unfold approve_allocate
      exact List.mem_cons_of_mem _ hx
    exact happ
  intro hthrough
  have hlast := (translate_self_iff h _).1
    (hthrough x hlog 7 (by omega))
  rw [BitVec.toNat_add, BitVec.toNat_ofNat] at hlast
  omega

/-- Tables in the map are few. -/
theorem low_tables_few {b : Boot} (hh : Held m b) (hlow : b.abs.LowTables) :
    b.tables.length ≤ 255 := by
  have hlen : b.abs.tables.length = b.tables.length := List.length_map _
  have hup := hh.alloc.tables
  rcases pages_span b.abs.tables 0x101003 (fun x hx => (hup.page x hx).2.1)
    hup.rising with hnil | ⟨x, hx, hle⟩
  · rw [← hlen, hnil]
    exact Nat.zero_le _
  · have hend := hlow x hx
    split at hend
    · omega
    · omega

/-- The run of `start_here` on the tables handed over: its accesses go to
the addresses they name exactly as long as every table taken fits below
0x200000. Then there are at most 255 tables, and the run has not ended: the
Kernel is not reached. -/
theorem third_stage_stops (h : HandedOver K es s e) (hbegins : Begins e c)
    (hb : ∀ i < n, Bounded (bigRun L c z i)) :
    ((∀ i ≤ n, Through e (bigRun L c z i))
        ↔ ∀ i < n, FitsIdentity (bigRun L c z i))
      ∧ ((∀ i ≤ n, Through e (bigRun L c z i)) →
        (bigRun L c z n).tables.length ≤ 255
          ∧ (bigRun L c z n).pc ≠ .done) := by
  have hs := hbegins.stack
  have hfits : (∀ i ≤ n, Through e (bigRun L c z i)) →
      ∀ i < n, FitsIdentity (bigRun L c z i) := by
    intro hthrough i hi
    by_contra hfit
    exact Held.goes_astray h (run_held hs hb i (by omega)) (hb i hi) hfit
      (hthrough (i + 1) hi)
  refine ⟨⟨hfits, fun hfit i hi => ?_⟩, fun hthrough => ?_⟩
  · exact through_of_inIdentityMap h (run_in_map hs hb hfit i hi).1
  · have hheld := run_held hs hb n (Nat.le_refl n)
    have hlow := (run_in_map hs hb (hfits hthrough) n (Nat.le_refl n)).2
    exact ⟨low_tables_few hheld hlow, fun hdone =>
      done_overruns hheld hdone hlow⟩

theorem third_stage_stops_sample : ∃ e : Entered Unit,
    HandedOver SecondStage.secondLabels [SecondStage.lowRegion]
        SecondStage.secondMachine e
      ∧ ((∀ i ≤ 1, Through e
            (bigRun assembledLayout (enteredCpu e) (fun _ => false) i))
          ↔ ∀ i < 1, FitsIdentity
            (bigRun assembledLayout (enteredCpu e) (fun _ => false) i))
      ∧ ((∀ i ≤ 1, Through e
            (bigRun assembledLayout (enteredCpu e) (fun _ => false) i)) →
        (bigRun assembledLayout (enteredCpu e)
              (fun _ => false) 1).tables.length ≤ 255
          ∧ (bigRun assembledLayout (enteredCpu e)
              (fun _ => false) 1).pc ≠ .done) := by
  obtain ⟨e, hover⟩ := handed_over_sample
  exact ⟨e, hover, third_stage_stops hover (enteredCpu_begins e)
    (bounded_start _ _ _)⟩

end BootLoader.ThirdStage
