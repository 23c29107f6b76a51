/-
What `read_disk_sectors` reads, and where it puts it.

# The loop

A round asks for one sector, prints a dot and steps the sector number and
the buffer (`read_round`). The test at the bottom compares the number in
memory with DI as signed words, so how many rounds there are is a matter of
signs: as many as were asked for, or a single one when the range goes past
0x7FFF (`rounds_eq`).

# Memory

What the sectors leave is `laid`: fills of 512 bytes at consecutive
offsets of one segment. Up to 128 of them do not overlap on the ring, and
each is then there at the end (`laid_at`).

The requirements are gathered in `Room`: the program's data, its stack and
the buffer are clear of one another and of the BIOS's bytes.
-/
import Mathlib.Algebra.GroupWithZero.Nat
import BootLoader.FirstStage.Proofs.Geometry

namespace BootLoader.FirstStage

open FlatMemory Segment RealMode Pc

variable {ω : Type _} {B : Bios ω} {L : DiskLabels} {own : BitVec 64 → Prop}
  {depth fuel : Nat} {c d e : Pc ω} {m m' : Mem} {s o : BitVec 16}

-- ============================================================== the buffer

/-- Memory after `k` sectors, `data i` the bytes of the `i`-th. -/
def laid (data : Nat → Nat → BitVec 8) (m : Mem) (s o : BitVec 16) :
    Nat → Mem
  | 0 => m
  | k + 1 => fill (laid data m s o k) s (o + BitVec.ofNat 16 (512 * k)) 512
      (data k)

theorem laid_congr {data : Nat → Nat → BitVec 8} {b : BitVec 64}
    (h : m' b = m b) (k : Nat) :
    laid data m' s o k b = laid data m s o k b := by
  induction k with
  | zero => exact h
  | succ k ih => exact fill_congr _ ih

/-- The bytes the sectors do not reach. -/
theorem laid_out {data : Nat → Nat → BitVec 8} {b : BitVec 64} {k : Nat}
    (h : ∀ j < 512 * k, b ≠ linear s (o + BitVec.ofNat 16 j)) :
    laid data m s o k b = m b := by
  induction k with
  | zero => rfl
  | succ k ih =>
      refine (fill_out _ _ fun j hj heq => ?_).trans
        (ih fun j hj => h j (by omega))
      rw [BitVec.add_assoc, ← BitVec.ofNat_add] at heq
      exact h (512 * k + j) (by omega) heq

/-- Every byte of the first 128 sectors. -/
theorem laid_at {data : Nat → Nat → BitVec 8} {k i j : Nat} (hk : k ≤ 128)
    (hi : i < k) (hj : j < 512) :
    laid data m s o k (linear s (o + BitVec.ofNat 16 (512 * i + j)))
      = data i j := by
  induction k with
  | zero => omega
  | succ k ih =>
      have hadd : o + BitVec.ofNat 16 (512 * i + j)
          = o + BitVec.ofNat 16 (512 * i) + BitVec.ofNat 16 j := by
        rw [BitVec.add_assoc, ← BitVec.ofNat_add]
      rcases Nat.lt_or_ge i k with hlt | hge
      · -- written before: the last fill lies beyond it
        refine (fill_far _ _ _ _ _ ?_).trans (ih (by omega) hlt)
        simp only [BitVec.toNat_sub, BitVec.toNat_add, BitVec.toNat_ofNat]
        omega
      · obtain rfl : i = k := by omega
        rw [hadd]
        exact fill_at _ _ _ _ hj (by omega)

-- ============================================================= the requests

/-- What INT 13h, AH = 02h is asked: the sector and the drive, and where to
put it. -/
structure Request where
  cx : BitVec 16
  dh : BitVec 8
  dl : BitVec 8
  es : BitVec 16
  bx : BitVec 16
  deriving DecidableEq, Repr

/-- An `int` that asks for one sector. -/
def Call.request (x : Call) : Option Request :=
  if x.number = 0x13#8 ∧ x.reg .ax = 0x201#16 then
    some ⟨x.reg .cx, (x.reg .dx).extractLsb' 8 8, (x.reg .dx).extractLsb' 0 8,
      x.seg .es, x.reg .bx⟩
  else none

/-- The sectors asked for so far. -/
def requests (c : Pc ω) : List Request := c.issued.filterMap Call.request

theorem requests_int {n : BitVec 8} : requests (c.int B n) = requests c
    ++ (Call.request ⟨n, c.reg, c.high, c.seg⟩).toList := by
  unfold requests
  rw [int_issued, List.filterMap_append]
  rfl

/-- Printing asks for none. -/
theorem print_loop_requests : ∀ (fuel : Nat) (c d : Pc ω),
    print_loop B fuel c = .ok d → requests d = requests c := by
  intro fuel
  induction fuel with
  | zero =>
      intro c d h
      cases h
  | succ fuel ih =>
      intro c d h
      simp only [print_loop] at h
      split at h
      · cases h
        rfl
      · rw [ih _ d h, requests_int]
        exact List.append_nil _

theorem call_bios_print_requests {back : BitVec 16}
    (h : c.call back (bios_print B fuel) = .ok d) :
    requests d = requests c := by
  obtain ⟨hprint, -⟩ := call_inv h
  obtain ⟨e, hloop, hd⟩ := bind_inv hprint
  cases hd
  show requests e = requests c
  rw [print_loop_requests fuel _ e hloop]
  rfl

/-- Nor does the question for the geometry. -/
theorem load_boot_drive_params_requests
    (h : load_boot_drive_params B L c = .ok d) : requests d = requests c := by
  cases h
  show requests (Pc.int B 0x13#8 _) = _
  rw [requests_int]
  refine (congrArg (_ ++ Option.toList ·) (if_neg ?_)).trans
    (List.append_nil _)
  rintro ⟨-, hax⟩
  have hhigh := congrArg (BitVec.extractLsb' 8 8) hax
  simp only [setLow8, setHigh8, set_reg, reads_reg, if_true, reduceCtorEq,
    if_false, BitVec.extractLsb'_append_eq_left] at hhigh
  exact absurd hhigh (by decide)

-- =============================================================== the rounds

/-- How often the loop goes round for sector number `l` and `di` sectors:
its last test is the first to fail. -/
def rounds (l di : BitVec 16) : Nat :=
  if (l + 1#16).slt (di + l) then (di - 1#16).toNat + 1 else 1

theorem rounds_pos (l di : BitVec 16) : 0 < rounds l di := by
  unfold rounds
  split
  · exact Nat.succ_pos _
  · exact Nat.one_pos

theorem slt_iff (x y : BitVec 16) : x.slt y = true ↔
    (x.toNat + 32768) % 65536 < (y.toNat + 32768) % 65536 := by
  have hx := x.isLt
  have hy := y.isLt
  rw [BitVec.slt_eq_decide, decide_eq_true_iff, BitVec.toInt_eq_toNat_cond,
    BitVec.toInt_eq_toNat_cond]
  split <;> split <;> omega

/-- The test at the bottom of round `k`. -/
theorem rounds_go {l di : BitVec 16} {k : Nat} (hk : 0 < k)
    (hlt : k < rounds l di) :
    (l + BitVec.ofNat 16 k).slt (di + l) = true := by
  unfold rounds at hlt
  split at hlt
  · rename_i hgo
    rw [slt_iff] at hgo ⊢
    simp only [BitVec.toNat_sub, BitVec.toNat_add, BitVec.toNat_ofNat] at *
    omega
  · omega

theorem rounds_stop (l di : BitVec 16) :
    (l + BitVec.ofNat 16 (rounds l di)).slt (di + l) = false := by
  rw [← Bool.not_eq_true, slt_iff]
  unfold rounds
  split
  · rename_i hgo
    rw [slt_iff] at hgo
    simp only [BitVec.toNat_sub, BitVec.toNat_add, BitVec.toNat_ofNat] at *
    omega
  · rename_i hstop
    rw [slt_iff] at hstop
    exact hstop

/-- For `n` sectors that end within 16 bits: all of them, unless the range
goes past 0x7FFF, where the end is a negative number. -/
theorem rounds_eq {l : BitVec 16} {n : Nat} (hn : 1 ≤ n)
    (hend : l.toNat + n < 65536) : rounds l (BitVec.ofNat 16 n)
      = if l.toNat + 1 < 0x8000 ∧ 0x8000 ≤ l.toNat + n then 1 else n := by
  unfold rounds
  rw [if_congr (slt_iff _ _) rfl rfl]
  simp only [BitVec.toNat_sub, BitVec.toNat_add, BitVec.toNat_ofNat]
  split <;> split <;> omega

-- ============================================================== one round

/-- A sector read: AX may change, and the bytes are at ES:BX. -/
structure Filled (own : BitVec 64 → Prop) (depth : Nat)
    (data : Nat → BitVec 8) (c d : Pc ω) : Prop where
  carry : d.carry = false
  reg : ∀ r, r ≠ .ax → d.reg r = c.reg r
  seg : d.seg = c.seg
  mem : ∀ b, c.Fixed own depth b →
    d.mem b = fill c.mem (c.seg .es) (c.reg .bx) 512 data b

/-- A BIOS that reads every sector it is asked for. -/
def Serves (B : Bios ω) (own : BitVec 64 → Prop) (depth : Nat)
    (disk : BitVec 16 → BitVec 8 → BitVec 8 → Nat → BitVec 8) : Prop :=
  ∀ c : Pc ω, c.reg .ax = 0x201#16 → Filled own depth
    (disk (c.reg .cx) (c.high8 .dx) (c.low8 .dx)) c (B 0x13#8 c)

/-- The request for the `i`-th sector from `l` on. -/
def sectorRequest (l spt hpc : BitVec 16) (dl : BitVec 8) (es bx : BitVec 16)
    (i : Nat) : Request :=
  let n := (l + BitVec.ofNat 16 i).toNat
  ⟨BitVec.ofNat 16 (n / spt.toNat / hpc.toNat) <<< 8
      ||| BitVec.ofNat 16 (n % spt.toNat + 1),
    BitVec.ofNat 8 (n / spt.toNat % hpc.toNat), dl, es,
    bx + BitVec.ofNat 16 (512 * i)⟩

/-- The `i`-th sector asked for by a loop that starts in this state. -/
def request (L : DiskLabels) (c : Pc ω) : Nat → Request :=
  sectorRequest (c.word .ds L.lba_sector) (c.word .ds L.spt) (c.word .ds L.hpc)
    (c.low8 .dx) (c.seg .es) (c.reg .bx)

/-- The bytes of the sector a request names. -/
def Request.data (disk : BitVec 16 → BitVec 8 → BitVec 8 → Nat → BitVec 8)
    (r : Request) : Nat → BitVec 8 := disk r.cx r.dh r.dl

/-- Data, stack and the buffer of `n` sectors at `s:o` are clear of one
another and of the BIOS, and the dot is in its place. -/
structure Room (own : BitVec 64 → Prop) (L : DiskLabels) (ds ss p : BitVec 16)
    (k n : Nat) (s o : BitVec 16) (m : Mem) : Prop where
  placed : Placed own L ds ss p k
  dot : m (linear ds L.dot) = 0x2E#8 ∧ m (linear ds (L.dot + 1#16)) = 0#8
  buffer : ∀ j < 512 * n, ¬ own (linear s (o + BitVec.ofNat 16 j))
    ∧ ¬ Data L ds (linear s (o + BitVec.ofNat 16 j))
    ∧ ¬ Under ss p k (linear s (o + BitVec.ofNat 16 j))

/-- The state after `k` rounds. -/
structure Reading (disk : BitVec 16 → BitVec 8 → BitVec 8 → Nat → BitVec 8)
    (own : BitVec 64 → Prop) (L : DiskLabels) (depth : Nat) (c : Pc ω)
    (k : Nat) (d : Pc ω) : Prop where
  reg : ∀ r, r ≠ .ax → r ≠ .bx → r ≠ .cx → r ≠ .dx → r ≠ .si →
    d.reg r = c.reg r
  dl : d.low8 .dx = c.low8 .dx
  bx : d.reg .bx = c.reg .bx + BitVec.ofNat 16 (512 * k)
  seg : d.seg = c.seg
  lba : d.word .ds L.lba_sector = c.word .ds L.lba_sector + BitVec.ofNat 16 k
  spt : d.word .ds L.spt = c.word .ds L.spt
  hpc : d.word .ds L.hpc = c.word .ds L.hpc
  asked : requests d = requests c ++ (List.range k).map (request L c)
  mem : ∀ b, c.Fixed own (depth + 18) b → ¬ Cells L (c.seg .ds) b →
    d.mem b = laid (fun i => (request L c i).data disk) c.mem (c.seg .es)
      (c.reg .bx) k b

theorem Reading.start
    (disk : BitVec 16 → BitVec 8 → BitVec 8 → Nat → BitVec 8)
    (own : BitVec 64 → Prop) (L : DiskLabels) (depth : Nat) (c : Pc ω) :
    Reading disk own L depth c 0 c :=
  ⟨fun _ _ _ _ _ _ => rfl, rfl, (BitVec.add_zero _).symm, rfl,
    (BitVec.add_zero _).symm, rfl, rfl, (List.append_nil _).symm,
    fun _ _ _ => rfl⟩

/-- The bytes of the dot are not cells. -/
theorem dot_not_cell {k : Nat} (hk : k < 2) :
    ¬ Cells L s (linear s (L.dot + BitVec.ofNat 16 k)) := by
  rintro ⟨i, -, hi, heq⟩
  have hoff := linear_inj heq
  rw [DiskLabels.dot, BitVec.add_assoc] at hoff
  have hnat := congrArg (fun x => (x - L.boot_drive).toNat) hoff
  simp only [BitVec.toNat_sub, BitVec.toNat_add, BitVec.toNat_ofNat] at hnat
  omega

theorem dot_data {k : Nat} (hk : k < 2) :
    Data L s (linear s (L.dot + BitVec.ofNat 16 k)) := by
  refine ⟨134 + k, by omega, ?_⟩
  rw [DiskLabels.dot, BitVec.add_assoc, BitVec.ofNat_add]

/-- The data is as it was after any number of rounds, but for the cells. -/
theorem Reading.kept
    {disk : BitVec 16 → BitVec 8 → BitVec 8 → Nat → BitVec 8} {k n : Nat}
    (h : Reading disk own L depth c k d) (hk : k ≤ n)
    (hroom : Room own L (c.seg .ds) (c.seg .ss) (c.reg .sp) (depth + 18) n
      (c.seg .es) (c.reg .bx) c.mem) {b : BitVec 64}
    (hb : Data L (c.seg .ds) b) (hc : ¬ Cells L (c.seg .ds) b) :
    d.mem b = c.mem b := by
  rw [h.mem b (hroom.placed.fixed hb) hc]
  refine laid_out fun j hj heq => ?_
  exact (hroom.buffer j (by omega)).2.1 (heq ▸ hb)

/-- The middle of a round that starts in `d`: `x` asks for the sector, and
`y` has it. -/
structure Fetched (disk : BitVec 16 → BitVec 8 → BitVec 8 → Nat → BitVec 8)
    (own : BitVec 64 → Prop) (L : DiskLabels) (depth : Nat) (c : Pc ω)
    (k : Nat) (d x y : Pc ω) : Prop where
  addressed : Addressed L d x
  carry : y.carry = false
  reg : ∀ r, r ≠ .ax → y.reg r = x.reg r
  sp : y.reg .sp = c.reg .sp
  seg : x.seg = c.seg ∧ y.seg = c.seg
  asked : requests y = requests d ++ [request L c k]
  before : ∀ b, c.Fixed own (depth + 18) b → ¬ Cells L (c.seg .ds) b →
    x.mem b = laid (fun i => (request L c i).data disk) c.mem (c.seg .es)
      (c.reg .bx) k b
  mem : ∀ b, c.Fixed own (depth + 18) b →
    y.mem b = fill x.mem (c.seg .es) (c.reg .bx + BitVec.ofNat 16 (512 * k))
      512 ((request L c k).data disk) b

/-- The conversion and the service. -/
theorem sector_fetched
    {disk : BitVec 16 → BitVec 8 → BitVec 8 → Nat → BitVec 8} {k n : Nat}
    (hB : Serves B own depth disk)
    (hs : c.word .ds L.spt ≠ 0#16) (hh : c.word .ds L.hpc ≠ 0#16)
    (hroom : Room own L (c.seg .ds) (c.seg .ss) (c.reg .sp) (depth + 18) n
      (c.seg .es) (c.reg .bx) c.mem)
    (h : Reading disk own L depth c k d) :
    ∃ x, sector_address L d = .ok x
      ∧ Fetched disk own L depth c k d x (x.int B 0x13#8) := by
  have hsp : d.reg .sp = c.reg .sp :=
    h.reg .sp (by decide) (by decide) (by decide) (by decide) (by decide)
  have hds := congrFun h.seg .ds
  have hss := congrFun h.seg .ss
  have hplaced : Placed own L (d.seg .ds) (d.seg .ss) (d.reg .sp)
      (depth + 18) := by
    rw [hds, hss, hsp]
    exact hroom.placed
  obtain ⟨x, hx, hadd⟩ := sector_address_spec (h.spt ▸ hs) (h.hpc ▸ hh)
    (hplaced.mono (by omega)).off_cells
  have hxsp : x.reg .sp = c.reg .sp :=
    (hadd.reg .sp (by decide) (by decide) (by decide)).trans hsp
  have hxseg : x.seg = c.seg := hadd.seg.trans h.seg
  have hxbx : x.reg .bx = c.reg .bx + BitVec.ofNat 16 (512 * k) :=
    (hadd.reg .bx (by decide) (by decide) (by decide)).trans h.bx
  obtain ⟨y, hy⟩ : ∃ y, x.int B 0x13#8 = y := ⟨_, rfl⟩
  have hfill : Filled own depth
      (disk (x.reg .cx) (x.high8 .dx) (x.low8 .dx)) x y := by
    have hfill := hB x hadd.ax
    rw [← hy]
    exact ⟨hfill.carry, hfill.reg, hfill.seg, hfill.mem⟩
  have hreq : (Call.request ⟨0x13#8, x.reg, x.high, x.seg⟩)
      = some (request L c k) := by
    unfold Call.request request sectorRequest
    rw [if_pos ⟨rfl, hadd.ax⟩, ← h.lba, ← h.spt, ← h.hpc]
    simp only [hadd.cx, hadd.conv.cylinder, hadd.conv.sector]
    rw [← hadd.conv.head, ← hadd.dh, ← h.dl, ← hadd.dl, hxseg, hxbx]
    rfl
  have hdata : disk (x.reg .cx) (x.high8 .dx) (x.low8 .dx)
      = (request L c k).data disk := by
    have hreq' := hreq
    unfold Call.request at hreq'
    rw [if_pos ⟨rfl, hadd.ax⟩] at hreq'
    rw [← Option.some.inj hreq']
    rfl
  have hasked : requests y = requests x ++ [request L c k] := by
    rw [← hy, requests_int, hreq]
    rfl
  have hxasked : requests x = requests d :=
    congrArg (List.filterMap Call.request) hadd.issued
  rw [hxasked] at hasked
  rw [← hy] at hfill hasked
  refine ⟨x, hx, hadd, hfill.carry, hfill.reg,
    (hfill.reg .sp (by decide)).trans hxsp, ⟨hxseg, hfill.seg.trans hxseg⟩,
    hasked, fun b hb hc => ?_, fun b hb => ?_⟩
  · rw [hadd.mem b ⟨by rw [hds]; exact hc, ?_⟩]
    · exact h.mem b hb hc
    · rw [hss, hsp]
      exact fun hu => hb.2 (hu.mono (by omega))
  · rw [hfill.mem b ((hb.mono (by omega)).congr (congrFun hxseg .ss) hxsp),
      hdata, hxseg, hxbx]

/-- The sector does not go where the data is. -/
theorem Fetched.data
    {disk : BitVec 16 → BitVec 8 → BitVec 8 → Nat → BitVec 8} {k n : Nat}
    {x y : Pc ω} (hf : Fetched disk own L depth c k d x y) (hk : k < n)
    (hroom : Room own L (c.seg .ds) (c.seg .ss) (c.reg .sp) (depth + 18) n
      (c.seg .es) (c.reg .bx) c.mem) {b : BitVec 64}
    (hb : Data L (c.seg .ds) b) : y.mem b = x.mem b := by
  rw [hf.mem b (hroom.placed.fixed hb)]
  refine fill_out _ _ fun j hj heq => ?_
  rw [BitVec.add_assoc, ← BitVec.ofNat_add] at heq
  exact (hroom.buffer (512 * k + j) (by omega)).2.1 (heq ▸ hb)

/-- So the dot can be printed. -/
theorem Fetched.dot
    {disk : BitVec 16 → BitVec 8 → BitVec 8 → Nat → BitVec 8} {k n : Nat}
    {x y : Pc ω} (hf : Fetched disk own L depth c k d x y) (hk : k < n)
    (hroom : Room own L (c.seg .ds) (c.seg .ss) (c.reg .sp) (depth + 18) n
      (c.seg .es) (c.reg .bx) c.mem) (h : Reading disk own L depth c k d) :
    Lasting own (depth + 18) (y.set .si L.dot) L.dot ([0x2E#8] ++ [0#8]) := by
  obtain ⟨-, hyseg⟩ := hf.seg
  have hsp : d.reg .sp = c.reg .sp :=
    h.reg .sp (by decide) (by decide) (by decide) (by decide) (by decide)
  refine ⟨fun i hi => ?_, fun i hi => ?_⟩
  · have hi2 : i < 2 := hi
    have hdot : y.mem (linear (c.seg .ds) (L.dot + BitVec.ofNat 16 i))
        = c.mem (linear (c.seg .ds) (L.dot + BitVec.ofNat 16 i)) := by
      rw [hf.data hk hroom (dot_data hi2),
        ← h.kept (by omega) hroom (dot_data hi2) (dot_not_cell hi2)]
      refine hf.addressed.mem _ ⟨?_, ?_⟩
      · rw [h.seg]
        exact dot_not_cell hi2
      · rw [h.seg, hsp]
        exact fun hu => (hroom.placed.fixed (dot_data hi2)).2
          (hu.mono (by omega))
    show y.mem (linear (y.seg .ds) _) = _
    rw [hyseg, hdot]
    rcases Nat.lt_or_ge i 1 with h0 | h1
    · obtain rfl : i = 0 := by omega
      rw [BitVec.add_zero]
      exact hroom.dot.1
    · obtain rfl : i = 1 := by omega
      exact hroom.dot.2
  · have hfix := hroom.placed.fixed (c := c) (dot_data (L := L) hi)
    refine Fixed.congr ?_ (congrFun hyseg .ss) hf.sp
    show c.Fixed own (depth + 18) (linear (y.seg .ds) _)
    rw [hyseg]
    exact hfix

/-- One sector more. The stack is seen from the loop: `depth + 18` bytes
below SP. -/
theorem read_round
    {disk : BitVec 16 → BitVec 8 → BitVec 8 → Nat → BitVec 8} {k n : Nat}
    (hB : Serves B own depth disk) (hT : Teletype B own depth)
    (hs : c.word .ds L.spt ≠ 0#16) (hh : c.word .ds L.hpc ≠ 0#16)
    (hfuel : 1 < fuel) (hdepth : depth + 18 ≤ 65536)
    (hroom : Room own L (c.seg .ds) (c.seg .ss) (c.reg .sp) (depth + 18) n
      (c.seg .es) (c.reg .bx) c.mem)
    (hk : k < n) (h : Reading disk own L depth c k d) :
    ∃ e, read_sector_round B L fuel d = .ok e
      ∧ Reading disk own L depth c (k + 1) e := by
  obtain ⟨x, hx, hf'⟩ := sector_fetched hB hs hh hroom h
  have hadd := hf'.addressed
  obtain ⟨y, hy⟩ : ∃ y, x.int B 0x13#8 = y := ⟨_, rfl⟩
  have hf : Fetched disk own L depth c k d x y := hy ▸ hf'
  obtain ⟨hxseg, hyseg⟩ := hf.seg
  obtain ⟨z, hz, hsteady, hprinted⟩ := call_bios_print (c := y.set .si L.dot)
    hT (L.back .dot) hfuel (by decide) (hf.dot hk hroom h)
    (by
      show Off own (y.seg .ss) (y.reg .sp) 18
      rw [hyseg, hf.sp]
      exact fun b hu hb => hroom.placed.stack b (hu.mono (by omega))
        (Or.inl hb))
    hdepth
  have hzseg : z.seg = c.seg := hprinted.seg.trans hyseg
  have hzmem : ∀ b, c.Fixed own (depth + 18) b → z.mem b = y.mem b :=
    fun b hb => hsteady.mem b (hb.congr (congrFun hyseg .ss) hf.sp)
  have hzreg : ∀ r, r ≠ .ax → r ≠ .si → z.reg r = x.reg r := by
    intro r hax hsi
    rw [hsteady.reg]
    exact (if_neg hsi).trans (hf.reg r hax)
  have hzword : ∀ i, 1 ≤ i → i + 2 ≤ 12 →
      z.word .ds (L.boot_drive + BitVec.ofNat 16 i)
        = x.word .ds (L.boot_drive + BitVec.ofNat 16 i) := by
    intro i hi hi'
    unfold word
    rw [hzseg, hxseg]
    refine cell_congr (n := 2) hi hi' fun b hb => ?_
    rw [hzmem b (hroom.placed.fixed hb.data), hf.data hk hroom hb.data]
  obtain ⟨w, hw⟩ : ∃ w, (((z.reads .ds L.lba_sector 2).put16 .ds L.lba_sector
      (z.word .ds L.lba_sector + 1#16)).set .bx (z.reg .bx + 0x200#16)) = w :=
    ⟨_, rfl⟩
  have hrun : read_sector_round B L fuel d = .ok w := by
    unfold read_sector_round
    rw [hx]
    show (if (x.int B 0x13#8).carry = true then _ else _) = _
    rw [hy, hf.carry, if_neg (by decide)]
    show (Pc.call _ _ (y.set .si L.dot) >>= _) = _
    rw [hz, ← hw]
    rfl
  have hwmem : w.mem = store z.mem (c.seg .ds) L.lba_sector 2
      (z.word .ds L.lba_sector + 1#16) := by
    rw [← hzseg, ← hw]
    rfl
  have hwseg : w.seg = c.seg := by
    rw [← hzseg, ← hw]
    rfl
  have hwreg : ∀ r, r ≠ .bx → w.reg r = z.reg r := by
    intro r hr
    rw [← hw]
    exact if_neg hr
  have hwfar : ∀ i, 3 ≤ i → i + 2 ≤ 12 →
      w.word .ds (L.boot_drive + BitVec.ofNat 16 i)
        = x.word .ds (L.boot_drive + BitVec.ofNat 16 i) := by
    intro i hi hi'
    rw [← hzword i (by omega) hi']
    unfold word
    rw [hwmem, hwseg, hzseg, DiskLabels.lba_sector,
      cell_store_far (n := 2) _ _ (by omega) (by omega) (by omega) (by omega)]
  refine ⟨w, hrun, ?_, ?_, ?_, hwseg, ?_, ?_, ?_, ?_, ?_⟩
  · intro r hax hbx hcx hdx hsi
    rw [hwreg r hbx, hzreg r hax hsi, hadd.reg r hax hcx hdx]
    exact h.reg r hax hbx hcx hdx hsi
  · rw [← h.dl, ← hadd.dl]
    unfold low8
    rw [hwreg .dx (by decide), hzreg .dx (by decide) (by decide)]
  · have hbx : w.reg .bx = z.reg .bx + 0x200#16 := by
      rw [← hw]
      rfl
    rw [hbx, hzreg .bx (by decide) (by decide),
      hadd.reg .bx (by decide) (by decide) (by decide), h.bx, BitVec.add_assoc,
      Nat.mul_add, BitVec.ofNat_add]
  · have hlba : w.word .ds L.lba_sector = z.word .ds L.lba_sector + 1#16 := by
      unfold word
      rw [hwmem, hwseg]
      exact load_store_self (n := 2) _ _ _ _ (by omega)
    rw [hlba, show z.word .ds L.lba_sector = x.word .ds L.lba_sector from
      hzword 1 (by omega) (by omega), hadd.conv.lba, h.lba, BitVec.add_assoc,
      ← BitVec.ofNat_add]
  · exact (hwfar 3 (by omega) (by omega)).trans (hadd.conv.spt.trans h.spt)
  · exact (hwfar 5 (by omega) (by omega)).trans (hadd.conv.hpc.trans h.hpc)
  · have hwz : requests w = requests z := by
      rw [← hw]
      rfl
    rw [hwz, call_bios_print_requests hz]
    show requests y = _
    rw [hf.asked, h.asked, List.append_assoc, List.range_succ,
      List.map_append]
    rfl
  · intro b hb hc
    rw [hwmem, DiskLabels.lba_sector,
      cell_store_out (i := 1) (n := 2) _ (by omega) (by omega) hc,
      hzmem b hb, hf.mem b hb]
    exact fill_congr _ (hf.before b hb hc)

-- ========================================================= the whole routine

/-- Where the sectors go: the segment from its word, the offset added to
whatever BX holds. -/
def loadSegment (L : DiskLabels) (c : Pc ω) : BitVec 16 :=
  c.word .ds L.disk_read_segment

def loadOffset (L : DiskLabels) (c : Pc ω) : BitVec 16 :=
  c.reg .bx + c.word .ds L.disk_read_offset

/-- How many are read. -/
def sectorCount (L : DiskLabels) (c : Pc ω) : Nat :=
  rounds (c.word .ds L.lba_sector) (c.reg .di)

/-- The requests a call of `read_disk_sectors` makes. -/
def loadRequest (L : DiskLabels) (c : Pc ω) : Nat → Request :=
  sectorRequest (c.word .ds L.lba_sector) (c.word .ds L.spt) (c.word .ds L.hpc)
    (c.byte .ds L.boot_drive) (loadSegment L c) (loadOffset L c)

/-- The bytes a call of `read_disk_sectors` may change. -/
def ownRead (own : BitVec 64 → Prop) (L : DiskLabels) (c : Pc ω)
    (b : BitVec 64) : Prop :=
  ownDisk own L (c.seg .ds) b ∨ ∃ j < 512 * sectorCount L c,
    b = linear (loadSegment L c) (loadOffset L c + BitVec.ofNat 16 j)

/-- What a call that reads its sectors leaves. -/
structure ReadOk
    (disk : BitVec 16 → BitVec 8 → BitVec 8 → Nat → BitVec 8)
    (own : BitVec 64 → Prop) (L : DiskLabels) (depth : Nat) (c d : Pc ω) :
    Prop where
  returns : c.Returns (ownRead own L c) (depth + 34) d
  ds : d.seg .ds = c.seg .ds
  lba : d.word .ds L.lba_sector
    = c.word .ds L.lba_sector + BitVec.ofNat 16 (sectorCount L c)
  spt : d.word .ds L.spt = c.word .ds L.spt
  hpc : d.word .ds L.hpc = c.word .ds L.hpc
  asked : requests d
    = requests c ++ (List.range (sectorCount L c)).map (loadRequest L c)
  mem : ∀ b, c.Fixed own (depth + 34) b → ¬ Cells L (c.seg .ds) b →
    d.mem b = laid (fun i => (loadRequest L c i).data disk) c.mem
      (loadSegment L c) (loadOffset L c) (sectorCount L c) b

/-- A call's room, seen from the routine's first instruction. -/
def RoomAt (own : BitVec 64 → Prop) (L : DiskLabels) (depth : Nat)
    (c : Pc ω) : Prop :=
  Room own L (c.seg .ds) (c.seg .ss) (c.reg .sp + 2#16) (depth + 36)
    (sectorCount L c) (loadSegment L c) (loadOffset L c) c.mem

/-- The loop, from a state with room for its sectors. -/
theorem read_sector_loop_spec
    {disk : BitVec 16 → BitVec 8 → BitVec 8 → Nat → BitVec 8}
    (hB : Serves B own depth disk) (hT : Teletype B own depth)
    (hs : c.word .ds L.spt ≠ 0#16) (hh : c.word .ds L.hpc ≠ 0#16)
    (hfuel : 1 < fuel) (hdepth : depth + 18 ≤ 65536) (di : BitVec 16)
    (hdi : c.reg .di = di + c.word .ds L.lba_sector)
    (hroom : Room own L (c.seg .ds) (c.seg .ss) (c.reg .sp) (depth + 18)
      (rounds (c.word .ds L.lba_sector) di) (c.seg .es) (c.reg .bx) c.mem)
    {bound : Nat} (hbound : rounds (c.word .ds L.lba_sector) di ≤ bound) :
    ∃ d, read_sector_loop B L fuel bound c = .ok d
      ∧ Reading disk own L depth c (rounds (c.word .ds L.lba_sector) di) d := by
  have hend : ∀ (k : Nat) (d : Pc ω), Reading disk own L depth c k d →
      more_sectors L d = (c.word .ds L.lba_sector + BitVec.ofNat 16 k).slt
        (di + c.word .ds L.lba_sector) := by
    intro k d h
    unfold more_sectors
    rw [h.lba, ← hdi, h.reg .di (by decide) (by decide) (by decide) (by decide)
      (by decide)]
  refine Loop.attempt_counted (Reading disk own L depth c)
    (rounds_pos (c.word .ds L.lba_sector) di) ?_ ?_ ?_ hbound
    (Reading.start disk own L depth c)
  · exact fun k d hk h => read_round hB hT hs hh hfuel hdepth hroom hk h
  · intro k d hpos hk h
    rw [hend k d h]
    exact rounds_go hpos hk
  · intro d h
    rw [hend _ d h]
    exact rounds_stop _ _

/-- The machine at the top of the loop. -/
theorem read_disk_setup_spec (hroom : RoomAt own L depth c) :
    let a := read_disk_setup L c
    a.reg .sp = c.reg .sp - 16#16
      ∧ a.seg .ds = c.seg .ds ∧ a.seg .ss = c.seg .ss
      ∧ a.seg .es = loadSegment L c ∧ a.reg .bx = loadOffset L c
      ∧ a.reg .di = c.reg .di + c.word .ds L.lba_sector
      ∧ a.low8 .dx = c.byte .ds L.boot_drive ∧ a.mem = c.pusha.mem
      ∧ requests a = requests c
      ∧ ∀ b, Data L (c.seg .ds) b → c.pusha.mem b = c.mem b := by
  have hdata : ∀ b, Data L (c.seg .ds) b → c.pusha.mem b = c.mem b := by
    intro b hb
    refine c.pusha_mem fun hu => hroom.placed.stack b ?_ (Or.inr hb)
    exact (hu.of_add (j := 2)).mono (by omega)
  have hword : ∀ i, i + 2 ≤ 143 → c.pusha.word .ds
      (L.boot_drive + BitVec.ofNat 16 i)
        = c.word .ds (L.boot_drive + BitVec.ofNat 16 i) := by
    intro i hi
    refine load_congr fun k hk => hdata _ ⟨i + k, by omega, ?_⟩
    rw [BitVec.add_assoc, ← BitVec.ofNat_add]
    rfl
  intro a
  refine ⟨c.pusha_sp, rfl, rfl, hword 139 (by omega), ?_, ?_, ?_, rfl, rfl,
    hdata⟩
  · show c.pusha.reg .bx + c.pusha.word .ds L.disk_read_offset = _
    rw [c.pusha_reg (by decide), show c.pusha.word .ds L.disk_read_offset
      = c.word .ds L.disk_read_offset from hword 141 (by omega)]
    rfl
  · show c.pusha.reg .di + c.pusha.word .ds L.lba_sector = _
    rw [c.pusha_reg (by decide), show c.pusha.word .ds L.lba_sector
      = c.word .ds L.lba_sector from hword 1 (by omega)]
  · refine BitVec.extractLsb'_append_eq_right.trans ?_
    refine hdata _ ⟨0, by omega, ?_⟩
    rw [BitVec.add_zero]
    rfl

/-- `read_disk_sectors` for a BIOS that serves every sector. -/
theorem read_disk_sectors_spec
    {disk : BitVec 16 → BitVec 8 → BitVec 8 → Nat → BitVec 8}
    (hB : Serves B own depth disk) (hT : Teletype B own depth)
    (hs : c.word .ds L.spt ≠ 0#16) (hh : c.word .ds L.hpc ≠ 0#16)
    (hfuel : 1 < fuel) (hdepth : depth + 36 ≤ 65536)
    (hroom : RoomAt own L depth c) {bound : Nat}
    (hbound : sectorCount L c ≤ bound) :
    ∃ d, read_disk_sectors B L fuel bound c = .ok d
      ∧ ReadOk disk own L depth c d := by
  obtain ⟨hsp, hds, hss, hes, hbx, hdi, hdl, hmem, hreq, hdata⟩ :=
    read_disk_setup_spec hroom
  generalize ha : read_disk_setup L c = a at *
  have hback : c.reg .sp - 16#16 = c.reg .sp + 2#16 - BitVec.ofNat 16 18 := by
    apply BitVec.eq_of_toNat_eq
    simp only [BitVec.toNat_sub, BitVec.toNat_add, BitVec.toNat_ofNat]
    omega
  have hword : ∀ i, i + 2 ≤ 143 → a.word .ds (L.boot_drive + BitVec.ofNat 16 i)
      = c.word .ds (L.boot_drive + BitVec.ofNat 16 i) := by
    intro i hi
    unfold word
    rw [hds, hmem]
    refine load_congr fun k hk => hdata _ ⟨i + k, by omega, ?_⟩
    rw [BitVec.add_assoc, ← BitVec.ofNat_add]
  have hlba : a.word .ds L.lba_sector = c.word .ds L.lba_sector :=
    hword 1 (by omega)
  have hspt : a.word .ds L.spt = c.word .ds L.spt := hword 3 (by omega)
  have hhpc : a.word .ds L.hpc = c.word .ds L.hpc := hword 5 (by omega)
  have hrequest : request L a = loadRequest L c := by
    unfold request loadRequest
    rw [hlba, hspt, hhpc, hdl, hes, hbx]
  have hin : Room own L (a.seg .ds) (a.seg .ss) (a.reg .sp) (depth + 18)
      (rounds (a.word .ds L.lba_sector) (c.reg .di)) (a.seg .es) (a.reg .bx)
      a.mem := by
    rw [hds, hss, hsp, hes, hbx, hmem, hlba, hback]
    refine ⟨hroom.placed.below (j := 18), ?_, fun j hj => ?_⟩
    · have hdot : ∀ k, k < 2 →
          c.pusha.mem (linear (c.seg .ds) (L.dot + BitVec.ofNat 16 k))
            = c.mem (linear (c.seg .ds) (L.dot + BitVec.ofNat 16 k)) :=
        fun k hk => hdata _ (dot_data hk)
      have h0 := hdot 0 (by omega)
      rw [BitVec.add_zero] at h0
      exact ⟨h0.trans hroom.dot.1, (hdot 1 (by omega)).trans hroom.dot.2⟩
    · obtain ⟨h1, h2, h3⟩ := hroom.buffer j hj
      exact ⟨h1, h2, fun hu => h3 hu.of_sub⟩
  have hcount : rounds (a.word .ds L.lba_sector) (c.reg .di)
      = sectorCount L c := congrArg (rounds · _) hlba
  obtain ⟨d, hd, h⟩ := read_sector_loop_spec hB hT (hspt ▸ hs) (hhpc ▸ hh)
    hfuel (by omega) (c.reg .di) (by rw [hdi, hlba]) hin (hcount ▸ hbound)
  rw [hcount] at h
  have hdseg : d.seg .ds = c.seg .ds := (congrFun h.seg .ds).trans hds
  have hdss : d.seg .ss = c.seg .ss := (congrFun h.seg .ss).trans hss
  have hdsp : d.reg .sp = c.reg .sp - 16#16 :=
    (h.reg .sp (by decide) (by decide) (by decide) (by decide)
      (by decide)).trans hsp
  have hword' : ∀ o, d.popa.ret.word .ds o = d.word .ds o := fun _ => rfl
  -- bytes that stay, and bytes under the loop's stack
  have hfix : ∀ {n : Nat} {b : BitVec 64}, c.pusha.Fixed own n b →
      a.Fixed own n b := fun hb => hb.congr hss (hsp.trans c.pusha_sp.symm)
  have hlaid : ∀ b, a.Fixed own (depth + 18) b → ¬ Cells L (c.seg .ds) b →
      d.mem b = laid (fun i => (loadRequest L c i).data disk) c.pusha.mem
        (loadSegment L c) (loadOffset L c) (sectorCount L c) b := by
    intro b hb hc
    rw [h.mem b hb (by rw [hds]; exact hc), hrequest, hes, hbx, hmem]
  refine ⟨d.popa.ret, ?_, ?_, hdseg, ?_, ?_, ?_, ?_, ?_⟩
  · unfold read_disk_sectors
    rw [ha, hd]
    rfl
  · refine leave_returns hdss hdsp (fun b hb => ?_) (fun b hu hb => ?_)
      (by omega)
    · rw [hlaid b (hfix ⟨fun ho => hb.1 (Or.inl (Or.inl ho)), hb.2⟩)
        fun hc => hb.1 (Or.inl (Or.inr hc))]
      exact laid_out fun j hj heq => hb.1 (Or.inr ⟨j, hj, heq⟩)
    · have hu' : Under (c.seg .ss) (c.reg .sp + 2#16) (depth + 36) b :=
        hu.mono (by omega)
      rcases hb with (ho | hc) | ⟨j, hj, rfl⟩
      · exact hroom.placed.stack b hu' (Or.inl ho)
      · exact hroom.placed.stack b hu' (Or.inr hc.data)
      · exact (hroom.buffer j hj).2.2 hu'
  · rw [hword', h.lba, hlba]
  · rw [hword', h.spt, hspt]
  · rw [hword', h.hpc, hhpc]
  · show requests d = _
    rw [h.asked, hreq, hrequest]
  · intro b hb hc
    have hin : a.Fixed own (depth + 18) b := by
      refine hfix ⟨hb.1, fun hu => hb.2 ?_⟩
      rw [pusha_sp] at hu
      exact hu.of_sub (j := 16)
    show d.mem b = _
    rw [hlaid b hin hc]
    exact laid_congr (c.pusha_mem fun hu => hb.2 (hu.mono (by omega))) _

-- ============================================================ calls in a row

/-- The sector a request names, on a drive of geometry `g`. -/
def Request.sector (g : Geometry) (r : Request) : Nat :=
  g.number (chsOf r.cx r.dh)

/-- A disk by its sector numbers, as INT 13h finds them. -/
def diskOf (g : Geometry) (drive : BitVec 8 → Nat → Nat → BitVec 8)
    (cx : BitVec 16) (dh dl : BitVec 8) : Nat → BitVec 8 :=
  drive dl (g.number (chsOf cx dh))

/-- The range from sector `l` on goes past 0x7FFF before it ends. -/
def Crosses (l n : Nat) : Prop := l + 1 < 0x8000 ∧ 0x8000 ≤ l + n

instance (l n : Nat) : Decidable (Crosses l n) := instDecidableAnd

/-- The sectors a call for `n` of them reads: one only, if they cross. -/
def readFrom (l n : Nat) : Nat := if Crosses l n then 1 else n

/-- The next sector after calls for `ns` sectors. -/
def nextAfter : Nat → List Nat → Nat
  | l, [] => l
  | l, n :: ns => nextAfter (l + readFrom l n) ns

theorem readFrom_le {l n : Nat} (hn : 1 ≤ n) : readFrom l n ≤ n := by
  unfold readFrom
  split
  · exact hn
  · exact Nat.le_refl n

theorem le_nextAfter (l : Nat) (ns : List Nat) : l ≤ nextAfter l ns := by
  induction ns generalizing l with
  | nil => exact Nat.le_refl l
  | cons n ns ih => exact Nat.le_trans (Nat.le_add_right _ _) (ih _)

/-- A call for `n` sectors that the 16 bits of the sector number and the
eight bits of the cylinder have room for. -/
structure Ready (g : Geometry) (own : BitVec 64 → Prop) (L : DiskLabels)
    (depth bound n : Nat) (c : Pc ω) : Prop where
  di : c.reg .di = BitVec.ofNat 16 n
  pos : 1 ≤ n
  fits : (c.word .ds L.lba_sector).toNat + n < 65536
  low : (g.address ((c.word .ds L.lba_sector).toNat + n - 1)).cylinder < 256
  drive : Drive g L c
  room : RoomAt own L depth c
  bound : sectorCount L c ≤ bound

theorem Ready.count {g : Geometry} {bound n : Nat}
    (h : Ready g own L depth bound n c) : sectorCount L c
      = readFrom (c.word .ds L.lba_sector).toNat n := by
  unfold sectorCount readFrom
  rw [h.di, rounds_eq h.pos h.fits]
  rfl

/-- A sector is named by its number, where the registers hold its
address. -/
theorem request_sector {g : Geometry} {l spt hpc es bx : BitVec 16}
    {dl : BitVec 8} {i n : Nat} (hn : (l + BitVec.ofNat 16 i).toNat = n)
    (hsec : n % spt.toNat + 1 < 64)
    (haddr : Geometry.Address.mk (n / spt.toNat / hpc.toNat % 256)
      (n / spt.toNat % hpc.toNat % 2 ^ 8) (n % spt.toNat + 1) = g.address n) :
    (sectorRequest l spt hpc dl es bx i).sector g = n := by
  unfold Request.sector sectorRequest
  simp only [hn]
  rw [chsOf_shifted _ hsec, BitVec.toNat_ofNat, haddr]
  exact g.number_address n

/-- The registers hold it when the cells are right and the cylinder has
eight bits. -/
theorem address_of_cells {g : Geometry} {n : Nat} (hh : g.heads ≤ 256)
    (hlow : (g.address n).cylinder < 256) :
    Geometry.Address.mk (n / g.sectors / g.heads % 256)
      (n / g.sectors % g.heads % 2 ^ 8) (n % g.sectors + 1) = g.address n := by
  have hhead := Nat.mod_lt (n / g.sectors) g.heads_pos
  show _ = Geometry.Address.mk _ _ _
  rw [Geometry.Address.mk.injEq]
  exact ⟨Nat.mod_eq_of_lt hlow, Nat.mod_eq_of_lt (Nat.lt_of_lt_of_le hhead hh),
    rfl⟩

theorem cylinder_mono (g : Geometry) {m n : Nat} (h : m ≤ n) :
    (g.address m).cylinder ≤ (g.address n).cylinder :=
  Nat.div_le_div_right (Nat.div_le_div_right h)

theorem Ready.sector {g : Geometry} {bound n i : Nat}
    (h : Ready g own L depth bound n c) (hi : i < sectorCount L c) :
    (loadRequest L c i).sector g = (c.word .ds L.lba_sector).toNat + i := by
  have hle := readFrom_le (l := (c.word .ds L.lba_sector).toNat) h.pos
  rw [h.count] at hi
  have hfits := h.fits
  have hlow := Nat.lt_of_le_of_lt (cylinder_mono g (m := (c.word .ds
    L.lba_sector).toNat + i) (by omega)) h.low
  have hmod := Nat.mod_lt ((c.word .ds L.lba_sector).toNat + i) g.sectors_pos
  have hsec := h.drive.sectors
  refine request_sector ?_ ?_ ?_
  · rw [BitVec.toNat_add, BitVec.toNat_ofNat]
    omega
  · rw [h.drive.spt]
    omega
  · rw [h.drive.spt, h.drive.hpc]
    exact address_of_cells h.drive.heads hlow

/-- What such a call does: it reads the next sectors in order, and they lie
one after the other from the load address on. -/
structure LoadsNext (g : Geometry)
    (drive : BitVec 8 → Nat → Nat → BitVec 8) (own : BitVec 64 → Prop)
    (L : DiskLabels) (depth n : Nat) (c d : Pc ω) : Prop where
  returns : c.Returns (ownRead own L c) (depth + 34) d
  sectors : (requests d).map (Request.sector g)
    = (requests c).map (Request.sector g)
      ++ List.range' (c.word .ds L.lba_sector).toNat
        (readFrom (c.word .ds L.lba_sector).toNat n)
  lba : (d.word .ds L.lba_sector).toNat = (c.word .ds L.lba_sector).toNat
    + readFrom (c.word .ds L.lba_sector).toNat n
  placed : n ≤ 128 → ∀ i < readFrom (c.word .ds L.lba_sector).toNat n,
    ∀ j < 512, d.mem (linear (loadSegment L c)
      (loadOffset L c + BitVec.ofNat 16 (512 * i + j)))
        = drive (c.byte .ds L.boot_drive)
          ((c.word .ds L.lba_sector).toNat + i) j

/-- A call whose requests name the sectors they are for. -/
theorem ReadOk.loads {g : Geometry} {drive : BitVec 8 → Nat → Nat → BitVec 8}
    {n : Nat} (hok : ReadOk (diskOf g drive) own L depth c d)
    (hroom : RoomAt own L depth c) (hn : 1 ≤ n)
    (hfits : (c.word .ds L.lba_sector).toNat + n < 65536)
    (hcount : sectorCount L c = readFrom (c.word .ds L.lba_sector).toNat n)
    (hname : ∀ i < sectorCount L c,
      (loadRequest L c i).sector g = (c.word .ds L.lba_sector).toNat + i) :
    LoadsNext g drive own L depth n c d := by
  have hle := readFrom_le (l := (c.word .ds L.lba_sector).toNat) hn
  refine ⟨hok.returns, ?_, ?_, fun hn i hi j hj => ?_⟩
  · rw [hok.asked, List.map_append, List.map_map, ← hcount]
    congr 1
    rw [List.range'_eq_map_range]
    refine List.map_congr_left fun i hi => ?_
    exact hname i (List.mem_range.1 hi)
  · rw [hok.lba, hcount, BitVec.toNat_add, BitVec.toNat_ofNat]
    omega
  · rw [← hcount] at hi
    have hcount' : sectorCount L c ≤ 128 := by
      rw [hcount]
      omega
    obtain ⟨hown, hdata, hunder⟩ := hroom.buffer (512 * i + j) (by omega)
    rw [hok.mem _ ⟨hown, fun hu => hunder (hu.of_add (j := 2))⟩
      fun hc => hdata hc.data, laid_at hcount' hi hj]
    show drive _ ((loadRequest L c i).sector g) j = _
    rw [hname i hi]
    rfl

theorem Ready.loads {g : Geometry} {drive : BitVec 8 → Nat → Nat → BitVec 8}
    {bound n : Nat} (hB : Serves B own depth (diskOf g drive))
    (hT : Teletype B own depth) (hfuel : 1 < fuel) (hdepth : depth + 36 ≤ 65536)
    (h : Ready g own L depth bound n c) :
    ∃ d, read_disk_sectors B L fuel bound c = .ok d
      ∧ LoadsNext g drive own L depth n c d := by
  obtain ⟨d, hd, hok⟩ := read_disk_sectors_spec hB hT h.drive.spt_ne
    h.drive.hpc_ne hfuel hdepth h.room h.bound
  exact ⟨d, hd, hok.loads h.room h.pos h.fits h.count fun _ hi => h.sector hi⟩

/-- Calls one after another. Between two of them the code may do anything
but ask for a sector or touch the number of the next. -/
inductive ReadRun (B : Bios ω) (g : Geometry) (own : BitVec 64 → Prop)
    (L : DiskLabels) (depth fuel bound : Nat) : Pc ω → List Nat → Pc ω → Prop
  | done (c : Pc ω) : ReadRun B g own L depth fuel bound c [] c
  | call {c d e f : Pc ω} {n : Nat} {ns : List Nat}
      (ready : Ready g own L depth bound n c)
      (returned : read_disk_sectors B L fuel bound c = .ok d)
      (asks : requests e = requests d)
      (lba : e.word .ds L.lba_sector = d.word .ds L.lba_sector)
      (rest : ReadRun B g own L depth fuel bound e ns f) :
      ReadRun B g own L depth fuel bound c (n :: ns) f

/-- The sectors of a run. -/
theorem ReadRun.sectors {g : Geometry}
    {drive : BitVec 8 → Nat → Nat → BitVec 8} {bound : Nat} {ns : List Nat}
    (hB : Serves B own depth (diskOf g drive)) (hT : Teletype B own depth)
    (hfuel : 1 < fuel) (hdepth : depth + 36 ≤ 65536)
    (h : ReadRun B g own L depth fuel bound c ns d) :
    let l := (c.word .ds L.lba_sector).toNat
    (requests d).map (Request.sector g) = (requests c).map (Request.sector g)
        ++ List.range' l (nextAfter l ns - l)
      ∧ (d.word .ds L.lba_sector).toNat = nextAfter l ns
      ∧ ∀ n ∈ ns, 1 ≤ n := by
  induction h with
  | done c =>
      refine ⟨?_, rfl, fun n hn => absurd hn List.not_mem_nil⟩
      rw [nextAfter, Nat.sub_self]
      exact (List.append_nil _).symm
  | @call c d e f n ns ready returned asks lba rest ih =>
      obtain ⟨d', hd', hload⟩ := ready.loads hB hT hfuel hdepth
      rw [returned] at hd'
      cases hd'
      obtain ⟨hsec, hlba, hpos⟩ := ih
      have hl : (e.word .ds L.lba_sector).toNat
          = (c.word .ds L.lba_sector).toNat
            + readFrom (c.word .ds L.lba_sector).toNat n := by
        rw [lba, hload.lba]
      have hcall := hload.sectors
      rw [hl] at hsec hlba
      generalize (c.word .ds L.lba_sector).toNat = l at *
      have hle := le_nextAfter (l + readFrom l n) ns
      refine ⟨?_, hlba, ?_⟩
      · show _ = _ ++ List.range' l (nextAfter (l + readFrom l n) ns - l)
        rw [hsec, asks, hcall, List.append_assoc, List.range'_append_1]
        congr 2
        omega
      · intro m hm
        rcases List.mem_cons.1 hm with rfl | hm
        · exact ready.pos
        · exact hpos m hm

end BootLoader.FirstStage
